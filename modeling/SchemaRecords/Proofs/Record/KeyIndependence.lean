import SchemaRecords.Proofs.ClassFile.Relocation
import SchemaRecords.Proofs.Record.Reflection

/-!
# Keys leave the rest of the class alone

Whether keys are kept decides on annotations, and through them on which constants
are in the pool and where. Nothing else in the class depends on it: two class files
of one record type that differ in this setting only show the same class
(`Image.Resembles`), with the same members, the same call sites, and the same
procedure for each method (`Artifact.resembles_of_keepKeys`).

Whatever a layout's operations are made from, they are not made from the settings
(`Layout.methods_match`), so the methods match and have the same procedures.
-/

namespace SchemaRecords.ClassFile

/-- The images show the same class, but for annotations and for where constants stand. -/
structure Image.Resembles (c d : Image) : Prop where
  version : c.major = d.major ∧ c.minor = d.minor
  access : c.access = d.access
  name : c.name = d.name
  superName : c.superName = d.superName
  interfaces : c.interfaces = d.interfaces
  fields : c.fields.map MemberInfo.heading = d.fields.map MemberInfo.heading
  methods : c.methods.map MemberInfo.heading = d.methods.map MemberInfo.heading
  /-- All methods have code, and it is the same. -/
  procedures : ∃ ps, c.methods.mapM c.procedure? = some ps ∧ d.methods.mapM d.procedure? = some ps
  bootstraps : ∃ entries, c.bootstraps = .ok entries ∧ d.bootstraps = .ok entries
  /-- Attributes that do not hold annotations are on the same members. -/
  fieldAttributes :
    c.fields.map MemberInfo.plainAttributes = d.fields.map MemberInfo.plainAttributes
  methodAttributes :
    c.methods.map MemberInfo.plainAttributes = d.methods.map MemberInfo.plainAttributes
  attributes : c.attributes.map (·.name) = d.attributes.map (·.name)

end SchemaRecords.ClassFile

namespace SchemaRecords.Record

open SchemaRecords.ClassFile
open SchemaRecords.Schema (PropertyType RecordType)

/-! ## Layouts -/

theorem boxedType_keepKeys (s : Settings) (keep : Bool) (type : PropertyType) :
    boxedType { s with keepKeys := keep } type = boxedType s type := by
  induction type with
  | array element ih => rw [boxedType, boxedType, ih]
  | _ => rfl

theorem fieldType_keepKeys (s : Settings) (keep : Bool) (type : PropertyType) :
    fieldType { s with keepKeys := keep } type = fieldType s type := by
  cases type with
  | array element => exact boxedType_keepKeys s keep (.array element)
  | _ => rfl

namespace Layout

theorem ofType_keepKeys (s : Settings) (keep : Bool) (type : RecordType) :
    ofType { s with keepKeys := keep } type =
      { ofType s type with settings := { s with keepKeys := keep } } := by
  simp only [ofType, fieldType_keepKeys]
  rfl

end Layout

/-! ## Operations

None of the operations says where a constant stands, the call of the string form apart, and the
numbers among them are small enough to need no constant.
-/

theorem Accessor.movable (l : Layout) (c : Component) :
    (operations l c).all Operation.isMovable = true := rfl

namespace Constructor

theorem movable_stores (l : Layout) (slot : UInt16) (components : List Component) :
    (stores l slot components).all Operation.isMovable = true := by
  induction components generalizing slot with
  | nil => rfl
  | cons c rest ih =>
    rw [stores, List.all_append, ih]
    rfl

theorem movable (l : Layout) : (operations l).all Operation.isMovable = true := by
  rw [operations, List.all_append, List.all_append, movable_stores]
  rfl

theorem stores_settings (l : Layout) (s : Settings) (slot : UInt16)
    (components : List Component) :
    stores { l with settings := s } slot components = stores l slot components := by
  induction components generalizing slot with
  | nil => rfl
  | cons c rest ih => rw [stores, stores, ih]

theorem operations_settings (l : Layout) (s : Settings) :
    operations { l with settings := s } = operations l := by
  rw [operations, operations, stores_settings]

end Constructor

theorem Equality.movable (l : Layout) : (operations l).all Operation.isMovable = true := by
  have htest (type : FieldType) : (test type).all Operation.isMovable = true := by
    cases type <;> rfl
  have hcompare (c : Component) : (compare l c).all Operation.isMovable = true := by
    rw [compare, List.all_append, htest]
    rfl
  rw [operations, List.all_append, List.all_append, List.all_flatMap, Bool.and_eq_true,
    Bool.and_eq_true]
  exact ⟨⟨rfl, List.all_eq_true.mpr fun c _ => hcompare c⟩, rfl⟩

theorem Hashing.movable (l : Layout) : (operations l).all Operation.isMovable = true := by
  have hvalue (label : Label) (type : FieldType) :
      (hashValue l label type).all Operation.isMovable = true := by
    cases type <;> rfl
  have hcombine (c : Component) (i : Nat) : (combine l c i).all Operation.isMovable = true := by
    rw [combine, List.all_append, List.all_append, hvalue]
    rfl
  rw [operations, List.all_append, List.all_append, List.all_flatMap, Bool.and_eq_true,
    Bool.and_eq_true]
  exact ⟨⟨rfl, List.all_eq_true.mpr fun c _ => hcombine c.1 c.2⟩, rfl⟩

/-- The string forms of two layouts match if the call sites are linked alike. -/
theorem Rendering.operations_match (l : Layout) (s : Settings) {t t' : ConstantTable}
    {site site' : UInt16} {target : UInt16 × String × String}
    (h : t.invokeDynamic site = .ok target) (h' : t'.invokeDynamic site' = .ok target) :
    List.Forall₂ (Operation.Matches t t') (operations l site)
      (operations { l with settings := s } site') := by
  have hloads : ((shown l).flatMap l.loadThis).all Operation.isMovable = true := by
    rw [List.all_flatMap]
    exact List.all_eq_true.mpr fun c _ => rfl
  exact List.rel_append (Operation.matches_of_movable t t' hloads)
    (.cons (.site h h') (.cons (.same rfl) .nil))

/-! ## Classes -/

namespace Layout

/-- The methods are not made from the settings, but for annotations. -/
theorem methods_match (l : Layout) (s : Settings) {t t' : ConstantTable} {site site' : UInt16}
    {target : UInt16 × String × String} (h : t.invokeDynamic site = .ok target)
    (h' : t'.invokeDynamic site' = .ok target) :
    List.Forall₂ (Method.Matches t t') (l.methods site)
      ({ l with settings := s }.methods site') := by
  have haccessors : List.Forall₂ (Method.Matches t t') (l.components.map (Accessor.method l))
      (l.components.map (Accessor.method { l with settings := s })) := by
    rw [List.forall₂_map_left_iff, List.forall₂_map_right_iff, List.forall₂_same]
    intro c _
    exact ⟨rfl, rfl, rfl, Operation.matches_of_movable t t' (Accessor.movable l c)⟩
  have hconstructor : (Constructor.method l).Matches t t'
      (Constructor.method { l with settings := s }) := by
    refine ⟨rfl, rfl, rfl, ?_⟩
    show List.Forall₂ _ (Constructor.operations l) (Constructor.operations { l with settings := s })
    rw [Constructor.operations_settings l s]
    exact Operation.matches_of_movable t t' (Constructor.movable l)
  refine List.rel_append haccessors (.cons hconstructor (.cons ?_ (.cons ?_ (.cons ?_ .nil))))
  · exact ⟨rfl, rfl, rfl, Operation.matches_of_movable t t' (Equality.movable l)⟩
  · exact ⟨rfl, rfl, rfl, Operation.matches_of_movable t t' (Hashing.movable l)⟩
  · exact ⟨rfl, rfl, rfl, Rendering.operations_match l s h h'⟩

section Emitted

variable {l : Layout} {s : Settings} {image image' : Image} {site site' : UInt16}

theorem Emitted.fields_eq (h : l.Emitted image site)
    (h' : { l with settings := s }.Emitted image' site') :
    image.fields.map MemberInfo.heading = image'.fields.map MemberInfo.heading := by
  rw [map_eq_of_forall₂ h.fields fun _ _ hf => hf.heading,
    map_eq_of_forall₂ h'.fields fun _ _ hf => hf.heading, List.map_map, List.map_map]
  rfl

theorem Emitted.methods_eq (h : l.Emitted image site)
    (h' : { l with settings := s }.Emitted image' site') :
    image.methods.map MemberInfo.heading = image'.methods.map MemberInfo.heading := by
  rw [map_eq_of_forall₂ h.methods fun _ _ hm => hm.heading,
    map_eq_of_forall₂ h'.methods fun _ _ hm => hm.heading]
  refine (map_eq_of_forall₂ (methods_match l s h.site h'.site) fun m m' hm => ?_).symm
  rw [hm.access, hm.name, hm.type]

/-- The images of layouts that differ in their settings only. -/
theorem Emitted.resembles (h : l.Emitted image site)
    (h' : { l with settings := s }.Emitted image' site') : image.Resembles image' where
  version := ⟨h.major.trans h'.major.symm, h.minor.trans h'.minor.symm⟩
  access := h.access.trans h'.access.symm
  name := h.name.trans h'.name.symm
  superName := h.superName.trans h'.superName.symm
  interfaces := h.interfaces.trans h'.interfaces.symm
  fields := h.fields_eq h'
  methods := h.methods_eq h'
  procedures := Method.exists_procedures (methods_match l s h.site h'.site) h.methods h'.methods
  bootstraps := ⟨_, h.bootstraps, h'.bootstraps⟩
  fieldAttributes := by
    have hlength := congrArg List.length (h.fields_eq h')
    rw [List.length_map, List.length_map] at hlength
    rw [List.map_eq_replicate_iff.mpr h.plainFields, List.map_eq_replicate_iff.mpr h'.plainFields,
      hlength]
  methodAttributes := by
    have hlength := congrArg List.length (h.methods_eq h')
    rw [List.length_map, List.length_map] at hlength
    rw [List.map_eq_replicate_iff.mpr h.plainMethods, List.map_eq_replicate_iff.mpr h'.plainMethods,
      hlength]
  attributes := h.attributes.trans h'.attributes.symm

end Emitted

end Layout

/-- **Whether keys are kept shows in annotations only**: the class files that are made of a record
type with and without the keys show the same class. -/
theorem Artifact.resembles_of_keepKeys {s : Settings} {keep : Bool} {type : RecordType}
    {a a' : Artifact} (h : ofType s type = .ok a)
    (h' : ofType { s with keepKeys := keep } type = .ok a') :
    a.typeName = a'.typeName ∧ a.internalName = a'.internalName ∧
      ∃ image image', Image.parse a.bytes = .ok image ∧ Image.parse a'.bytes = .ok image' ∧
        image.Resembles image' := by
  obtain ⟨bytes, hcompile, rfl⟩ := ofType_eq_ok h
  obtain ⟨bytes', hcompile', rfl⟩ := ofType_eq_ok h'
  rw [Layout.ofType_keepKeys] at hcompile'
  obtain ⟨image, site, hparse, hemitted⟩ := Layout.emitted_of_compile hcompile
  obtain ⟨image', site', hparse', hemitted'⟩ := Layout.emitted_of_compile hcompile'
  exact ⟨rfl, rfl, image, image', hparse, hparse', hemitted.resembles hemitted'⟩

/-- The record type with a field of every shape is made both ways. -/
theorem Measurement.resembles_without_keys : ∃ a a',
    Artifact.ofType settings type = .ok a ∧
      Artifact.ofType { settings with keepKeys := false } type = .ok a' ∧
      a.typeName = a'.typeName ∧ a.internalName = a'.internalName ∧
      ∃ image image', Image.parse a.bytes = .ok image ∧ Image.parse a'.bytes = .ok image' ∧
        image.Resembles image' := by
  have hsmall : (Layout.ofType { settings with keepKeys := false } type).IsSmall := by
    decide +kernel
  obtain ⟨a, ha⟩ := ofType_eq_ok
  obtain ⟨a', ha'⟩ := exists_ofType_of_small (by decide +kernel) hsmall
  exact ⟨a, a', ha, ha', Artifact.resembles_of_keepKeys ha ha'⟩

end SchemaRecords.Record
