import SchemaRecords.Proofs.Generation
import SchemaRecords.Proofs.Record.Lookup
import SchemaRecords.Proofs.Schema.Naming

/-!
# Names of the members of a class

The format wants the fields of a class to differ in name, its methods to differ in
name or descriptor, and both to have names without certain characters. Keys are
texts of the user, and the accessors share one table with the methods that every
record class has. They stay apart all the same: from the constructor by its name,
from `equals` because they have no parameters, and from `hashCode` and `toString`
because an accessor with their name and descriptor is refused.

* `Layout.Emitted.hasLawfulMembers`: this for one class, whose components have names that the
  format allows.
* `generate_names_members`: this for the classes of a document.
-/

namespace SchemaRecords.ClassFile

/-- The characters that the format forbids in the names of fields and methods. -/
def forbiddenChars : List Char := ['.', ';', '[', '/', '<', '>']

/-- The name and descriptor of a method, by which it is found. -/
def Method.signature (m : Method) : String × String := (m.name, m.type.descriptor)

/-- The members of a class can be told apart and have names that the format allows. -/
structure Image.HasLawfulMembers (image : Image) : Prop where
  fields : (image.fields.map MemberInfo.name).Nodup
  methods : (image.methods.map fun m => (m.name, m.descriptor)).Nodup
  fieldNames : ∀ f ∈ image.fields, ∀ c ∈ forbiddenChars, c ∉ f.name.toList
  /-- There is one constructor, and only its name has angle brackets. -/
  methodNames : ∃ before constructor after,
    image.methods = before ++ constructor :: after ∧ constructor.name = "<init>" ∧
      ∀ m ∈ before ++ after, ∀ c ∈ forbiddenChars, c ∉ m.name.toList

end SchemaRecords.ClassFile

namespace SchemaRecords.Schema

open SchemaRecords.Json (Node)
open SchemaRecords.Schema.Naming (IsUnqualified)

/-- No name that is allowed has a forbidden character. -/
theorem Naming.IsUnqualified.not_mem_of_mem {name : String} (h : IsUnqualified name) {c : Char}
    (hc : c ∈ ClassFile.forbiddenChars) : c ∉ name.toList := by
  apply h.not_mem
  simpa [ClassFile.forbiddenChars, isForbidden, or_assoc] using hc

/-- The fields of a document's types have names that the format allows. -/
theorem Document.isUnqualified_field {document : Node} {type : RecordType}
    (htype : type ∈ types document) {p : Property} (hp : p ∈ type.properties) :
    IsUnqualified p.field := by
  obtain ⟨o, -, rfl⟩ := mem_types.1 htype
  obtain ⟨entry, -, rfl⟩ := List.mem_map.1 (List.mem_mergeSort.1 hp)
  exact Naming.isUnqualified_fieldName entry.1

theorem Document.WellFormed.nodup_fields {document : Node} (h : WellFormed document)
    {type : RecordType} (htype : type ∈ types document) :
    (type.properties.map Property.field).Nodup := by
  obtain ⟨o, ho, rfl⟩ := mem_types.1 htype
  exact (ordered_type (rootName document) (h.sound o ho)).fields

end SchemaRecords.Schema

namespace SchemaRecords.Record

open SchemaRecords.ClassFile
open SchemaRecords.Schema.Naming (IsUnqualified)

namespace Layout

namespace Emitted

variable {l : Layout} {image : Image} {site : UInt16}

theorem map_name_fields (h : l.Emitted image site) :
    image.fields.map MemberInfo.name = l.components.map (·.name) := by
  rw [map_eq_of_forall₂ (f := Field.name) h.fields fun f m hm => hm.name, List.map_map]
  rfl

theorem map_signature_methods (h : l.Emitted image site) :
    (image.methods.map fun m => (m.name, m.descriptor)) = (l.methods site).map Method.signature :=
  map_eq_of_forall₂ h.methods fun m info hm => by rw [hm.name, hm.descriptor, Method.signature]

/-- No accessor is one of the methods that every record class has. -/
theorem signature_ne (h : l.Emitted image site) {c : Component} (hc : c ∈ l.components)
    (hname : IsUnqualified c.name) {m : Method}
    (hm : m ∈ [Constructor.method l, Equality.method l, Hashing.method l,
      Rendering.method l site]) : (Accessor.method l c).signature ≠ m.signature := by
  intro heq
  obtain ⟨hnames, hdescriptors⟩ := Prod.mk.inj heq
  have hmem : Accessor.method l c ∈ l.components.map (Accessor.method l) := List.mem_map_of_mem hc
  simp only [List.mem_cons, List.not_mem_nil, or_false] at hm
  rcases hm with rfl | rfl | rfl | rfl
  · -- a constructor without parameters has no result, but its name tells it apart in any case
    have hbracket : '<' ∉ c.name.toList := hname.not_mem (by decide)
    have hconstructor : c.name = "<init>" := hnames
    rw [hconstructor] at hbracket
    exact hbracket (by decide)
  · exact accessor_ne (m := Equality.method l) (List.cons_ne_nil _ _) _ hmem ⟨hnames, hdescriptors⟩
  · have hreserved : ("hashCode", Hashing.type.descriptor) ∈ Accessor.reserved := by decide
    exact h.unreserved_ne hreserved _ hmem ⟨hnames, hdescriptors⟩
  · have hreserved : (Rendering.name, (MethodType.returning Rendering.stringType).descriptor)
        ∈ Accessor.reserved := by decide
    exact h.unreserved_ne hreserved _ hmem ⟨hnames, hdescriptors⟩

theorem nodup_signatures (h : l.Emitted image site) (hnames : (l.components.map (·.name)).Nodup)
    (hplain : ∀ c ∈ l.components, IsUnqualified c.name) :
    ((l.methods site).map Method.signature).Nodup := by
  rw [Layout.methods, List.map_append]
  refine List.nodup_append.mpr ⟨?_, ?_, ?_⟩
  · refine List.Nodup.of_map Prod.fst ?_
    rw [List.map_map, List.map_map]
    exact hnames
  · exact List.Nodup.of_map Prod.fst
      (show ["<init>", "equals", "hashCode", "toString"].Nodup by decide)
  · intro x hx y hy
    obtain ⟨m, hm, rfl⟩ := List.mem_map.mp hx
    obtain ⟨c, hc, rfl⟩ := List.mem_map.mp hm
    obtain ⟨m', hm', rfl⟩ := List.mem_map.mp hy
    exact h.signature_ne hc (hplain c hc) hm'

/-- The constructor comes after the accessors, and no other method has a forbidden character. -/
theorem exists_constructor (h : l.Emitted image site)
    (hplain : ∀ c ∈ l.components, IsUnqualified c.name) :
    ∃ before constructor after, image.methods = before ++ constructor :: after ∧
      constructor.name = "<init>" ∧
        ∀ m ∈ before ++ after, ∀ c ∈ forbiddenChars, c ∉ m.name.toList := by
  have hnames : image.methods.map MemberInfo.name =
      l.components.map (·.name) ++ "<init>" :: ["equals", "hashCode", "toString"] := by
    rw [map_eq_of_forall₂ (f := Method.name) h.methods fun m info hm => hm.name, Layout.methods,
      List.map_append, List.map_map]
    rfl
  obtain ⟨before, rest, hmethods, hbefore, hrest⟩ := List.map_eq_append_iff.mp hnames
  obtain ⟨constructor, after, rfl, hconstructor, hafter⟩ := List.map_eq_cons_iff.mp hrest
  refine ⟨before, constructor, after, hmethods, hconstructor, fun m hm c hc => ?_⟩
  rcases List.mem_append.mp hm with hm | hm
  · have hname : m.name ∈ l.components.map (·.name) := hbefore ▸ List.mem_map_of_mem hm
    obtain ⟨component, hcomponent, heq⟩ := List.mem_map.mp hname
    exact heq ▸ (hplain component hcomponent).not_mem_of_mem hc
  · have hname : m.name ∈ ["equals", "hashCode", "toString"] := hafter ▸ List.mem_map_of_mem hm
    have hfixed : ∀ name ∈ ["equals", "hashCode", "toString"], ∀ c ∈ forbiddenChars,
        c ∉ name.toList := by simp [forbiddenChars]
    exact hfixed m.name hname c hc

/-- The members of a class are lawful if the names of its components are. -/
theorem hasLawfulMembers (h : l.Emitted image site) (hnames : (l.components.map (·.name)).Nodup)
    (hplain : ∀ c ∈ l.components, IsUnqualified c.name) : image.HasLawfulMembers where
  fields := h.map_name_fields ▸ hnames
  methods := h.map_signature_methods ▸ h.nodup_signatures hnames hplain
  fieldNames := by
    intro f hf c hc
    have hname : f.name ∈ l.components.map (·.name) := h.map_name_fields ▸ List.mem_map_of_mem hf
    obtain ⟨component, hcomponent, heq⟩ := List.mem_map.mp hname
    exact heq ▸ (hplain component hcomponent).not_mem_of_mem hc
  methodNames := h.exists_constructor hplain

end Emitted

end Layout

end SchemaRecords.Record

namespace SchemaRecords

open SchemaRecords.ClassFile (Image)
open SchemaRecords.Json (Node)
open SchemaRecords.Record (Artifact Layout Settings)
open SchemaRecords.Schema

/-- **The members of generated classes are lawful.** Whatever the keys and the settings are, the
fields of each class of a document have different names, its methods differ in name or descriptor,
and no name has a character that the format forbids, but for the brackets of the one
constructor. -/
theorem generate_names_members {s : Settings} {document : Node} {artifacts : List Artifact}
    (h : generate s document = .ok artifacts) :
    ∀ a ∈ artifacts, ∃ image, Image.parse a.bytes = .ok image ∧ image.HasLawfulMembers := by
  obtain ⟨hwell, hs, hcompile⟩ := generate_eq_ok_iff.1 h
  intro a ha
  obtain ⟨type, htype, hcompiled⟩ := ClassFile.exists_of_forall₂ hcompile.flip ha
  have hartifact : Artifact.ofType s type = .ok a := by
    rw [Artifact.ofType, hs]
    exact hcompiled
  obtain ⟨image, site, hparse, -, hemitted⟩ := Record.emitted_of_ofType hartifact
  refine ⟨image, hparse, hemitted.hasLawfulMembers ?_ ?_⟩
  · rw [Layout.ofType, List.map_map]
    exact hwell.nodup_fields htype
  · intro c hc
    obtain ⟨p, hp, rfl⟩ := List.mem_map.1 hc
    exact Document.isUnqualified_field htype hp

theorem generate_names_delivery :
    ∃ root address image, generate {} Delivery.document = .ok [root, address] ∧
      Image.parse root.bytes = .ok image ∧ image.HasLawfulMembers := by
  obtain ⟨root, address, h⟩ := Delivery.generate_document
  obtain ⟨image, hparse, hlawful⟩ := generate_names_members h root List.mem_cons_self
  exact ⟨root, address, image, h, hparse, hlawful⟩

end SchemaRecords
