import SchemaRecords.Proofs.Record.Admissible

/-!
# A record type as its class file shows it

A class file that was made can be parsed, and everything the record type and the
settings ask for can be read off the image: the header, a field for each property,
the methods in their order, the keys as annotations, and what links the string
form. `Shows` spells this out in terms of properties alone; `shows_of_ofType`
says that it holds of every class file that is made.
-/

namespace SchemaRecords.ClassFile

/-- The flags, the name and the descriptor of a member. -/
def MemberInfo.heading (m : MemberInfo) : UInt16 × String × String := (m.access, m.name, m.descriptor)

theorem Field.Describes.heading {t : ConstantTable} {f : Field} {info : MemberInfo}
    (h : f.Describes t info) : info.heading = (f.access, f.name, f.type.descriptor) := by
  rw [MemberInfo.heading, h.access, h.name, h.descriptor]

theorem Method.Describes.heading {t : ConstantTable} {m : Method} {info : MemberInfo}
    (h : m.Describes t info) : info.heading = (m.access, m.name, m.type.descriptor) := by
  rw [MemberInfo.heading, h.access, h.name, h.descriptor]

theorem descriptor_returning (t : FieldType) :
    (MethodType.returning t).descriptor = "()" ++ t.descriptor := by
  apply String.toList_inj.mp
  simp [MethodType.returning, MethodType.descriptor, FieldType.descriptor]

theorem descriptor_void (ts : List FieldType) :
    (⟨ts, none⟩ : MethodType).descriptor =
      "(" ++ String.join (ts.map FieldType.descriptor) ++ ")V" := by
  apply String.toList_inj.mp
  simp [MethodType.descriptor, List.flatMap_map, FieldType.descriptor]

end SchemaRecords.ClassFile

namespace SchemaRecords.Record

open SchemaRecords.ClassFile
open SchemaRecords.Schema (Property RecordType)

/-- The annotations that a property asks for: one that holds the key, if keys are kept. -/
def keyAnnotations (s : Settings) (p : Property) : List AnnotationEntry :=
  if s.keepKeys then [⟨s.annotationType, [("value", p.key)]⟩] else []

/-- The accessors, then the methods that every record class has. -/
def methodHeadings (s : Settings) (type : RecordType) : List (UInt16 × String × String) :=
  type.properties.map (fun p => (accPublic, p.field, "()" ++ (fieldType s p.type).descriptor)) ++
    [(accPublic, "<init>",
        "(" ++ String.join (type.properties.map fun p => (fieldType s p.type).descriptor) ++ ")V"),
      (accPublic ||| accFinal, "equals", "(Ljava/lang/Object;)Z"),
      (accPublic ||| accFinal, "hashCode", "()I"),
      (accPublic ||| accFinal, "toString", "()Ljava/lang/String;")]

/-- The image shows the record type in full. -/
structure Shows (s : Settings) (type : RecordType) (image : Image) : Prop where
  version : image.major = 61 ∧ image.minor = 0
  access : image.access = accPublic ||| accFinal ||| accSuper
  name : image.name = s.internalName type.name
  superName : image.superName = some "java/lang/Record"
  interfaces : image.interfaces = []
  fields : image.fields.map MemberInfo.heading =
    type.properties.map fun p =>
      (accPrivate ||| accFinal, p.field, (fieldType s p.type).descriptor)
  methods : image.methods.map MemberInfo.heading = methodHeadings s type
  /-- Each field has its key. -/
  fieldAnnotations : image.fields.map image.annotations =
    type.properties.map fun p => .ok (keyAnnotations s p)
  methodAnnotations : ∀ m ∈ image.methods, image.annotations m = .ok []
  /-- The parameters of the constructor have their keys, and no others have any. -/
  parameterAnnotations : image.methods.map image.parameterAnnotations =
    type.properties.map (fun _ => .ok []) ++
      [.ok (if s.keepKeys then type.properties.map (keyAnnotations s) else []), .ok [], .ok [],
        .ok []]
  /-- The string form is linked from the recipe. -/
  bootstraps : image.bootstraps = .ok [
    let recipe := Recipe.ofRecord type.name (Layout.ofType s type).components
    { kind := .invokeStatic
      method := ⟨"java/lang/invoke/StringConcatFactory", "makeConcatWithConstants",
        Rendering.factoryDescriptor⟩
      arguments := .string recipe.template :: recipe.constants.map .string }]

namespace Layout

theorem annotations_ofType (s : Settings) (type : RecordType) (p : Property) :
    (ofType s type).annotations ⟨p.key, p.field, fieldType s p.type⟩ = keyAnnotations s p := by
  unfold annotations Settings.keyEntry? keyAnnotations
  show (if s.keepKeys = true then _ else none : Option AnnotationEntry).toList = _
  split <;> rfl

theorem parameterAnnotations_ofType (s : Settings) (type : RecordType) :
    (Constructor.method (ofType s type)).parameterAnnotations =
      if s.keepKeys then type.properties.map (keyAnnotations s) else [] := by
  show (if s.keepKeys = true then
    (type.properties.map _).map (ofType s type).annotations else []) = _
  rw [List.map_map]
  simp only [Function.comp_def, annotations_ofType]

/-- Lists of annotations that are all empty are only given if there are no parameters. -/
theorem writtenAnnotations_ofType (s : Settings) (type : RecordType) :
    (if (Constructor.method (ofType s type)).isAnnotated then
        (Constructor.method (ofType s type)).parameterAnnotations else []) =
      if s.keepKeys then type.properties.map (keyAnnotations s) else [] := by
  unfold Method.isAnnotated
  rw [parameterAnnotations_ofType]
  by_cases hkeep : s.keepKeys = true
  · rw [if_pos hkeep]
    cases type.properties with
    | nil => rfl
    | cons p rest => simp [keyAnnotations, hkeep]
  · rw [if_neg hkeep]
    rfl

variable {s : Settings} {type : RecordType} {image : Image} {site : UInt16}

theorem Emitted.headings (h : (ofType s type).Emitted image site) :
    image.methods.map MemberInfo.heading = methodHeadings s type := by
  have hconstructor : (Constructor.type (ofType s type)).descriptor =
      "(" ++ String.join (type.properties.map fun p => (fieldType s p.type).descriptor) ++ ")V" := by
    rw [Constructor.type, descriptor_void, ofType, List.map_map, List.map_map]
    rfl
  rw [map_eq_of_forall₂ (f := fun m => (m.access, m.name, m.type.descriptor)) h.methods
    fun m info hm => hm.heading]
  rw [Layout.methods, List.map_append, List.map_map]
  have haccessors : (ofType s type).components.map
      ((fun m : Method => (m.access, m.name, m.type.descriptor)) ∘ Accessor.method (ofType s type)) =
      type.properties.map fun p =>
        (accPublic, p.field, "()" ++ (fieldType s p.type).descriptor) := by
    rw [ofType, List.map_map]
    refine List.map_congr_left fun p _ => ?_
    rw [← descriptor_returning]
    rfl
  rw [haccessors, methodHeadings, ← hconstructor]
  rfl

end Layout

theorem shows_of_emitted {s : Settings} {type : RecordType} {image : Image} {site : UInt16}
    (h : (Layout.ofType s type).Emitted image site) : Shows s type image where
  version := ⟨h.major, h.minor⟩
  access := h.access
  name := h.name
  superName := h.superName
  interfaces := h.interfaces
  fields := by
    rw [map_eq_of_forall₂ (f := fun f => (f.access, f.name, f.type.descriptor)) h.fields
      fun f m hm => hm.heading,
      List.map_map, Layout.ofType, List.map_map]
    rfl
  methods := h.headings
  fieldAnnotations := by
    rw [map_eq_of_forall₂ h.fields fun f m hm => hm.annotations image rfl, List.map_map]
    show (type.properties.map _).map _ = _
    rw [List.map_map]
    refine List.map_congr_left fun p _ => ?_
    rw [← Layout.annotations_ofType s type p]
    rfl
  methodAnnotations := h.unannotated
  parameterAnnotations := by
    rw [map_eq_of_forall₂ h.methods fun m info hm => hm.parameterAnnotations image rfl,
      Layout.methods, List.map_append, List.map_map, Layout.ofType, List.map_map,
      ← Layout.writtenAnnotations_ofType]
    rfl
  bootstraps := h.bootstraps

/-- **The class file shows the record type.** Every class file that is made can be parsed, and
shows the record type in full. -/
theorem shows_of_ofType {s : Settings} {type : RecordType} {artifact : Artifact}
    (h : Artifact.ofType s type = .ok artifact) :
    ∃ image, Image.parse artifact.bytes = .ok image ∧ image.name = artifact.internalName ∧
      Shows s type image := by
  obtain ⟨image, site, hparse, hname, hemitted⟩ := emitted_of_ofType h
  exact ⟨image, hparse, hemitted.name.trans hname.symm, shows_of_emitted hemitted⟩

/-- The class of a type with properties of all shapes, with its keys. -/
theorem shows_measurement : ∃ artifact image,
    Artifact.ofType Measurement.settings Measurement.type = .ok artifact ∧
      Image.parse artifact.bytes = .ok image ∧ image.name = "org/example/Measurement" ∧
      Shows Measurement.settings Measurement.type image ∧
      image.fields.map image.annotations =
        ["at", "count", "level", "sound", "tags", "unit"].map fun key =>
          .ok [⟨"Lcom/fasterxml/jackson/annotation/JsonProperty;", [("value", key)]⟩] := by
  obtain ⟨artifact, h⟩ := Measurement.ofType_eq_ok
  obtain ⟨image, hparse, -, hshows⟩ := shows_of_ofType h
  have hname : Measurement.settings.internalName Measurement.type.name =
      "org/example/Measurement" := by
    decide +kernel
  exact ⟨artifact, image, h, hparse, hshows.name.trans hname, hshows, hshows.fieldAnnotations⟩

end SchemaRecords.Record
