import SchemaRecords.ClassFile.Writer

/-!
# Annotations

Annotations whose elements are strings, as classes carry them at run time, and
the two attributes that hold them: one for a member, one for the parameters of a
method.
-/

namespace SchemaRecords.ClassFile

/-- An annotation of a type, given by its descriptor, with named strings. -/
structure AnnotationEntry where
  type : String
  elements : List (String × String) := []
deriving DecidableEq, Repr

namespace AnnotationEntry

/-- The attribute that holds the annotations of a member. -/
def memberAttribute : String := "RuntimeVisibleAnnotations"

/-- The attribute that holds the annotations of the parameters of a method. -/
def parameterAttribute : String := "RuntimeVisibleParameterAnnotations"

/-- The value of the first element called `name`. -/
def string? (a : AnnotationEntry) (name : String) : Option String :=
  a.elements.lookup name

/-- Writes one element. -/
def writeElement (element : String × String) : Write Unit := do
  let name ← Write.intern (Pool.utf8 element.1)
  Write.emit (Bytes.ofUInt16 name)
  Write.emit [115]
  let value ← Write.intern (Pool.utf8 element.2)
  Write.emit (Bytes.ofUInt16 value)

/-- Writes the annotation's type and elements. -/
def write (a : AnnotationEntry) : Write Unit := do
  let type ← Write.intern (Pool.utf8 a.type)
  Write.emit (Bytes.ofUInt16 type)
  Write.count .annotationElements a.elements.length
  a.elements.forM writeElement

/-- Writes a list of annotations. -/
def writeAll (annotations : List AnnotationEntry) : Write Unit := do
  Write.count .annotations annotations.length
  annotations.forM write

/-- Writes one list of annotations per parameter; at most 255 parameters can be annotated. -/
def writeParameters (parameters : List (List AnnotationEntry)) : Write Unit := fun w =>
  let n := parameters.length
  if n < 256 then (do Write.emit [n.toUInt8]; parameters.forM writeAll : Write Unit) w
  else .error (.tooMany .annotatedParameters n) w

end AnnotationEntry

end SchemaRecords.ClassFile
