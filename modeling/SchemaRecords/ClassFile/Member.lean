import SchemaRecords.ClassFile.Annotations
import SchemaRecords.ClassFile.Assembler

/-!
# Fields and methods

What a class declares, and how its tables store it. Writing a member first puts
its name and descriptor into the pool; a method's body is assembled before
anything of the method is written.
-/

namespace SchemaRecords.ClassFile

/-- Visible everywhere. -/
def accPublic : UInt16 := 0x0001

/-- Visible in the class only. -/
def accPrivate : UInt16 := 0x0002

/-- Not assigned again, overridden or extended. -/
def accFinal : UInt16 := 0x0010

/-- For classes: calls to methods of the superclass are resolved the modern way. -/
def accSuper : UInt16 := 0x0020

/-- A field to be declared. -/
structure Field where
  access : UInt16
  name : String
  type : FieldType
  annotations : List AnnotationEntry := []

namespace Field

/-- Writes the field's table entry. -/
def write (f : Field) : Write Unit := do
  let name ← Write.intern (Pool.utf8 f.name)
  let descriptor ← Write.intern (Pool.utf8 f.type.descriptor)
  Write.emit (Bytes.ofUInt16 f.access ++ Bytes.ofUInt16 name ++ Bytes.ofUInt16 descriptor)
  if f.annotations.isEmpty then
    Write.emit (Bytes.ofUInt16 0)
  else do
    let attributeName ← Write.intern (Pool.utf8 AnnotationEntry.memberAttribute)
    Write.emit (Bytes.ofUInt16 1)
    Write.inAttribute attributeName (AnnotationEntry.writeAll f.annotations)

end Field

namespace Code

/-- The attribute that holds the code of a method. -/
def attributeName : String := "Code"

/-- The attribute that holds the frames of a method's code. -/
def framesAttribute : String := "StackMapTable"

/-- Writes the part of the attribute before its own attributes; no exceptions are caught. -/
def writeBody (c : Code) : Write Unit :=
  Write.emit
    (Bytes.ofUInt16 c.maxStack ++ Bytes.ofUInt16 c.maxLocals
      ++ Bytes.ofUInt32 c.bytes.length.toUInt32 ++ c.bytes ++ Bytes.ofUInt16 0)

/-- Writes the code, and its frames if it has any. -/
def write (c : Code) : Write Unit := do
  let name ← Write.intern (Pool.utf8 attributeName)
  if c.frames.isEmpty then
    Write.inAttribute name do
      c.writeBody
      Write.emit (Bytes.ofUInt16 0)
  else do
    let framesName ← Write.intern (Pool.utf8 framesAttribute)
    Write.inAttribute name do
      c.writeBody
      Write.emit (Bytes.ofUInt16 1)
      Write.inAttribute framesName (FrameTable.write c.frames)

end Code

/-- A method to be declared. -/
structure Method where
  access : UInt16
  name : String
  type : MethodType
  /-- Either no lists, or one for each parameter. -/
  parameterAnnotations : List (List AnnotationEntry) := []
  body : Body

namespace Method

/-- Whether some parameter is annotated. -/
def isAnnotated (m : Method) : Bool :=
  m.parameterAnnotations.any fun list => !list.isEmpty

/-- How many attributes the method has: its code, and the annotations of its parameters. -/
def attributeCount (m : Method) : UInt16 := if m.isAnnotated then 2 else 1

/-- The fault of lists of annotations that do not match the parameters. -/
def listFault? (m : Method) : Option Error :=
  let lists := m.parameterAnnotations.length
  let parameters := m.type.parameters.length
  if lists ≠ 0 ∧ lists ≠ parameters then
    some (.malformed
      s!"method {m.name}: {lists} parameter annotation lists for {parameters} parameters")
  else none

/-- Writes the method's table entry. -/
def write (m : Method) : Write Unit := do
  match m.listFault? with
  | some e => throw e
  | none => pure ()
  let name ← Write.intern (Pool.utf8 m.name)
  let descriptor ← Write.intern (Pool.utf8 m.type.descriptor)
  let code ← Write.intern (m.body.assemble (1 + m.type.parameterSlots))
  Write.emit
    (Bytes.ofUInt16 m.access ++ Bytes.ofUInt16 name ++ Bytes.ofUInt16 descriptor
      ++ Bytes.ofUInt16 m.attributeCount)
  code.write
  if m.isAnnotated then
    let attributeName ← Write.intern (Pool.utf8 AnnotationEntry.parameterAttribute)
    Write.inAttribute attributeName (AnnotationEntry.writeParameters m.parameterAnnotations)

end Method

end SchemaRecords.ClassFile
