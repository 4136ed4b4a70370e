import SchemaRecords.ClassFile.Annotations
import SchemaRecords.ClassFile.ConstantTable
import SchemaRecords.ClassFile.Draft

/-!
# Class files that are read

An `Image` is the content of a class file with all names resolved. Attributes
are kept as bytes and read when they are asked for. `Image.parse` accepts a
class file only as a whole: input that ends early is refused, and so is input
that goes on.
-/

namespace SchemaRecords.ClassFile

/-- An attribute that was not looked into. -/
structure RawAttribute where
  name : String
  data : Bytes
deriving DecidableEq, Repr

/-- A field or method that was read. -/
structure MemberInfo where
  access : UInt16
  name : String
  descriptor : String
  attributes : List RawAttribute
deriving DecidableEq, Repr

namespace MemberInfo

/-- The first attribute called `name`. -/
def attribute? (m : MemberInfo) (name : String) : Option RawAttribute :=
  m.attributes.find? fun a => a.name == name

end MemberInfo

/-- The code of a method that was read. -/
structure CodeInfo where
  maxStack : UInt16
  maxLocals : UInt16
  bytes : Bytes
  attributes : List RawAttribute
deriving DecidableEq, Repr

/-- A fixed argument of a bootstrap method. -/
inductive BootstrapArgument where
  | string (text : String)
  | integer (value : Int32)
  | classRef (name : String)
deriving DecidableEq, Repr

/-- A bootstrap method that was read. -/
structure BootstrapInfo where
  kind : HandleKind
  method : MemberRef
  arguments : List BootstrapArgument
deriving DecidableEq, Repr

/-- The content of a class file. -/
structure Image where
  major : UInt16
  minor : UInt16
  constants : ConstantTable
  access : UInt16
  name : String
  superName : Option String
  interfaces : List String
  fields : List MemberInfo
  methods : List MemberInfo
  attributes : List RawAttribute
deriving DecidableEq, Repr

namespace ConstantTable

/-- Reads an index and resolves it to a text. -/
def readUtf8 (t : ConstantTable) : Read String := do
  let i ← Read.u16
  Read.ofExcept (t.utf8 i)

/-- Reads an index and resolves it to the name of a class. -/
def readClassName (t : ConstantTable) : Read String := do
  let i ← Read.u16
  Read.ofExcept (t.className i)

/-- Reads an attribute. -/
def readAttribute (t : ConstantTable) : Read RawAttribute := do
  let name ← t.readUtf8
  let length ← Read.u32
  let data ← Read.bytes length.toNat
  pure ⟨name, data⟩

/-- Reads a list of attributes. -/
def readAttributes (t : ConstantTable) : Read (List RawAttribute) :=
  Read.list t.readAttribute

/-- Reads a field or method. -/
def readMember (t : ConstantTable) : Read MemberInfo := do
  let access ← Read.u16
  let name ← t.readUtf8
  let descriptor ← t.readUtf8
  let attributes ← t.readAttributes
  pure ⟨access, name, descriptor, attributes⟩

/-- Reads the body of a code attribute. Exception handlers are skipped. -/
def readCode (t : ConstantTable) : Read CodeInfo := do
  let maxStack ← Read.u16
  let maxLocals ← Read.u16
  let length ← Read.u32
  let bytes ← Read.bytes length.toNat
  let handlers ← Read.u16
  let _ ← Read.bytes (handlers.toNat * 8)
  let attributes ← t.readAttributes
  pure ⟨maxStack, maxLocals, bytes, attributes⟩

/-- Reads an element of an annotation, which must be a string. -/
def readElement (t : ConstantTable) : Read (String × String) := do
  let name ← t.readUtf8
  let tag ← Read.u8
  if tag = 115 then
    let value ← t.readUtf8
    pure (name, value)
  else
    let shown := Char.ofNat tag.toNat
    Read.fail (.malformed s!"unsupported annotation element tag '{shown}'")

/-- Reads an annotation. -/
def readAnnotationEntry (t : ConstantTable) : Read AnnotationEntry := do
  let type ← t.readUtf8
  let elements ← Read.list t.readElement
  pure ⟨type, elements⟩

/-- Reads a list of annotations. -/
def readAnnotations (t : ConstantTable) : Read (List AnnotationEntry) :=
  Read.list t.readAnnotationEntry

/-- Reads one list of annotations per parameter. -/
def readParameterAnnotations (t : ConstantTable) : Read (List (List AnnotationEntry)) := do
  let n ← Read.u8
  Read.times n.toNat t.readAnnotations

/-- The constant at an index, if a bootstrap method can take it. -/
def bootstrapArgument (t : ConstantTable) (i : UInt16) : Except Error BootstrapArgument := do
  match ← t.get i with
  | .string text => return .string (← t.utf8 text)
  | .integer value => return .integer value
  | .classRef name => return .classRef (← t.utf8 name)
  | _ => .error (.entry i .bootstrapArgument)

/-- Reads a bootstrap method. -/
def readBootstrap (t : ConstantTable) : Read BootstrapInfo := do
  let handle ← Read.u16
  let (kind, method) ← Read.ofExcept (t.methodHandle handle)
  let arguments ← Read.list do
    let i ← Read.u16
    Read.ofExcept (t.bootstrapArgument i)
  pure ⟨kind, method, arguments⟩

end ConstantTable

namespace Image

/-- Reads a class file. -/
def read : Read Image := do
  let word ← Read.u32
  if word ≠ signature then Read.fail (.signature word)
  let minor ← Read.u16
  let major ← Read.u16
  let constants ← ConstantTable.read
  let access ← Read.u16
  let name ← constants.readClassName
  let superIndex ← Read.u16
  let superName ← Read.ofExcept <|
    if superIndex = 0 then .ok none else (constants.className superIndex).map some
  let interfaces ← Read.list constants.readClassName
  let fields ← Read.list constants.readMember
  let methods ← Read.list constants.readMember
  let attributes ← constants.readAttributes
  pure {
    major, minor, constants, access, name, superName, interfaces, fields, methods, attributes }

/-- The content of a class file given by all its bytes. -/
def parse (bytes : Bytes) : Except Error Image :=
  match read (Cursor.ofBytes bytes) with
  | .error e => .error e
  | .ok (image, c) =>
    if c.isExhausted then .ok image
    else
      let left := c.remaining
      .error (.malformed s!"{left} trailing bytes after class attributes")

/-- The result of reading from the start of an attribute; what follows is not looked at. -/
def readFrom {α : Type} (a : RawAttribute) (item : Read α) : Except Error α :=
  match item (Cursor.ofBytes a.data) with
  | .ok (value, _) => .ok value
  | .error e => .error e

/-- The first field called `name`. -/
def field? (c : Image) (name : String) : Option MemberInfo :=
  c.fields.find? fun m => m.name == name

/-- The first method with a name and descriptor. -/
def method? (c : Image) (name descriptor : String) : Option MemberInfo :=
  c.methods.find? fun m => m.name == name && m.descriptor == descriptor

/-- The code of a method, if it has any. -/
def code (c : Image) (m : MemberInfo) : Except Error (Option CodeInfo) :=
  match m.attribute? Code.attributeName with
  | none => .ok none
  | some a => (readFrom a c.constants.readCode).map some

/-- The annotations of a member. -/
def annotations (c : Image) (m : MemberInfo) : Except Error (List AnnotationEntry) :=
  match m.attribute? AnnotationEntry.memberAttribute with
  | none => .ok []
  | some a => readFrom a c.constants.readAnnotations

/-- The annotations of the parameters of a method. -/
def parameterAnnotations (c : Image) (m : MemberInfo) : Except Error (List (List AnnotationEntry)) :=
  match m.attribute? AnnotationEntry.parameterAttribute with
  | none => .ok []
  | some a => readFrom a c.constants.readParameterAnnotations

/-- The bootstrap methods of a class. -/
def bootstraps (c : Image) : Except Error (List BootstrapInfo) :=
  match c.attributes.find? fun a => a.name == Bootstrap.attributeName with
  | none => .ok []
  | some a => readFrom a (Read.list c.constants.readBootstrap)

end Image

end SchemaRecords.ClassFile
