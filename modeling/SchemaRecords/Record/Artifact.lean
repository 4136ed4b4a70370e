import SchemaRecords.Record.Accessor
import SchemaRecords.Record.Constructor
import SchemaRecords.Record.Equality
import SchemaRecords.Record.Hashing
import SchemaRecords.Record.Rendering

/-!
# Class files of record types

`Artifact.ofType` makes the class of one record type, `Artifact.ofModel` those
of a whole model, in its order. A model's types must all be there before any
class is made.
-/

namespace SchemaRecords.Record

open SchemaRecords.ClassFile (Bytes)
open SchemaRecords.Schema (Model Property RecordType)

/-- A part of a record class. -/
inductive Part where
  | accessors
  | constructor
  | equality
  | hashing
  | rendering
deriving DecidableEq, Repr

namespace Part

/-- All parts in the order in which they are added. -/
def all : List Part := [accessors, constructor, equality, hashing, rendering]

/-- Adds a part to a class. -/
def add (l : Layout) : Part → Assemble Unit
  | accessors => Accessor.add l
  | constructor => Constructor.add l
  | equality => Equality.add l
  | hashing => Hashing.add l
  | rendering => Rendering.add l

end Part

/-- The bytes of a record class. -/
def Layout.compile (l : Layout) : Except Error Bytes :=
  match l.draft with
  | .error e => .error e
  | .ok d =>
    match Part.all.forM (Part.add l) d with
    | .error e _ => .error e
    | .ok _ d =>
      match d.build with
      | .error e => .error (.classFile e)
      | .ok bytes => .ok bytes

/-- A class file that was made. -/
structure Artifact where
  /-- The dotted name of the class. -/
  typeName : String
  /-- The name of the class inside class files. -/
  internalName : String
  bytes : Bytes
deriving DecidableEq, Repr

namespace Artifact

/-- Where the class file stands in a directory or archive of classes. -/
def resourcePath (a : Artifact) : String := a.internalName ++ ".class"

/-- The class of a record type, with settings known to be valid. -/
def compile (s : Settings) (type : RecordType) : Except Error Artifact :=
  let layout := Layout.ofType s type
  match layout.compile with
  | .error e => .error e
  | .ok bytes => .ok ⟨s.binaryName type.name, layout.thisName, bytes⟩

/-- The class of a record type. -/
def ofType (s : Settings) (type : RecordType) : Except Error Artifact :=
  match s.fault? with
  | some fault => .error (.settings fault)
  | none => compile s type

/-- The type that a property refers to, if the model does not have it. -/
def missing? (m : Model) (p : Property) : Option String :=
  match p.type.reference? with
  | none => none
  | some name => if (m.get? name).isSome then none else some name

/-- The first property of a type that refers to a type the model does not have. -/
def missingIn? (m : Model) (type : RecordType) : Option Error :=
  type.properties.findSome? fun p =>
    (missing? m p).map fun name => .unknownType name (type.name ++ "." ++ p.field)

/-- The classes of all types of a model, in order. -/
def ofModel (s : Settings) (m : Model) : Except Error (List Artifact) :=
  match s.fault? with
  | some fault => .error (.settings fault)
  | none =>
    match m.types.findSome? (missingIn? m) with
    | some e => .error e
    | none => m.types.mapM (compile s)

end Artifact

end SchemaRecords.Record
