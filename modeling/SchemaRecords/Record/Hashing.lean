import SchemaRecords.Record.Layout

/-!
# Hash codes

The hash of a record starts from 1; each component multiplies it by 59 and adds
its own hash. A component that is null adds 43.
-/

namespace SchemaRecords.Record

open SchemaRecords.ClassFile

/-- The class with helpers for arrays. -/
def arraysName : String := "java/util/Arrays"

namespace Hashing

/-- What the hash is multiplied by before each component. -/
def prime : Int32 := 59

/-- The hash of null. -/
def nullHash : Int32 := 43

/-- The type of the method. -/
def type : MethodType := .returning .int

/-- What the verifier sees of the locals. -/
def frame (l : Layout) : Frame := { locals := [l.thisType] }

/-- Replaces the reference on the stack by its hash, or by that of null. Two labels from `label`
on are used. -/
def hashReference (l : Layout) (label : Label) (type : FieldType) : List Operation :=
  [.dup, .branch .nonnull label, .pop, .const nullHash, .branch .always (label + 1),
    .bind label ((frame l).withStack [.integer, type.verification]),
    .invoke .virtual FieldType.objectName "hashCode" (.returning .int),
    .bind (label + 1) ((frame l).withStack [.integer, .integer])]

/-- Replaces the value on the stack by its hash. -/
def hashValue (l : Layout) (label : Label) : FieldType → List Operation
  | .boolean => []
  | .int => []
  | .double => [.invoke .static doubleName "hashCode" ⟨[.double], some .int⟩]
  | .array _ =>
    [.invoke .static arraysName "deepHashCode"
      ⟨[.array (.object FieldType.objectName)], some .int⟩]
  | .object name => hashReference l label (.object name)

/-- Works a component into the hash on the stack. Each component has two labels of its own. -/
def combine (l : Layout) (c : Component) (i : Nat) : List Operation :=
  [.const prime, .imul] ++ l.loadThis c ++ hashValue l (2 * i) c.type ++ [.iadd]

/-- The operations of the method. -/
def operations (l : Layout) : List Operation :=
  [.const 1] ++ l.components.zipIdx.flatMap (fun (c, i) => combine l c i) ++ [.returnValue .int]

/-- The method. -/
def method (l : Layout) : Method where
  access := accPublic ||| accFinal
  name := "hashCode"
  type := type
  body := { operations := operations l }

/-- Adds the method. -/
def add (l : Layout) : Assemble Unit := .ofBuild (Draft.method (method l))

end Hashing

end SchemaRecords.Record
