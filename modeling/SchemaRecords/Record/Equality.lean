import SchemaRecords.Record.Layout

/-!
# Equality

A record equals another object if that is a record of the same class with equal
components. Integers and booleans are compared as numbers, doubles by their
total order, arrays by their elements at every depth, and other references by
their own equality.
-/

namespace SchemaRecords.Record

open SchemaRecords.ClassFile

/-- The class with helpers for references that may be null. -/
def objectsName : String := "java/util/Objects"

namespace Equality

/-- Where the method goes if the records are equal. -/
def equal : Label := 0

/-- Where the method goes if the records differ. -/
def different : Label := 1

/-- Where the method returns. -/
def done : Label := 2

/-- The type of the method. -/
def type : MethodType := ⟨[.object FieldType.objectName], some .boolean⟩

/-- The type of a test of two references. -/
def predicate : MethodType :=
  ⟨[.object FieldType.objectName, .object FieldType.objectName], some .boolean⟩

/-- The type of a comparison of two doubles. -/
def comparison : MethodType := ⟨[.double, .double], some .int⟩

/-- What the verifier sees throughout: the record and the other object. -/
def frame (l : Layout) : Frame :=
  { locals := [l.thisType, .object FieldType.objectName] }

/-- Leaves if the two values on the stack differ. -/
def test : FieldType → List Operation
  | .boolean => [.branch .intsDiffer different]
  | .int => [.branch .intsDiffer different]
  | .double =>
    [.invoke .static doubleName "compare" comparison, .branch .nonzero different]
  | .array _ =>
    [.invoke .static objectsName "deepEquals" predicate, .branch .zero different]
  | .object _ =>
    [.invoke .static objectsName "equals" predicate, .branch .zero different]

/-- Leaves if a component differs. -/
def compare (l : Layout) (c : Component) : List Operation :=
  l.loadThis c
    ++ [.loadReference 1, .checkCast l.thisName, .getField l.thisName c.name c.type]
    ++ test c.type

/-- Leaves if the other object is null or of another class, or is this very record. -/
def opening (l : Layout) : List Operation :=
  [.loadReference 1, .branch .null different,
    .loadReference 1, .instanceOf l.thisName, .branch .zero different,
    .loadReference 0, .loadReference 1, .branch .sameReference equal]

/-- Returns the answer. -/
def closing (l : Layout) : List Operation :=
  [.bind equal (frame l), .const 1, .branch .always done,
    .bind different (frame l), .const 0,
    .bind done ((frame l).withStack [.integer]), .returnValue .boolean]

/-- The operations of the method. -/
def operations (l : Layout) : List Operation :=
  opening l ++ l.components.flatMap (compare l) ++ closing l

/-- The method. -/
def method (l : Layout) : Method where
  access := accPublic ||| accFinal
  name := "equals"
  type := type
  body := { operations := operations l }

/-- Adds the method. -/
def add (l : Layout) : Assemble Unit := .ofBuild (Draft.method (method l))

end Equality

end SchemaRecords.Record
