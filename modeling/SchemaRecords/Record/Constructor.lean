import SchemaRecords.Record.Layout

/-!
# The constructor

A record class has one constructor. It has a parameter for each component, in
order, and stores each in its field.
-/

namespace SchemaRecords.Record

open SchemaRecords.ClassFile

namespace Constructor

/-- The name of constructors. -/
def name : String := "<init>"

/-- The type of the constructor. -/
def type (l : Layout) : MethodType := ⟨l.components.map (·.type), none⟩

/-- The slots of all parameters. -/
def slots (l : Layout) : Nat :=
  l.components.foldl (fun n c => n + c.type.slots.toNat) 0

/-- Stores parameters, of which the first is in the local at `slot`. -/
def stores (l : Layout) (slot : UInt16) : List Component → List Operation
  | [] => []
  | c :: rest =>
    [.loadReference 0, .load slot c.type, .putField l.thisName c.name c.type]
      ++ stores l (slot + c.type.slots) rest

/-- The operations of the constructor. -/
def operations (l : Layout) : List Operation :=
  [.loadReference 0, .invoke .special recordName name .void]
    ++ stores l 1 l.components ++ [.returnVoid]

/-- The annotations of the parameters. -/
def parameterAnnotations (l : Layout) : List (List AnnotationEntry) :=
  if l.settings.keepKeys then l.components.map l.annotations else []

/-- The constructor. -/
def method (l : Layout) : Method where
  access := accPublic
  name := name
  type := type l
  parameterAnnotations := parameterAnnotations l
  body := { operations := operations l }

/-- Adds the constructor. -/
def add (l : Layout) : Assemble Unit :=
  if maxParameterSlots < slots l then throw (.parameterSlots l.typeName (slots l))
  else .ofBuild (Draft.method (method l))

end Constructor

end SchemaRecords.Record
