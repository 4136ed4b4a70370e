import SchemaRecords.Record.Layout

/-!
# Fields and accessors

A record class has a private field for each component and a public method of
the same name that returns its value.
-/

namespace SchemaRecords.Record

open SchemaRecords.ClassFile

namespace Accessor

/-- The methods without parameters that every record class has. -/
def reserved : List (String × String) :=
  [("toString", "()Ljava/lang/String;"), ("hashCode", "()I")]

/-- The field of a component. -/
def field (l : Layout) (c : Component) : Field where
  access := accPrivate ||| accFinal
  name := c.name
  type := c.type
  annotations := l.annotations c

/-- The type of an accessor. -/
def type (c : Component) : MethodType := .returning c.type

/-- Whether an accessor would be a method that every record class has. -/
def isReserved (c : Component) : Bool :=
  reserved.contains (c.name, (type c).descriptor)

/-- The operations of an accessor. -/
def operations (l : Layout) (c : Component) : List Operation :=
  l.loadThis c ++ [.returnValue c.type]

/-- The accessor of a component. -/
def method (l : Layout) (c : Component) : Method where
  access := accPublic
  name := c.name
  type := type c
  body := { operations := operations l c }

/-- Adds an accessor. -/
def addMethod (l : Layout) (c : Component) : Assemble Unit :=
  if isReserved c then throw (.reservedMember c.name (type c).descriptor)
  else .ofBuild (Draft.method (method l c))

/-- Adds all fields, then all accessors. -/
def add (l : Layout) : Assemble Unit := do
  l.components.forM fun c => .ofBuild (Draft.field (field l c))
  l.components.forM (addMethod l)

end Accessor

end SchemaRecords.Record
