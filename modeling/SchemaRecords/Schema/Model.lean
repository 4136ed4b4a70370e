/-!
# Record types

What a schema document describes: record types whose properties have scalar
types, array types or other record types. Record types refer to each other by
name only. A `Model` is a root type and the types found inside it.
-/

namespace SchemaRecords.Schema

/-- The plain scalar types. -/
inductive Primitive where
  | integer
  | number
  | boolean
  | string
deriving DecidableEq, Repr

namespace Primitive

/-- The name of the type. -/
def name : Primitive → String
  | integer => "Integer"
  | number => "Number"
  | boolean => "Boolean"
  | string => "String"

end Primitive

/-- The scalar types that the format of a string selects. -/
inductive WellKnown where
  | offsetDateTime
  | offsetTime
  | localDate
  | duration
  | ipv4Address
  | ipv6Address
  | uuid
  | uri
deriving DecidableEq, Repr

namespace WellKnown

/-- The name of the type. -/
def name : WellKnown → String
  | offsetDateTime => "OffsetDateTime"
  | offsetTime => "OffsetTime"
  | localDate => "LocalDate"
  | duration => "Duration"
  | ipv4Address => "Ipv4Address"
  | ipv6Address => "Ipv6Address"
  | uuid => "Uuid"
  | uri => "Uri"

end WellKnown

/-- The type of a property. -/
inductive PropertyType where
  | primitive (type : Primitive)
  | wellKnown (type : WellKnown)
  /-- The record type of a name. -/
  | reference (name : String)
  | array (element : PropertyType)
  /-- Any value. -/
  | generic
deriving DecidableEq, Repr

namespace PropertyType

/-- The name of the type, with `[]` after an element type. -/
def name : PropertyType → String
  | primitive type => type.name
  | wellKnown type => type.name
  | reference name => name
  | array element => element.name ++ "[]"
  | generic => "Object"

/-- Whether the type is an array type. -/
def isArray : PropertyType → Bool
  | array _ => true
  | _ => false

/-- The record type that values of the type hold, directly or in arrays. -/
def reference? : PropertyType → Option String
  | reference name => some name
  | array element => element.reference?
  | _ => none

end PropertyType

/-- A property of a record type. -/
structure Property where
  /-- The key in documents. -/
  key : String
  /-- The name of the field that holds the value. -/
  field : String
  type : PropertyType
deriving DecidableEq, Repr

/-- A record type: a name and properties. -/
structure RecordType where
  name : String
  properties : List Property
deriving DecidableEq, Repr

namespace RecordType

/-- A record type with its properties in the order of their keys. Properties with equal keys
keep their order. -/
def ofProperties (name : String) (properties : List Property) : RecordType :=
  ⟨name, properties.mergeSort fun a b => !decide (b.key < a.key)⟩

/-- The first property with a key. -/
def property? (r : RecordType) (key : String) : Option Property :=
  r.properties.find? fun p => p.key == key

end RecordType

/-- A root type and the types nested in it, in the order in which they were found. -/
structure Model where
  root : RecordType
  nested : List RecordType
deriving DecidableEq, Repr

namespace Model

/-- All types, the root first. -/
def types (m : Model) : List RecordType := m.root :: m.nested

/-- The number of types. -/
def size (m : Model) : Nat := m.types.length

/-- The first type with a name. -/
def get? (m : Model) (name : String) : Option RecordType :=
  m.types.find? fun r => r.name == name

end Model

end SchemaRecords.Schema
