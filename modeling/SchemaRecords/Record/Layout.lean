import SchemaRecords.ClassFile.Draft
import SchemaRecords.Record.Error
import SchemaRecords.Schema.Model

/-!
# From record types to classes

A `Layout` is what the members of a record class are made from: its names, and
a component with a field type for each property. `Assemble` is the monad in
which members are added to the class.
-/

namespace SchemaRecords.Record

open SchemaRecords.ClassFile
open SchemaRecords.Schema (Primitive WellKnown PropertyType RecordType)

/-- The class that every record class extends, by its internal name. -/
def recordName : String := "java/lang/Record"

/-- The class of boxed integers. -/
def integerName : String := "java/lang/Integer"

/-- The class of boxed numbers. -/
def doubleName : String := "java/lang/Double"

/-- The class of boxed booleans. -/
def booleanName : String := "java/lang/Boolean"

/-- The class that holds values of a well-known type. -/
def wellKnownName : WellKnown → String
  | .offsetDateTime => "java/time/OffsetDateTime"
  | .offsetTime => "java/time/OffsetTime"
  | .localDate => "java/time/LocalDate"
  | .duration => "java/time/Duration"
  | .ipv4Address => "java/net/Inet4Address"
  | .ipv6Address => "java/net/Inet6Address"
  | .uuid => "java/util/UUID"
  | .uri => "java/net/URI"

/-- The class that holds values of a scalar type. -/
def boxName : Primitive → String
  | .integer => integerName
  | .number => doubleName
  | .boolean => booleanName
  | .string => FieldType.stringName

/-- The reference type that holds values of a property type. Elements of arrays are always held
by reference. -/
def boxedType (s : Settings) : PropertyType → FieldType
  | .primitive type => .object (boxName type)
  | .wellKnown type => .object (wellKnownName type)
  | .reference name => .object (s.internalName name)
  | .array element => .array (boxedType s element)
  | .generic => .object FieldType.objectName

/-- The primitive type that holds values of a scalar type; strings have none. -/
def primitiveType? : Primitive → Option FieldType
  | .integer => some .int
  | .number => some .double
  | .boolean => some .boolean
  | .string => none

/-- The type of the field for a property type. -/
def fieldType (s : Settings) (type : PropertyType) : FieldType :=
  match type with
  | .primitive kind =>
    if s.primitiveValues then (primitiveType? kind).getD (boxedType s type) else boxedType s type
  | _ => boxedType s type

/-- A component of a record: a key, and the field that holds its value. -/
structure Component where
  key : String
  name : String
  type : FieldType
deriving DecidableEq, Repr

/-- A record class to be made. -/
structure Layout where
  typeName : String
  /-- The name of the class inside class files. -/
  thisName : String
  components : List Component
  settings : Settings
deriving DecidableEq, Repr

/-- A step in making a record class. What a failed step added stays. -/
abbrev Assemble (α : Type) := EStateM Error Draft α

/-- A step of class construction as a step in making a record class. -/
def Assemble.ofBuild {α : Type} (step : Build α) : Assemble α := fun d =>
  match step d with
  | .ok a d => .ok a d
  | .error e d => .error (.classFile e) d

namespace Layout

/-- The layout of a record type. -/
def ofType (s : Settings) (type : RecordType) : Layout where
  typeName := type.name
  thisName := s.internalName type.name
  components := type.properties.map fun p => ⟨p.key, p.field, fieldType s p.type⟩
  settings := s

/-- The verifier's view of the record. -/
def thisType (l : Layout) : VerificationType := .object l.thisName

/-- The flags of a record class. -/
def access : UInt16 := accPublic ||| accFinal ||| accSuper

/-- The class without members. -/
def draft (l : Layout) : Except Error Draft :=
  match Draft.new l.thisName recordName access with
  | .ok d => .ok d
  | .error e => .error (.classFile e)

/-- The annotations of a component. -/
def annotations (l : Layout) (c : Component) : List AnnotationEntry :=
  (l.settings.keyEntry? c.key).toList

/-- Pushes a component of the record in a local. -/
def loadThis (l : Layout) (c : Component) : List Operation :=
  [.loadReference 0, .getField l.thisName c.name c.type]

end Layout

end SchemaRecords.Record
