import SchemaRecords.ClassFile.Error
import SchemaRecords.Record.Settings

/-!
# Why a record class cannot be made

The causes for which the classes of a model cannot be made, and their wording.
-/

namespace SchemaRecords.Record

/-- Why a record class cannot be made. -/
inductive Error where
  /-- The class does not fit the class-file format. -/
  | classFile (cause : ClassFile.Error)
  /-- A property refers to a record type that the model does not have. -/
  | unknownType (name field : String)
  /-- An accessor would be a method that every record class has. -/
  | reservedMember (name descriptor : String)
  | settings (fault : SettingsFault)
  /-- The constructor would have too many parameters. -/
  | parameterSlots (type : String) (slots : Nat)
  /-- The string form would have too many arguments. -/
  | argumentSlots (type : String) (slots : Nat)
deriving DecidableEq, Repr

/-- The parameter slots of a constructor: 255, less one for the object itself. -/
def maxParameterSlots : Nat := 254

/-- The argument slots of a string concatenation. -/
def maxArgumentSlots : Nat := 200

namespace Error

/-- The wording of an error. -/
def message : Error → String
  | classFile cause => s!"class file error: {cause.message}"
  | unknownType name field => s!"unknown type '{name}' in field '{field}'"
  | reservedMember name descriptor =>
    s!"accessor '{name}{descriptor}' clashes with a generated method"
  | settings (.package name) => s!"invalid package name '{name}'"
  | settings (.annotationType descriptor) =>
    s!"invalid annotation descriptor '{descriptor}', expected the form 'Lpkg/Name;'"
  | parameterSlots type slots =>
    s!"generation error: {type} needs {slots} constructor parameter slots, the limit is {maxParameterSlots}"
  | argumentSlots type slots =>
    s!"generation error: {type} needs {slots} toString argument slots, the limit is {maxArgumentSlots}"

end Error

end SchemaRecords.Record
