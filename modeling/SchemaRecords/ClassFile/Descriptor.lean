/-!
# Field types and method types

The types of fields, parameters and results, with the descriptor by which a
class file spells them, the name a reader sees, and the number of stack or local
slots a value takes.
-/

namespace SchemaRecords.ClassFile

/-- The part of a slashed or dotted name after its last separator. -/
def simpleName (name : String) : String :=
  String.ofList (name.toList.reverse.takeWhile fun c => c ≠ '/' ∧ c ≠ '.').reverse

/-- How instructions distinguish values: `boolean` and `int` values are handled alike, and so
are all references. -/
inductive Family where
  | int
  | double
  | reference
deriving DecidableEq, Repr

/-- The type of a field, parameter or result. -/
inductive FieldType where
  | boolean
  | int
  | double
  | object (name : String)
  | array (element : FieldType)
deriving DecidableEq, Repr

namespace FieldType

/-- The internal name of the class of all objects. -/
def objectName : String := "java/lang/Object"

/-- The internal name of the class of strings. -/
def stringName : String := "java/lang/String"

/-- The descriptor as characters. -/
def signature : FieldType → List Char
  | boolean => ['Z']
  | int => ['I']
  | double => ['D']
  | object name => 'L' :: name.toList ++ [';']
  | array element => '[' :: element.signature

/-- The descriptor: one letter for a primitive, `L...;` around a class name, `[` before an
element type. -/
def descriptor (t : FieldType) : String := String.ofList t.signature

/-- The name by which a class constant refers to the type. -/
def className : FieldType → String
  | object name => name
  | t => t.descriptor

/-- The slots a value takes. -/
def slots : FieldType → UInt16
  | double => 2
  | _ => 1

/-- Whether the type is an array type. -/
def isArray : FieldType → Bool
  | array _ => true
  | _ => false

/-- The type of the elements of an array type. -/
def element? : FieldType → Option FieldType
  | array element => some element
  | _ => none

/-- The type's short name, with `[]` after an element type. -/
def displayName : FieldType → String
  | boolean => "boolean"
  | int => "int"
  | double => "double"
  | object name => simpleName name
  | array element => element.displayName ++ "[]"

/-- Which instructions handle values of the type. -/
def family : FieldType → Family
  | boolean => .int
  | int => .int
  | double => .double
  | object _ => .reference
  | array _ => .reference

end FieldType

/-- Parameter types and result type of a method; no result type means `void`. -/
structure MethodType where
  parameters : List FieldType
  result : Option FieldType
deriving DecidableEq, Repr

namespace MethodType

/-- No parameters and no result. -/
def void : MethodType := ⟨[], none⟩

/-- No parameters and a result. -/
def returning (t : FieldType) : MethodType := ⟨[], some t⟩

/-- The descriptor: the parameters in parentheses, then the result. -/
def descriptor (m : MethodType) : String :=
  let result := match m.result with
    | some t => t.signature
    | none => ['V']
  String.ofList ('(' :: m.parameters.flatMap FieldType.signature ++ ')' :: result)

/-- The slots all parameters take together. -/
def parameterSlots (m : MethodType) : UInt16 :=
  m.parameters.foldl (fun n t => n + t.slots) 0

/-- The slots the result takes. -/
def resultSlots (m : MethodType) : UInt16 :=
  match m.result with
  | some t => t.slots
  | none => 0

end MethodType

end SchemaRecords.ClassFile
