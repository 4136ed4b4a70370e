import SchemaRecords.Record.Recipe

/-!
# String forms

The method that gives the string form of a record pushes the components that are
not arrays and calls a concatenation that is linked at run time from the recipe.
-/

namespace SchemaRecords.Record

open SchemaRecords.ClassFile

namespace Rendering

/-- The class that links concatenations. -/
def factoryName : String := "java/lang/invoke/StringConcatFactory"

/-- The method that links concatenations. -/
def factoryMethod : String := "makeConcatWithConstants"

/-- The descriptor of that method. -/
def factoryDescriptor : String :=
  "(Ljava/lang/invoke/MethodHandles$Lookup;Ljava/lang/String;Ljava/lang/invoke/MethodType;"
    ++ "Ljava/lang/String;[Ljava/lang/Object;)Ljava/lang/invoke/CallSite;"

/-- The name of the method. -/
def name : String := "toString"

/-- The type of strings. -/
def stringType : FieldType := .object FieldType.stringName

/-- The components whose values are shown. -/
def shown (l : Layout) : List Component := l.components.filter fun c => !c.type.isArray

/-- The type of the call. -/
def callType (l : Layout) : MethodType := ⟨(shown l).map (·.type), some stringType⟩

/-- The pool index of the call site. -/
def callSite (l : Layout) : Build UInt16 := do
  let recipe := Recipe.ofRecord l.typeName l.components
  let handle ←
    Draft.intern (Pool.methodHandle .invokeStatic factoryName factoryMethod factoryDescriptor)
  let arguments ← (recipe.template :: recipe.constants).mapM fun text =>
    Draft.intern (Pool.string text)
  Draft.invokeDynamic handle arguments name (callType l)

/-- The operations of the method, with the index of the call site. -/
def operations (l : Layout) (site : UInt16) : List Operation :=
  (shown l).flatMap l.loadThis ++ [.invokeDynamic site (callType l), .returnValue stringType]

/-- The method, with the index of the call site. -/
def method (l : Layout) (site : UInt16) : Method where
  access := accPublic ||| accFinal
  name := name
  type := .returning stringType
  body := { operations := operations l site }

/-- Adds the method. -/
def add (l : Layout) : Assemble Unit :=
  let slots := (callType l).parameterSlots.toNat
  if maxArgumentSlots < slots then throw (.argumentSlots l.typeName slots)
  else .ofBuild do
    let site ← callSite l
    Draft.method (method l site)

end Rendering

end SchemaRecords.Record
