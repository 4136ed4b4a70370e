import SchemaRecords.ClassFile.Image
import SchemaRecords.Text.Quoted

/-!
# Summaries of class files

A summary names the class, its fields with their annotations, its methods with
the size of their code, and its bootstrap methods with their arguments, one to a
line.
-/

namespace SchemaRecords.ClassFile.Summary

/-- Access flags as four hexadecimal digits. -/
def flags (access : UInt16) : String := "0x" ++ Text.Hex.lower 4 access.toNat

/-- The part of a line that names a member. -/
def member (m : MemberInfo) : String :=
  "  " ++ flags m.access ++ " " ++ m.name ++ " " ++ m.descriptor

/-- Names and values in brackets. -/
def elements (pairs : List (String × String)) : String :=
  let shown := pairs.map fun (name, value) =>
    "(" ++ Text.quoted name ++ ", " ++ Text.quoted value ++ ")"
  "[" ++ String.intercalate ", " shown ++ "]"

/-- The lines of a field. -/
def field (c : Image) (m : MemberInfo) : Except Error (List String) := do
  let annotations ← c.annotations m
  pure (member m :: annotations.map fun a => "    @" ++ a.type ++ " " ++ elements a.elements)

/-- The line of a method. -/
def method (c : Image) (m : MemberInfo) : Except Error String := do
  match ← c.code m with
  | none => pure (member m)
  | some code =>
    let size := code.bytes.length
    pure (member m ++ s!" [stack={code.maxStack}, locals={code.maxLocals}, code={size}]")

/-- An argument of a bootstrap method. -/
def argument : BootstrapArgument → String
  | .string text => Text.quoted text
  | .integer value => toString value.toInt
  | .classRef name => "class " ++ name

/-- The lines of a bootstrap method with its number. -/
def bootstrap (b : BootstrapInfo) (number : Nat) : List String :=
  s!"  #{number} {b.kind.name} {b.method.owner}.{b.method.name}{b.method.descriptor}"
    :: b.arguments.map fun a => "    " ++ argument a

/-- The lines of all bootstrap methods. -/
def bootstraps (bs : List BootstrapInfo) : List String :=
  if bs.isEmpty then []
  else s!"bootstrap methods ({bs.length})" :: bs.zipIdx.flatMap fun (b, i) => bootstrap b i

/-- The lines of a summary. -/
def lines (c : Image) : Except Error (List String) := do
  let fields ← c.fields.mapM (field c)
  let methods ← c.methods.mapM (method c)
  let linked ← c.bootstraps
  pure
    ([s!"class {c.name}", s!"  version: {c.major}.{c.minor}", "  flags: " ++ flags c.access,
        "  super: " ++ c.superName.getD "-", s!"fields ({c.fields.length})"]
      ++ fields.flatten
      ++ [s!"methods ({c.methods.length})"]
      ++ methods
      ++ bootstraps linked)

/-- The summary of a class file. -/
def ofBytes (bytes : Bytes) : Except Error String := do
  let image ← Image.parse bytes
  let lines ← lines image
  pure (String.join (lines.map (· ++ "\n")))

end SchemaRecords.ClassFile.Summary
