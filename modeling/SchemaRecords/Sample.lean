import SchemaRecords.Compile

/-!
# Sample schemas

Schemas of any size, to measure what compiling costs: `wide` has many
properties in one type, `nested` one type in another to any depth.
-/

namespace SchemaRecords.Sample

open SchemaRecords.Json (Node)
open SchemaRecords.Output (MemorySink)

/-- A definition with the given type. -/
def typed (kind : String) : Node := .object [("type", .string kind)]

/-- A definition of unique identifiers. -/
def identifier : Node := .object [("format", .string "uuid"), ("type", .string "string")]

/-- A definition of lists of strings. -/
def strings : Node := .object [("items", typed "string"), ("type", .string "array")]

/-- The definition of the property with a number; kinds take turns. -/
def definition (i : Nat) : Node :=
  match i % 6 with
  | 0 => typed "string"
  | 1 => typed "integer"
  | 2 => typed "number"
  | 3 => typed "boolean"
  | 4 => identifier
  | _ => strings

/-- A type with `n` properties. -/
def wide (n : Nat) : Node :=
  let properties := (List.range n).map fun i => (s!"field{i}", definition i)
  Node.canonical (.object [("properties", .object properties), ("title", .string "Wide")])

/-- The properties of each level of `nested`, with the definition of the level inside it. -/
def levelProperties (child : Option Node) : List (String × Node) :=
  (match child with
    | some node => [("child", node)]
    | none => [])
  ++ [("label", typed "string"), ("tags", strings), ("weight", typed "number")]

/-- A level of `nested`. -/
def level (child : Option Node) : Node :=
  .object [("properties", .object (levelProperties child)), ("type", .string "object")]

/-- A level with `n` levels inside it. -/
def levels : Nat → Node
  | 0 => level none
  | n + 1 => level (some (levels n))

/-- A type with `n` types nested in each other. -/
def nested (n : Nat) : Node :=
  let child := match n with
    | 0 => none
    | n + 1 => some (levels n)
  .object [("properties", .object (levelProperties child)), ("title", .string "Tree"),
    ("type", .string "object")]

/-- The bytes of all classes of a schema together. -/
def compiledSize (document : Node) : Except CompileError Nat :=
  match Id.run ((compileDocument MemorySink.sink {} document).run {}) with
  | (.error e, _) => .error e
  | (.ok _, sink) => .ok (sink.artifacts.foldl (fun n a => n + a.bytes.length) 0)

end SchemaRecords.Sample
