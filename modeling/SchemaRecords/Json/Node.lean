/-!
# JSON documents

A `Node` is a JSON value. Objects keep their entries in the order in which the
document lists them, and they keep entries whose key occurs again.
`Node.canonical` is the view in which neither order nor repetition matters:
keys are sorted and the last entry of a key stands.
-/

namespace SchemaRecords.Json

/-- A number. Integers that 64 bits can hold stay exact. -/
inductive Number where
  | natural (value : UInt64)
  | negative (value : Int64)
  /-- A binary64 number, given by its bits. -/
  | float (bits : UInt64)
deriving DecidableEq, Repr

/-- A JSON value. -/
inductive Node where
  | null
  | bool (value : Bool)
  | number (value : Number)
  | string (text : String)
  | array (items : List Node)
  | object (entries : List (String × Node))

namespace Node

/-- The kind of value, in the words of JSON. -/
def kind : Node → String
  | null => "null"
  | bool _ => "boolean"
  | number _ => "number"
  | string _ => "string"
  | array _ => "array"
  | object _ => "object"

/-- Whether the value is null. -/
def isNull : Node → Bool
  | null => true
  | _ => false

/-- The text of a string. -/
def text? : Node → Option String
  | string text => some text
  | _ => none

/-- The entries of an object. -/
def entries? : Node → Option (List (String × Node))
  | object entries => some entries
  | _ => none

/-- The first value under `key` in an object. -/
def get? (node : Node) (key : String) : Option Node :=
  match node with
  | object entries => entries.lookup key
  | _ => none

/-- Puts an entry where its key belongs in a sorted list, in place of an entry with that key. -/
def put (key : String) (value : Node) : List (String × Node) → List (String × Node)
  | [] => [(key, value)]
  | (k, v) :: rest =>
    if key < k then (key, value) :: (k, v) :: rest
    else if key = k then (key, value) :: rest
    else (k, v) :: put key value rest

mutual

/-- The value with the keys of every object sorted, of which only the last entry stands. -/
def canonical : Node → Node
  | null => null
  | bool value => bool value
  | number value => number value
  | string text => string text
  | array items => array (canonicalItems items)
  | object entries => object (canonicalEntries entries [])

/-- Makes every item canonical. -/
def canonicalItems : List Node → List Node
  | [] => []
  | item :: rest => item.canonical :: canonicalItems rest

/-- Puts every entry into the sorted list `done`. -/
def canonicalEntries : List (String × Node) → List (String × Node) → List (String × Node)
  | [], done => done
  | (key, value) :: rest, done => canonicalEntries rest (put key value.canonical done)

end

end Node

end SchemaRecords.Json
