import SchemaRecords.Json.Node

/-!
# Building documents from what a reader reports

A library that reads JSON texts does not know of documents. It reports the value
in a text, part by part, and a visitor builds a document from what it is told: an
item or an entry is appended when it is reported, so that objects keep the order
of their entries and those whose key occurs again.

`Report` is what can be reported about a value, `Report.visit` is the visitor, and
`Deserializer.parse` reads a text with whatever library is given.
-/

namespace SchemaRecords.Json

namespace Number

/-- The number of a signed integer. -/
def ofInt64 (value : Int64) : Number :=
  if value < 0 then .negative value else .natural value.toUInt64

/-- The number with the given bits, if it is finite. -/
def ofBits? (bits : UInt64) : Option Number :=
  if bits >>> 52 &&& 0x7FF = 0x7FF then none else some (.float bits)

end Number

/-- What is reported about a value. Reading may fail before anything is reported, and in a list or
a map after any of its parts; `ε` says why. -/
inductive Report (ε : Type) where
  | refused (e : ε)
  | unit
  | absent
  | present (inner : Report ε)
  | bool (value : Bool)
  | signed (value : Int64)
  | unsigned (value : UInt64)
  /-- A binary64 number, given by its bits. -/
  | double (bits : UInt64)
  /-- A string that is part of the text. -/
  | borrowed (text : String)
  | owned (text : String)
  | list (items : List (Report ε)) (failure : Option ε)
  | map (entries : List (String × Report ε)) (failure : Option ε)

namespace Report

variable {ε : Type}

mutual

/-- The document that is built from a report; `custom` words the visitor's own errors. -/
def visit (custom : String → ε) : Report ε → Except ε Node
  | refused e => .error e
  | unit => .ok .null
  | absent => .ok .null
  | present inner => inner.visit custom
  | bool value => .ok (.bool value)
  | signed value => .ok (.number (.ofInt64 value))
  | unsigned value => .ok (.number (.natural value))
  | double bits =>
    match Number.ofBits? bits with
    | some value => .ok (.number value)
    | none => .error (custom "non-finite number")
  | borrowed text => .ok (.string text)
  | owned text => .ok (.string text)
  | list items failure => visitItems custom items failure #[]
  | map entries failure => visitEntries custom entries failure #[]

/-- Appends the items to `done` as long as there are any. -/
def visitItems (custom : String → ε) :
    List (Report ε) → Option ε → Array Node → Except ε Node
  | [], some e, _ => .error e
  | [], none, done => .ok (.array done.toList)
  | item :: rest, failure, done =>
    match item.visit custom with
    | .error e => .error e
    | .ok node => visitItems custom rest failure (done.push node)

/-- Appends the entries to `done` as long as there are any. -/
def visitEntries (custom : String → ε) :
    List (String × Report ε) → Option ε → Array (String × Node) → Except ε Node
  | [], some e, _ => .error e
  | [], none, done => .ok (.object done.toList)
  | (key, value) :: rest, failure, done =>
    match value.visit custom with
    | .error e => .error e
    | .ok node => visitEntries custom rest failure (done.push (key, node))

end

end Report

/-- A library that reads JSON texts. -/
structure Deserializer (ε : Type) where
  /-- The report of the value in a text, and why the text is refused after it, if it is. -/
  read : String → Report ε × Option ε
  /-- The error with a wording of the visitor's. -/
  custom : String → ε

namespace Deserializer

variable {ε : Type}

/-- The document that a text holds. -/
def parse (d : Deserializer ε) (text : String) : Except ε Node :=
  match (d.read text).1.visit d.custom with
  | .error e => .error e
  | .ok node =>
    match (d.read text).2 with
    | some e => .error e
    | none => .ok node

end Deserializer

end SchemaRecords.Json
