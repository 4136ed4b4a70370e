import SchemaRecords.Json.Deserializer
import SchemaRecords.Json.Numeral
import SchemaRecords.Json.Quoted

/-!
# Reading JSON texts

`deserializer` reports the value in a text, and `parse` gives the document that is
built from the report. Arrays and objects may be nested 127 deep; a reader for
values with room for `d + 1` more levels uses the one with room for `d` for what
is inside. Lists of items are read with a bound on their number that no text
reaches, the number of its characters.
-/

namespace SchemaRecords.Json

/-- Takes a value from the front of a text. -/
abbrev Reader (α : Type) := List Char → Except Failure (α × List Char)

/-- Takes a value from the front of a text and reports it. -/
abbrev ValueReader := Reader (Report Error)

namespace Parse

/-- How deep arrays and objects may be nested. -/
def maxDepth : Nat := 127

/-- Whether a character may stand between tokens. -/
def isBlank (c : Char) : Bool := c == ' ' || c == '\n' || c == '\t' || c == '\r'

/-- The text without the blanks at its front. -/
def skip (text : List Char) : List Char := text.dropWhile isBlank

/-- Reads the rest of a word, whose value is known. -/
def word (value : Report Error) : List Char → ValueReader
  | [], text => .ok (value, text)
  | _ :: _, [] => .error (.before .endInValue [])
  | w :: ws, c :: text =>
    if c = w then word value ws text else .error (.after .expectedWord (c :: text))

/-- Reads the items of an array up to its end. `text` starts with an item. -/
def items (item : ValueReader) : Nat → List (Report Error) → ValueReader
  | 0, _, text => .error (.before .endInList text)
  | fuel + 1, done, text =>
    match item text with
    | .error e => .error e
    | .ok (report, rest) =>
      match skip rest with
      | [] => .error (.before .endInList [])
      | ']' :: rest => .ok (.list (report :: done).reverse none, rest)
      | ',' :: rest =>
        match skip rest with
        | [] => .error (.before .endInValue [])
        | ']' :: rest => .error (.before .trailingComma rest)
        | c :: rest => items item fuel (report :: done) (c :: rest)
      | c :: rest => .error (.after .expectedListEnd (c :: rest))

/-- Reads an array after its opening bracket. -/
def array (item : ValueReader) (fuel : Nat) : ValueReader := fun text =>
  match skip text with
  | [] => .error (.before .endInList [])
  | ']' :: rest => .ok (.list [] none, rest)
  | c :: rest => items item fuel [] (c :: rest)

/-- Reads the value of an entry, after its key. -/
def entryValue (item : ValueReader) : ValueReader := fun text =>
  match skip text with
  | [] => .error (.before .endInObject [])
  | ':' :: rest => item rest
  | c :: rest => .error (.after .expectedColon (c :: rest))

/-- Reads the entries of an object up to its end. `text` starts after the quote that opens a
key. -/
def entries (item : ValueReader) : Nat → List (String × Report Error) → ValueReader
  | 0, _, text => .error (.before .endInObject text)
  | fuel + 1, done, text =>
    match Quoted.read text with
    | .error e => .error e
    | .ok (key, rest) =>
      match entryValue item rest with
      | .error e => .error e
      | .ok (report, rest) =>
        match skip rest with
        | [] => .error (.before .endInObject [])
        | '}' :: rest => .ok (.map ((key, report) :: done).reverse none, rest)
        | ',' :: rest =>
          match skip rest with
          | [] => .error (.before .endInValue [])
          | '"' :: rest => entries item fuel ((key, report) :: done) rest
          | '}' :: rest => .error (.before .trailingComma rest)
          | c :: rest => .error (.after .keyNotString (c :: rest))
        | c :: rest => .error (.after .expectedObjectEnd (c :: rest))

/-- Reads an object after its opening brace. -/
def object (item : ValueReader) (fuel : Nat) : ValueReader := fun text =>
  match skip text with
  | [] => .error (.before .endInObject [])
  | '}' :: rest => .ok (.map [] none, rest)
  | '"' :: rest => entries item fuel [] rest
  | c :: rest => .error (.after .keyNotString (c :: rest))

/-- Reads a number as a value. -/
def number (negative : Bool) : ValueReader := fun text =>
  match Numeral.read negative text with
  | .ok (.natural n, rest) => .ok (.unsigned n, rest)
  | .ok (.negative n, rest) => .ok (.signed n, rest)
  | .ok (.float bits, rest) => .ok (.double bits, rest)
  | .error e => .error e

/-- Reads a value whose arrays and objects are read by the given readers. -/
def scalarOr (array object : ValueReader) : ValueReader := fun text =>
  match skip text with
  | [] => .error (.before .endInValue [])
  | 'n' :: rest => word .unit ['u', 'l', 'l'] rest
  | 't' :: rest => word (.bool true) ['r', 'u', 'e'] rest
  | 'f' :: rest => word (.bool false) ['a', 'l', 's', 'e'] rest
  | '-' :: rest => number true rest
  | '"' :: rest =>
    match Quoted.read rest with
    | .ok (text, rest) => .ok (.owned text, rest)
    | .error e => .error e
  | '[' :: rest => array rest
  | '{' :: rest => object rest
  | c :: rest =>
    if Numeral.isDigit c then number false (c :: rest)
    else .error (.after .expectedValue (c :: rest))

/-- Refuses an array or object that is nested too deep. -/
def tooDeep : ValueReader := fun rest => .error (.before .tooDeep rest)

/-- Reads a value in which arrays and objects may be nested to a given depth. -/
def value (fuel : Nat) : Nat → ValueReader
  | 0 => scalarOr tooDeep tooDeep
  | depth + 1 => scalarOr (array (value fuel depth) fuel) (object (value fuel depth) fuel)

end Parse

/-- The reader of this library. What stands behind a value must be blank. -/
def deserializer : Deserializer Error where
  read text :=
    match Parse.value text.toList.length Parse.maxDepth text.toList with
    | .error e => (.refused (e.locate text.toList), none)
    | .ok (report, rest) =>
      match Parse.skip rest with
      | [] => (report, none)
      | c :: rest =>
        (report, some ((Failure.after .trailingCharacters (c :: rest)).locate text.toList))
  custom message := ⟨.other message, 0, 0⟩

/-- The document that a text holds. -/
def parse (text : String) : Except Error Node := deserializer.parse text

end SchemaRecords.Json
