/-!
# Why a text is not JSON

A `Failure` has a cause and a place. Places are counted in bytes of UTF-8 from
the end of the text, so that a reader need not know what it has already
consumed; `Failure.position` gives line and column once the whole text is at
hand.
-/

namespace SchemaRecords.Json

/-- Why a text is not JSON. -/
inductive Cause where
  | endInList
  | endInObject
  | endInString
  | endInValue
  | expectedColon
  | expectedListEnd
  | expectedObjectEnd
  | expectedWord
  | expectedValue
  | invalidEscape
  | invalidNumber
  | numberOutOfRange
  | controlCharacter
  | keyNotString
  | loneSurrogate
  | trailingComma
  | trailingCharacters
  | unfinishedEscape
  | tooDeep
  /-- A cause in other words. -/
  | other (message : String)
deriving DecidableEq, Repr

namespace Cause

/-- Whether the text just ended too early. -/
def isEnd : Cause → Bool
  | endInList => true
  | endInObject => true
  | endInString => true
  | endInValue => true
  | _ => false

/-- The cause in words. -/
def message : Cause → String
  | endInList => "EOF while parsing a list"
  | endInObject => "EOF while parsing an object"
  | endInString => "EOF while parsing a string"
  | endInValue => "EOF while parsing a value"
  | expectedColon => "expected `:`"
  | expectedListEnd => "expected `,` or `]`"
  | expectedObjectEnd => "expected `,` or `\x7d`"
  | expectedWord => "expected ident"
  | expectedValue => "expected value"
  | invalidEscape => "invalid escape"
  | invalidNumber => "invalid number"
  | numberOutOfRange => "number out of range"
  | controlCharacter => "control character (\\u0000-\\u001F) found while parsing a string"
  | keyNotString => "key must be a string"
  | loneSurrogate => "lone leading surrogate in hex escape"
  | trailingComma => "trailing comma"
  | trailingCharacters => "trailing characters"
  | unfinishedEscape => "unexpected end of hex escape"
  | tooDeep => "recursion limit exceeded"
  | other message => message

end Cause

/-- A cause and the number of bytes after the place where it was noticed. -/
structure Failure where
  cause : Cause
  left : Nat
deriving DecidableEq, Repr

/-- The length of a text in UTF-8. -/
def byteCount (text : List Char) : Nat :=
  text.foldl (fun n c => n + c.utf8Size) 0

namespace Failure

/-- Noticed at the start of `rest`. -/
def before (cause : Cause) (rest : List Char) : Failure := ⟨cause, byteCount rest⟩

/-- Noticed after the first byte of `rest`, or at the end if there is none. -/
def after (cause : Cause) (rest : List Char) : Failure := ⟨cause, byteCount rest - 1⟩

/-- Line and column after the first `n` bytes of a text, given those of its start. A column is
the number of bytes since the start of the line. -/
def advance (line column : Nat) : Nat → List Char → Nat × Nat
  | _, [] => (line, column)
  | n, c :: rest =>
    if n < c.utf8Size then (line, column + n)
    else if c = '\n' then advance (line + 1) 0 (n - 1) rest
    else advance line (column + c.utf8Size) (n - c.utf8Size) rest

/-- Line and column of a failure in `text`. -/
def position (f : Failure) (text : List Char) : Nat × Nat :=
  advance 1 0 (byteCount text - f.left) text

end Failure

/-- A failure with its place in the text. -/
structure Error where
  cause : Cause
  line : Nat
  column : Nat
deriving DecidableEq, Repr

namespace Error

/-- The wording of an error. Lines are counted from 1; an error without a place has line 0. -/
def message (e : Error) : String :=
  if e.line = 0 then e.cause.message
  else s!"{e.cause.message} at line {e.line} column {e.column}"

end Error

namespace Failure

/-- The failure with its place in `text`. -/
def locate (f : Failure) (text : List Char) : Error :=
  let (line, column) := f.position text
  ⟨f.cause, line, column⟩

end Failure

end SchemaRecords.Json
