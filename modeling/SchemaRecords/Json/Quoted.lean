import SchemaRecords.Json.Failure
import SchemaRecords.Text.Utf16

/-!
# Strings in JSON texts

A string ends at the first quote that no backslash escapes. A character beyond
U+FFFF may be written as two escapes, one for each of its UTF-16 code units;
neither may stand alone.
-/

namespace SchemaRecords.Json.Quoted

/-- The value of a hexadecimal digit. -/
def hexDigit? (c : Char) : Option UInt16 :=
  if '0' ≤ c ∧ c ≤ '9' then some (c.toNat - 48).toUInt16
  else if 'a' ≤ c ∧ c ≤ 'f' then some (c.toNat - 87).toUInt16
  else if 'A' ≤ c ∧ c ≤ 'F' then some (c.toNat - 55).toUInt16
  else none

/-- The code unit that four hexadecimal digits stand for. -/
def unit? (a b c d : Char) : Option UInt16 := do
  let a ← hexDigit? a
  let b ← hexDigit? b
  let c ← hexDigit? c
  let d ← hexDigit? d
  pure (a * 4096 + b * 256 + c * 16 + d)

/-- Why four hexadecimal digits could not be read from `text`: fewer than four bytes are left, or
they are something else. -/
def digitsFailure (text : List Char) : Failure :=
  if byteCount text < 4 then ⟨.endInString, 0⟩ else ⟨.invalidEscape, byteCount text - 4⟩

/-- The character a one-letter escape stands for. -/
def escaped? (c : Char) : Option Char :=
  if c = '"' then some '"'
  else if c = '\\' then some '\\'
  else if c = '/' then some '/'
  else if c = 'b' then some '\x08'
  else if c = 'f' then some '\x0c'
  else if c = 'n' then some '\n'
  else if c = 'r' then some '\r'
  else if c = 't' then some '\t'
  else none

/-- Why no second escape of a pair could be read from `text`. -/
def pairFailure : List Char → Failure
  | [] => ⟨.endInString, 0⟩
  | '\\' :: [] => ⟨.endInString, 0⟩
  | '\\' :: 'u' :: rest => digitsFailure rest
  | '\\' :: rest => .after .unfinishedEscape rest
  | rest => .after .unfinishedEscape rest

/-- Reads up to the closing quote; `done` holds the characters before, in reverse. -/
def readFrom (done : List Char) : List Char → Except Failure (String × List Char)
  | [] => .error (.before .endInString [])
  | '"' :: rest => .ok (String.ofList done.reverse, rest)
  | '\\' :: 'u' :: a :: b :: c :: d :: rest =>
    match unit? a b c d with
    | none => .error (digitsFailure (a :: b :: c :: d :: rest))
    | some high =>
      if Text.Utf16.isLow high then .error (.before .loneSurrogate rest)
      else if Text.Utf16.isHigh high then
        match rest with
        | '\\' :: 'u' :: a :: b :: c :: d :: rest' =>
          match unit? a b c d with
          | none => .error (digitsFailure (a :: b :: c :: d :: rest'))
          | some low =>
            if Text.Utf16.isLow low then readFrom (Text.Utf16.pair high low :: done) rest'
            else .error (.before .loneSurrogate rest')
        | _ => .error (pairFailure rest)
      else readFrom (Char.ofNat high.toNat :: done) rest
  | '\\' :: 'u' :: rest => .error (digitsFailure rest)
  | '\\' :: c :: rest =>
    match escaped? c with
    | some e => readFrom (e :: done) rest
    | none => .error (.after .invalidEscape (c :: rest))
  | '\\' :: [] => .error (.before .endInString [])
  | c :: rest =>
    if c.toNat < 32 then .error (.before .controlCharacter rest) else readFrom (c :: done) rest

/-- Reads a string after its opening quote. -/
def read (text : List Char) : Except Failure (String × List Char) :=
  readFrom [] text

end SchemaRecords.Json.Quoted
