import SchemaRecords.Text.Printable

/-!
# Numbers and texts in messages

`Hex.lower` and `Hex.upper` are the fixed-width hexadecimal forms that messages
and summaries use. `quoted` is how a summary shows a text: in double quotes, with
short escapes for quotes, backslashes and the common controls, and the number of
every other character that is not printable.
-/

namespace SchemaRecords.Text

namespace Hex

/-- `n` in base 16 with small letters, filled with zeros on the left up to `width` digits. -/
def lower (width n : Nat) : String :=
  let digits := Nat.toDigits 16 n
  String.ofList (List.replicate (width - digits.length) '0' ++ digits)

/-- `n` in base 16 with capital letters, filled with zeros on the left up to `width` digits. -/
def upper (width n : Nat) : String :=
  String.ofList ((lower width n).toList.map Char.toUpper)

end Hex

namespace Quoted

/-- The letter that stands after a backslash for a character. -/
def letter? (c : Char) : Option Char :=
  if c = '"' then some '"'
  else if c = '\\' then some '\\'
  else if c = '\n' then some 'n'
  else if c = '\r' then some 'r'
  else if c = '\t' then some 't'
  else if c.toNat = 0 then some '0'
  else none

/-- How a character is shown. -/
def character (c : Char) : List Char :=
  match letter? c with
  | some l => ['\\', l]
  | none =>
    if isPrintable c then [c]
    else '\\' :: 'u' :: '\x7b' :: (Hex.lower 1 c.toNat).toList ++ ['\x7d']

end Quoted

/-- The text in quotes. -/
def quoted (text : String) : String :=
  String.ofList ('"' :: text.toList.flatMap Quoted.character ++ ['"'])

end SchemaRecords.Text
