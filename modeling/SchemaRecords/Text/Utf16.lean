/-!
# UTF-16 code units

Text as 16-bit code units: one unit for a character below U+10000, a high and a
low surrogate for the others. `decode?` refuses a surrogate that stands alone.
-/

namespace SchemaRecords.Text.Utf16

/-- The code units of a character. -/
def units (c : Char) : List UInt16 :=
  if c.toNat < 0x10000 then [c.toNat.toUInt16]
  else
    let v := c.toNat - 0x10000
    [(0xD800 + v / 1024).toUInt16, (0xDC00 + v % 1024).toUInt16]

/-- The code units of a text. -/
def encode (text : List Char) : List UInt16 :=
  text.flatMap units

/-- Whether `u` is the first half of a pair. -/
def isHigh (u : UInt16) : Bool := 0xD800 ≤ u && u < 0xDC00

/-- Whether `u` is the second half of a pair. -/
def isLow (u : UInt16) : Bool := 0xDC00 ≤ u && u < 0xE000

/-- The character a surrogate pair stands for. -/
def pair (high low : UInt16) : Char :=
  Char.ofNat (0x10000 + (high.toNat - 0xD800) * 1024 + (low.toNat - 0xDC00))

/-- Decodes `units` after the characters in `done`, which are in reverse order. -/
def decodeFrom (done : List Char) : List UInt16 → Option (List Char)
  | [] => some done.reverse
  | u :: rest =>
    if isHigh u then
      match rest with
      | [] => none
      | v :: rest => if isLow v then decodeFrom (pair u v :: done) rest else none
    else if isLow u then none
    else decodeFrom (Char.ofNat u.toNat :: done) rest

/-- The text whose code units are given, if every surrogate has its partner. -/
def decode? (units : List UInt16) : Option (List Char) :=
  decodeFrom [] units

end SchemaRecords.Text.Utf16
