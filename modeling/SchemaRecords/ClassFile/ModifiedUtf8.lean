import SchemaRecords.ClassFile.Bytes
import SchemaRecords.ClassFile.Error
import SchemaRecords.Text.Utf16

/-!
# Modified UTF-8

The text encoding of class files. Each UTF-16 code unit is written on its own
as one, two or three bytes, so a character beyond U+FFFF takes six bytes, and
the unit 0 takes two, so that no zero byte ever appears. The decoder accepts
any group of the three shapes, also one longer than it need be.
-/

namespace SchemaRecords.ClassFile.ModifiedUtf8

/-- The bytes of one code unit. -/
def encodeUnit (u : UInt16) : Bytes :=
  if 0x0001 ≤ u && u ≤ 0x007F then [u.toUInt8]
  else if u ≤ 0x07FF then [(u >>> 6).toUInt8 ||| 0xC0, (u &&& 0x3F).toUInt8 ||| 0x80]
  else
    [(u >>> 12).toUInt8 ||| 0xE0, ((u >>> 6) &&& 0x3F).toUInt8 ||| 0x80,
      (u &&& 0x3F).toUInt8 ||| 0x80]

/-- How many bytes a code unit takes. -/
def unitLength (u : UInt16) : Nat :=
  if 0x0001 ≤ u && u ≤ 0x007F then 1
  else if u ≤ 0x07FF then 2
  else 3

/-- The bytes of a text. -/
def encode (text : String) : Bytes :=
  (Text.Utf16.encode text.toList).flatMap encodeUnit

/-- How many bytes a text takes. -/
def encodedLength (text : String) : Nat :=
  (Text.Utf16.encode text.toList).foldl (fun n u => n + unitLength u) 0

/-- Whether a byte has the form `10xxxxxx`. -/
def isContinuation (b : UInt8) : Bool := b &&& 0xC0 == 0x80

/-- The code unit of a two-byte group. -/
def unit2 (b c : UInt8) : UInt16 :=
  ((b &&& 0x1F).toUInt16 <<< 6) ||| (c &&& 0x3F).toUInt16

/-- The code unit of a three-byte group. -/
def unit3 (b c d : UInt8) : UInt16 :=
  ((b &&& 0x0F).toUInt16 <<< 12) ||| ((c &&& 0x3F).toUInt16 <<< 6) ||| (d &&& 0x3F).toUInt16

/-- Reads the groups in `bytes`, of which the first starts at `offset`, after the code units in
`done`, which are in reverse order. -/
def unitsFrom (offset : Nat) (done : List UInt16) : Bytes → Except Error (List UInt16)
  | [] => .ok done.reverse
  | b :: rest =>
    if b ≠ 0 ∧ b &&& 0x80 = 0 then unitsFrom (offset + 1) (b.toUInt16 :: done) rest
    else if b &&& 0xE0 = 0xC0 then
      match rest with
      | [] => .error (.invalidText (offset + 1))
      | c :: rest =>
        if isContinuation c then unitsFrom (offset + 2) (unit2 b c :: done) rest
        else .error (.invalidText (offset + 1))
    else if b &&& 0xF0 = 0xE0 then
      match rest with
      | [] => .error (.invalidText (offset + 1))
      | [c] => .error (.invalidText (if isContinuation c then offset + 2 else offset + 1))
      | c :: d :: rest =>
        if isContinuation c then
          if isContinuation d then unitsFrom (offset + 3) (unit3 b c d :: done) rest
          else .error (.invalidText (offset + 2))
        else .error (.invalidText (offset + 1))
    else .error (.invalidText offset)

/-- The text that `bytes` encode. Errors count offsets from `offset`, the place of the first
byte; an unpaired surrogate is reported there. -/
def decode (bytes : Bytes) (offset : Nat) : Except Error String :=
  match unitsFrom offset [] bytes with
  | .error e => .error e
  | .ok units =>
    match Text.Utf16.decode? units with
    | some text => .ok (String.ofList text)
    | none => .error (.invalidText offset)

end SchemaRecords.ClassFile.ModifiedUtf8
