import SchemaRecords.ClassFile.Error

/-!
# Bytes and byte buffers

Class files are byte sequences in which every number is written with its most
significant byte first. `Bytes.ofUInt16` and `Bytes.ofUInt32` write words;
`Bytes.toNat` reads the number that a byte sequence spells.

A `Buffer` grows at its end. Bytes already written can be replaced by the same
number of bytes (`Buffer.patch?`), which is how the length of an attribute is
filled in once its body is known: `Buffer.openAttribute` leaves four zero bytes
and `Buffer.closeAttribute` replaces them.
-/

namespace SchemaRecords.ClassFile

/-- A sequence of bytes. -/
abbrev Bytes := List UInt8

namespace Bytes

/-- The two bytes of a 16-bit word. -/
def ofUInt16 (n : UInt16) : Bytes :=
  [(n >>> 8).toUInt8, n.toUInt8]

/-- The four bytes of a 32-bit word. -/
def ofUInt32 (n : UInt32) : Bytes :=
  [(n >>> 24).toUInt8, (n >>> 16).toUInt8, (n >>> 8).toUInt8, n.toUInt8]

/-- The number whose base-256 digits are the given bytes. -/
def toNat (bytes : Bytes) : Nat :=
  bytes.foldl (fun n b => n * 256 + b.toNat) 0

end Bytes

/-! ## Buffers -/

/-- Bytes written so far. -/
structure Buffer where
  data : Array UInt8 := #[]

namespace Buffer

/-- The buffer with nothing written. -/
def empty : Buffer := {}

/-- How many bytes are written. This is also the position of the next byte. -/
def size (b : Buffer) : Nat := b.data.size

/-- Whether nothing is written. -/
def isEmpty (b : Buffer) : Bool := b.data.isEmpty

/-- The bytes written. -/
def toBytes (b : Buffer) : Bytes := b.data.toList

/-- Writes `bytes` after all others. -/
def append (b : Buffer) (bytes : Bytes) : Buffer :=
  match b with
  | ⟨data⟩ => ⟨data ++ bytes⟩

/-- `data` with the entries from `offset` on replaced by `bytes`. -/
def overwrite (data : Array UInt8) (offset : Nat) : Bytes → Array UInt8
  | [] => data
  | x :: rest => overwrite (data.setIfInBounds offset x) (offset + 1) rest

/-- Replaces the bytes at `offset`, which must all have been written. -/
def patch? (b : Buffer) (offset : Nat) (bytes : Bytes) : Option Buffer :=
  match b with
  | ⟨data⟩ =>
    if offset + bytes.length ≤ data.size then some ⟨overwrite data offset bytes⟩ else none

/-- Starts an attribute: the index of its name and room for its length. -/
def openAttribute (b : Buffer) (name : UInt16) : Buffer :=
  b.append (Bytes.ofUInt16 name ++ Bytes.ofUInt32 0)

/-- The length of the attribute whose length field stands at `lengthAt`: the number of bytes
written after that field. -/
def attributeLength (b : Buffer) (lengthAt : Nat) : Except Error UInt32 :=
  let length := b.size - (lengthAt + 4)
  if length < 4294967296 then .ok length.toUInt32
  else .error (.tooMany .attributeBytes length)

/-- Puts a length into the field at `lengthAt`. -/
def setLength (b : Buffer) (lengthAt : Nat) (length : UInt32) : Buffer :=
  match b with
  | ⟨data⟩ => ⟨overwrite data lengthAt (Bytes.ofUInt32 length)⟩

/-- Ends the attribute whose length field stands at `lengthAt`. -/
def closeAttribute (b : Buffer) (lengthAt : Nat) : Except Error Buffer :=
  match b.attributeLength lengthAt with
  | .ok length => .ok (b.setLength lengthAt length)
  | .error e => .error e

end Buffer

end SchemaRecords.ClassFile
