import SchemaRecords.ClassFile.Bytes
import SchemaRecords.ClassFile.Error

/-!
# Reading bytes in order

A `Cursor` is a position in a byte sequence together with the bytes that follow
it. A `Read` takes bytes from the cursor or stops with an error; a read that
asks for more bytes than are left reports how many the input would have needed.
-/

namespace SchemaRecords.ClassFile

/-- A place in a byte sequence: how many bytes stand before it, and the rest. -/
structure Cursor where
  position : Nat
  rest : Bytes
deriving DecidableEq, Repr

namespace Cursor

/-- The start of `bytes`. -/
def ofBytes (bytes : Bytes) : Cursor := ⟨0, bytes⟩

/-- How many bytes are left. -/
def remaining (c : Cursor) : Nat := c.rest.length

/-- Whether every byte was read. -/
def isExhausted (c : Cursor) : Bool := c.rest.isEmpty

end Cursor

/-- A computation that reads from a cursor. -/
abbrev Read (α : Type) := StateT Cursor (Except Error) α

namespace Read

/-- Takes the next `n` bytes. -/
def bytes (n : Nat) : Read Bytes := fun c =>
  let front := c.rest.take n
  if front.length < n then
    .error (.truncated (c.position + n) (c.position + c.rest.length))
  else .ok (front, ⟨c.position + n, c.rest.drop n⟩)

/-- Reads one byte. -/
def u8 : Read UInt8 := do
  let bs ← bytes 1
  pure (Bytes.toNat bs).toUInt8

/-- Reads a 16-bit word. -/
def u16 : Read UInt16 := do
  let bs ← bytes 2
  pure (Bytes.toNat bs).toUInt16

/-- Reads a 32-bit word. -/
def u32 : Read UInt32 := do
  let bs ← bytes 4
  pure (Bytes.toNat bs).toUInt32

/-- Reads a signed 32-bit word. -/
def i32 : Read Int32 := do
  let n ← u32
  pure n.toInt32

/-- The current position. -/
def position : Read Nat := fun c => .ok (c.position, c)

/-- Stops with an error. -/
def fail {α : Type} (e : Error) : Read α := fun _ => .error e

/-- Goes on with a value, or stops. -/
def ofExcept {α : Type} (x : Except Error α) : Read α := fun c =>
  match x with
  | .ok a => .ok (a, c)
  | .error e => .error e

/-- Runs `item` another `n` times, after the items in `done`. -/
def timesFrom {α : Type} (item : Read α) :
    Nat → Array α → Cursor → Except Error (Array α × Cursor)
  | 0, done, c => .ok (done, c)
  | n + 1, done, c =>
    match item c with
    | .error e => .error e
    | .ok (a, c) => timesFrom item n (done.push a) c

/-- Reads `n` items in order. -/
def times {α : Type} (n : Nat) (item : Read α) : Read (List α) := fun c =>
  match timesFrom item n #[] c with
  | .error e => .error e
  | .ok (items, c) => .ok (items.toList, c)

/-- Reads a 16-bit count and that many items. -/
def list {α : Type} (item : Read α) : Read (List α) := do
  let n ← u16
  times n.toNat item

end Read

end SchemaRecords.ClassFile
