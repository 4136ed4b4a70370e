import Std.Data.HashMap
import SchemaRecords.ClassFile.Constant

/-!
# The constant pool

A `Pool` holds each constant once. Asking for a constant that is present gives
its index; a new one is put after all others, so the order of requests alone
fixes the layout. Entries are numbered from 1, and a pool has room for 65534.

A request that needs several entries (`Pool.fieldRef` needs six) makes them in
a fixed order, and entries made before a request fails stay in the pool.
-/

namespace SchemaRecords.ClassFile

/-- Constants in the order in which they were first asked for, and the index of each. -/
structure Pool where
  entries : Array Constant := #[]
  index : Std.HashMap Constant UInt16 := {}

/-- A request to the pool: it may fail, and what it did to the pool stays either way. -/
abbrev Intern (α : Type) := EStateM Error Pool α

namespace Pool

/-- The pool with no entries. -/
def empty : Pool := {}

/-- The largest number of entries: indices are 16-bit numbers, and 0 and 65535 are not used. -/
def capacity : Nat := 65534

/-- How many entries there are. -/
def size (p : Pool) : Nat := p.entries.size

/-- Whether there are no entries. -/
def isEmpty (p : Pool) : Bool := p.entries.isEmpty

/-- The entry at a 1-based index. -/
def get? (p : Pool) (i : UInt16) : Option Constant :=
  match i.toNat with
  | 0 => none
  | n + 1 => p.entries[n]?

/-- The index of a constant, which is added if it is new. -/
def insert (c : Constant) : Intern UInt16 := fun p =>
  match p.index[c]? with
  | some i => .ok i p
  | none =>
    if capacity ≤ p.entries.size then .error (.poolFull capacity) p
    else
      match p with
      | ⟨entries, index⟩ =>
        let i := (entries.size + 1).toUInt16
        .ok i ⟨entries.push c, index.insert c i⟩

/-- The index of a text. A text of more than 65535 encoded bytes is refused. -/
def utf8 (text : String) : Intern UInt16 := fun p =>
  let length := ModifiedUtf8.encodedLength text
  if 65535 < length then .error (.textTooLong length) p else insert (.utf8 text) p

/-- The index of a 32-bit number. -/
def integer (value : Int32) : Intern UInt16 :=
  insert (.integer value)

/-- The index of a class given by its internal name, or of an array type given by its
descriptor. -/
def classRef (name : String) : Intern UInt16 := do
  let name ← utf8 name
  insert (.classRef name)

/-- The index of a string literal. -/
def string (text : String) : Intern UInt16 := do
  let text ← utf8 text
  insert (.string text)

/-- The index of a member's name and descriptor. -/
def nameAndType (name descriptor : String) : Intern UInt16 := do
  let name ← utf8 name
  let descriptor ← utf8 descriptor
  insert (.nameAndType name descriptor)

/-- The index of a field. -/
def fieldRef (owner name descriptor : String) : Intern UInt16 := do
  let owner ← classRef owner
  let nat ← nameAndType name descriptor
  insert (.fieldRef owner nat)

/-- The index of a method. -/
def methodRef (owner name descriptor : String) : Intern UInt16 := do
  let owner ← classRef owner
  let nat ← nameAndType name descriptor
  insert (.methodRef owner nat)

/-- The index of a handle on a field (for `getField`) or a method (for the other kinds). -/
def methodHandle (kind : HandleKind) (owner name descriptor : String) : Intern UInt16 := do
  let reference ←
    match kind with
    | .getField => fieldRef owner name descriptor
    | _ => methodRef owner name descriptor
  insert (.methodHandle kind reference)

/-- The index of a call site that bootstrap method number `bootstrap` links. -/
def invokeDynamic (bootstrap : UInt16) (name descriptor : String) : Intern UInt16 := do
  let nat ← nameAndType name descriptor
  insert (.invokeDynamic bootstrap nat)

/-- The bytes of the pool: one more than the number of entries, then every entry. -/
def encode (p : Pool) : Bytes :=
  Bytes.ofUInt16 (p.entries.size + 1).toUInt16 ++ p.entries.toList.flatMap Constant.encode

end Pool

end SchemaRecords.ClassFile
