import SchemaRecords.ClassFile.Bytes
import SchemaRecords.ClassFile.Pool

/-!
# Writing tables that refer to the pool

A table of a class file is written while the constants it mentions are put into
the pool. A `Write` does both. If it fails, the bytes written and the constants
added up to that point stay.
-/

namespace SchemaRecords.ClassFile

/-- The constant pool and a table that refers to it. -/
structure Writer where
  pool : Pool
  out : Buffer

/-- A computation that adds constants and writes bytes. -/
abbrev Write (α : Type) := EStateM Error Writer α

namespace Write

/-- Writes bytes. -/
def emit (bytes : Bytes) : Write Unit := fun w =>
  match w with
  | ⟨pool, out⟩ => .ok () ⟨pool, out.append bytes⟩

/-- Asks the pool for a constant. -/
def intern {α : Type} (request : Intern α) : Write α := fun w =>
  match w with
  | ⟨pool, out⟩ =>
    match request pool with
    | .ok a pool => .ok a ⟨pool, out⟩
    | .error e pool => .error e ⟨pool, out⟩

/-- Writes a 16-bit count. -/
def count (what : Countable) (n : Nat) : Write Unit := fun w =>
  match count16 what n with
  | .ok k => emit (Bytes.ofUInt16 k) w
  | .error e => .error e w

/-- Fills in the length of the attribute whose length field stands at `lengthAt`. -/
def close (lengthAt : Nat) : Write Unit := fun w =>
  match w with
  | ⟨pool, out⟩ =>
    match out.attributeLength lengthAt with
    | .ok length => .ok () ⟨pool, out.setLength lengthAt length⟩
    | .error e => .error e ⟨pool, out⟩

/-- Writes an attribute: its name, the length of its body, its body. -/
def inAttribute (name : UInt16) (body : Write Unit) : Write Unit := fun w =>
  match w with
  | ⟨pool, out⟩ =>
    let lengthAt := out.size + 2
    match body ⟨pool, out.openAttribute name⟩ with
    | .ok _ w => close lengthAt w
    | .error e w => .error e w

end Write

end SchemaRecords.ClassFile
