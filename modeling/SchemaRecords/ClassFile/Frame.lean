import SchemaRecords.ClassFile.Descriptor
import SchemaRecords.ClassFile.Writer

/-!
# Stack map frames

A frame declares the types of the locals and of the operand stack at a branch
target. Frames are written in the full form, which does not depend on the frame
before; each stores the distance to the previous frame, less one.
-/

namespace SchemaRecords.ClassFile

/-- A type as the verifier sees it. -/
inductive VerificationType where
  | integer
  | double
  | object (name : String)
deriving DecidableEq, Repr

namespace VerificationType

/-- The slots a value takes. -/
def slots : VerificationType → UInt16
  | double => 2
  | _ => 1

/-- Writes the type, with the class it names. -/
def write : VerificationType → Write Unit
  | integer => Write.emit [1]
  | double => Write.emit [3]
  | object name => do
    let index ← Write.intern (Pool.classRef name)
    Write.emit (7 :: Bytes.ofUInt16 index)

end VerificationType

/-- The verifier's view of a field type. -/
def FieldType.verification : FieldType → VerificationType
  | .boolean => .integer
  | .int => .integer
  | .double => .double
  | t => .object t.className

/-- The types of the locals and of the operand stack at one place of the code. -/
structure Frame where
  locals : List VerificationType
  stack : List VerificationType := []
deriving DecidableEq, Repr

namespace Frame

/-- The frame with another operand stack. -/
def withStack (f : Frame) (stack : List VerificationType) : Frame :=
  { f with stack }

/-- The slots the operand stack takes. -/
def stackSlots (f : Frame) : UInt16 :=
  f.stack.foldl (fun n t => n + t.slots) 0

/-- Writes the frame in full, `delta` after the previous one. -/
def write (f : Frame) (delta : UInt16) : Write Unit := do
  Write.emit (255 :: Bytes.ofUInt16 delta)
  Write.count .frameLocals f.locals.length
  f.locals.forM VerificationType.write
  Write.count .frameStack f.stack.length
  f.stack.forM VerificationType.write

end Frame

namespace FrameTable

/-- Writes frames in order of their offsets; `previous` is the offset of the frame before. -/
def writeFrom (previous : Option Nat) : List (Nat × Frame) → Write Unit
  | [] => pure ()
  | (offset, frame) :: rest => do
    let delta := match previous with
      | none => offset
      | some before => offset - before - 1
    frame.write delta.toUInt16
    writeFrom (some offset) rest

/-- Writes a table of frames, each with its offset in the code. -/
def write (frames : List (Nat × Frame)) : Write Unit := do
  Write.count .frames frames.length
  writeFrom none frames

end FrameTable

end SchemaRecords.ClassFile
