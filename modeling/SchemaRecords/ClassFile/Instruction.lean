import SchemaRecords.ClassFile.Bytes
import SchemaRecords.ClassFile.Descriptor

/-!
# Machine instructions

The instructions that record classes use, with their operands as a class file
stores them: pool indices, slots, small constants and branch distances counted
from the branch's own opcode. `Instruction.encode` gives their bytes.
-/

namespace SchemaRecords.ClassFile

/-- When a branch is taken. -/
inductive Condition where
  /-- The number on the stack is zero. -/
  | zero
  /-- The number on the stack is not zero. -/
  | nonzero
  /-- The two numbers on the stack differ. -/
  | intsDiffer
  /-- The two references on the stack are the same. -/
  | sameReference
  /-- Always. -/
  | always
  /-- The reference on the stack is null. -/
  | null
  /-- The reference on the stack is not null. -/
  | nonnull
deriving DecidableEq, Repr

namespace Condition

/-- The opcode of the branch. -/
def opcode : Condition → UInt8
  | zero => 0x99
  | nonzero => 0x9A
  | intsDiffer => 0xA0
  | sameReference => 0xA5
  | always => 0xA7
  | null => 0xC6
  | nonnull => 0xC7

/-- How many slots the test takes from the stack. -/
def pops : Condition → UInt16
  | zero => 1
  | nonzero => 1
  | intsDiffer => 2
  | sameReference => 2
  | always => 0
  | null => 1
  | nonnull => 1

end Condition

/-- How a method is chosen from its reference. -/
inductive InvokeKind where
  | virtual
  | special
  | static
deriving DecidableEq, Repr

namespace InvokeKind

/-- The opcode of the call. -/
def opcode : InvokeKind → UInt8
  | virtual => 0xB6
  | special => 0xB7
  | static => 0xB8

/-- The slots of the object the method is called on. -/
def receiverSlots : InvokeKind → UInt16
  | virtual => 1
  | special => 1
  | static => 0

end InvokeKind

namespace Family

/-- The opcode that loads from a slot given in the next byte. -/
def loadOpcode : Family → UInt8
  | int => 0x15
  | double => 0x18
  | reference => 0x19

/-- The opcode that loads from slot 0; slots 1 to 3 have the opcodes after it. -/
def loadShortOpcode : Family → UInt8
  | int => 0x1A
  | double => 0x26
  | reference => 0x2A

/-- The opcode that returns a value. -/
def returnOpcode : Family → UInt8
  | int => 0xAC
  | double => 0xAF
  | reference => 0xB0

end Family

/-- An instruction with its stored operands. -/
inductive Instruction where
  /-- Pushes `code - 1`, a number from -1 to 5. -/
  | constShort (code : Fin 7)
  | bipush (value : Int8)
  | sipush (value : Int16)
  /-- Pushes the pool's number at a one-byte index. -/
  | ldc (index : UInt8)
  /-- Pushes the pool's number at a two-byte index. -/
  | ldcWide (index : UInt16)
  | loadShort (family : Family) (slot : Fin 4)
  | load (family : Family) (slot : UInt8)
  | pop
  | dup
  | iadd
  | imul
  | branch (condition : Condition) (offset : Int16)
  | returnValue (family : Family)
  | returnVoid
  | getField (index : UInt16)
  | putField (index : UInt16)
  | invoke (kind : InvokeKind) (index : UInt16)
  | invokeDynamic (index : UInt16)
  | checkCast (index : UInt16)
  | instanceOf (index : UInt16)
deriving DecidableEq, Repr

namespace Instruction

/-- The bytes of an instruction. -/
def encode : Instruction → Bytes
  | constShort code => [0x02 + code.val.toUInt8]
  | bipush value => [0x10, value.toUInt8]
  | sipush value => 0x11 :: Bytes.ofUInt16 value.toUInt16
  | ldc index => [0x12, index]
  | ldcWide index => 0x13 :: Bytes.ofUInt16 index
  | loadShort family slot => [family.loadShortOpcode + slot.val.toUInt8]
  | load family slot => [family.loadOpcode, slot]
  | pop => [0x57]
  | dup => [0x59]
  | iadd => [0x60]
  | imul => [0x68]
  | branch condition offset => condition.opcode :: Bytes.ofUInt16 offset.toUInt16
  | returnValue family => [family.returnOpcode]
  | returnVoid => [0xB1]
  | getField index => 0xB4 :: Bytes.ofUInt16 index
  | putField index => 0xB5 :: Bytes.ofUInt16 index
  | invoke kind index => kind.opcode :: Bytes.ofUInt16 index
  | invokeDynamic index => 0xBA :: Bytes.ofUInt16 index ++ [0, 0]
  | checkCast index => 0xC0 :: Bytes.ofUInt16 index
  | instanceOf index => 0xC1 :: Bytes.ofUInt16 index

end Instruction

end SchemaRecords.ClassFile
