import SchemaRecords.ClassFile.Frame
import SchemaRecords.ClassFile.Instruction

/-!
# Operations: instructions by name

Method bodies are lists of operations. An operation names the fields, methods,
classes and labels it uses; which pool index, which of several encodings and
which branch distance it gets is settled when the body is assembled.

Each operation has a stack effect (`Operation.pops`, `Operation.pushes`), may
touch a local (`Operation.touches`), may need a constant (`Operation.constant`)
and, given the index of that constant, is a machine instruction
(`Operation.select`).
-/

namespace SchemaRecords.ClassFile

/-- The name of a place in the code. -/
abbrev Label := Nat

/-- A step of a method body. -/
inductive Operation where
  /-- Pushes the local at a slot. -/
  | load (slot : UInt16) (type : FieldType)
  /-- Pushes a number. -/
  | const (value : Int32)
  | iadd
  | imul
  | dup
  | pop
  | getField (owner name : String) (type : FieldType)
  | putField (owner name : String) (type : FieldType)
  | invoke (kind : InvokeKind) (owner name : String) (type : MethodType)
  /-- Calls the call site at a pool index. -/
  | invokeDynamic (index : UInt16) (type : MethodType)
  | checkCast (name : String)
  | instanceOf (name : String)
  | branch (condition : Condition) (target : Label)
  /-- Declares that `label` names this place, where the verifier shall see `frame`. -/
  | bind (label : Label) (frame : Frame)
  | returnVoid
  | returnValue (type : FieldType)
deriving DecidableEq, Repr

namespace Operation

/-- Pushes the reference at a slot. -/
def loadReference (slot : UInt16) : Operation :=
  load slot (.object FieldType.objectName)

/-- The slots taken from the stack. -/
def pops : Operation → UInt16
  | load _ _ => 0
  | const _ => 0
  | iadd => 2
  | imul => 2
  | dup => 1
  | pop => 1
  | getField _ _ _ => 1
  | putField _ _ type => 1 + type.slots
  | invoke kind _ _ type => kind.receiverSlots + type.parameterSlots
  | invokeDynamic _ type => type.parameterSlots
  | checkCast _ => 1
  | instanceOf _ => 1
  | branch condition _ => condition.pops
  | bind _ _ => 0
  | returnVoid => 0
  | returnValue type => type.slots

/-- The slots put on the stack. -/
def pushes : Operation → UInt16
  | load _ type => type.slots
  | const _ => 1
  | iadd => 1
  | imul => 1
  | dup => 2
  | pop => 0
  | getField _ _ type => type.slots
  | putField _ _ _ => 0
  | invoke _ _ _ type => type.resultSlots
  | invokeDynamic _ type => type.resultSlots
  | checkCast _ => 1
  | instanceOf _ => 1
  | branch _ _ => 0
  | bind _ _ => 0
  | returnVoid => 0
  | returnValue _ => 0

/-- The number of locals the operation needs: one more than the last slot it touches. -/
def touches : Operation → UInt16
  | load slot type => slot + type.slots
  | _ => 0

/-- Whether a number has an instruction that holds it. -/
def isImmediate (value : Int32) : Bool :=
  -32768 ≤ value.toInt && value.toInt ≤ 32767

/-- The constant the operation refers to, if it needs one. -/
def constant : Operation → Option (Intern UInt16)
  | const value => if isImmediate value then none else some (Pool.integer value)
  | getField owner name type => some (Pool.fieldRef owner name type.descriptor)
  | putField owner name type => some (Pool.fieldRef owner name type.descriptor)
  | invoke _ owner name type => some (Pool.methodRef owner name type.descriptor)
  | checkCast name => some (Pool.classRef name)
  | instanceOf name => some (Pool.classRef name)
  | _ => none

/-- The shortest instruction that pushes a number; `index` is its place in the pool. -/
def selectConst (value : Int32) (index : UInt16) : Instruction :=
  let n := value.toInt
  if h : -1 ≤ n ∧ n ≤ 5 then .constShort ⟨(n + 1).toNat, by omega⟩
  else if -128 ≤ n ∧ n ≤ 127 then .bipush value.toInt8
  else if -32768 ≤ n ∧ n ≤ 32767 then .sipush value.toInt16
  else if index < 256 then .ldc index.toUInt8
  else .ldcWide index

/-- The shortest instruction that loads a slot; slots above 255 have none. -/
def selectLoad (family : Family) (slot : UInt16) : Except Error Instruction :=
  if h : slot.toNat < 4 then .ok (.loadShort family ⟨slot.toNat, h⟩)
  else if slot < 256 then .ok (.load family slot.toUInt8)
  else .error (.tooMany .localSlots slot.toNat)

/-- What an operation becomes: an instruction, a branch still to be measured, or nothing. -/
inductive Selected where
  | instruction (i : Instruction)
  | jump (condition : Condition) (target : Label)
  | nothing
deriving DecidableEq, Repr

/-- The instruction for an operation whose constant has the given index. -/
def select (index : UInt16) : Operation → Except Error Selected
  | load slot type =>
    match selectLoad type.family slot with
    | .ok i => .ok (.instruction i)
    | .error e => .error e
  | const value => .ok (.instruction (selectConst value index))
  | iadd => .ok (.instruction .iadd)
  | imul => .ok (.instruction .imul)
  | dup => .ok (.instruction .dup)
  | pop => .ok (.instruction .pop)
  | getField _ _ _ => .ok (.instruction (.getField index))
  | putField _ _ _ => .ok (.instruction (.putField index))
  | invoke kind _ _ _ => .ok (.instruction (.invoke kind index))
  | invokeDynamic site _ => .ok (.instruction (.invokeDynamic site))
  | checkCast _ => .ok (.instruction (.checkCast index))
  | instanceOf _ => .ok (.instruction (.instanceOf index))
  | branch condition target => .ok (.jump condition target)
  | bind _ _ => .ok .nothing
  | returnVoid => .ok (.instruction .returnVoid)
  | returnValue type => .ok (.instruction (.returnValue type.family))

end Operation

end SchemaRecords.ClassFile
