import SchemaRecords.ClassFile.ConstantTable
import SchemaRecords.ClassFile.Operation
import SchemaRecords.Proofs.ClassFile.Descriptor
import SchemaRecords.Proofs.ClassFile.Reading

/-!
# Disassembly

`Instruction.decode?` takes one instruction from the front of a byte sequence,
and `Instruction.command?` says what the instruction does once its operands are
looked up in a constant table: an `Action` on the state of the method, or a jump.
`fetch?` combines the two at an offset of the code.

Operations have a command as well (`Operation.command?`), in which a jump still
names its label, so that assembling can be compared with disassembling.

* `decode?_encode`: an instruction is decoded from its own bytes, whatever follows.
-/

namespace SchemaRecords.ClassFile

/-! ## Commands -/

/-- What an instruction that does not branch does. -/
inductive Action where
  | push (value : Int32)
  | load (family : Family) (slot : Nat)
  | pop
  | dup
  | iadd
  | imul
  | getField (field : MemberRef)
  | putField (field : MemberRef)
  | invoke (kind : InvokeKind) (method : MemberRef)
  /-- Calls the call site at a pool index. -/
  | invokeDynamic (site : UInt16)
  | checkCast (name : String)
  | instanceOf (name : String)
  | returnValue (family : Family)
  | returnVoid
deriving DecidableEq, Repr

/-- What an instruction does; the targets of jumps are labels or offsets. -/
inductive Command (α : Type) where
  | act (action : Action)
  | jump (condition : Condition) (target : α)
deriving DecidableEq, Repr

/-- The command with every label replaced by its place. -/
def Command.place {α β : Type} (where? : α → Option β) : Command α → Option (Command β)
  | .act a => some (.act a)
  | .jump condition target => (where? target).map (.jump condition)

/-- The command of an operation; binding a label has none. -/
def Operation.command? : Operation → Option (Command Label)
  | .load slot type => some (.act (.load type.family slot.toNat))
  | .const value => some (.act (.push value))
  | .iadd => some (.act .iadd)
  | .imul => some (.act .imul)
  | .dup => some (.act .dup)
  | .pop => some (.act .pop)
  | .getField owner name type => some (.act (.getField ⟨owner, name, type.descriptor⟩))
  | .putField owner name type => some (.act (.putField ⟨owner, name, type.descriptor⟩))
  | .invoke kind owner name type => some (.act (.invoke kind ⟨owner, name, type.descriptor⟩))
  | .invokeDynamic index _ => some (.act (.invokeDynamic index))
  | .checkCast name => some (.act (.checkCast name))
  | .instanceOf name => some (.act (.instanceOf name))
  | .branch condition target => some (.jump condition target)
  | .bind _ _ => none
  | .returnVoid => some (.act .returnVoid)
  | .returnValue type => some (.act (.returnValue type.family))

/-- No class name in the descriptors of the operation has a semicolon. -/
def Operation.IsPlain : Operation → Prop
  | .getField _ _ type => type.IsPlain
  | .putField _ _ type => type.IsPlain
  | .invoke _ _ _ type => type.IsPlain
  | .invokeDynamic _ type => type.IsPlain
  | _ => True

namespace ConstantTable

/-- The number at an index. -/
def integer? (t : ConstantTable) (i : UInt16) : Option Int32 :=
  match t.get i with
  | .ok (.integer value) => some value
  | _ => none

/-- The class at an index. -/
def class? (t : ConstantTable) (i : UInt16) : Option String :=
  (t.className i).toOption

/-- The field at an index. -/
def field? (t : ConstantTable) (i : UInt16) : Option MemberRef :=
  match t.get i with
  | .ok (.fieldRef owner nat) => (t.member owner nat).toOption
  | _ => none

/-- The method at an index. -/
def method? (t : ConstantTable) (i : UInt16) : Option MemberRef :=
  match t.get i with
  | .ok (.methodRef owner nat) => (t.member owner nat).toOption
  | _ => none

end ConstantTable

namespace Instruction

/-- The command of the instruction at offset `here`. -/
def command? (t : ConstantTable) (here : Nat) : Instruction → Option (Command Nat)
  | constShort code => some (.act (.push (Int32.ofInt (code.val - 1))))
  | bipush value => some (.act (.push value.toInt32))
  | sipush value => some (.act (.push value.toInt32))
  | ldc index => (t.integer? index.toUInt16).map fun n => .act (.push n)
  | ldcWide index => (t.integer? index).map fun n => .act (.push n)
  | loadShort family slot => some (.act (.load family slot.val))
  | load family slot => some (.act (.load family slot.toNat))
  | pop => some (.act .pop)
  | dup => some (.act .dup)
  | iadd => some (.act .iadd)
  | imul => some (.act .imul)
  | branch condition offset =>
    let target : Int := here + offset.toInt
    if 0 ≤ target then some (.jump condition target.toNat) else none
  | returnValue family => some (.act (.returnValue family))
  | returnVoid => some (.act .returnVoid)
  | getField index => (t.field? index).map fun f => .act (.getField f)
  | putField index => (t.field? index).map fun f => .act (.putField f)
  | invoke kind index => (t.method? index).map fun m => .act (.invoke kind m)
  | invokeDynamic index => some (.act (.invokeDynamic index))
  | checkCast index => (t.class? index).map fun c => .act (.checkCast c)
  | instanceOf index => (t.class? index).map fun c => .act (.instanceOf c)

/-! ## Decoding -/

/-- The instruction that an opcode alone makes. -/
def ofOpcode? (opcode : UInt8) : Option Instruction :=
  if h : 0x02 ≤ opcode.toNat ∧ opcode.toNat ≤ 0x08 then
    some (.constShort ⟨opcode.toNat - 0x02, by omega⟩)
  else if h : 0x1A ≤ opcode.toNat ∧ opcode.toNat ≤ 0x1D then
    some (.loadShort .int ⟨opcode.toNat - 0x1A, by omega⟩)
  else if h : 0x26 ≤ opcode.toNat ∧ opcode.toNat ≤ 0x29 then
    some (.loadShort .double ⟨opcode.toNat - 0x26, by omega⟩)
  else if h : 0x2A ≤ opcode.toNat ∧ opcode.toNat ≤ 0x2D then
    some (.loadShort .reference ⟨opcode.toNat - 0x2A, by omega⟩)
  else
    match opcode.toNat with
    | 0x57 => some .pop
    | 0x59 => some .dup
    | 0x60 => some .iadd
    | 0x68 => some .imul
    | 0xAC => some (.returnValue .int)
    | 0xAF => some (.returnValue .double)
    | 0xB0 => some (.returnValue .reference)
    | 0xB1 => some .returnVoid
    | _ => none

/-- The instruction that an opcode and a byte make. -/
def ofByte? (opcode operand : UInt8) : Option Instruction :=
  match opcode.toNat with
  | 0x10 => some (.bipush operand.toInt8)
  | 0x12 => some (.ldc operand)
  | 0x15 => some (.load .int operand)
  | 0x18 => some (.load .double operand)
  | 0x19 => some (.load .reference operand)
  | _ => none

/-- The instruction that an opcode and a 16-bit word make. -/
def ofWord? (opcode : UInt8) (operand : UInt16) : Option Instruction :=
  match opcode.toNat with
  | 0x11 => some (.sipush operand.toInt16)
  | 0x13 => some (.ldcWide operand)
  | 0x99 => some (.branch .zero operand.toInt16)
  | 0x9A => some (.branch .nonzero operand.toInt16)
  | 0xA0 => some (.branch .intsDiffer operand.toInt16)
  | 0xA5 => some (.branch .sameReference operand.toInt16)
  | 0xA7 => some (.branch .always operand.toInt16)
  | 0xB4 => some (.getField operand)
  | 0xB5 => some (.putField operand)
  | 0xB6 => some (.invoke .virtual operand)
  | 0xB7 => some (.invoke .special operand)
  | 0xB8 => some (.invoke .static operand)
  | 0xC0 => some (.checkCast operand)
  | 0xC1 => some (.instanceOf operand)
  | 0xC6 => some (.branch .null operand.toInt16)
  | 0xC7 => some (.branch .nonnull operand.toInt16)
  | _ => none

/-- The instruction at the front of a byte sequence, and the bytes after it. A call of a call
site ends in two bytes that are zero. -/
def decode? : Bytes → Option (Instruction × Bytes)
  | [] => none
  | opcode :: rest =>
    match ofOpcode? opcode, rest with
    | some i, rest => some (i, rest)
    | none, [] => none
    | none, a :: rest =>
      match ofByte? opcode a, rest with
      | some i, rest => some (i, rest)
      | none, [] => none
      | none, b :: rest =>
        let word := (Bytes.toNat [a, b]).toUInt16
        match ofWord? opcode word with
        | some i => some (i, rest)
        | none =>
          match rest with
          | c :: d :: rest =>
            if opcode = 0xBA ∧ c = 0 ∧ d = 0 then some (.invokeDynamic word, rest) else none
          | _ => none

theorem toUInt16_toNat_ofUInt16 (n : UInt16) :
    (Bytes.toNat [(n >>> 8).toUInt8, n.toUInt8]).toUInt16 = n := by
  have h := Bytes.toNat_ofUInt16 n
  rw [Bytes.ofUInt16] at h
  rw [h]
  simp

theorem decode?_opcode {opcode : UInt8} {i : Instruction} (h : ofOpcode? opcode = some i)
    (rest : Bytes) : decode? (opcode :: rest) = some (i, rest) := by
  cases rest <;> simp [decode?, h]

theorem decode?_byte {opcode operand : UInt8} {i : Instruction} (h : ofOpcode? opcode = none)
    (h' : ofByte? opcode operand = some i) (rest : Bytes) :
    decode? (opcode :: operand :: rest) = some (i, rest) := by
  cases rest <;> simp [decode?, h, h']

theorem decode?_word {opcode : UInt8} {operand : UInt16} {i : Instruction}
    (h : ofOpcode? opcode = none) (h' : ∀ b, ofByte? opcode b = none)
    (h'' : ofWord? opcode operand = some i) (rest : Bytes) :
    decode? (opcode :: (Bytes.ofUInt16 operand ++ rest)) = some (i, rest) := by
  have hword := toUInt16_toNat_ofUInt16 operand
  rw [Bytes.ofUInt16]
  simp [decode?, h, h', hword, h'']

/-- An instruction is decoded from its own bytes, whatever follows. -/
theorem decode?_encode (i : Instruction) (rest : Bytes) :
    decode? (i.encode ++ rest) = some (i, rest) := by
  cases i with
  | constShort code =>
    refine decode?_opcode ?_ rest
    revert code
    decide
  | bipush value => exact decode?_byte rfl (by simp [ofByte?]) rest
  | sipush value => exact decode?_word rfl (fun _ => rfl) (by simp [ofWord?]) rest
  | ldc index => exact decode?_byte rfl rfl rest
  | ldcWide index => exact decode?_word rfl (fun _ => rfl) rfl rest
  | loadShort family slot =>
    refine decode?_opcode ?_ rest
    revert slot
    cases family <;> decide
  | load family slot => cases family <;> exact decode?_byte rfl rfl rest
  | pop => exact decode?_opcode rfl rest
  | dup => exact decode?_opcode rfl rest
  | iadd => exact decode?_opcode rfl rest
  | imul => exact decode?_opcode rfl rest
  | branch condition offset =>
    have hoffset : ofWord? condition.opcode offset.toUInt16 = some (.branch condition offset) := by
      cases condition <;> simp [ofWord?, Condition.opcode]
    cases condition <;> exact decode?_word rfl (fun _ => rfl) hoffset rest
  | returnValue family => cases family <;> exact decode?_opcode rfl rest
  | returnVoid => exact decode?_opcode rfl rest
  | getField index => exact decode?_word rfl (fun _ => rfl) rfl rest
  | putField index => exact decode?_word rfl (fun _ => rfl) rfl rest
  | invoke kind index => cases kind <;> exact decode?_word rfl (fun _ => rfl) rfl rest
  | invokeDynamic index =>
    have hopcode : ofOpcode? 0xBA = none := rfl
    have hbyte : ∀ b, ofByte? 0xBA b = none := fun _ => rfl
    have hword : ofWord? 0xBA index = none := rfl
    simp [decode?, encode, Bytes.ofUInt16, hopcode, hbyte, toUInt16_toNat_ofUInt16, hword]
  | checkCast index => exact decode?_word rfl (fun _ => rfl) rfl rest
  | instanceOf index => exact decode?_word rfl (fun _ => rfl) rfl rest

theorem length_encode_pos (i : Instruction) : 0 < i.encode.length := by
  cases i <;> simp [encode]

end Instruction

/-- The command at an offset of the code, and the offset of the instruction after it. -/
def fetch? (t : ConstantTable) (code : Bytes) (here : Nat) : Option (Command Nat × Nat) :=
  match Instruction.decode? (code.drop here) with
  | none => none
  | some (i, rest) => (i.command? t here).map fun c => (c, code.length - rest.length)

/-- The instruction that stands at an offset is fetched there. -/
theorem fetch?_of_drop {t : ConstantTable} {code rest : Bytes} {here : Nat} {i : Instruction}
    {c : Command Nat} (hcode : code.drop here = i.encode ++ rest)
    (hc : i.command? t here = some c) :
    fetch? t code here = some (c, here + i.encode.length) := by
  have hlength := congrArg List.length hcode
  rw [List.length_drop, List.length_append] at hlength
  have hpos := i.length_encode_pos
  have hnext : code.length - rest.length = here + i.encode.length := by omega
  rw [fetch?, hcode, Instruction.decode?_encode]
  simp only
  rw [hc, hnext]
  rfl

/-- Decoding takes at least one byte. -/
theorem Instruction.length_lt_of_decode? {bs rest : Bytes} {i : Instruction}
    (h : decode? bs = some (i, rest)) : rest.length < bs.length := by
  unfold decode? at h
  split at h
  · cases h
  · split at h
    · cases h
      exact Nat.lt_succ_self _
    · cases h
    · split at h
      · cases h
        exact Nat.lt_add_of_pos_right (Nat.succ_pos 1)
      · cases h
      · simp only at h
        split at h
        · cases h
          exact Nat.lt_add_of_pos_right (Nat.succ_pos 2)
        · split at h
          · split at h
            · cases h
              exact Nat.lt_add_of_pos_right (Nat.succ_pos 4)
            · cases h
          · cases h

theorem lt_of_fetch? {t : ConstantTable} {code : Bytes} {here next : Nat} {c : Command Nat}
    (h : fetch? t code here = some (c, next)) : here < next := by
  unfold fetch? at h
  split at h
  · cases h
  · rename_i i rest hdecode
    have hlength := Instruction.length_lt_of_decode? hdecode
    rw [List.length_drop] at hlength
    obtain ⟨_, _, heq⟩ := Option.map_eq_some_iff.mp h
    cases heq
    omega

theorem lt_length_of_fetch? {t : ConstantTable} {code : Bytes} {here next : Nat} {c : Command Nat}
    (h : fetch? t code here = some (c, next)) : here < code.length := by
  unfold fetch? at h
  split at h
  · cases h
  · rename_i i rest hdecode
    have hlength := Instruction.length_lt_of_decode? hdecode
    rw [List.length_drop] at hlength
    omega

end SchemaRecords.ClassFile
