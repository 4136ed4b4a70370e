import Mathlib.Data.List.Forall2
import SchemaRecords.ClassFile.Assembler
import SchemaRecords.Proofs.ClassFile.Disassembly
import SchemaRecords.Proofs.ClassFile.Pool

/-!
# Assembled code does what its operations say

`Located t code where? ops n m` says that the operations `ops` are to be found in
the bytes `code` from offset `n` to offset `m`: at each operation's offset the
disassembler finds the operation's command, with constants looked up in the table
`t` and labels at the offsets `where?`, and each label stands where it was bound.

`located_of_finish` is the main result: finished code holds all operations of its
body, in every table that starts with the constants of the pool. The proof goes
over the placed instructions (`Assembled`): one step of the assembler places at
most one instruction (`step_spec`), steps only add to what is there
(`assembled_of_steps`), and linking turns placed instructions into bytes
(`located_of_assembled`). A label that is bound again later stands nowhere, so in
general only the `live` operations are found (`located_live_of_finish`).
-/

namespace SchemaRecords.ClassFile

/-! ## Constants in all later tables -/

namespace Pool

variable {p q : Pool} {t : ConstantTable} {i : UInt16}

theorem integer?_of_integer {value : Int32} (hp : p.Valid) (h : integer value p = .ok i q)
    (ht : q.table ≤ t) : t.integer? i = some value := by
  rw [ConstantTable.integer?, integer_resolves hp h ht]

theorem class?_of_classRef {name : String} (hp : p.Valid) (h : classRef name p = .ok i q)
    (ht : q.table ≤ t) : t.class? i = some name := by
  rw [ConstantTable.class?, classRef_resolves hp h ht]
  rfl

/-- A member is looked up with its owner, name and descriptor, if those of its kind are looked up by
following the constant. -/
theorem member?_of_resolves {c : UInt16 → UInt16 → Constant} {member : MemberRef}
    {found? : Option MemberRef}
    (hfound : ∀ o n, t.get i = .ok (c o n) → found? = (t.member o n).toOption)
    (h : ∃ o n, t.get i = .ok (c o n) ∧ t.member o n = .ok member) : found? = some member := by
  obtain ⟨o, n, hget, hmember⟩ := h
  rw [hfound o n hget, hmember]
  rfl

theorem field?_of_fieldRef {owner name descriptor : String} (hp : p.Valid)
    (h : fieldRef owner name descriptor p = .ok i q) (ht : q.table ≤ t) :
    t.field? i = some ⟨owner, name, descriptor⟩ :=
  member?_of_resolves (fun _ _ hget => by rw [ConstantTable.field?, hget])
    (fieldRef_resolves hp h ht)

theorem method?_of_methodRef {owner name descriptor : String} (hp : p.Valid)
    (h : methodRef owner name descriptor p = .ok i q) (ht : q.table ≤ t) :
    t.method? i = some ⟨owner, name, descriptor⟩ :=
  member?_of_resolves (fun _ _ hget => by rw [ConstantTable.method?, hget])
    (methodRef_resolves hp h ht)

end Pool

/-! ## Selected instructions -/

namespace Operation

/-- The constant that an operation asks for only adds to the pool. -/
theorem constant_appends {op : Operation} {r : Intern UInt16} (h : op.constant = some r) :
    Pool.Appends r := by
  cases op with
  | const value =>
    rw [constant] at h
    split at h
    · cases h
    · cases h
      exact Pool.integer_appends value
  | getField owner name type => cases h; exact Pool.fieldRef_appends _ _ _
  | putField owner name type => cases h; exact Pool.fieldRef_appends _ _ _
  | invoke kind owner name type => cases h; exact Pool.methodRef_appends _ _ _
  | checkCast name => cases h; exact Pool.classRef_appends _
  | instanceOf name => cases h; exact Pool.classRef_appends _
  | _ => cases h

/-- The index is that of the operation's constant in table `t`, if it has one. -/
def Indexed (op : Operation) (t : ConstantTable) (index : UInt16) : Prop :=
  ∀ r, op.constant = some r → ∃ p q, p.Valid ∧ r p = .ok index q ∧ q.table ≤ t

/-- The instruction that is selected for a number pushes that number. -/
theorem command?_selectConst {value : Int32} {t : ConstantTable} {index : UInt16}
    (h : Indexed (.const value) t index) (here : Nat) :
    (selectConst value index).command? t here = some (.act (.push value)) := by
  have hmin := value.le_toInt
  have hmax := value.toInt_lt
  unfold selectConst
  simp only
  split
  case isTrue h₁ =>
    have hcode : (((value.toInt + 1).toNat : Int) - 1) = value.toInt := by omega
    rw [Instruction.command?, hcode, Int32.ofInt_toInt]
  case isFalse h₁ =>
    split
    case isTrue h₂ =>
      have hvalue : value.toInt8.toInt32 = value := by
        apply Int32.toInt_inj.1
        rw [Int8.toInt_toInt32, Int32.toInt_toInt8, Int.bmod_eq_of_le (by omega) (by omega)]
      rw [Instruction.command?, hvalue]
    case isFalse h₂ =>
      split
      case isTrue h₃ =>
        have hvalue : value.toInt16.toInt32 = value := by
          apply Int32.toInt_inj.1
          rw [Int16.toInt_toInt32, Int32.toInt_toInt16, Int.bmod_eq_of_le (by omega) (by omega)]
        rw [Instruction.command?, hvalue]
      case isFalse h₃ =>
        have hconstant : (Operation.const value).constant = some (Pool.integer value) := by
          simp [constant, isImmediate]
          omega
        obtain ⟨p, q, hp, hq, ht⟩ := h _ hconstant
        have hinteger := Pool.integer?_of_integer hp hq ht
        split
        · have hindex : index.toUInt8.toUInt16 = index := by
            rename_i hlt
            rw [UInt16.lt_iff_toNat_lt] at hlt
            apply UInt16.toNat_inj.1
            simpa using Nat.mod_eq_of_lt hlt
          rw [Instruction.command?, hindex, hinteger]
          rfl
        · rw [Instruction.command?, hinteger]
          rfl

/-- What is selected for an operation has the operation's command. -/
theorem command?_select {op : Operation} {t : ConstantTable} {index : UInt16} {i : Instruction}
    (hindex : op.Indexed t index) (h : op.select index = .ok (.instruction i)) :
    ∃ a, op.command? = some (.act a) ∧ ∀ here, i.command? t here = some (.act a) := by
  cases op with
  | load slot type =>
    refine ⟨_, rfl, fun here => ?_⟩
    unfold select selectLoad at h
    simp only at h
    split at h
    · rename_i j hj
      cases h
      split at hj
      · cases hj
        rfl
      · split at hj
        · rename_i hlt
          cases hj
          rw [UInt16.lt_iff_toNat_lt] at hlt
          have hslot : slot.toUInt8.toNat = slot.toNat := by simpa using hlt
          rw [Instruction.command?, hslot]
        · cases hj
    · cases h
  | const value =>
    cases h
    exact ⟨_, rfl, command?_selectConst hindex⟩
  | getField owner name type =>
    cases h
    obtain ⟨p, q, hp, hq, ht⟩ := hindex _ rfl
    refine ⟨_, rfl, fun here => ?_⟩
    rw [Instruction.command?, Pool.field?_of_fieldRef hp hq ht]
    rfl
  | putField owner name type =>
    cases h
    obtain ⟨p, q, hp, hq, ht⟩ := hindex _ rfl
    refine ⟨_, rfl, fun here => ?_⟩
    rw [Instruction.command?, Pool.field?_of_fieldRef hp hq ht]
    rfl
  | invoke kind owner name type =>
    cases h
    obtain ⟨p, q, hp, hq, ht⟩ := hindex _ rfl
    refine ⟨_, rfl, fun here => ?_⟩
    rw [Instruction.command?, Pool.method?_of_methodRef hp hq ht]
    rfl
  | checkCast name =>
    cases h
    obtain ⟨p, q, hp, hq, ht⟩ := hindex _ rfl
    refine ⟨_, rfl, fun here => ?_⟩
    rw [Instruction.command?, Pool.class?_of_classRef hp hq ht]
    rfl
  | instanceOf name =>
    cases h
    obtain ⟨p, q, hp, hq, ht⟩ := hindex _ rfl
    refine ⟨_, rfl, fun here => ?_⟩
    rw [Instruction.command?, Pool.class?_of_classRef hp hq ht]
    rfl
  | iadd => cases h; exact ⟨_, rfl, fun _ => rfl⟩
  | imul => cases h; exact ⟨_, rfl, fun _ => rfl⟩
  | dup => cases h; exact ⟨_, rfl, fun _ => rfl⟩
  | pop => cases h; exact ⟨_, rfl, fun _ => rfl⟩
  | invokeDynamic site type => cases h; exact ⟨_, rfl, fun _ => rfl⟩
  | returnVoid => cases h; exact ⟨_, rfl, fun _ => rfl⟩
  | returnValue type => cases h; exact ⟨_, rfl, fun _ => rfl⟩
  | branch condition target => cases h
  | bind label frame => cases h

theorem eq_branch_of_select {op : Operation} {index : UInt16} {condition : Condition}
    {target : Label} (h : op.select index = .ok (.jump condition target)) :
    op = .branch condition target := by
  cases op with
  | branch condition target =>
    cases h
    rfl
  | load slot type =>
    unfold select at h
    simp only at h
    split at h <;> cases h
  | _ => cases h

/-- An operation binds a label or is an instruction. -/
theorem bind_or_ne (op : Operation) :
    (∃ label frame, op = .bind label frame) ∨ ∀ label frame, op ≠ .bind label frame := by
  cases op with
  | bind label frame => exact .inl ⟨label, frame, rfl⟩
  | _ => exact .inr fun _ _ h => Operation.noConfusion h

theorem eq_bind_of_select {op : Operation} {index : UInt16} (h : op.select index = .ok .nothing) :
    ∃ label frame, op = .bind label frame := by
  cases op with
  | bind label frame => exact ⟨label, frame, rfl⟩
  | load slot type =>
    unfold select at h
    simp only at h
    split at h <;> cases h
  | _ => cases h

end Operation

/-! ## One step of the assembler -/

/-- The labels that operations bind, in order. -/
def boundLabels (ops : List Operation) : List Label :=
  ops.filterMap fun
    | .bind label _ => some label
    | _ => none

theorem boundLabels_bind (label : Label) (frame : Frame) (ops : List Operation) :
    boundLabels (.bind label frame :: ops) = label :: boundLabels ops := rfl

theorem boundLabels_append (ops ops' : List Operation) :
    boundLabels (ops ++ ops') = boundLabels ops ++ boundLabels ops' :=
  List.filterMap_append

theorem boundLabels_of_ne {op : Operation} (hop : ∀ label frame, op ≠ .bind label frame)
    (ops : List Operation) : boundLabels (op :: ops) = boundLabels ops := by
  cases op with
  | bind label frame => exact absurd rfl (hop label frame)
  | _ => rfl

/-- The operations without the labels that are bound again later. -/
def live : List Operation → List Operation
  | [] => []
  | .bind label frame :: ops =>
    if label ∈ boundLabels ops then live ops else .bind label frame :: live ops
  | op :: ops => op :: live ops

theorem live_of_ne {op : Operation} (hop : ∀ label frame, op ≠ .bind label frame)
    (ops : List Operation) : live (op :: ops) = op :: live ops := by
  cases op with
  | bind label frame => exact absurd rfl (hop label frame)
  | _ => rfl

theorem live_of_nodup {ops : List Operation} (h : (boundLabels ops).Nodup) : live ops = ops := by
  induction ops with
  | nil => rfl
  | cons op ops ih =>
    obtain ⟨l, frame, rfl⟩ | hop := op.bind_or_ne
    · rw [boundLabels_bind, List.nodup_cons] at h
      rw [live, if_neg h.1, ih h.2]
    · rw [boundLabels_of_ne hop] at h
      rw [live_of_ne hop, ih h]

/-- The placed instruction has the command of the operation. -/
def Placed.Stands (t : ConstantTable) (op : Operation) : Placed → Prop
  | .fixed i => ∃ a, op.command? = some (.act a) ∧ ∀ here, i.command? t here = some (.act a)
  | .jump condition target => op.command? = some (.jump condition target)

namespace Assembler

/-- What does not change when only faults, the stack or the room for locals do. -/
structure SameCode (s s' : Assembler) : Prop where
  pool : s'.pool = s.pool
  code : s'.code = s.code
  position : s'.position = s.position
  labels : s'.labels = s.labels
  frames : s'.frames = s.frames
  /-- A fault is never forgotten. -/
  fault : s'.fault = none → s.fault = none

theorem SameCode.trans {s s' s'' : Assembler} (h : SameCode s s') (h' : SameCode s' s'') :
    SameCode s s'' where
  pool := h'.pool.trans h.pool
  code := h'.code.trans h.code
  position := h'.position.trans h.position
  labels := h'.labels.trans h.labels
  frames := h'.frames.trans h.frames
  fault hf := h.fault (h'.fault hf)

theorem fault_noteFault (s : Assembler) (e : Error) : (s.noteFault e).fault ≠ none := by
  unfold noteFault
  split
  · simp
  · rename_i h
    simp [h]

theorem sameCode_noteFault (s : Assembler) (e : Error) : SameCode s (s.noteFault e) := by
  unfold noteFault
  split
  · exact ⟨rfl, rfl, rfl, rfl, rfl, fun h => by cases h⟩
  · exact ⟨rfl, rfl, rfl, rfl, rfl, id⟩

theorem sameCode_setDepth (s : Assembler) (depth : UInt16) : SameCode s (s.setDepth depth) :=
  ⟨rfl, rfl, rfl, rfl, rfl, id⟩

theorem sameCode_adjust (s : Assembler) (pops pushes : UInt16) :
    SameCode s (s.adjust pops pushes) := by
  unfold adjust
  split
  · exact (sameCode_noteFault s _).trans (sameCode_setDepth _ _)
  · exact sameCode_setDepth _ _

theorem sameCode_reserve (s : Assembler) (locals : UInt16) : SameCode s (s.reserve locals) :=
  ⟨rfl, rfl, rfl, rfl, rfl, id⟩

/-- A constant that was got without a fault is in the pool. -/
theorem intern_spec {s : Assembler} {r : Intern UInt16} (h : (s.intern r).2.fault = none) :
    ∃ q, r s.pool = .ok (s.intern r).1 q ∧ (s.intern r).2 = { s with pool := q } := by
  unfold intern at h ⊢
  obtain ⟨pool, code, position, labels, frames, depth, maxStack, maxLocals, fault⟩ := s
  simp only at h ⊢
  split
  · rename_i i q hq
    exact ⟨q, hq, rfl⟩
  · rename_i e q hq
    rw [hq] at h
    exact absurd h (fault_noteFault _ e)

/-- The index and the state in which an operation's instruction is selected. -/
def indexFor (s : Assembler) (op : Operation) : UInt16 × Assembler :=
  match op.constant with
  | some request => s.intern request
  | none => (0, s)

theorem step_eq {s : Assembler} {op : Operation} (hop : ∀ label frame, op ≠ .bind label frame) :
    s.step op = (((s.indexFor op).2.placeSelected (op.select (s.indexFor op).1)).reserve
      op.touches).adjust op.pops op.pushes := by
  cases op with
  | bind label frame => exact absurd rfl (hop label frame)
  | _ => rfl

/-- The constant of an operation is in the pool once it was got without a fault. -/
theorem indexFor_spec {s : Assembler} {op : Operation} (h : (s.indexFor op).2.fault = none) :
    ∃ q, s.pool.Grows q ∧ (s.indexFor op).2 = { s with pool := q } ∧
      (s.pool.Valid → ∀ t, q.table ≤ t → op.Indexed t (s.indexFor op).1) := by
  unfold indexFor at h ⊢
  split at h
  · rename_i r hr
    obtain ⟨q, hq, hs⟩ := intern_spec h
    refine ⟨q, (Operation.constant_appends hr).grows hq, hs, fun hp t ht r' hr' => ?_⟩
    cases hr.symm.trans hr'
    exact ⟨s.pool, q, hp, hq, ht⟩
  · rename_i hnone
    refine ⟨s.pool, Pool.Grows.refl _, rfl, fun _ t _ r hr => ?_⟩
    rw [hnone] at hr
    cases hr

/-- What is selected is placed after all other instructions. -/
theorem placeSelected_spec {s : Assembler} {op : Operation} {index : UInt16}
    (hop : ∀ label frame, op ≠ .bind label frame)
    (h : (s.placeSelected (op.select index)).fault = none) :
    ∃ p, s.placeSelected (op.select index) = s.place p ∧
      (∀ condition target, p = .jump condition target → op = .branch condition target) ∧
      ∀ t, op.Indexed t index → p.Stands t op := by
  cases hselect : op.select index with
  | error e =>
    rw [hselect] at h
    exact absurd h (fault_noteFault s e)
  | ok selected =>
    cases selected with
    | instruction i =>
      refine ⟨.fixed i, rfl, ?_, fun t ht => Operation.command?_select ht hselect⟩
      intro condition target hp
      cases hp
    | jump condition target =>
      have hop := Operation.eq_branch_of_select hselect
      refine ⟨.jump condition target, rfl, ?_, fun t _ => ?_⟩
      · intro condition' target' hp
        cases hp
        exact hop
      · rw [hop]
        rfl
    | nothing =>
      obtain ⟨label, frame, rfl⟩ := Operation.eq_bind_of_select hselect
      exact absurd rfl (hop label frame)

/-- From `s` to `s'` the instruction of an operation was placed, and nothing went wrong. -/
structure Placement (s s' : Assembler) (op : Operation) (p : Placed) : Prop where
  fault : s.fault = none
  grows : s.pool.Grows s'.pool
  code : s'.code = s.code.push (s.position, p)
  position : s'.position = s.position + p.size
  labels : s'.labels = s.labels
  frames : s'.frames = s.frames
  branch : ∀ condition target, p = .jump condition target → op = .branch condition target
  stands : s.pool.Valid → ∀ t, s'.pool.table ≤ t → p.Stands t op

/-- A step that is no label and leaves no fault places one instruction. -/
theorem step_spec {s : Assembler} {op : Operation} (hop : ∀ label frame, op ≠ .bind label frame)
    (h : (s.step op).fault = none) : ∃ p, Placement s (s.step op) op p := by
  rw [step_eq hop] at h ⊢
  have hsame := (sameCode_reserve ((s.indexFor op).2.placeSelected (op.select (s.indexFor op).1))
    op.touches).trans (sameCode_adjust _ op.pops op.pushes)
  have hplaced := hsame.fault h
  obtain ⟨p, hp, hbranch, hstands⟩ := placeSelected_spec hop hplaced
  rw [hp] at hplaced
  obtain ⟨q, hgrows, hs, hindexed⟩ := indexFor_spec hplaced
  rw [hs] at hp hplaced
  refine ⟨p, hplaced, ?_, ?_, ?_, ?_, ?_, hbranch, ?_⟩
  · rw [hsame.pool, hs, hp]
    exact hgrows
  · rw [hsame.code, hs, hp]
    rfl
  · rw [hsame.position, hs, hp]
    rfl
  · rw [hsame.labels, hs, hp]
    rfl
  · rw [hsame.frames, hs, hp]
    rfl
  · intro hvalid t ht
    rw [hsame.pool, hs, hp] at ht
    exact hstands t (hindexed hvalid t ht)

theorem step_bind_spec (s : Assembler) (label : Label) (frame : Frame) :
    (s.step (.bind label frame)).pool = s.pool ∧ (s.step (.bind label frame)).code = s.code ∧
      (s.step (.bind label frame)).position = s.position ∧
      (s.step (.bind label frame)).labels = (label, s.position) :: s.labels ∧
      (s.step (.bind label frame)).fault = s.fault :=
  ⟨rfl, rfl, rfl, rfl, rfl⟩

theorem fault_of_step {s : Assembler} {op : Operation} (h : (s.step op).fault = none) :
    s.fault = none := by
  obtain ⟨label, frame, rfl⟩ | hop := op.bind_or_ne
  · exact h
  · obtain ⟨p, hp⟩ := step_spec hop h
    exact hp.fault

theorem fault_of_steps {s : Assembler} {ops : List Operation} (h : (s.steps ops).fault = none) :
    s.fault = none := by
  induction ops generalizing s with
  | nil => exact h
  | cons op ops ih => exact fault_of_step (ih h)

theorem pool_intern (s : Assembler) (r : Intern UInt16) :
    (s.intern r).2.pool = Pool.after r s.pool := by
  obtain ⟨pool, code, position, labels, frames, depth, maxStack, maxLocals, fault⟩ := s
  unfold intern Pool.after
  simp only
  cases r pool with
  | ok i q => rfl
  | error e q => exact (sameCode_noteFault _ e).pool

theorem pool_placeSelected (s : Assembler) (selected : Except Error Operation.Selected) :
    (s.placeSelected selected).pool = s.pool := by
  unfold placeSelected
  split
  · rfl
  · rfl
  · rfl
  · exact (sameCode_noteFault s _).pool

/-- Constants stay in the pool even if the operation they are for cannot be assembled. -/
theorem grows_step (s : Assembler) (op : Operation) : s.pool.Grows (s.step op).pool := by
  obtain ⟨label, frame, rfl⟩ | hop := op.bind_or_ne
  · exact Pool.Grows.refl _
  · have hindex : s.pool.Grows (s.indexFor op).2.pool := by
      unfold indexFor
      split
      · rename_i request hrequest
        rw [pool_intern]
        exact Operation.constant_appends hrequest s.pool
      · exact Pool.Grows.refl _
    rw [step_eq hop, (sameCode_adjust _ _ _).pool, (sameCode_reserve _ _).pool, pool_placeSelected]
    exact hindex

theorem grows_steps (s : Assembler) (ops : List Operation) :
    s.pool.Grows (s.steps ops).pool := by
  induction ops generalizing s with
  | nil => exact Pool.Grows.refl _
  | cons op ops ih => exact (grows_step s op).trans (ih (s.step op))

/-- A label that is not bound again keeps its place. -/
theorem lookup_steps {s : Assembler} {ops : List Operation} {label : Label}
    (h : (s.steps ops).fault = none) (hlabel : label ∉ boundLabels ops) :
    (s.steps ops).labels.lookup label = s.labels.lookup label := by
  induction ops generalizing s with
  | nil => rfl
  | cons op ops ih =>
    have hstep := fault_of_steps (s := s.step op) h
    show ((s.step op).steps ops).labels.lookup label = _
    obtain ⟨l, frame, rfl⟩ | hop := op.bind_or_ne
    · rw [boundLabels_bind, List.mem_cons, not_or] at hlabel
      rw [ih h hlabel.2, (step_bind_spec s l frame).2.2.2.1, List.lookup_cons]
      have hne : (label == l) = false := by simpa using hlabel.1
      rw [hne]
    · have hbound := boundLabels_of_ne hop ops
      obtain ⟨p, hp⟩ := step_spec hop hstep
      rw [ih h (hbound ▸ hlabel), hp.labels]

end Assembler

/-! ## A whole body -/

/-- The instructions `ps` were placed for the operations, the first at offset `n`. -/
inductive Assembled (t : ConstantTable) (labels : List (Label × Nat)) :
    List Operation → Nat → List (Nat × Placed) → Prop
  | nil {n : Nat} : Assembled t labels [] n []
  | bind {label : Label} {frame : Frame} {ops : List Operation} {n : Nat}
      {ps : List (Nat × Placed)} (here : labels.lookup label = some n)
      (rest : Assembled t labels ops n ps) : Assembled t labels (.bind label frame :: ops) n ps
  | place {op : Operation} {p : Placed} {ops : List Operation} {n : Nat}
      {ps : List (Nat × Placed)} (here : p.Stands t op)
      (rest : Assembled t labels ops (n + p.size) ps) :
      Assembled t labels (op :: ops) n ((n, p) :: ps)

namespace Assembler

/-- Steps add the instructions of their operations to those already placed. A label stands where it
is last bound. -/
theorem assembled_of_steps {s : Assembler} {ops : List Operation} {t : ConstantTable}
    (hvalid : s.pool.Valid) (h : (s.steps ops).fault = none)
    (ht : (s.steps ops).pool.table ≤ t) :
    ∃ ps, (s.steps ops).code.toList = s.code.toList ++ ps ∧
      Assembled t (s.steps ops).labels (live ops) s.position ps := by
  induction ops generalizing s with
  | nil => exact ⟨[], by simp [steps], .nil⟩
  | cons op ops ih =>
    have hstep := fault_of_steps (s := s.step op) h
    have hle : (s.step op).pool.table ≤ t := le_trans (grows_steps (s.step op) ops).le ht
    have hvalid' := (grows_step s op).valid hvalid
    obtain ⟨ps, hcode, hps⟩ := ih hvalid' h ht
    obtain ⟨l, frame, rfl⟩ | hop := op.bind_or_ne
    · refine ⟨ps, hcode, ?_⟩
      rw [live]
      split
      · exact hps
      · rename_i hlast
        refine .bind ?_ hps
        -- labels are looked up at the end of the run, where a later binding would hide this one
        show ((s.step _).steps ops).labels.lookup l = _
        rw [lookup_steps (s := s.step _) h hlast, (step_bind_spec s l frame).2.2.2.1]
        simp
    · obtain ⟨p, hp⟩ := step_spec hop hstep
      rw [live_of_ne hop]
      refine ⟨(s.position, p) :: ps, ?_, .place (hp.stands hvalid t hle) (hp.position ▸ hps)⟩
      show ((s.step op).steps ops).code.toList = _
      rw [hcode, hp.code]
      simp

/-- Finished code was assembled without a fault, linked and framed. -/
theorem finish_eq_ok {s : Assembler} {code : Code} (h : s.finish = .ok code) :
    ∃ is joined, s.fault = none ∧ linkFrom s.labels #[] s.code.toList = .ok is ∧
      s.position ≤ 65535 ∧ joinFrom #[] s.frames.toList = .ok joined ∧
      code = ⟨s.maxStack, s.maxLocals, is.toList.flatMap Instruction.encode, joined.toList⟩ := by
  unfold finish at h
  split at h
  · cases h
  · rename_i hfault
    split at h
    · cases h
    · rename_i is hlink
      split at h
      · cases h
      · rename_i hsize
        split at h
        · cases h
        · rename_i joined hjoined
          cases h
          exact ⟨is, joined, hfault, hlink, Nat.le_of_not_lt hsize, hjoined, rfl⟩

/-- Linking goes through the placed instructions one by one. -/
theorem linkFrom_eq_ok {labels : List (Label × Nat)} {before : Array Instruction}
    {ps : List (Nat × Placed)} {is : Array Instruction} (h : linkFrom labels before ps = .ok is) :
    ∃ linked, is.toList = before.toList ++ linked ∧
      List.Forall₂ (fun q i => link labels q.1 q.2 = .ok i) ps linked := by
  induction ps generalizing before with
  | nil =>
    cases h
    exact ⟨[], by simp, .nil⟩
  | cons q ps ih =>
    obtain ⟨here, p⟩ := q
    unfold linkFrom at h
    split at h
    · rename_i i hi
      obtain ⟨linked, his, hlinked⟩ := ih h
      exact ⟨i :: linked, by simp [his], .cons hi hlinked⟩
    · cases h

/-- Linking only fills in the distances of branches. -/
theorem link_cases {labels : List (Label × Nat)} {here : Nat} {p : Placed} {i : Instruction}
    (h : link labels here p = .ok i) :
    p = .fixed i ∨ ∃ condition target offset,
      p = .jump condition target ∧ i = .branch condition offset := by
  cases p with
  | fixed j =>
    cases h
    exact .inl rfl
  | jump condition target =>
    unfold link at h
    simp only at h
    split at h
    · cases h
    · split at h
      · cases h
        exact .inr ⟨condition, target, _, rfl, rfl⟩
      · cases h

/-- A linked instruction takes the bytes that were set aside for it. -/
theorem length_encode_link {labels : List (Label × Nat)} {here : Nat} {p : Placed}
    {i : Instruction} (h : link labels here p = .ok i) : i.encode.length = p.size := by
  obtain rfl | ⟨condition, target, offset, rfl, rfl⟩ := link_cases h
  · rfl
  · rfl

/-- A linked instruction has the command of its operation, with the label at its place. -/
theorem command?_link {labels : List (Label × Nat)} {here : Nat} {p : Placed} {i : Instruction}
    {t : ConstantTable} {op : Operation} (h : link labels here p = .ok i)
    (hp : p.Stands t op) :
    ∃ c, op.command?.bind (Command.place fun l => labels.lookup l) = some c ∧
      i.command? t here = some c := by
  cases p with
  | fixed j =>
    cases h
    obtain ⟨a, hop, ha⟩ := hp
    exact ⟨.act a, by rw [hop]; rfl, ha here⟩
  | jump condition target =>
    unfold link at h
    simp only at h
    split at h
    · cases h
    · rename_i there hthere
      split at h
      · rename_i hrange
        cases h
        have hoffset : (Int16.ofInt ((there : Int) - here)).toInt = there - here := by
          rw [Int16.toInt_ofInt]
          exact Int.bmod_eq_of_le (by rw [Int16.size]; omega) (by rw [Int16.size]; omega)
        refine ⟨.jump condition there, ?_, ?_⟩
        · rw [hp]
          simp [Command.place, hthere]
        · have hthere' : (here : Int) + (there - here) = there := by omega
          rw [Instruction.command?, hoffset, hthere']
          simp
      · cases h

end Assembler

/-! ## Operations in code -/

/-- The operation stands at offset `n` of the code, and the next one at `k`. A label stands where
it says, between two instructions. -/
def StandsAt (t : ConstantTable) (code : Bytes) (where? : Label → Option Nat) :
    Operation → Nat → Nat → Prop
  | .bind label _, n, k => where? label = some n ∧ k = n
  | op, n, k =>
    ∃ c, op.command?.bind (Command.place where?) = some c ∧ fetch? t code n = some (c, k)

/-- The operations stand in the code one after the other, from offset `n` to offset `m`. -/
def Located (t : ConstantTable) (code : Bytes) (where? : Label → Option Nat) :
    List Operation → Nat → Nat → Prop
  | [], n, m => n = m
  | op :: ops, n, m => ∃ k, StandsAt t code where? op n k ∧ Located t code where? ops k m

section Located

variable {t : ConstantTable} {code : Bytes} {where? : Label → Option Nat}

theorem located_append {a b : List Operation} {n m : Nat} :
    Located t code where? (a ++ b) n m ↔
      ∃ k, Located t code where? a n k ∧ Located t code where? b k m := by
  induction a generalizing n with
  | nil =>
    constructor
    · intro h
      exact ⟨n, rfl, h⟩
    · rintro ⟨k, rfl, h⟩
      exact h
  | cons op a ih =>
    constructor
    · rintro ⟨j, hop, h⟩
      obtain ⟨k, ha, hb⟩ := ih.mp h
      exact ⟨k, ⟨j, hop, ha⟩, hb⟩
    · rintro ⟨k, ⟨j, hop, ha⟩, hb⟩
      exact ⟨j, hop, ih.mpr ⟨k, ha, hb⟩⟩

/-- A label stands between the operations before it and those after it. -/
theorem located_bind {a b : List Operation} {label : Label} {frame : Frame} {n m : Nat} :
    Located t code where? (a ++ .bind label frame :: b) n m ↔
      ∃ k, where? label = some k ∧ Located t code where? a n k ∧ Located t code where? b k m := by
  rw [located_append]
  constructor
  · rintro ⟨k, ha, _, ⟨hlabel, rfl⟩, hb⟩
    exact ⟨_, hlabel, ha, hb⟩
  · rintro ⟨k, hlabel, ha, hb⟩
    exact ⟨k, ha, k, ⟨hlabel, rfl⟩, hb⟩

theorem standsAt_of_ne {op : Operation} (hop : ∀ label frame, op ≠ .bind label frame) {n k : Nat} :
    StandsAt t code where? op n k ↔
      ∃ c, op.command?.bind (Command.place where?) = some c ∧ fetch? t code n = some (c, k) := by
  cases op with
  | bind label frame => exact absurd rfl (hop label frame)
  | _ => exact Iff.rfl

/-- An operation that does not branch is fetched where it stands. -/
theorem StandsAt.act {op : Operation} {a : Action} {n k : Nat} (h : StandsAt t code where? op n k)
    (ha : op.command? = some (.act a)) : fetch? t code n = some (.act a, k) := by
  have hop : ∀ label frame, op ≠ .bind label frame := by
    rintro label frame rfl
    cases ha
  obtain ⟨c, hc, hfetch⟩ := (standsAt_of_ne hop).mp h
  rw [ha] at hc
  cases hc
  exact hfetch

/-- A branch is fetched where it stands, and its label has a place. -/
theorem StandsAt.jump {condition : Condition} {target : Label} {n k : Nat}
    (h : StandsAt t code where? (.branch condition target) n k) :
    ∃ there, where? target = some there ∧ fetch? t code n = some (.jump condition there, k) := by
  obtain ⟨c, hc, hfetch⟩ := h
  obtain ⟨there, hthere, rfl⟩ := Option.map_eq_some_iff.mp hc
  exact ⟨there, hthere, hfetch⟩

/-- What was placed and linked is located in the linked bytes. -/
theorem located_of_assembled {labels : List (Label × Nat)} {ops : List Operation} {n : Nat}
    {ps : List (Nat × Placed)} {is : List Instruction} {before : Bytes}
    (h : Assembled t labels ops n ps)
    (hlink : List.Forall₂ (fun q i => Assembler.link labels q.1 q.2 = .ok i) ps is)
    (hcode : code = before ++ is.flatMap Instruction.encode) (hn : n = before.length) :
    Located t code (fun l => labels.lookup l) ops n code.length := by
  induction h generalizing is before with
  | nil =>
    cases hlink
    rw [hcode, hn, List.flatMap_nil, List.append_nil]
    rfl
  | bind here rest ih => exact ⟨_, ⟨here, rfl⟩, ih hlink hcode hn⟩
  | @place op p ops n ps here rest ih =>
    cases hlink with
    | @cons q i ps is hi his =>
      obtain ⟨c, hc, hi'⟩ := Assembler.command?_link hi here
      have hsize := Assembler.length_encode_link hi
      rw [List.flatMap_cons] at hcode
      have hdrop : code.drop n = i.encode ++ is.flatMap Instruction.encode := by
        rw [hcode, hn, List.drop_left]
      have hfetch := fetch?_of_drop hdrop hi'
      rw [hsize] at hfetch
      have hop : ∀ label frame, op ≠ .bind label frame := by
        rintro label frame rfl
        cases hc
      rw [← List.append_assoc] at hcode
      refine ⟨n + p.size, (standsAt_of_ne hop).mpr ⟨c, hc, hfetch⟩, ih his hcode ?_⟩
      rw [List.length_append, hn, hsize]

/-- Assembled operations are located in the finished code, with labels where they were last
bound. -/
theorem Assembler.located_live_of_finish {pool : Pool} {locals : UInt16} {ops : List Operation}
    {finished : Code} (hvalid : pool.Valid)
    (h : ((start pool locals).steps ops).finish = .ok finished)
    (ht : ((start pool locals).steps ops).pool.table ≤ t) :
    Located t finished.bytes (fun l => ((start pool locals).steps ops).labels.lookup l) (live ops) 0
      finished.bytes.length := by
  obtain ⟨is, joined, hfault, hlink, -, -, rfl⟩ := finish_eq_ok h
  obtain ⟨ps, hcode, hps⟩ := assembled_of_steps hvalid hfault ht
  obtain ⟨linked, his, hlinked⟩ := linkFrom_eq_ok hlink
  rw [hcode] at hlinked
  have hbytes : is.toList.flatMap Instruction.encode =
      [] ++ linked.flatMap Instruction.encode := by
    rw [his]
    rfl
  exact located_of_assembled hps hlinked hbytes rfl

/-- If no label is bound twice, all of them stand where they were bound. -/
theorem Assembler.located_of_finish {pool : Pool} {locals : UInt16} {ops : List Operation}
    {finished : Code} (hvalid : pool.Valid) (hnodup : (boundLabels ops).Nodup)
    (h : ((start pool locals).steps ops).finish = .ok finished)
    (ht : ((start pool locals).steps ops).pool.table ≤ t) :
    Located t finished.bytes (fun l => ((start pool locals).steps ops).labels.lookup l) ops 0
      finished.bytes.length := by
  have hlocated := located_live_of_finish hvalid h ht
  rwa [live_of_nodup hnodup] at hlocated

end Located

namespace Body

variable {b : Body} {locals : UInt16} {p q : Pool} {code : Code}

theorem assemble_eq_ok (h : b.assemble locals p = .ok code q) :
    ((Assembler.start p locals).steps b.operations).finish = .ok code ∧
      q = ((Assembler.start p locals).steps b.operations).pool := by
  unfold assemble at h
  simp only at h
  split at h
  · cases h
  · split at h
    · cases h
      exact ⟨by assumption, rfl⟩
    · cases h

/-- Assembling a body adds to the pool, even if it fails. -/
theorem assemble_appends (b : Body) (locals : UInt16) : Pool.Appends (b.assemble locals) := by
  intro p
  have hgrows := Assembler.grows_steps (Assembler.start p locals) b.operations
  unfold Pool.after assemble
  simp only
  split
  · rename_i h
    split at h
    · cases h
    · split at h <;> cases h
      exact hgrows
  · rename_i h
    split at h
    · cases h
      exact hgrows
    · split at h <;> cases h
      exact hgrows

theorem grows_of_assemble (h : b.assemble locals p = .ok code q) : p.Grows q :=
  (assemble_appends b locals).grows h

/-- The code of a body holds its operations, in every table that starts with the pool. -/
theorem located_of_assemble (h : b.assemble locals p = .ok code q) (hvalid : p.Valid)
    (hnodup : (boundLabels b.operations).Nodup) {t : ConstantTable} (ht : q.table ≤ t) :
    ∃ where?, Located t code.bytes where? b.operations 0 code.bytes.length := by
  obtain ⟨hfinish, rfl⟩ := assemble_eq_ok h
  exact ⟨_, Assembler.located_of_finish hvalid hnodup hfinish ht⟩

end Body

end SchemaRecords.ClassFile
