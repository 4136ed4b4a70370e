import SchemaRecords.Proofs.Verifier.Flow

/-!
# The assembler counts the operands that the verifier sees

The assembler keeps a number, the depth of the stack, where the verifier keeps the
operands themselves. Along a flow the two agree (`Rule.Acts.slots`), so that the
greatest depth met by the assembler bounds every state of the flow
(`Flow.tighten`). Depths are words of 16 bits, so a flow is first followed in a
scope with as much room as such a word can count (`Scope.deep`).
-/

namespace SchemaRecords.ClassFile.Assembler

/-- What the assembler counts when it takes an operation. -/
structure Counts (s s' : Assembler) (op : Operation) : Prop where
  enough : op.pops ≤ s.depth
  depth : s'.depth = s.depth - op.pops + op.pushes
  depth_le : s'.depth.toNat ≤ s'.maxStack.toNat

theorem setDepth_le (s : Assembler) (depth : UInt16) :
    s.maxStack.toNat ≤ (s.setDepth depth).maxStack.toNat ∧
      depth.toNat ≤ (s.setDepth depth).maxStack.toNat := by
  show _ ≤ (max s.maxStack depth).toNat ∧ _ ≤ (max s.maxStack depth).toNat
  rw [UInt16.toNat_max]
  omega

theorem adjust_counts {s : Assembler} {pops pushes : UInt16}
    (h : (s.adjust pops pushes).fault = none) :
    pops ≤ s.depth ∧ s.adjust pops pushes = s.setDepth (s.depth - pops + pushes) := by
  unfold adjust at h ⊢
  split
  · rename_i hlt
    rw [if_pos hlt] at h
    exact absurd h (fault_noteFault s _)
  · rename_i hlt
    exact ⟨UInt16.not_lt.mp hlt, rfl⟩

/-- The state in which the assembler adjusts the stack for an operation that leaves no fault. -/
theorem exists_step_eq {s : Assembler} {op : Operation}
    (hop : ∀ label frame, op ≠ .bind label frame) (h : (s.step op).fault = none) :
    ∃ q p, s.step op = (({ s with pool := q }.place p).reserve op.touches).adjust
      op.pops op.pushes := by
  rw [step_eq hop] at h ⊢
  have hplaced := ((sameCode_reserve _ op.touches).trans
    (sameCode_adjust _ op.pops op.pushes)).fault h
  obtain ⟨p, hp, -, -⟩ := placeSelected_spec hop hplaced
  rw [hp] at hplaced
  obtain ⟨q, -, hs, -⟩ := indexFor_spec hplaced
  exact ⟨q, p, by rw [hp, hs]⟩

theorem counts_step {s : Assembler} {op : Operation}
    (hop : ∀ label frame, op ≠ .bind label frame) (h : (s.step op).fault = none) :
    Counts s (s.step op) op := by
  obtain ⟨q, p, hstep⟩ := exists_step_eq hop h
  rw [hstep] at h ⊢
  obtain ⟨henough, hadjust⟩ := adjust_counts h
  rw [hadjust]
  exact ⟨henough, rfl, (setDepth_le _ _).2⟩

theorem maxStack_le_step {s : Assembler} {op : Operation} (h : (s.step op).fault = none) :
    s.maxStack.toNat ≤ (s.step op).maxStack.toNat := by
  obtain ⟨label, frame, rfl⟩ | hop := op.bind_or_ne
  · exact (setDepth_le _ frame.stackSlots).1
  · obtain ⟨q, p, hstep⟩ := exists_step_eq hop h
    rw [hstep] at h ⊢
    rw [(adjust_counts h).2]
    exact (setDepth_le _ _).1

theorem maxLocals_le_step {s : Assembler} {op : Operation} (h : (s.step op).fault = none) :
    s.maxLocals.toNat ≤ (s.step op).maxLocals.toNat := by
  obtain ⟨label, frame, rfl⟩ | hop := op.bind_or_ne
  · exact Nat.le_refl s.maxLocals.toNat
  · obtain ⟨q, p, hstep⟩ := exists_step_eq hop h
    rw [hstep] at h ⊢
    rw [(adjust_counts h).2]
    show _ ≤ (max s.maxLocals op.touches).toNat
    rw [UInt16.toNat_max]
    exact Nat.le_max_left _ _

theorem maxStack_le_steps {s : Assembler} {ops : List Operation} (h : (s.steps ops).fault = none) :
    s.maxStack.toNat ≤ (s.steps ops).maxStack.toNat := by
  induction ops generalizing s with
  | nil => exact Nat.le_refl _
  | cons op ops ih => exact Nat.le_trans (maxStack_le_step (fault_of_steps h)) (ih h)

theorem maxLocals_le_steps {s : Assembler} {ops : List Operation}
    (h : (s.steps ops).fault = none) : s.maxLocals.toNat ≤ (s.steps ops).maxLocals.toNat := by
  induction ops generalizing s with
  | nil => exact Nat.le_refl _
  | cons op ops ih => exact Nat.le_trans (maxLocals_le_step (fault_of_steps h)) (ih h)

end SchemaRecords.ClassFile.Assembler

namespace SchemaRecords.Verifier

open SchemaRecords.ClassFile

/-! ## Slots of rules -/

/-- The slots that the types of operands take together. -/
def slotsOfTypes (types : List VerificationType) : Nat :=
  slotsOf (types.map .typed)

theorem slotsOf_reverse (os : List Operand) : slotsOf os.reverse = slotsOf os := by
  induction os with
  | nil => rfl
  | cons o os ih =>
    rw [List.reverse_cons, slotsOf_append, ih, slotsOf, slotsOf, slotsOf]
    omega

theorem toNat_add_of_le {a b : UInt16} (h : a.toNat + b.toNat ≤ 65535) :
    (a + b).toNat = a.toNat + b.toNat := by
  rw [UInt16.toNat_add]
  exact Nat.mod_eq_of_lt (by omega)

/-- A sum of slots that fits a word of 16 bits is counted without loss. -/
theorem toNat_foldl_slots {α : Type} (slots : α → UInt16) (operand : α → Operand)
    (hslots : ∀ a, (operand a).slots = (slots a).toNat) (as : List α) (n : UInt16)
    (h : n.toNat + slotsOf (as.map operand) ≤ 65535) :
    (as.foldl (fun n a => n + slots a) n).toNat = n.toNat + slotsOf (as.map operand) := by
  induction as generalizing n with
  | nil => rfl
  | cons a as ih =>
    rw [List.map_cons, slotsOf, hslots a] at h ⊢
    have hadd : (n + slots a).toNat = n.toNat + (slots a).toNat := toNat_add_of_le (by omega)
    rw [List.foldl_cons, ih (n + slots a) (by omega), hadd]
    omega

theorem toNat_stackSlots {f : Frame} (h : slotsOfTypes f.stack ≤ 65535) :
    f.stackSlots.toNat = slotsOfTypes f.stack := by
  have hsum := toNat_foldl_slots VerificationType.slots .typed (fun _ => rfl) f.stack 0
    (by rw [slotsOfTypes] at h; simpa using h)
  simpa [Frame.stackSlots, slotsOfTypes] using hsum

theorem slotsOfTypes_argumentTypes (type : MethodType) :
    slotsOfTypes (argumentTypes type) =
      slotsOf (type.parameters.map fun t => .typed t.verification) := by
  rw [slotsOfTypes, argumentTypes, List.map_reverse, slotsOf_reverse, List.map_map]
  rfl

theorem toNat_parameterSlots {type : MethodType}
    (h : slotsOfTypes (argumentTypes type) ≤ 65535) :
    type.parameterSlots.toNat = slotsOfTypes (argumentTypes type) := by
  rw [slotsOfTypes_argumentTypes] at h ⊢
  have hslots : ∀ t : FieldType, (Operand.typed t.verification).slots = t.slots.toNat :=
    fun t => congrArg UInt16.toNat (slots_verification t)
  have hsum := toNat_foldl_slots FieldType.slots (fun t => .typed t.verification) hslots
    type.parameters 0 (by simpa using h)
  simpa [MethodType.parameterSlots] using hsum

/-- An object and parameters take one slot more than the parameters. -/
theorem toNat_one_add_parameterSlots {type : MethodType}
    (h : slotsOfTypes (argumentTypes type) + 1 ≤ 65535) :
    (1 + type.parameterSlots).toNat = slotsOfTypes (argumentTypes type) + 1 := by
  have hparameters : type.parameterSlots.toNat = _ := toNat_parameterSlots (Nat.le_of_succ_le h)
  have hsmall : (1 : UInt16).toNat + type.parameterSlots.toNat ≤ 65535 := by
    rw [hparameters]
    show 1 + _ ≤ 65535
    omega
  rw [toNat_add_of_le hsmall, hparameters, Nat.add_comm]
  rfl

theorem toNat_resultSlots (type : MethodType) :
    type.resultSlots.toNat = slotsOfTypes (resultTypes type) := by
  unfold MethodType.resultSlots resultTypes
  cases type.result with
  | none => rfl
  | some t => exact (congrArg UInt16.toNat (slots_verification t)).symm

namespace Rule

/-- The slots that an instruction takes from the stack. -/
def taken : Rule → Nat
  | uses pops _ => slotsOfTypes pops
  | load _ _ => 0
  | pop => 1
  | dup => 1
  | construct _ arguments => slotsOfTypes arguments + 1
  | returns none => 0
  | returns (some family) => slotsOfFamily family

/-- The slots that an instruction puts on the stack. -/
def given : Rule → Nat
  | uses _ pushes => slotsOfTypes pushes
  | load family _ => slotsOfFamily family
  | pop => 0
  | dup => 2
  | construct _ _ => 0
  | returns _ => 0

end Rule

theorem slotsOf_constructed (name : String) (os : List Operand) :
    slotsOf (os.map (Operand.constructed name)) = slotsOf os := by
  induction os with
  | nil => rfl
  | cons o os ih =>
    rw [List.map_cons, slotsOf, ih, slotsOf]
    cases o <;> rfl

/-- An instruction leaves untouched what is below the operands that it takes. -/
theorem Rule.Acts.slots {x : Scope} {rule : Rule} {s s' : State} (h : rule.Acts x s s') :
    ∃ rest, slotsOf s.stack = rule.taken + rest ∧ slotsOf s'.stack = rule.given + rest := by
  cases h with
  | @uses s pops pushes operands rest stack types =>
    refine ⟨slotsOf rest, ?_, slotsOf_append _ _⟩
    rw [stack, slotsOf_append, slotsOf_eq types]
    rfl
  | @load s slot o held wide =>
    refine ⟨slotsOf s.stack, (Nat.zero_add _).symm, ?_⟩
    show o.slots + slotsOf s.stack = slotsOfFamily o.family + slotsOf s.stack
    rw [o.slots_eq]
  | @pop s o rest stack narrow =>
    refine ⟨slotsOf rest, ?_, (Nat.zero_add _).symm⟩
    rw [stack, slotsOf, narrow]
    rfl
  | @dup s o rest stack narrow =>
    refine ⟨slotsOf rest, ?_, ?_⟩
    · rw [stack, slotsOf, narrow]
      rfl
    · show o.slots + (o.slots + slotsOf rest) = 2 + slotsOf rest
      rw [narrow]
      omega
  | @construct s owner arguments operands rest stack types super =>
    refine ⟨slotsOf rest, ?_, ?_⟩
    · rw [stack, slotsOf_append, slotsOf_eq types]
      show slotsOfTypes arguments + (1 + slotsOf rest) = slotsOfTypes arguments + 1 + slotsOf rest
      omega
    · show slotsOf (rest.map (Operand.constructed x.thisName)) = 0 + slotsOf rest
      rw [slotsOf_constructed, Nat.zero_add]

theorem slotsOfTypes_append (ts us : List VerificationType) :
    slotsOfTypes (ts ++ us) = slotsOfTypes ts + slotsOfTypes us := by
  rw [slotsOfTypes, List.map_append, slotsOf_append]
  rfl

theorem slotsOfTypes_verification (t : FieldType) (types : List VerificationType) :
    slotsOfTypes (t.verification :: types) = t.slots.toNat + slotsOfTypes types :=
  congrArg (· + slotsOfTypes types) (congrArg UInt16.toNat (slots_verification t))

/-- The operation's own count of what it takes is that of its rule. -/
theorem toNat_pops {op : Operation} {rule : Rule} (h : ruleOf op = some rule)
    (hle : rule.taken ≤ 65535) : op.pops.toNat = rule.taken := by
  cases op with
  | load slot type => cases h; rfl
  | const value => cases h; rfl
  | iadd => cases h; rfl
  | imul => cases h; rfl
  | dup => cases h; rfl
  | pop => cases h; rfl
  | getField owner name type => cases h; rfl
  | putField owner name type =>
    cases h
    show (1 + type.slots).toNat = slotsOfTypes [type.verification, .object owner]
    have hsmall : (1 : UInt16).toNat + type.slots.toNat ≤ 65535 := by
      rw [slots_fieldType]
      cases type.family <;> decide
    rw [slotsOfTypes_verification, toNat_add_of_le hsmall, Nat.add_comm]
    rfl
  | invoke kind owner name type =>
    cases kind with
    | static =>
      obtain ⟨-, hrule⟩ := Option.ite_none_left_eq_some.mp h
      cases hrule
      show (0 + type.parameterSlots).toNat = _
      rw [UInt16.zero_add]
      exact toNat_parameterSlots hle
    | virtual =>
      obtain ⟨-, hrule⟩ := Option.ite_none_left_eq_some.mp h
      cases hrule
      have htaken : (Rule.uses (argumentTypes type ++ [.object owner]) (resultTypes type)).taken =
          slotsOfTypes (argumentTypes type) + 1 := slotsOfTypes_append _ _
      rw [htaken] at hle ⊢
      exact toNat_one_add_parameterSlots hle
    | special =>
      obtain ⟨-, hrule⟩ := Option.ite_none_right_eq_some.mp h
      cases hrule
      exact toNat_one_add_parameterSlots hle
  | invokeDynamic site type =>
    cases h
    exact toNat_parameterSlots hle
  | checkCast name => cases h; rfl
  | instanceOf name => cases h; rfl
  | branch condition target => cases h
  | bind label frame => cases h
  | returnVoid => cases h; rfl
  | returnValue type =>
    cases h
    exact slots_fieldType type

/-- The operation's own count of what it gives is that of its rule. -/
theorem toNat_pushes {op : Operation} {rule : Rule} (h : ruleOf op = some rule) :
    op.pushes.toNat = rule.given := by
  cases op with
  | load slot type =>
    cases h
    exact slots_fieldType type
  | const value => cases h; rfl
  | iadd => cases h; rfl
  | imul => cases h; rfl
  | dup => cases h; rfl
  | pop => cases h; rfl
  | getField owner name type =>
    cases h
    exact (slotsOfTypes_verification type []).symm
  | putField owner name type => cases h; rfl
  | invoke kind owner name type =>
    cases kind with
    | static =>
      obtain ⟨-, hrule⟩ := Option.ite_none_left_eq_some.mp h
      cases hrule
      exact toNat_resultSlots type
    | virtual =>
      obtain ⟨-, hrule⟩ := Option.ite_none_left_eq_some.mp h
      cases hrule
      exact toNat_resultSlots type
    | special =>
      obtain ⟨⟨-, hvoid⟩, hrule⟩ := Option.ite_none_right_eq_some.mp h
      cases hrule
      show type.resultSlots.toNat = 0
      rw [MethodType.resultSlots, hvoid]
      rfl
  | invokeDynamic site type =>
    cases h
    exact toNat_resultSlots type
  | checkCast name => cases h; rfl
  | instanceOf name => cases h; rfl
  | branch condition target => cases h
  | bind label frame => cases h
  | returnVoid => cases h; rfl
  | returnValue type => cases h; rfl

theorem toNat_pops_branch (condition : Condition) (target : Label) :
    (Operation.branch condition target).pops.toNat = slotsOfTypes (tested condition) := by
  cases condition <;> rfl

/-! ## The depth along a flow -/

/-- The scope with as much room on the stack as can be counted. -/
def Scope.deep (x : Scope) : Scope := { x with maxStack := 65535 }

theorem Rule.Acts.of_deep {x : Scope} {rule : Rule} {s s' : State} (h : rule.Acts x.deep s s') :
    rule.Acts x s s' := by
  cases h with
  | uses stack operands => exact .uses stack operands
  | load held wide => exact .load held wide
  | pop stack narrow => exact .pop stack narrow
  | dup stack narrow => exact .dup stack narrow
  | construct stack operands super => exact .construct stack operands super

theorem Rule.Returns.of_deep {x : Scope} {rule : Rule} {s : State} (h : rule.Returns x.deep s) :
    rule.Returns x s := by
  cases h with
  | value result stack operand => exact .value result stack operand
  | void result constructed => exact .void result constructed

/-- The assembler's depth is that of the verifier's stack. -/
def Agrees (s : Assembler) (state : State) : Prop :=
  slotsOf state.stack = s.depth.toNat

/-- The depths agree after an operation if they did before it. -/
theorem agrees_of_counts {s s' : Assembler} {op : Operation} {state state' : State} {rest : Nat}
    (hcounts : s.Counts s' op) (hagrees : Agrees s state)
    (htaken : slotsOf state.stack = op.pops.toNat + rest)
    (hgiven : slotsOf state'.stack = op.pushes.toNat + rest)
    (hle : slotsOf state'.stack ≤ 65535) : Agrees s' state' := by
  have hsub : (s.depth - op.pops).toNat = rest := by
    rw [UInt16.toNat_sub_of_le _ _ hcounts.enough, ← hagrees, htaken]
    omega
  rw [Agrees, hcounts.depth, toNat_add_of_le (by omega), hsub, hgiven]
  omega

/-- A flow stays within the greatest depth that the assembler meets along it. -/
theorem Flow.tighten {x : Scope} {declares : Label → Frame → Prop} {before after : Option State}
    {ops : List Operation} (h : Flow x.deep declares before ops after) {s : Assembler}
    (hs : ∀ state ∈ before, Agrees s state) (hfault : (s.steps ops).fault = none)
    (hmax : (s.steps ops).maxStack.toNat ≤ x.maxStack) : Flow x declares before ops after := by
  induction h generalizing s with
  | nil => exact .nil
  | @bind before after label frame ops flows fits rest ih =>
    have hagrees : Agrees (s.step (.bind label frame)) (.ofFrame x.maxLocals frame) := by
      have hslots : slotsOf (State.ofFrame x.maxLocals frame).stack = slotsOfTypes frame.stack := by
        rw [State.ofFrame, List.map_reverse, slotsOf_reverse]
        rfl
      have hle : slotsOf (State.ofFrame x.maxLocals frame).stack ≤ 65535 := fits.depth
      rw [hslots] at hle
      exact hslots.trans (toNat_stackSlots hle).symm
    have hdepth := Nat.le_trans (Assembler.setDepth_le _ frame.stackSlots).2
      (Assembler.maxStack_le_steps (s := s.step (.bind label frame)) hfault)
    refine .bind flows ⟨fits.locals, ?_⟩ (ih (fun _ h => by cases h; exact hagrees) hfault hmax)
    exact Nat.le_trans (Nat.le_of_eq hagrees) (Nat.le_trans hdepth hmax)
  | @act state state' after op rule ops hasRule acts fits rest ih =>
    have hcounts := Assembler.counts_step (ne_bind_of_ruleOf hasRule)
      (Assembler.fault_of_steps (s := s.step op) hfault)
    have hbefore : Agrees s state := hs state rfl
    obtain ⟨below, htaken, hgiven⟩ := acts.slots
    have hword : s.depth.toNat ≤ 65535 := Nat.le_of_lt_succ s.depth.toNat_lt
    have hpops := toNat_pops hasRule (by rw [Agrees] at hbefore; omega)
    rw [← hpops] at htaken
    rw [← toNat_pushes hasRule] at hgiven
    have hagrees := agrees_of_counts hcounts hbefore htaken hgiven fits.depth
    have hdepth := Nat.le_trans hcounts.depth_le
      (Assembler.maxStack_le_steps (s := s.step op) hfault)
    refine .act hasRule acts.of_deep ⟨fits.locals, ?_⟩
      (ih (fun _ h => by cases h; exact hagrees) hfault hmax)
    exact Nat.le_trans (Nat.le_of_eq hagrees) (Nat.le_trans hdepth hmax)
  | leave hasRule returns rest ih =>
    exact .leave hasRule returns.of_deep (ih (by simp) hfault hmax)
  | @jump state state' after condition target frame ops acts fits declared flows rest ih =>
    have hcounts := Assembler.counts_step (fun _ _ e => by cases e)
      (Assembler.fault_of_steps (s := s.step (.branch condition target)) hfault)
    obtain ⟨below, htaken, hgiven⟩ := acts.slots
    have htaken' : slotsOf state.stack = (Operation.branch condition target).pops.toNat + below :=
      htaken.trans (congrArg (· + below) (toNat_pops_branch condition target).symm)
    have hagrees := agrees_of_counts hcounts (hs state rfl) htaken' hgiven fits.depth
    have hdepth := Nat.le_trans hcounts.depth_le
      (Assembler.maxStack_le_steps (s := s.step (.branch condition target)) hfault)
    refine .jump acts.of_deep ⟨fits.locals, ?_⟩ declared flows (ih ?_ hfault hmax)
    · exact Nat.le_trans (Nat.le_of_eq hagrees) (Nat.le_trans hdepth hmax)
    · intro state'' hstate
      split at hstate
      · cases hstate
      · cases hstate
        exact hagrees

end SchemaRecords.Verifier
