import Mathlib.Logic.Relation
import SchemaRecords.Proofs.ClassFile.Listing
import SchemaRecords.Proofs.ClassFile.WordSums

/-!
# The stack along the paths through assembled code

The assembler keeps the depth of the stack from one operation to the next as they
are written down, while a machine goes where the branches lead. Behind a jump or a
return the depth is that of an operation from which control never comes, and a
label may be bound again elsewhere. Still, if the frames of the labels say the
depth with which control gets to them (`Assembler.Balanced`), the depth of the
machine's stack is at each operation the one that the assembler kept there.

A path is followed in the bytes: `Moves` reads the instruction at an offset and
goes on behind it or at the target of the branch. What the instruction takes and
gives (`Command.stackEffect?`) is read from its operands and from the descriptors that
they lead to in the constant pool. The assembler counts by the types that it was
given instead. The two agree where the types can be read back and call sites have
the types with which they are called (`StackEffect.exists_of_command`).

* `Reached.instruction`, `Reached.target`: where control goes from an operation.
* `tracked_of_moves`: a step of the machine keeps to the depths of the assembler.
* `Assembler.stack_within_along_paths`: on every path the stack has the operands of
  the next instruction and room in the code's stack, and its locals have theirs.
-/

namespace SchemaRecords.ClassFile

open SchemaRecords.Verifier (slotsOfFamily slots_fieldType tested)

/-! ## What instructions take and give -/

/-- What an instruction does to the stack and the locals, in slots. -/
structure StackEffect where
  pops : Nat
  pushes : Nat
  /-- The locals that the instruction touches. -/
  locals : List Nat := []
deriving DecidableEq, Repr

/-- The slots that values of the types take together. -/
def slotsOfTypes : List FieldType → Nat
  | [] => 0
  | t :: ts => slotsOfFamily t.family + slotsOfTypes ts

theorem slotsOfTypes_eq_total (ts : List FieldType) :
    slotsOfTypes ts = total (ts.map FieldType.slots) := by
  induction ts with
  | nil => rfl
  | cons t ts ih => rw [slotsOfTypes, List.map_cons, total, ih, slots_fieldType]

/-- The effect of an instruction that does not branch. Those of fields, methods and call sites are
read from their descriptors. -/
def Action.stackEffect? (t : ConstantTable) : Action → Option StackEffect
  | push _ => some ⟨0, 1, []⟩
  | load family slot =>
    some ⟨0, slotsOfFamily family, List.range' slot (slotsOfFamily family)⟩
  | pop => some ⟨1, 0, []⟩
  | dup => some ⟨1, 2, []⟩
  | iadd => some ⟨2, 1, []⟩
  | imul => some ⟨2, 1, []⟩
  | getField f => (FieldType.ofDescriptor? f.descriptor).map fun type =>
    ⟨1, slotsOfFamily type.family, []⟩
  | putField f => (FieldType.ofDescriptor? f.descriptor).map fun type =>
    ⟨1 + slotsOfFamily type.family, 0, []⟩
  | invoke kind m => (MethodType.read? m.descriptor).map fun type =>
    ⟨(if kind = .static then 0 else 1) + slotsOfTypes type.parameters,
      slotsOfTypes type.result.toList, []⟩
  | invokeDynamic site =>
    match t.invokeDynamic site with
    | .ok (_, _, descriptor) => (MethodType.read? descriptor).map fun type =>
      ⟨slotsOfTypes type.parameters, slotsOfTypes type.result.toList, []⟩
    | .error _ => none
  | checkCast _ => some ⟨1, 1, []⟩
  | instanceOf _ => some ⟨1, 1, []⟩
  | returnValue family => some ⟨slotsOfFamily family, 0, []⟩
  | returnVoid => some ⟨0, 0, []⟩

/-- The effect of an instruction. What a branch tests takes one slot each. -/
def Command.stackEffect? {α : Type} (t : ConstantTable) : Command α → Option StackEffect
  | act a => a.stackEffect? t
  | jump condition _ => some ⟨(tested condition).length, 0, []⟩

/-- The call site that the operation calls has the type with which it is called. -/
def Operation.CallsAsTyped (t : ConstantTable) (op : Operation) : Prop :=
  ∀ site type, op = .invokeDynamic site type →
    ∃ number name, t.invokeDynamic site = .ok (number, name, type.descriptor)

namespace StackEffect

/-- The operation counts in words what the effect says in numbers. -/
structure IsCountedBy (e : StackEffect) (op : Operation) : Prop where
  pops : op.pops.toNat = e.pops
  pushes : op.pushes.toNat = e.pushes
  locals : ∀ slot ∈ e.locals, slot < op.touches.toNat

theorem toNat_resultSlots (type : MethodType) :
    type.resultSlots.toNat = slotsOfTypes type.result.toList := by
  obtain ⟨parameters, result⟩ := type
  cases result with
  | none => rfl
  | some t => exact slots_fieldType t

theorem toNat_parameterSlots {type : MethodType}
    (h : ∀ a ∈ sums 0 type.parameterWords, a.IsExact) :
    type.parameterSlots.toNat = slotsOfTypes type.parameters := by
  rw [type.toNat_parameterSlots_of_exact h, slotsOfTypes_eq_total]
  rfl

theorem toNat_pops_invoke {kind : InvokeKind} {owner name : String} {type : MethodType}
    (h : ∀ a ∈ (Operation.invoke kind owner name type).additions, a.IsExact) :
    (Operation.invoke kind owner name type).pops.toNat =
      (if kind = .static then 0 else 1) + slotsOfTypes type.parameters := by
  obtain ⟨hparameters, hreceiver⟩ := List.forall_mem_append.mp h
  have hsum : kind.receiverSlots.toNat + type.parameterSlots.toNat ≤ 65535 :=
    hreceiver _ List.mem_cons_self
  have hkind : kind.receiverSlots.toNat = if kind = .static then 0 else 1 := by
    cases kind <;> rfl
  rw [Operation.pops, Verifier.toNat_add_of_le hsum, toNat_parameterSlots hparameters, hkind]

/-- Where the types can be read and no addition goes wrong, the assembler counts what the
instruction does. -/
theorem exists_of_command {t : ConstantTable} {op : Operation} {where? : Label → Option Nat}
    {c : Command Nat} (hplain : op.IsPlain) (hsite : op.CallsAsTyped t)
    (hexact : ∀ a ∈ op.additions, a.IsExact)
    (hc : op.command?.bind (Command.place where?) = some c) :
    ∃ e, c.stackEffect? t = some e ∧ e.IsCountedBy op := by
  cases op with
  | load slot type =>
    cases hc
    have hend : (slot + type.slots).toNat = slot.toNat + type.slots.toNat :=
      Verifier.toNat_add_of_le (hexact ⟨slot, type.slots⟩ List.mem_cons_self)
    refine ⟨_, rfl, rfl, slots_fieldType type, fun i hi => ?_⟩
    rw [Operation.touches, hend, slots_fieldType]
    exact (List.mem_range'_1.mp hi).2
  | getField owner name type =>
    cases hc
    have hread : FieldType.ofDescriptor? type.descriptor = some type :=
      FieldType.ofDescriptor?_descriptor hplain
    exact ⟨_, congrArg (Option.map _) hread, rfl, slots_fieldType type, List.forall_mem_nil _⟩
  | putField owner name type =>
    cases hc
    have hread : FieldType.ofDescriptor? type.descriptor = some type :=
      FieldType.ofDescriptor?_descriptor hplain
    refine ⟨_, congrArg (Option.map _) hread, ?_, rfl, List.forall_mem_nil _⟩
    rw [Operation.pops, Verifier.toNat_add_of_le (hexact ⟨1, type.slots⟩ List.mem_cons_self),
      slots_fieldType]
    rfl
  | invoke kind owner name type =>
    cases hc
    have hread : MethodType.read? type.descriptor = some type :=
      MethodType.read?_descriptor hplain
    exact ⟨_, congrArg (Option.map _) hread, toNat_pops_invoke hexact, toNat_resultSlots type,
      List.forall_mem_nil _⟩
  | invokeDynamic site type =>
    cases hc
    have hread : MethodType.read? type.descriptor = some type :=
      MethodType.read?_descriptor hplain
    obtain ⟨number, name, hentry⟩ := hsite site type rfl
    refine ⟨⟨slotsOfTypes type.parameters, slotsOfTypes type.result.toList, []⟩, ?_,
      toNat_parameterSlots hexact, toNat_resultSlots type, List.forall_mem_nil _⟩
    simp only [Command.stackEffect?, Action.stackEffect?, hentry, hread, Option.map_some]
  | returnValue type =>
    cases hc
    exact ⟨_, rfl, slots_fieldType type, rfl, List.forall_mem_nil _⟩
  | branch condition target =>
    obtain ⟨there, -, rfl⟩ := Option.map_eq_some_iff.mp hc
    refine ⟨_, rfl, ?_, rfl, List.forall_mem_nil _⟩
    cases condition <;> rfl
  | bind label frame => cases hc
  | _ =>
    cases hc
    exact ⟨_, rfl, rfl, rfl, List.forall_mem_nil _⟩

end StackEffect

/-! ## Paths -/

/-- Whether the instruction ends the method. -/
def Action.isReturn : Action → Bool
  | returnValue _ => true
  | returnVoid => true
  | _ => false

/-- A step along a path: from an offset and the depth of the stack to the next ones. A branch can be
taken, and one that has a condition can be passed. -/
inductive Moves (t : ConstantTable) (code : Bytes) : Nat × Nat → Nat × Nat → Prop
  | act {here next depth : Nat} {a : Action} {e : StackEffect}
      (fetched : fetch? t code here = some (.act a, next)) (effect : a.stackEffect? t = some e)
      (stays : a.isReturn = false) :
      Moves t code (here, depth) (next, depth - e.pops + e.pushes)
  | jump {here next target depth : Nat} {condition : Condition}
      (fetched : fetch? t code here = some (.jump condition target, next)) :
      Moves t code (here, depth) (target, depth - (tested condition).length)
  | pass {here next target depth : Nat} {condition : Condition}
      (fetched : fetch? t code here = some (.jump condition target, next))
      (conditional : condition ≠ .always) :
      Moves t code (here, depth) (next, depth - (tested condition).length)

/-- On every path from offset 0 with an empty stack, the stack has no more on it than the code says,
and unless the path is at the end of the code, there is an instruction for which the stack has
enough operands and the code has the locals. -/
def Code.StaysWithin (t : ConstantTable) (code : Code) : Prop :=
  ∀ offset depth, Relation.ReflTransGen (Moves t code.bytes) (0, 0) (offset, depth) →
    depth ≤ code.maxStack.toNat ∧
      (offset = code.bytes.length ∨ ∃ command next e,
        fetch? t code.bytes offset = some (command, next) ∧ command.stackEffect? t = some e ∧
        e.pops ≤ depth ∧ ∀ slot ∈ e.locals, slot < code.maxLocals.toNat)

theorem eq_branch_of_jump {where? : Label → Option Nat} {op : Operation} {condition : Condition}
    {target : Nat}
    (h : op.command?.bind (Command.place where?) = some (.jump condition target)) :
    ∃ label, op = .branch condition label ∧ where? label = some target := by
  cases op with
  | branch condition' label =>
    obtain ⟨there, hthere, hjump⟩ := Option.map_eq_some_iff.mp h
    cases hjump
    exact ⟨label, rfl, hthere⟩
  | _ => cases h

/-! ## Frames that say the depth -/

/-- Whether control can get past an operation, if it can get to it when `falls`. A label can
always be got to, by a branch. -/
def Operation.passes (falls : Bool) : Operation → Bool
  | bind _ _ => true
  | branch condition _ => falls && condition != .always
  | returnValue _ => false
  | returnVoid => false
  | _ => falls

/-- Control gets past an instruction that neither branches nor returns. -/
theorem passes_of_act {where? : Label → Option Nat} {op : Operation} {a : Action}
    (h : op.command?.bind (Command.place where?) = some (.act a)) (ha : a.isReturn = false) :
    op.passes true = true := by
  cases op with
  | branch condition label =>
    obtain ⟨_, -, hjump⟩ := Option.map_eq_some_iff.mp h
    cases hjump
  | returnVoid =>
    cases h
    cases ha
  | returnValue type =>
    cases h
    cases ha
  | _ => rfl

/-- Whether control can get to the end of operations without a branch to what comes next. -/
def canFall (ops : List Operation) : Bool :=
  ops.foldl Operation.passes true

/-- The frames of the labels say the depth that is kept: at each branch that of the frame with which
its target is last bound, and at each label that control can fall into that of the frame there. -/
structure Assembler.Balanced (s : Assembler) (ops : List Operation) : Prop where
  branches : ∀ before condition target after before' frame after',
    ops = before ++ .branch condition target :: after →
    ops = before' ++ .bind target frame :: after' → target ∉ boundLabels after' →
    (s.steps (before ++ [.branch condition target])).depth = frame.stackSlots
  labels : ∀ before label frame after, ops = before ++ .bind label frame :: after →
    canFall before = true → (s.steps before).depth = frame.stackSlots

/-! ## Live operations of a split -/

/-- The operations at the end of a list are live as they are on their own. -/
theorem exists_live_append (before after : List Operation) :
    ∃ done, live (before ++ after) = done ++ live after := by
  induction before with
  | nil => exact ⟨[], rfl⟩
  | cons op before ih =>
    obtain ⟨done, hdone⟩ := ih
    rw [List.cons_append]
    obtain ⟨label, frame, rfl⟩ | hop := op.bind_or_ne
    · rw [live]
      split
      · exact ⟨done, hdone⟩
      · exact ⟨.bind label frame :: done, by rw [hdone, List.cons_append]⟩
    · exact ⟨op :: done, by rw [live_of_ne hop, hdone, List.cons_append]⟩

/-- A label that is bound is bound a last time. -/
theorem exists_lastBinding {label : Label} {ops : List Operation} (h : label ∈ boundLabels ops) :
    ∃ before frame after, ops = before ++ .bind label frame :: after ∧
      label ∉ boundLabels after := by
  induction ops with
  | nil => cases h
  | cons op ops ih =>
    by_cases hlater : label ∈ boundLabels ops
    · obtain ⟨before, frame, after, rfl, hlast⟩ := ih hlater
      exact ⟨op :: before, frame, after, rfl, hlast⟩
    · obtain ⟨l, frame, rfl⟩ | hop := op.bind_or_ne
      · rw [boundLabels_bind, List.mem_cons] at h
        obtain rfl | h := h
        · exact ⟨[], frame, ops, rfl, hlater⟩
        · exact absurd h hlater
      · rw [boundLabels_of_ne hop] at h
        exact absurd h hlater

/-! ## What the assembler keeps -/

namespace Assembler

theorem steps_append (s : Assembler) (ops ops' : List Operation) :
    s.steps (ops ++ ops') = (s.steps ops).steps ops' :=
  List.foldl_append

theorem depth_le_maxStack_steps {s : Assembler} {ops : List Operation}
    (hs : s.depth.toNat ≤ s.maxStack.toNat) (h : (s.steps ops).fault = none) :
    (s.steps ops).depth.toNat ≤ (s.steps ops).maxStack.toNat := by
  induction ops generalizing s with
  | nil => exact hs
  | cons op ops ih =>
    refine ih (s := s.step op) ?_ h
    obtain ⟨label, frame, rfl⟩ | hop := op.bind_or_ne
    · exact (setDepth_le _ frame.stackSlots).2
    · exact (counts_step hop (fault_of_steps (s := s.step op) h)).depth_le

/-- Room is made for the locals of an operation. -/
theorem touches_le_step {s : Assembler} {op : Operation}
    (hop : ∀ label frame, op ≠ .bind label frame) (h : (s.step op).fault = none) :
    op.touches.toNat ≤ (s.step op).maxLocals.toNat := by
  obtain ⟨q, p, hstep⟩ := exists_step_eq hop h
  rw [hstep] at h ⊢
  rw [(adjust_counts h).2]
  show _ ≤ (max s.maxLocals op.touches).toNat
  rw [UInt16.toNat_max]
  exact Nat.le_max_right _ _

/-- The additions for an operation are among those for all. -/
theorem mem_additionsFrom {s : Assembler} {before after : List Operation} {op : Operation}
    {a : Addition} (h : a ∈ op.additions ++ op.growth (s.steps before).depth) :
    a ∈ additionsFrom s.depth (before ++ op :: after) := by
  induction before generalizing s with
  | nil => exact List.mem_append_left _ h
  | cons first before ih =>
    rw [List.cons_append, additionsFrom, ← depth_step]
    exact List.mem_append_right _ (ih (s := s.step first) h)

/-- The assembler keeps the depth that the instruction leaves. -/
theorem depth_of_isCountedBy {s : Assembler} {op : Operation} {e : StackEffect}
    (hop : ∀ label frame, op ≠ .bind label frame) (h : (s.step op).fault = none)
    (hexact : ∀ a ∈ op.growth s.depth, a.IsExact) (he : e.IsCountedBy op) :
    e.pops ≤ s.depth.toNat ∧ (s.step op).depth.toNat = s.depth.toNat - e.pops + e.pushes := by
  have hcounts := counts_step hop h
  rw [op.growth_of_ne hop] at hexact
  have henough : op.pops.toNat ≤ s.depth.toNat := UInt16.le_iff_toNat_le.mp hcounts.enough
  have hremaining : op.remaining s.depth = s.depth - op.pops :=
    if_neg (UInt16.not_lt.mpr hcounts.enough)
  have hsum : (s.depth - op.pops).toNat + op.pushes.toNat ≤ 65535 :=
    hremaining ▸ hexact _ List.mem_cons_self
  refine ⟨he.pops ▸ henough, ?_⟩
  rw [hcounts.depth, Verifier.toNat_add_of_le hsum, UInt16.toNat_sub_of_le _ _ hcounts.enough,
    he.pops, he.pushes]

end Assembler

/-! ## Where control gets to -/

/-- Control can get to offset `n`, between the operations `before` it and those `after` it; `done`
are those of the former that are live. -/
structure Reached (t : ConstantTable) (code : Bytes) (where? : Label → Option Nat)
    (ops before after done : List Operation) (n : Nat) : Prop where
  split : ops = before ++ after
  falls : canFall before = true
  listed : live ops = done ++ live after
  located : Located t code where? done 0 n
  rest : Located t code where? (live after) n code.length

namespace Reached

variable {t : ConstantTable} {code : Bytes} {where? : Label → Option Nat}
  {ops before after done : List Operation} {n : Nat}

theorem canFall_concat (before : List Operation) (op : Operation) :
    canFall (before ++ [op]) = op.passes (canFall before) := by
  rw [canFall, List.foldl_append]
  rfl

/-- Control passes a label. -/
theorem bind {label : Label} {frame : Frame}
    (h : Reached t code where? ops before (.bind label frame :: after) done n) :
    ∃ done', Reached t code where? ops (before ++ [.bind label frame]) after done' n := by
  have hsplit : ops = before ++ [.bind label frame] ++ after := by simp [h.split]
  have hlisted := h.listed
  have hrest := h.rest
  rw [live] at hlisted hrest
  split at hlisted
  · rename_i hagain
    rw [if_pos hagain] at hrest
    exact ⟨done, hsplit, canFall_concat _ _, hlisted, h.located, hrest⟩
  · rename_i hlast
    rw [if_neg hlast] at hrest
    obtain ⟨_, ⟨hlabel, rfl⟩, hrest⟩ := hrest
    refine ⟨done ++ [.bind label frame], hsplit, canFall_concat _ _, by simp [hlisted], ?_, hrest⟩
    exact located_append.mpr ⟨_, h.located, _, ⟨hlabel, rfl⟩, rfl⟩

/-- Control gets past an instruction that does not leave. -/
theorem instruction {op : Operation} (hop : ∀ label frame, op ≠ .bind label frame)
    (h : Reached t code where? ops before (op :: after) done n) :
    ∃ next, StandsAt t code where? op n next ∧
      (op.passes true = true →
        Reached t code where? ops (before ++ [op]) after (done ++ [op]) next) := by
  have hlisted := h.listed
  have hrest := h.rest
  rw [live_of_ne hop] at hlisted hrest
  obtain ⟨next, hstands, hrest⟩ := hrest
  refine ⟨next, hstands, fun hpasses => ⟨by simp [h.split], ?_, by simp [hlisted], ?_, hrest⟩⟩
  · rw [canFall_concat, h.falls, hpasses]
  · exact located_append.mpr ⟨_, h.located, _, hstands, rfl⟩

/-- Control gets to the place where the target of a branch is last bound. -/
theorem target (h : Located t code where? (live ops) 0 code.length) {label : Label}
    (hbound : label ∈ boundLabels ops) (hn : where? label = some n) :
    ∃ before frame after done, ops = before ++ .bind label frame :: after ∧
      label ∉ boundLabels after ∧
      Reached t code where? ops (before ++ [.bind label frame]) after done n := by
  obtain ⟨before, frame, after, rfl, hlast⟩ := exists_lastBinding hbound
  obtain ⟨done, hdone⟩ := exists_live_append before (.bind label frame :: after)
  have hlive : live (.bind label frame :: after) = .bind label frame :: live after := by
    rw [live, if_neg hlast]
  rw [hlive] at hdone
  rw [hdone] at h
  obtain ⟨k, hk, hlocated, hrest⟩ := located_bind.mp h
  cases hk.symm.trans hn
  refine ⟨before, frame, after, done ++ [.bind label frame], rfl, hlast, by simp,
    canFall_concat _ _, by simp [hdone], ?_, hrest⟩
  exact located_append.mpr ⟨_, hlocated, _, ⟨hn, rfl⟩, rfl⟩

end Reached

/-! ## The machine keeps to the depths of the assembler -/

/-- At offset `n` control gets to an operation, or to the end of the code, with the depth that the
assembler kept before it. -/
def Tracked (s : Assembler) (t : ConstantTable) (code : Bytes) (where? : Label → Option Nat)
    (ops : List Operation) (n depth : Nat) : Prop :=
  ∃ before after done, Reached t code where? ops before after done n ∧
    (s.steps before).depth.toNat = depth ∧ ∀ label frame rest, after ≠ .bind label frame :: rest

section Tracked

variable {s : Assembler} {t : ConstantTable} {code : Bytes} {where? : Label → Option Nat}
  {ops before after done : List Operation} {n : Nat}

/-- Labels that control falls into do not change the depth. -/
theorem tracked_of_reached (hbalanced : s.Balanced ops)
    (h : Reached t code where? ops before after done n) :
    Tracked s t code where? ops n (s.steps before).depth.toNat := by
  induction after generalizing before done with
  | nil => exact ⟨before, [], done, h, rfl, fun _ _ _ e => by cases e⟩
  | cons op after ih =>
    obtain ⟨label, frame, rfl⟩ | hop := op.bind_or_ne
    · obtain ⟨done', hnext⟩ := h.bind
      have hdepth : (s.steps (before ++ [.bind label frame])).depth = frame.stackSlots := by
        rw [Assembler.steps_append]
        rfl
      rw [hbalanced.labels before label frame after h.split h.falls, ← hdepth]
      exact ih hnext
    · refine ⟨before, op :: after, done, h, rfl, fun label frame rest e => ?_⟩
      cases e
      exact hop label frame rfl

/-- Control is at the instruction of an operation, between those `before` it and those `after` it,
with a stack of the given depth. The instruction has the command `c` and the effect `e`. -/
structure AtInstruction (s : Assembler) (t : ConstantTable) (code : Bytes)
    (where? : Label → Option Nat) (ops : List Operation) (n depth : Nat)
    (before : List Operation) (op : Operation) (after : List Operation) (c : Command Nat)
    (next : Nat) (e : StackEffect) : Prop where
  split : ops = before ++ op :: after
  fetched : fetch? t code n = some (c, next)
  placed : op.command?.bind (Command.place where?) = some c
  effect : c.stackEffect? t = some e
  passed : op.passes true = true →
    ∃ done, Reached t code where? ops (before ++ [op]) after done next
  pops : e.pops ≤ depth
  depth : (s.steps (before ++ [op])).depth.toNat = depth - e.pops + e.pushes
  locals : ∀ slot ∈ e.locals, slot < (s.steps ops).maxLocals.toNat

/-- What is assumed of operations: the assembler has taken them, no addition that it made was too
large, and the types in them are those that are read from the constants. -/
structure Traceable (s : Assembler) (t : ConstantTable) (ops : List Operation) : Prop where
  fault : (s.steps ops).fault = none
  exact : ∀ a ∈ additionsFrom s.depth ops, a.IsExact
  plain : ∀ op ∈ ops, op.IsPlain
  sites : ∀ op ∈ ops, op.CallsAsTyped t

theorem exists_atInstruction (hops : Traceable s t ops) {depth : Nat}
    (h : Tracked s t code where? ops n depth) (hn : n ≠ code.length) :
    ∃ before op after c next e,
      AtInstruction s t code where? ops n depth before op after c next e := by
  obtain ⟨before, after, done, hreached, rfl, hafter⟩ := h
  cases after with
  | nil => exact absurd hreached.rest hn
  | cons op after =>
    have hop : ∀ label frame, op ≠ .bind label frame := fun label frame e =>
      hafter label frame after (by rw [e])
    have hmem : op ∈ ops := hreached.split ▸ List.mem_append_right _ List.mem_cons_self
    obtain ⟨next, hstands, hpasses⟩ := hreached.instruction hop
    obtain ⟨c, hc, hfetch⟩ := (standsAt_of_ne hop).mp hstands
    have hsteps : s.steps ops = ((s.steps before).step op).steps after := by
      rw [hreached.split, Assembler.steps_append]
      rfl
    have hconcat : s.steps (before ++ [op]) = (s.steps before).step op :=
      Assembler.steps_append s before [op]
    have hfault := hops.fault
    rw [hsteps] at hfault
    have hstep := Assembler.fault_of_steps hfault
    obtain ⟨hadditions, hgrowth⟩ := List.forall_mem_append.mp fun a ha =>
      hops.exact a (hreached.split ▸ Assembler.mem_additionsFrom ha)
    obtain ⟨e, heffect, he⟩ := StackEffect.exists_of_command (hops.plain op hmem)
      (hops.sites op hmem) hadditions hc
    obtain ⟨hpops, hdepth⟩ := Assembler.depth_of_isCountedBy hop hstep hgrowth he
    refine ⟨before, op, after, c, next, e, hreached.split, hfetch, hc, heffect,
      fun h => ⟨_, hpasses h⟩, hpops, hconcat ▸ hdepth, fun slot hslot => ?_⟩
    have hroom := Assembler.touches_le_step hop hstep
    rw [hsteps]
    exact Nat.lt_of_lt_of_le (he.locals slot hslot)
      (Nat.le_trans hroom (Assembler.maxLocals_le_steps hfault))

/-- A step of the machine keeps to the depths of the assembler. -/
theorem tracked_of_moves (hlocated : Located t code where? (live ops) 0 code.length)
    (hbound : ∀ label n, where? label = some n → label ∈ boundLabels ops)
    (hops : Traceable s t ops) (hbalanced : s.Balanced ops) {x y : Nat × Nat}
    (hmoves : Moves t code x y) (h : Tracked s t code where? ops x.1 x.2) :
    Tracked s t code where? ops y.1 y.2 := by
  have hx : x.1 ≠ code.length := by
    cases hmoves with
    | act fetched _ _ => exact Nat.ne_of_lt (lt_length_of_fetch? fetched)
    | jump fetched => exact Nat.ne_of_lt (lt_length_of_fetch? fetched)
    | pass fetched _ => exact Nat.ne_of_lt (lt_length_of_fetch? fetched)
  obtain ⟨before, op, after, c, next, e, hat⟩ := exists_atInstruction hops h hx
  cases hmoves with
  | act fetched effect stays =>
    cases hat.fetched.symm.trans fetched
    cases hat.effect.symm.trans effect
    obtain ⟨done, hreached⟩ := hat.passed (passes_of_act hat.placed stays)
    exact hat.depth ▸ tracked_of_reached hbalanced hreached
  | @jump here next target depth condition fetched =>
    cases hat.fetched.symm.trans fetched
    cases hat.effect
    obtain ⟨label, rfl, htarget⟩ := eq_branch_of_jump hat.placed
    obtain ⟨before', frame, after', done, hsplit, hlast, hreached⟩ :=
      Reached.target hlocated (hbound label target htarget) htarget
    -- the stack is what the frame at the target says, and so is the depth kept behind the label
    have hframe := hbalanced.branches before condition label after before' frame after' hat.split
      hsplit hlast
    have hkept : (s.steps (before' ++ [.bind label frame])).depth = frame.stackSlots := by
      rw [Assembler.steps_append]
      rfl
    have hdepth : (s.steps (before ++ [.branch condition label])).depth.toNat =
        depth - (tested condition).length := hat.depth
    rw [hframe, ← hkept] at hdepth
    exact hdepth ▸ tracked_of_reached hbalanced hreached
  | @pass here next target depth condition fetched conditional =>
    cases hat.fetched.symm.trans fetched
    cases hat.effect
    obtain ⟨label, rfl, -⟩ := eq_branch_of_jump hat.placed
    obtain ⟨done, hreached⟩ := hat.passed (bne_iff_ne.mpr conditional)
    have hdepth : (s.steps (before ++ [.branch condition label])).depth.toNat =
        depth - (tested condition).length := hat.depth
    exact hdepth ▸ tracked_of_reached hbalanced hreached

/-- The machine keeps to the depths of the assembler on every path from the start. -/
theorem tracked_of_path (hlocated : Located t code where? (live ops) 0 code.length)
    (hbound : ∀ label n, where? label = some n → label ∈ boundLabels ops) (hempty : s.depth = 0)
    (hops : Traceable s t ops) (hbalanced : s.Balanced ops) {x : Nat × Nat}
    (h : Relation.ReflTransGen (Moves t code) (0, 0) x) : Tracked s t code where? ops x.1 x.2 := by
  induction h with
  | refl =>
    have hstart : Reached t code where? ops [] ops [] 0 := ⟨rfl, rfl, rfl, rfl, hlocated⟩
    have htracked := tracked_of_reached hbalanced hstart
    have hdepth : (s.steps []).depth.toNat = 0 := congrArg UInt16.toNat hempty
    exact hdepth ▸ htracked
  | tail _ hmoves ih => exact tracked_of_moves hlocated hbound hops hbalanced hmoves ih

/-- The stack has no more on it than the assembler has met. -/
theorem Tracked.le_maxStack (hs : s.depth.toNat ≤ s.maxStack.toNat)
    (hfault : (s.steps ops).fault = none) {depth : Nat}
    (h : Tracked s t code where? ops n depth) : depth ≤ (s.steps ops).maxStack.toNat := by
  obtain ⟨before, after, done, hreached, rfl, -⟩ := h
  rw [hreached.split, Assembler.steps_append] at hfault ⊢
  exact Nat.le_trans (Assembler.depth_le_maxStack_steps hs (Assembler.fault_of_steps hfault))
    (Assembler.maxStack_le_steps hfault)

end Tracked

namespace Assembler

/-- A label has a place only if it is bound. -/
theorem mem_boundLabels_of_lookup {pool : Pool} {locals : UInt16} {ops : List Operation}
    (h : ((start pool locals).steps ops).fault = none) {label : Label} {n : Nat}
    (hn : ((start pool locals).steps ops).labels.lookup label = some n) :
    label ∈ boundLabels ops := by
  by_contra hlabel
  rw [lookup_steps h hlabel] at hn
  cases hn

/-- **Assembled code keeps within its stack and its locals on every path**, if no sum of slots is
too large, the frames of the labels say the depth with which control gets to them, no class name in
a descriptor has a semicolon, and call sites have the types with which they are called. -/
theorem stack_within_along_paths {requests : List Pool.Request} {locals : UInt16}
    {ops : List Operation} {code : Code}
    (hfinish : ((start (Pool.empty.run requests) locals).steps ops).finish = .ok code)
    (hexact : ∀ a ∈ additionsFrom 0 ops, a.IsExact)
    (hbalanced : (start (Pool.empty.run requests) locals).Balanced ops)
    (hplain : ∀ op ∈ ops, op.IsPlain)
    (hsites : ∀ op ∈ ops,
      op.CallsAsTyped ((start (Pool.empty.run requests) locals).steps ops).pool.table) :
    code.StaysWithin ((start (Pool.empty.run requests) locals).steps ops).pool.table := by
  obtain ⟨is, joined, hfault, -, -, -, hcode⟩ := finish_eq_ok hfinish
  have hlocated := located_live_of_finish (Pool.valid_run requests) hfinish le_rfl
  have hops : Traceable (start (Pool.empty.run requests) locals) _ ops :=
    ⟨hfault, hexact, hplain, hsites⟩
  have hstack : code.maxStack = _ := congrArg Code.maxStack hcode
  have hlocals : code.maxLocals = _ := congrArg Code.maxLocals hcode
  intro offset depth hpath
  have htracked := tracked_of_path hlocated (fun _ _ hn => mem_boundLabels_of_lookup hfault hn)
    rfl hops hbalanced hpath
  refine ⟨hstack ▸ htracked.le_maxStack (Nat.le_refl _) hfault, ?_⟩
  by_cases hend : offset = code.bytes.length
  · exact .inl hend
  · obtain ⟨before, op, after, command, next, e, hat⟩ := exists_atInstruction hops htracked hend
    exact .inr ⟨command, next, e, hat.fetched, hat.effect, hat.pops, hlocals ▸ hat.locals⟩

/-! ## Operations that need no constants -/

theorem placeSelected_withPool (s : Assembler) (pool : Pool)
    (selected : Except Error Operation.Selected) :
    { s with pool }.placeSelected selected = { s.placeSelected selected with pool } := by
  unfold placeSelected noteFault
  split
  · rfl
  · rfl
  · rfl
  · dsimp only
    split <;> rfl

theorem adjust_withPool (s : Assembler) (pool : Pool) (pops pushes : UInt16) :
    { s with pool }.adjust pops pushes = { s.adjust pops pushes with pool } := by
  unfold adjust noteFault
  dsimp only
  split
  · split <;> rfl
  · rfl

theorem step_withPool {op : Operation} (hop : op.constant = none) (s : Assembler) (pool : Pool) :
    { s with pool }.step op = { s.step op with pool } := by
  obtain ⟨label, frame, rfl⟩ | hne := op.bind_or_ne
  · rfl
  · rw [step_eq hne, step_eq hne, indexFor, indexFor, hop]
    simp only
    rw [placeSelected_withPool]
    exact adjust_withPool ((s.placeSelected (op.select 0)).reserve op.touches) pool _ _

/-- Operations that need no constants are assembled without regard to the pool. -/
theorem steps_withPool {ops : List Operation} (hops : ∀ op ∈ ops, op.constant = none)
    (s : Assembler) (pool : Pool) : { s with pool }.steps ops = { s.steps ops with pool } := by
  induction ops generalizing s with
  | nil => rfl
  | cons op ops ih =>
    rw [List.forall_mem_cons] at hops
    show ({ s with pool }.step op).steps ops = _
    rw [step_withPool hops.1]
    exact ih hops.2 (s.step op)

theorem finish_withPool {ops : List Operation} (hops : ∀ op ∈ ops, op.constant = none)
    (pool : Pool) (locals : UInt16) :
    ((start pool locals).steps ops).finish = ((start Pool.empty locals).steps ops).finish :=
  (congrArg finish (steps_withPool hops (start Pool.empty locals) pool)).trans rfl

theorem pool_steps_of_noConstants {ops : List Operation} (hops : ∀ op ∈ ops, op.constant = none)
    (pool : Pool) (locals : UInt16) : ((start pool locals).steps ops).pool = pool :=
  congrArg Assembler.pool (steps_withPool hops (start Pool.empty locals) pool)

/-- The one call site of a pool comes after its name, its descriptor and the two together. -/
theorem invokeDynamic_four {name descriptor : String} (hne : name ≠ descriptor)
    (hname : Fits name) (hdescriptor : Fits descriptor) :
    (Pool.empty.run [.invokeDynamic 0 name descriptor]).table.invokeDynamic 4 =
      .ok (0, name, descriptor) := by
  have hutf8 {text : String} (h : Fits text) : Pool.utf8 text = Pool.insert (.utf8 text) := by
    funext p
    exact if_neg (Nat.not_lt.mpr h)
  obtain ⟨p, hp⟩ : ∃ p, Pool.invokeDynamic 0 name descriptor Pool.empty = .ok 4 p := by
    unfold Pool.invokeDynamic Pool.nameAndType
    rw [hutf8 hname, hutf8 hdescriptor]
    simp [Pool.insert, Bind.bind, EStateM.bind, Pool.empty, Pool.capacity, hne]
  have hrun : Pool.empty.run [.invokeDynamic 0 name descriptor] = p := Pool.after_of_ok hp
  rw [hrun]
  exact Pool.Request.foundAt_of_ask (r := .invokeDynamic 0 name descriptor) Pool.valid_empty hp
    (le_refl p.table)

namespace Counting

/-- A number is on the stack. -/
def counted : Frame := ⟨[], [.integer]⟩

/-- The type of a call that takes a number and gives one. -/
def callType : MethodType := ⟨[.int], some .int⟩

/-- A loop that counts on the stack. Its first label is bound again behind an operation that control
does not get to, and stands beside the second one before. -/
def operations : List Operation := [
  .const 1, .bind 0 counted, .bind 1 counted, .load 3 .int, .iadd, .invokeDynamic 4 callType, .dup,
  .branch .zero 0, .branch .always 1, .pop, .bind 0 counted, .pop, .returnVoid]

theorem bind_cases {before after : List Operation} {label : Label} {frame : Frame}
    (h : operations = before ++ .bind label frame :: after) :
    frame = counted ∧ (before = operations.take 1 ∨ before = operations.take 2 ∨
      before = operations.take 10) := by
  simp [operations, List.cons_eq_append_iff] at h ⊢
  grind

theorem branch_cases {before after : List Operation} {condition : Condition} {label : Label}
    (h : operations = before ++ .branch condition label :: after) :
    before ++ [.branch condition label] = operations.take 8 ∨
      before ++ [.branch condition label] = operations.take 9 := by
  simp [operations, List.cons_eq_append_iff] at h ⊢
  grind

theorem depth_steps_start (pool : Pool) (locals : UInt16) (ops : List Operation) :
    ((start pool locals).steps ops).depth = ops.foldl Operation.depthAfter 0 :=
  depth_steps _ ops

theorem balanced (pool : Pool) (locals : UInt16) : (start pool locals).Balanced operations where
  branches before condition target after before' frame after' h h' hlast := by
    obtain ⟨rfl, -⟩ := bind_cases h'
    rw [depth_steps_start]
    obtain hbefore | hbefore := branch_cases h
    · rw [hbefore]
      decide +kernel
    · rw [hbefore]
      decide +kernel
  labels before label frame after h hfalls := by
    rw [depth_steps_start]
    obtain ⟨rfl, rfl | rfl | rfl⟩ := bind_cases h
    · decide +kernel
    · decide +kernel
    · cases hfalls

theorem exists_finish : ∃ code, ((start Pool.empty 1).steps operations).finish = .ok code ∧
    code.maxStack = 2 ∧ code.maxLocals = 4 := by
  have h : ((start Pool.empty 1).steps operations).finish.map
      (fun code => (code.maxStack, code.maxLocals)) = .ok (2, 4) := by decide +kernel
  cases hcode : ((start Pool.empty 1).steps operations).finish with
  | error e => rw [hcode] at h; cases h
  | ok code =>
    rw [hcode] at h
    have hsizes := Except.ok.inj h
    exact ⟨code, rfl, congrArg Prod.fst hsizes, congrArg Prod.snd hsizes⟩

theorem isPlain : ∀ op ∈ operations, op.IsPlain := by
  simp [operations, Operation.IsPlain]
  decide

end Counting

theorem stack_within_counting : ∃ requests code,
    ((start (Pool.empty.run requests) 1).steps Counting.operations).finish = .ok code ∧
      code.maxStack = 2 ∧ code.maxLocals = 4 ∧
      code.StaysWithin
        ((start (Pool.empty.run requests) 1).steps Counting.operations).pool.table := by
  have hsizes : ∀ text ∈ ["next", Counting.callType.descriptor], text.utf8ByteSize ≤ 10922 := by
    decide +kernel
  have hconstants : ∀ op ∈ Counting.operations, op.constant = none := by
    simp [Counting.operations, Operation.constant, Operation.isImmediate]
  obtain ⟨code, hcode, hstack, hlocals⟩ := Counting.exists_finish
  have hfinish := (finish_withPool hconstants
    (Pool.empty.run [.invokeDynamic 0 "next" Counting.callType.descriptor]) 1).trans hcode
  refine ⟨_, code, hfinish, hstack, hlocals, stack_within_along_paths hfinish (by decide)
    (Counting.balanced _ _) Counting.isPlain ?_⟩
  rintro op hop site type rfl
  obtain ⟨rfl, rfl⟩ : site = 4 ∧ type = Counting.callType := by
    simpa [Counting.operations] using hop
  refine ⟨0, "next", ?_⟩
  rw [pool_steps_of_noConstants hconstants]
  exact invokeDynamic_four (by decide +kernel) (fits_of_utf8ByteSize_le (hsizes _ (by simp)))
    (fits_of_utf8ByteSize_le (hsizes _ (by simp)))

namespace Misread

/-- All is as it should be, apart from the types in the operations, and yet a path does not keep
within the stack of the code. -/
def Fails (requests : List Pool.Request) (locals : UInt16) (ops : List Operation) : Prop :=
  ∃ code, ((start (Pool.empty.run requests) locals).steps ops).finish = .ok code ∧
    (∀ a ∈ additionsFrom 0 ops, a.IsExact) ∧
    (start (Pool.empty.run requests) locals).Balanced ops ∧
    ¬code.StaysWithin ((start (Pool.empty.run requests) locals).steps ops).pool.table

/-- Without labels there is nothing to balance. -/
theorem balanced_of_boundLabels {s : Assembler} {ops : List Operation} (h : boundLabels ops = []) :
    s.Balanced ops where
  branches before condition target after before' frame after' _ h' := by
    rw [h', boundLabels_append, boundLabels_bind] at h
    simp at h
  labels before label frame after h' := by
    rw [h', boundLabels_append, boundLabels_bind] at h
    simp at h

/-- Code that gets to a call with too few operands does not keep within its stack. -/
theorem not_staysWithin_of_call {t : ConstantTable} {code : Code} {site number : UInt16}
    {name descriptor : String} {type : MethodType} {offset depth next : Nat}
    (hpath : Relation.ReflTransGen (Moves t code.bytes) (0, 0) (offset, depth))
    (hfetch : fetch? t code.bytes offset = some (.act (.invokeDynamic site), next))
    (hsite : t.invokeDynamic site = .ok (number, name, descriptor))
    (hread : MethodType.read? descriptor = some type)
    (hfew : depth < slotsOfTypes type.parameters) : ¬code.StaysWithin t := by
  intro hwithin
  obtain ⟨-, hend | ⟨command, next', e, hfetch', heffect, hpops, -⟩⟩ := hwithin offset depth hpath
  · exact Nat.lt_irrefl _ (hend ▸ lt_length_of_fetch? hfetch)
  · cases hfetch.symm.trans hfetch'
    simp only [Command.stackEffect?, Action.stackEffect?, hsite, hread, Option.map_some] at heffect
    cases heffect
    exact Nat.lt_irrefl _ (Nat.lt_of_lt_of_le hfew hpops)

/-- Operations without constants and labels fail if they get to a call of the only call site with
fewer operands than its descriptor is read to have. -/
theorem fails_of_call {descriptor : String} {locals : UInt16} {ops : List Operation} {code : Code}
    {type : MethodType} {offset depth next : Nat} (hne : "f" ≠ descriptor)
    (hfits : descriptor.utf8ByteSize ≤ 10922) (hconstants : ∀ op ∈ ops, op.constant = none)
    (hfinish : ((start Pool.empty locals).steps ops).finish = .ok code)
    (hexact : ∀ a ∈ additionsFrom 0 ops, a.IsExact) (hlabels : boundLabels ops = [])
    (hpath : ∀ t, Relation.ReflTransGen (Moves t code.bytes) (0, 0) (offset, depth))
    (hfetch : ∀ t, fetch? t code.bytes offset = some (.act (.invokeDynamic 4), next))
    (hread : MethodType.read? descriptor = some type)
    (hfew : depth < slotsOfTypes type.parameters) :
    Fails [.invokeDynamic 0 "f" descriptor] locals ops := by
  have hname : "f".utf8ByteSize ≤ 10922 := by decide
  refine ⟨code, (finish_withPool hconstants _ locals).trans hfinish, hexact,
    balanced_of_boundLabels hlabels, ?_⟩
  rw [pool_steps_of_noConstants hconstants]
  exact not_staysWithin_of_call (hpath _) (hfetch _)
    (invokeDynamic_four hne (fits_of_utf8ByteSize_le hname) (fits_of_utf8ByteSize_le hfits)) hread
    hfew

/-- The type of a call with an operand of a class whose name has a semicolon in it. -/
def misnamed : MethodType := ⟨[.object "A;DLB"], none⟩

theorem read?_descriptor_misnamed :
    MethodType.read? misnamed.descriptor = some ⟨[.object "A", .double, .object "B"], none⟩ := by
  decide +kernel

end Misread

/-- A call site can be called as if it had another type, and a class name with a semicolon in it is
not read as it was meant. Either way the bytes take more from the stack than the assembler has
counted. -/
theorem stack_underflows_at_misread_types :
    Misread.Fails [.invokeDynamic 0 "f" "(I)V"] 0 [.invokeDynamic 4 .void, .returnVoid] ∧
      Misread.Fails [.invokeDynamic 0 "f" Misread.misnamed.descriptor] 1
        [.load 0 (.object "A;DLB"), .invokeDynamic 4 Misread.misnamed, .returnVoid] := by
  constructor
  · have hfinish : ((start Pool.empty 0).steps [.invokeDynamic 4 .void, .returnVoid]).finish =
        .ok ⟨0, 0, [0xBA, 0, 4, 0, 0, 0xB1], []⟩ := by decide +kernel
    have hread : MethodType.read? "(I)V" = some ⟨[.int], none⟩ := by decide +kernel
    exact Misread.fails_of_call (by decide +kernel) (by decide +kernel)
      (by simp [Operation.constant]) hfinish (by decide) rfl (fun _ => .refl) (fun _ => rfl) hread
      (by decide)
  · have hfinish : ((start Pool.empty 1).steps [.load 0 (.object "A;DLB"),
        .invokeDynamic 4 Misread.misnamed, .returnVoid]).finish =
        .ok ⟨1, 1, [0x2A, 0xBA, 0, 4, 0, 0, 0xB1], []⟩ := by decide +kernel
    exact Misread.fails_of_call (by decide +kernel) (by decide +kernel)
      (by simp [Operation.constant]) hfinish (by decide) rfl
      (fun _ => .single (.act rfl rfl rfl)) (fun _ => rfl) Misread.read?_descriptor_misnamed
      (by decide)

end Assembler

end SchemaRecords.ClassFile
