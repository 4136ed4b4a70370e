import SchemaRecords.Proofs.ClassFile.MemberDemand

/-!
# Passages of method bodies

A body is checked passage by passage. `Passage before after labels m k ops` says
of operations that they lead from one depth of the stack to another, branch only
to `labels` or to labels of their own, do not end with a label, are at most `m`
and take at most `k` entries of the pool. Passages are joined by
`Passage.append` and `Passage.flatMap`; one that starts with an empty stack and
has bound all its labels is a body that can be written
(`Passage.isWritable`).
-/

namespace SchemaRecords.ClassFile

/-- The labels to which operations branch. -/
def branchTargets (ops : List Operation) : List Label :=
  ops.filterMap fun
    | .branch _ target => some target
    | _ => none

/-- The entries that operations take at most, for their constants and their frames. -/
def entriesOf (ops : List Operation) : Nat :=
  constantEntries ops + (boundFrames ops).length * 8

/-- Operations that can stand in a body where the stack has the depth `before`. -/
structure Passage (before after : UInt16) (labels : List Label) (m k : Nat)
    (ops : List Operation) : Prop where
  selectable : ops.all Operation.isSelectable
  settles : settles before ops = some after
  targets : branchTargets ops ⊆ labels ++ boundLabels ops
  /-- The last operation is no label, so one may follow. -/
  spaced : ∀ rest, spaced true (ops ++ rest) = spaced true rest
  frames : (boundFrames ops).all Frame.isSmall
  length : ops.length ≤ m
  entries : entriesOf ops ≤ k

theorem branchTargets_append (ops ops' : List Operation) :
    branchTargets (ops ++ ops') = branchTargets ops ++ branchTargets ops' :=
  List.filterMap_append

theorem boundFrames_append (ops ops' : List Operation) :
    boundFrames (ops ++ ops') = boundFrames ops ++ boundFrames ops' :=
  List.filterMap_append

theorem constantEntries_append (ops ops' : List Operation) :
    constantEntries (ops ++ ops') = constantEntries ops + constantEntries ops' := by
  induction ops with
  | nil => exact (Nat.zero_add _).symm
  | cons op ops ih => rw [List.cons_append, constantEntries, ih, constantEntries, Nat.add_assoc]

theorem entriesOf_append (ops ops' : List Operation) :
    entriesOf (ops ++ ops') = entriesOf ops + entriesOf ops' := by
  unfold entriesOf
  rw [constantEntries_append, boundFrames_append, List.length_append]
  omega

theorem mem_branchTargets {ops : List Operation} {condition : Condition} {target : Label}
    (h : .branch condition target ∈ ops) : target ∈ branchTargets ops :=
  List.mem_filterMap.mpr ⟨_, h, rfl⟩

namespace Passage

variable {before middle after depth : UInt16} {labels : List Label} {m m' k k' : Nat}
  {ops ops' : List Operation}

/-- Checks a passage, apart from its labels. -/
def check (before after : UInt16) (m k : Nat) (ops : List Operation) : Bool :=
  ops.all Operation.isSelectable && ClassFile.settles before ops == some after
    && (boundFrames ops).all Frame.isSmall && ops.length ≤ m && entriesOf ops ≤ k

theorem of_check (h : check before after m k ops)
    (htargets : branchTargets ops ⊆ labels ++ boundLabels ops)
    (hspaced : ∀ rest, ClassFile.spaced true (ops ++ rest) = ClassFile.spaced true rest) :
    Passage before after labels m k ops := by
  simp only [check, Bool.and_eq_true, beq_iff_eq, decide_eq_true_eq] at h
  obtain ⟨⟨⟨⟨hselectable, hsettles⟩, hframes⟩, hlength⟩, hentries⟩ := h
  exact ⟨hselectable, hsettles, htargets, hspaced, hframes, hlength, hentries⟩

theorem nil : Passage depth depth labels 0 0 [] :=
  ⟨rfl, rfl, List.nil_subset _, fun _ => rfl, rfl, Nat.le_refl _, Nat.le_refl _⟩

theorem mono (h : Passage before after labels m k ops) (hm : m ≤ m') (hk : k ≤ k') :
    Passage before after labels m' k' ops :=
  { h with
    length := Nat.le_trans h.length hm
    entries := Nat.le_trans h.entries hk }

theorem append (h : Passage before middle labels m k ops)
    (h' : Passage middle after labels m' k' ops') :
    Passage before after labels (m + m') (k + k') (ops ++ ops') where
  selectable := by rw [List.all_append, h.selectable, h'.selectable]; rfl
  settles := by
    have hfirst : ops.foldlM Operation.settle before = some middle := h.settles
    have hsecond : ops'.foldlM Operation.settle middle = some after := h'.settles
    rw [ClassFile.settles, List.foldlM_append, hfirst]
    exact hsecond
  targets := by
    -- the labels of one passage may be targets in the other
    rw [branchTargets_append, boundLabels_append]
    intro target htarget
    rcases List.mem_append.mp htarget with htarget | htarget
    · have := h.targets htarget
      grind
    · have := h'.targets htarget
      grind
  spaced rest := by rw [List.append_assoc, h.spaced, h'.spaced]
  frames := by rw [boundFrames_append, List.all_append, h.frames, h'.frames]; rfl
  length := by rw [List.length_append]; exact Nat.add_le_add h.length h'.length
  entries := by rw [entriesOf_append]; exact Nat.add_le_add h.entries h'.entries

/-- Passages for the items of a list that each leave the stack as deep as it was. -/
theorem flatMap {α : Type} {f : α → List Operation} {xs : List α}
    (h : ∀ x ∈ xs, Passage depth depth labels m k (f x)) :
    Passage depth depth labels (xs.length * m) (xs.length * k) (xs.flatMap f) := by
  induction xs with
  | nil =>
    rw [List.length_nil, Nat.zero_mul, Nat.zero_mul]
    exact nil
  | cons x xs ih =>
    have hrest := ih fun y hy => h y (by simp [hy])
    rw [List.length_cons, Nat.succ_mul, Nat.succ_mul, Nat.add_comm _ m, Nat.add_comm _ k]
    exact (h x (by simp)).append hrest

/-- A passage that starts with an empty stack and binds all its labels can be assembled. -/
theorem assemblable (h : Passage 0 after labels m k ops) (hlabels : labels ⊆ boundLabels ops)
    (hm : m ≤ 6553) : Assemblable ops where
  selectable := List.all_eq_true.mp h.selectable
  settles := ⟨after, h.settles⟩
  targets condition target hbranch := by
    rcases List.mem_append.mp (h.targets (mem_branchTargets hbranch)) with htarget | htarget
    · exact hlabels htarget
    · exact htarget
  spaced := by
    rw [← List.append_nil ops]
    exact h.spaced []
  size := by
    have := h.length
    omega

/-- A method with such a body and without annotations can be written. -/
theorem isWritable (h : Passage 0 after labels m k ops) (hlabels : labels ⊆ boundLabels ops)
    (hm : m ≤ 6553) (access : UInt16) (name : String) (type : MethodType) :
    Method.IsWritable ⟨access, name, type, [], { operations := ops }⟩ where
  operations := h.assemblable hlabels hm
  refusal := rfl
  frames := List.all_eq_true.mp h.frames
  lists := rfl
  parameters := Nat.zero_lt_succ 255
  annotations := by simp

end Passage

end SchemaRecords.ClassFile
