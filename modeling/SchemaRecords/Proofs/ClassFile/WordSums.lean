import SchemaRecords.Proofs.Verifier.Depth

/-!
# Sums of slots in words of 16 bits

Slots are counted in words of 16 bits, so a sum of slots is right only if it is a
word itself. `additionsFrom depth ops` lists the additions that the assembler makes
for the operations `ops` when the stack has the given depth before them: those that
count the slots of parameters and frames, those that find the end of a local, and
those that raise the stack. Where all of them are exact, words count what numbers
do.

* `forall_isExact_sums_iff`: a running sum is exact up to its end if its end is a word.
* `Assembler.depth_step`: the depth that the assembler keeps is `Operation.depthAfter`.
-/

namespace SchemaRecords.ClassFile

/-- An addition of two words. -/
structure Addition where
  left : UInt16
  right : UInt16
deriving DecidableEq, Repr

/-- The sum of the numbers is a word. -/
def Addition.IsExact (a : Addition) : Prop := a.left.toNat + a.right.toNat ≤ 65535

instance (a : Addition) : Decidable a.IsExact :=
  inferInstanceAs (Decidable (a.left.toNat + a.right.toNat ≤ 65535))

/-- The additions that add words to `n` one after the other. -/
def sums (n : UInt16) : List UInt16 → List Addition
  | [] => []
  | m :: ms => ⟨n, m⟩ :: sums (n + m) ms

/-- The sum of the numbers that words stand for. -/
def total : List UInt16 → Nat
  | [] => 0
  | m :: ms => m.toNat + total ms

theorem toNat_foldl_add {n : UInt16} {ms : List UInt16} (h : n.toNat + total ms ≤ 65535) :
    (ms.foldl (· + ·) n).toNat = n.toNat + total ms := by
  induction ms generalizing n with
  | nil => rfl
  | cons m ms ih =>
    rw [total] at h ⊢
    have hadd : (n + m).toNat = n.toNat + m.toNat := Verifier.toNat_add_of_le (by omega)
    rw [List.foldl_cons, ih (by omega), hadd, Nat.add_assoc]

/-- A running sum is exact up to its end if its end is a word. -/
theorem forall_isExact_sums_iff {n : UInt16} {ms : List UInt16} :
    (∀ a ∈ sums n ms, a.IsExact) ↔ n.toNat + total ms ≤ 65535 := by
  induction ms generalizing n with
  | nil =>
    have hn := n.toNat_lt
    simp [sums, total]
    omega
  | cons m ms ih =>
    rw [sums, List.forall_mem_cons, ih, total]
    constructor
    · rintro ⟨hadd, hrest⟩
      rw [Verifier.toNat_add_of_le hadd] at hrest
      exact Nat.add_assoc _ _ _ ▸ hrest
    · intro h
      have hadd : n.toNat + m.toNat ≤ 65535 := by omega
      exact ⟨hadd, by rw [Verifier.toNat_add_of_le hadd]; omega⟩

/-- The slots of each parameter. -/
def MethodType.parameterWords (type : MethodType) : List UInt16 :=
  type.parameters.map FieldType.slots

/-- The slots of each operand. -/
def Frame.stackWords (frame : Frame) : List UInt16 :=
  frame.stack.map VerificationType.slots

theorem MethodType.parameterSlots_eq (type : MethodType) :
    type.parameterSlots = type.parameterWords.foldl (· + ·) 0 := by
  rw [parameterSlots, parameterWords, List.foldl_map]

theorem Frame.stackSlots_eq (frame : Frame) :
    frame.stackSlots = frame.stackWords.foldl (· + ·) 0 := by
  rw [stackSlots, stackWords, List.foldl_map]

theorem MethodType.toNat_parameterSlots_of_exact {type : MethodType}
    (h : ∀ a ∈ sums 0 type.parameterWords, a.IsExact) :
    type.parameterSlots.toNat = total type.parameterWords := by
  rw [parameterSlots_eq, toNat_foldl_add (forall_isExact_sums_iff.mp h)]
  exact Nat.zero_add _

/-! ## The additions of operations -/

namespace Operation

/-- The additions that count what an operation takes and touches, and what a frame holds. -/
def additions : Operation → List Addition
  | load slot type => [⟨slot, type.slots⟩]
  | putField _ _ type => [⟨1, type.slots⟩]
  | invoke kind _ _ type =>
    sums 0 type.parameterWords ++ [⟨kind.receiverSlots, type.parameterSlots⟩]
  | invokeDynamic _ type => sums 0 type.parameterWords
  | bind _ frame => sums 0 frame.stackWords
  | _ => []

/-- What the operation leaves on the stack of what was there. -/
def remaining (depth : UInt16) (op : Operation) : UInt16 :=
  if depth < op.pops then 0 else depth - op.pops

/-- The addition that raises the stack. A label makes none: its frame says what the stack is. -/
def growth (depth : UInt16) : Operation → List Addition
  | bind _ _ => []
  | op => [⟨op.remaining depth, op.pushes⟩]

/-- The depth of the stack after the operation. -/
def depthAfter (depth : UInt16) : Operation → UInt16
  | bind _ frame => frame.stackSlots
  | op => op.remaining depth + op.pushes

end Operation

/-- The additions that are made for operations, with a stack of the given depth before them. -/
def additionsFrom (depth : UInt16) : List Operation → List Addition
  | [] => []
  | op :: ops => op.additions ++ op.growth depth ++ additionsFrom (op.depthAfter depth) ops

section Depth

variable {op : Operation}

theorem Operation.growth_of_ne (hop : ∀ label frame, op ≠ .bind label frame) (depth : UInt16) :
    op.growth depth = [⟨op.remaining depth, op.pushes⟩] := by
  cases op with
  | bind label frame => exact absurd rfl (hop label frame)
  | _ => rfl

theorem Operation.depthAfter_of_ne (hop : ∀ label frame, op ≠ .bind label frame)
    (depth : UInt16) : op.depthAfter depth = op.remaining depth + op.pushes := by
  cases op with
  | bind label frame => exact absurd rfl (hop label frame)
  | _ => rfl

namespace Assembler

theorem depth_noteFault (s : Assembler) (e : Error) : (s.noteFault e).depth = s.depth := by
  unfold noteFault
  split <;> rfl

theorem depth_intern (s : Assembler) (request : Intern UInt16) :
    (s.intern request).2.depth = s.depth := by
  unfold intern
  simp only
  split
  · rfl
  · exact depth_noteFault _ _

theorem depth_indexFor (s : Assembler) (op : Operation) : (s.indexFor op).2.depth = s.depth := by
  unfold indexFor
  split
  · exact depth_intern s _
  · rfl

theorem depth_placeSelected (s : Assembler) (selected : Except Error Operation.Selected) :
    (s.placeSelected selected).depth = s.depth := by
  unfold placeSelected
  split
  · rfl
  · rfl
  · rfl
  · exact depth_noteFault _ _

theorem depth_adjust (s : Assembler) (pops pushes : UInt16) :
    (s.adjust pops pushes).depth = (if s.depth < pops then 0 else s.depth - pops) + pushes := by
  unfold adjust
  split
  · exact (UInt16.zero_add pushes).symm
  · rfl

/-- The depth that the assembler keeps, also after a fault. -/
theorem depth_step (s : Assembler) (op : Operation) :
    (s.step op).depth = op.depthAfter s.depth := by
  obtain ⟨label, frame, rfl⟩ | hop := op.bind_or_ne
  · rfl
  · have hplaced : (((s.indexFor op).2.placeSelected (op.select (s.indexFor op).1)).reserve
        op.touches).depth = s.depth := by
      rw [← depth_indexFor s op]
      exact depth_placeSelected _ _
    rw [step_eq hop, depth_adjust, hplaced, op.depthAfter_of_ne hop]
    rfl

theorem depth_steps (s : Assembler) (ops : List Operation) :
    (s.steps ops).depth = ops.foldl Operation.depthAfter s.depth := by
  induction ops generalizing s with
  | nil => rfl
  | cons op ops ih =>
    rw [List.foldl_cons, ← depth_step]
    exact ih (s.step op)

end Assembler

end Depth

end SchemaRecords.ClassFile
