import SchemaRecords.Proofs.ClassFile.Passage
import SchemaRecords.Record.Artifact

/-!
# The members of record classes can be written

Each method of a record class is a sequence of passages, one for each component
with something before and after them. If the parameters of the constructor take
no more slots than a method may have, all methods can be written, and the
constants of each are bounded by the number of components.

* `Accessor.method_isWritable`, `Constructor.method_isWritable`,
  `Equality.method_isWritable`, `Hashing.method_isWritable`,
  `Rendering.method_isWritable`: the methods.
* `areFew_annotations`: the annotations of the fields and parameters.
-/

namespace SchemaRecords.Record

open SchemaRecords.ClassFile

/-! ## Components -/

theorem slots_bounds (t : FieldType) : 1 ≤ t.slots.toNat ∧ t.slots.toNat ≤ 2 := by
  cases t <;> simp [FieldType.slots]

/-- The slots that components take together. -/
def slotsOf : List Component → Nat
  | [] => 0
  | c :: cs => c.type.slots.toNat + slotsOf cs

theorem foldl_slots (cs : List Component) (n : Nat) :
    cs.foldl (fun n c => n + c.type.slots.toNat) n = n + slotsOf cs := by
  induction cs generalizing n with
  | nil => rfl
  | cons c cs ih => rw [List.foldl_cons, ih, slotsOf, Nat.add_assoc]

theorem length_le_slotsOf (cs : List Component) : cs.length ≤ slotsOf cs := by
  induction cs with
  | nil => exact Nat.le_refl _
  | cons c cs ih =>
    have := (slots_bounds c.type).1
    rw [List.length_cons, slotsOf]
    omega

/-- There are at most as many components as parameter slots. -/
theorem length_le_of_slots {l : Layout} (h : Constructor.slots l ≤ maxParameterSlots) :
    l.components.length ≤ 254 := by
  have hlength := length_le_slotsOf l.components
  rw [Constructor.slots, foldl_slots, maxParameterSlots] at h
  omega

theorem areFew_annotations (l : Layout) (c : Component) :
    AnnotationEntry.AreFew (l.annotations c) := by
  unfold Layout.annotations Settings.keyEntry? AnnotationEntry.AreFew
  split <;> simp

/-- Pushing a component of the record. -/
theorem loadThis_passage (l : Layout) (c : Component) (depth : UInt16) (h : depth.toNat < 65535) :
    Passage depth (depth + c.type.slots) [] 2 6 (l.loadThis c) where
  selectable := rfl
  settles := by
    have hpushed : ¬depth + 1 < 1 := by
      rw [UInt16.lt_iff_toNat_lt, UInt16.toNat_add]
      simp
      omega
    have hload : (Operation.loadReference 0).settle depth = some (depth + 1) := by
      simp [Operation.loadReference, Operation.settle, Operation.pops, Operation.pushes,
        FieldType.slots]
    have hget : (Operation.getField l.thisName c.name c.type).settle (depth + 1)
        = some (depth + c.type.slots) := by
      simp [Operation.settle, Operation.pops, Operation.pushes, hpushed]
    simp [settles, Layout.loadThis, hload, hget]
  targets := List.nil_subset _
  spaced _ := rfl
  frames := rfl
  length := Nat.le_refl _
  entries := Nat.le_refl _

/-! ## Accessors -/

namespace Accessor

theorem operations_passage (l : Layout) (c : Component) :
    Passage 0 0 [] 3 6 (operations l c) := by
  obtain ⟨key, name, type⟩ := c
  cases type <;> exact .of_check (by cbv) (List.nil_subset _) fun _ => rfl

theorem method_isWritable (l : Layout) (c : Component) : (method l c).IsWritable :=
  (operations_passage l c).isWritable (List.nil_subset _) (by decide) _ _ _

theorem entries_method (l : Layout) (c : Component) : (method l c).entries ≤ 11 :=
  Nat.add_le_add_right (operations_passage l c).entries 5

end Accessor

/-! ## The constructor -/

namespace Constructor

/-- Each parameter is in a slot that fits in a byte. -/
theorem stores_passage (l : Layout) (cs : List Component) (slot : UInt16)
    (h : slot.toNat + slotsOf cs < 256) :
    Passage 0 0 [] (cs.length * 3) (cs.length * 6) (stores l slot cs) := by
  induction cs generalizing slot with
  | nil => exact Passage.nil.mono (Nat.zero_le _) (Nat.zero_le _)
  | cons c cs ih =>
    rw [slotsOf] at h
    have hnext : (slot + c.type.slots).toNat = slot.toNat + c.type.slots.toNat := by
      rw [UInt16.toNat_add]
      exact Nat.mod_eq_of_lt (by omega)
    -- `load` has a one-byte slot only
    have hslot : slot < 256 := by
      rw [UInt16.lt_iff_toNat_lt]
      simp
      omega
    have hstore : Passage 0 0 [] 3 6
        [.loadReference 0, .load slot c.type, .putField l.thisName c.name c.type] := by
      obtain ⟨key, name, type⟩ := c
      refine ⟨?_, ?_, List.nil_subset _, fun _ => rfl, rfl, Nat.le_refl _, Nat.le_refl _⟩
      · simp [Operation.loadReference, Operation.isSelectable, hslot]
      · cases type <;> cbv
    have hrest := ih (slot + c.type.slots) (by omega)
    rw [List.length_cons]
    exact (hstore.append hrest).mono (by omega) (by omega)

theorem operations_passage {l : Layout} (h : slots l ≤ maxParameterSlots) :
    Passage 0 0 [] (2 + l.components.length * 3 + 1) (6 + l.components.length * 6 + 0)
      (operations l) := by
  rw [slots, foldl_slots, maxParameterSlots] at h
  have hsuper : Passage 0 0 [] 2 6
      [.loadReference 0, .invoke .special recordName name .void] :=
    .of_check (by cbv) (List.nil_subset _) fun _ => rfl
  have hreturn : Passage 0 0 [] 1 0 [.returnVoid] :=
    .of_check (by cbv) (List.nil_subset _) fun _ => rfl
  have hstores := stores_passage l l.components 1 (by simp; omega)
  exact (hsuper.append hstores).append hreturn

theorem method_isWritable {l : Layout} (h : slots l ≤ maxParameterSlots) :
    (method l).IsWritable where
  operations := by
    have := length_le_of_slots h
    exact (operations_passage h).assemblable (List.nil_subset _) (by omega)
  refusal := rfl
  frames := List.all_eq_true.mp (operations_passage h).frames
  lists := by
    simp only [Method.listFault?, method, parameterAnnotations, type]
    split <;> simp
  parameters := by
    have := length_le_of_slots h
    simp only [method, parameterAnnotations]
    split
    · rw [List.length_map]
      omega
    · exact Nat.zero_lt_succ 255
  annotations := by
    simp only [method, parameterAnnotations]
    split
    · exact List.forall_mem_map.mpr fun c _ => areFew_annotations l c
    · simp

theorem entries_method {l : Layout} (h : slots l ≤ maxParameterSlots) :
    (method l).entries ≤ l.components.length * 9 + 11 := by
  have hoperations := (operations_passage h).entries
  have hlists : (parameterAnnotations l).length ≤ l.components.length := by
    unfold parameterAnnotations
    split
    · exact Nat.le_of_eq (List.length_map _)
    · exact Nat.zero_le _
  show entriesOf (operations l) + (parameterAnnotations l).length * 3 + 5 ≤ _
  omega

end Constructor

/-! ## Equality -/

namespace Equality

/-- The labels of the method. -/
def labels : List Label := [equal, different, done]

theorem opening_passage (l : Layout) : Passage 0 0 labels 8 2 (opening l) :=
  .of_check (by cbv) (by simp [opening, branchTargets, Operation.loadReference, labels])
    fun _ => rfl

theorem compare_passage (l : Layout) (c : Component) : Passage 0 0 labels 7 20 (compare l c) := by
  have htargets : branchTargets (test c.type) ⊆ labels := by
    cases c.type <;> simp [test, branchTargets, labels]
  obtain ⟨key, name, type⟩ := c
  have hsubset := List.Subset.trans htargets (List.subset_append_left labels [])
  cases type <;> exact .of_check (by cbv) hsubset fun _ => rfl

theorem closing_passage (l : Layout) : Passage 0 0 labels 7 26 (closing l) :=
  .of_check (by cbv) (by simp [closing, branchTargets, labels]) fun _ => rfl

theorem operations_passage (l : Layout) :
    Passage 0 0 labels (8 + l.components.length * 7 + 7) (2 + l.components.length * 20 + 26)
      (operations l) :=
  ((opening_passage l).append (.flatMap fun c _ => compare_passage l c)).append (closing_passage l)

theorem labels_subset (l : Layout) : labels ⊆ boundLabels (operations l) := by
  rw [operations, boundLabels_append]
  exact List.subset_append_right _ _

theorem method_isWritable {l : Layout} (h : l.components.length ≤ 254) : (method l).IsWritable :=
  (operations_passage l).isWritable (labels_subset l) (by omega) _ _ _

theorem entries_method (l : Layout) : (method l).entries ≤ l.components.length * 20 + 33 := by
  have hoperations := (operations_passage l).entries
  show entriesOf (operations l) + 5 ≤ _
  omega

end Equality

/-! ## Hash codes -/

namespace Hashing

theorem combine_passage (l : Layout) (c : Component) (i : Nat) :
    Passage 1 1 [] 13 30 (combine l c i) := by
  obtain ⟨key, name, type⟩ := c
  cases type with
  | object className =>
    refine .of_check (by cbv) ?_ fun _ => rfl
    show [2 * i, 2 * i + 1] ⊆ [2 * i, 2 * i + 1]
    exact List.Subset.refl _
  | _ => exact .of_check (by cbv) (List.nil_subset _) fun _ => rfl

theorem operations_passage (l : Layout) :
    Passage 0 0 [] (1 + l.components.length * 13 + 1) (1 + l.components.length * 30 + 0)
      (operations l) := by
  have hone : Passage 0 1 [] 1 1 [.const 1] :=
    .of_check (by cbv) (List.nil_subset _) fun _ => rfl
  have hreturn : Passage 1 0 [] 1 0 [.returnValue .int] :=
    .of_check (by cbv) (List.nil_subset _) fun _ => rfl
  have hcombine := Passage.flatMap fun x (_ : x ∈ l.components.zipIdx) =>
    combine_passage l x.1 x.2
  rw [List.length_zipIdx] at hcombine
  exact (hone.append hcombine).append hreturn

theorem method_isWritable {l : Layout} (h : l.components.length ≤ 254) : (method l).IsWritable :=
  (operations_passage l).isWritable (List.nil_subset _) (by omega) _ _ _

theorem entries_method (l : Layout) : (method l).entries ≤ l.components.length * 30 + 6 := by
  have hoperations := (operations_passage l).entries
  show entriesOf (operations l) + 5 ≤ _
  omega

end Hashing

/-! ## String forms -/

namespace Rendering

/-- All arguments of the call are on the stack together. -/
theorem loads_passage (l : Layout) (cs : List Component) (depth : UInt16)
    (h : depth.toNat + cs.length * 2 < 65535) :
    Passage depth (cs.foldl (fun n c => n + c.type.slots) depth) [] (cs.length * 2)
      (cs.length * 6) (cs.flatMap l.loadThis) := by
  induction cs generalizing depth with
  | nil => exact Passage.nil.mono (Nat.zero_le _) (Nat.zero_le _)
  | cons c cs ih =>
    rw [List.length_cons] at h
    have hslots := (slots_bounds c.type).2
    have hnext : (depth + c.type.slots).toNat = depth.toNat + c.type.slots.toNat := by
      rw [UInt16.toNat_add]
      exact Nat.mod_eq_of_lt (by omega)
    have hload := loadThis_passage l c depth (by omega)
    have hrest := ih (depth + c.type.slots) (by omega)
    rw [List.length_cons]
    exact (hload.append hrest).mono (by omega) (by omega)

theorem length_shown_le (l : Layout) : (shown l).length ≤ l.components.length :=
  List.length_filter_le _ _

theorem parameterSlots_callType (l : Layout) :
    (callType l).parameterSlots = (shown l).foldl (fun n c => n + c.type.slots) 0 := by
  rw [MethodType.parameterSlots, callType, List.foldl_map]

theorem operations_passage {l : Layout} (h : l.components.length ≤ 254) (site : UInt16) :
    Passage 0 0 [] ((shown l).length * 2 + 2) ((shown l).length * 6 + 0)
      (operations l site) := by
  have hlength := length_shown_le l
  have hloads := loads_passage l (shown l) 0 (by simp; omega)
  rw [← parameterSlots_callType] at hloads
  have hcall : Passage (callType l).parameterSlots 0 [] 2 0
      [.invokeDynamic site (callType l), .returnValue stringType] := by
    refine ⟨rfl, ?_, List.nil_subset _, fun _ => rfl, rfl, Nat.le_refl _, Nat.le_refl _⟩
    simp [settles, Operation.settle, Operation.pops, Operation.pushes, MethodType.resultSlots,
      callType, stringType, FieldType.slots]
  exact hloads.append hcall

theorem method_isWritable {l : Layout} (h : l.components.length ≤ 254) (site : UInt16) :
    (method l site).IsWritable := by
  have := length_shown_le l
  exact (operations_passage h site).isWritable (List.nil_subset _) (by omega) _ _ _

theorem entries_method {l : Layout} (h : l.components.length ≤ 254) (site : UInt16) :
    (method l site).entries ≤ l.components.length * 6 + 5 := by
  have hlength := length_shown_le l
  have hoperations := (operations_passage h site).entries
  show entriesOf (operations l site) + 5 ≤ _
  omega

end Rendering

end SchemaRecords.Record
