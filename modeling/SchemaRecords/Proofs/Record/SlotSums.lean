import SchemaRecords.Proofs.ClassFile.WordSums
import SchemaRecords.Proofs.Record.Writable

/-!
# No count of slots is too large for its word

`Layout.additions` lists the additions of slots that are made while the class of a
layout is put together, part by part and as far as it gets. None of them is too
large for a word of 16 bits (`Layout.isExact_additions`), however many components
there are: the parts that come after the constructor are made only if the
constructor found few enough components, and what comes before it counts the slots
of one component at a time.

An operation puts at most two slots on the stack, so a body of few operations does
not get far (`isExact_additionsFrom`).
-/

namespace SchemaRecords.ClassFile

/-! ## Method bodies -/

theorem total_map_le {α : Type} {words : α → UInt16} (h : ∀ a, (words a).toNat ≤ 2) (as : List α) :
    total (as.map words) ≤ as.length * 2 := by
  induction as with
  | nil => exact Nat.le_refl _
  | cons a as ih =>
    have ha := h a
    rw [List.map_cons, total, List.length_cons, Nat.succ_mul]
    omega

theorem total_parameterWords_le (type : MethodType) :
    total type.parameterWords ≤ type.parameters.length * 2 :=
  total_map_le (fun t => (Record.slots_bounds t).2) type.parameters

theorem total_stackWords_le {frame : Frame} (h : frame.isSmall) : total frame.stackWords ≤ 4 := by
  have hslots (t : VerificationType) : t.slots.toNat ≤ 2 := by
    cases t <;> simp [VerificationType.slots]
  have htotal : total frame.stackWords ≤ frame.stack.length * 2 := total_map_le hslots frame.stack
  simp only [Frame.isSmall, Bool.and_eq_true, decide_eq_true_eq] at h
  exact Nat.le_trans htotal (Nat.mul_le_mul_right 2 h.2)

namespace Operation

/-- The parameters of the method that is called. -/
def arity : Operation → Nat
  | invoke _ _ _ type => type.parameters.length
  | invokeDynamic _ type => type.parameters.length
  | _ => 0

/-- The operation has small numbers in it only: its slot, its parameters and its frame. -/
structure IsModest (op : Operation) : Prop where
  selectable : op.isSelectable
  arity : op.arity ≤ 254
  frame : ∀ label frame, op = .bind label frame → frame.isSmall

theorem pushes_le (op : Operation) : op.pushes.toNat ≤ 2 := by
  have hresult (type : MethodType) : type.resultSlots.toNat ≤ 2 := by
    unfold MethodType.resultSlots
    split
    · exact (Record.slots_bounds _).2
    · exact Nat.zero_le _
  cases op with
  | load slot type => exact (Record.slots_bounds type).2
  | getField owner name type => exact (Record.slots_bounds type).2
  | invoke kind owner name type => exact hresult type
  | invokeDynamic site type => exact hresult type
  | _ => simp [pushes]

theorem IsModest.isExact_additions {op : Operation} (h : op.IsModest) :
    ∀ a ∈ op.additions, a.IsExact := by
  have hsums {type : MethodType} (htype : type.parameters.length ≤ 254) :
      total type.parameterWords ≤ 508 := by
    have := total_parameterWords_le type
    omega
  cases op with
  | load slot type =>
    have hslot : slot.toNat < 256 := UInt16.lt_iff_toNat_lt.mp (of_decide_eq_true h.selectable)
    have htype := (Record.slots_bounds type).2
    refine List.forall_mem_singleton.mpr ?_
    show slot.toNat + type.slots.toNat ≤ 65535
    omega
  | putField owner name type =>
    have htype := (Record.slots_bounds type).2
    refine List.forall_mem_singleton.mpr ?_
    show 1 + type.slots.toNat ≤ 65535
    omega
  | invoke kind owner name type =>
    have hwords := hsums h.arity
    have hexact : ∀ a ∈ sums 0 type.parameterWords, a.IsExact :=
      forall_isExact_sums_iff.mpr (by simp; omega)
    refine List.forall_mem_append.mpr ⟨hexact, List.forall_mem_singleton.mpr ?_⟩
    have hkind : kind.receiverSlots.toNat ≤ 1 := by cases kind <;> decide
    show kind.receiverSlots.toNat + type.parameterSlots.toNat ≤ 65535
    rw [MethodType.toNat_parameterSlots_of_exact hexact]
    omega
  | invokeDynamic site type =>
    have hwords := hsums h.arity
    exact forall_isExact_sums_iff.mpr (by simp; omega)
  | bind label frame =>
    have hwords := total_stackWords_le (h.frame label frame rfl)
    exact forall_isExact_sums_iff.mpr (by simp; omega)
  | _ => simp [additions]

end Operation

/-- The stack rises by at most two slots for each operation. -/
theorem isExact_additionsFrom {ops : List Operation} {depth : UInt16} {bound : Nat}
    (h : ∀ op ∈ ops, op.IsModest) (hdepth : depth.toNat ≤ bound) (hframes : 4 ≤ bound)
    (hbound : bound + 2 * ops.length ≤ 65535) : ∀ a ∈ additionsFrom depth ops, a.IsExact := by
  induction ops generalizing depth bound with
  | nil => simp [additionsFrom]
  | cons op ops ih =>
    obtain ⟨hop, hops⟩ := List.forall_mem_cons.mp h
    rw [List.length_cons] at hbound
    have hadditions := hop.isExact_additions
    obtain ⟨label, frame, rfl⟩ | hne := op.bind_or_ne
    · have hstack : frame.stackSlots.toNat ≤ 4 := by
        have hwords := total_stackWords_le (hop.frame label frame rfl)
        rw [Frame.stackSlots_eq, toNat_foldl_add (by simp; omega)]
        simpa using hwords
      have hrest := ih hops (Nat.le_trans hstack hframes) hframes (by omega)
      rw [additionsFrom, List.forall_mem_append, List.forall_mem_append]
      exact ⟨⟨hadditions, by simp [Operation.growth]⟩, hrest⟩
    · have hpushes := op.pushes_le
      have hremaining : (op.remaining depth).toNat ≤ depth.toNat := by
        unfold Operation.remaining
        split
        · exact Nat.zero_le _
        · rename_i henough
          rw [UInt16.toNat_sub_of_le _ _ (UInt16.not_lt.mp henough)]
          exact Nat.sub_le _ _
      have hsum : (op.remaining depth).toNat + op.pushes.toNat ≤ 65535 := by omega
      have hnext : (op.depthAfter depth).toNat ≤ bound + 2 := by
        rw [op.depthAfter_of_ne hne, Verifier.toNat_add_of_le hsum]
        omega
      have hrest := ih hops hnext (by omega) (by omega)
      rw [additionsFrom, List.forall_mem_append, List.forall_mem_append, op.growth_of_ne hne]
      exact ⟨⟨hadditions, List.forall_mem_singleton.mpr hsum⟩, hrest⟩

namespace Method

/-- The additions of slots for a method: those for its locals, which are the object and the
parameters at first, and those for its operations. -/
def additions (m : Method) : List Addition :=
  sums 0 m.type.parameterWords ++ ⟨1, m.type.parameterSlots⟩ :: additionsFrom 0 m.body.operations

/-- A method that can be written and calls methods with few parameters is counted right. -/
theorem IsWritable.isExact_additions {m : Method} (h : m.IsWritable)
    (hparameters : m.type.parameters.length ≤ 254)
    (harity : ∀ op ∈ m.body.operations, op.arity ≤ 254) : ∀ a ∈ m.additions, a.IsExact := by
  have hwords := total_parameterWords_le m.type
  have hexact : ∀ a ∈ sums 0 m.type.parameterWords, a.IsExact :=
    forall_isExact_sums_iff.mpr (by simp; omega)
  have hmodest : ∀ op ∈ m.body.operations, op.IsModest := fun op hop =>
    ⟨h.operations.selectable op hop, harity op hop, fun label frame heq =>
      h.frames frame (List.mem_filterMap.mpr ⟨op, hop, by rw [heq]⟩)⟩
  have hsize := h.operations.size
  refine List.forall_mem_append.mpr ⟨hexact, List.forall_mem_cons.mpr ⟨?_, ?_⟩⟩
  · show 1 + m.type.parameterSlots.toNat ≤ 65535
    rw [MethodType.toNat_parameterSlots_of_exact hexact]
    omega
  · exact isExact_additionsFrom hmodest (Nat.zero_le 4) (Nat.le_refl 4) (by omega)

end Method

end SchemaRecords.ClassFile

namespace SchemaRecords.Record

open SchemaRecords.ClassFile

/-! ## The methods of record classes -/

theorem Layout.arity_loadThis (l : Layout) (c : Component) :
    ∀ op ∈ l.loadThis c, op.arity ≤ 254 := by
  simp [Layout.loadThis, Operation.loadReference, Operation.arity]

namespace Accessor

theorem isExact_additions (l : Layout) (c : Component) :
    ∀ a ∈ (method l c).additions, a.IsExact := by
  refine (method_isWritable l c).isExact_additions (Nat.zero_le _) ?_
  exact List.forall_mem_append.mpr ⟨l.arity_loadThis c, by simp [Operation.arity]⟩

end Accessor

namespace Constructor

theorem arity_stores (l : Layout) (slot : UInt16) (cs : List Component) :
    ∀ op ∈ stores l slot cs, op.arity ≤ 254 := by
  induction cs generalizing slot with
  | nil => simp [stores]
  | cons c cs ih =>
    rw [stores]
    exact List.forall_mem_append.mpr
      ⟨by simp [Operation.loadReference, Operation.arity], ih (slot + c.type.slots)⟩

theorem isExact_additions {l : Layout} (h : slots l ≤ maxParameterSlots) :
    ∀ a ∈ (method l).additions, a.IsExact := by
  refine (method_isWritable h).isExact_additions ?_ ?_
  · show (l.components.map (·.type)).length ≤ 254
    rw [List.length_map]
    exact length_le_of_slots h
  · refine List.forall_mem_append.mpr ⟨List.forall_mem_append.mpr ⟨?_, arity_stores l 1 _⟩, ?_⟩
    · simp [Operation.loadReference, Operation.arity, MethodType.void]
    · simp [Operation.arity]

end Constructor

namespace Equality

theorem arity_compare (l : Layout) (c : Component) : ∀ op ∈ compare l c, op.arity ≤ 254 := by
  refine List.forall_mem_append.mpr ⟨List.forall_mem_append.mpr ⟨l.arity_loadThis c, ?_⟩, ?_⟩
  · simp [Operation.loadReference, Operation.arity]
  · cases c.type <;> simp [test, Operation.arity, predicate, comparison]

theorem isExact_additions {l : Layout} (h : l.components.length ≤ 254) :
    ∀ a ∈ (method l).additions, a.IsExact := by
  refine (method_isWritable h).isExact_additions (by simp [method, type]) ?_
  refine List.forall_mem_append.mpr ⟨List.forall_mem_append.mpr ⟨?_, ?_⟩, ?_⟩
  · simp [opening, Operation.loadReference, Operation.arity]
  · exact List.forall_mem_flatMap.mpr fun c _ => arity_compare l c
  · simp [closing, Operation.arity]

end Equality

namespace Hashing

theorem arity_hashValue (l : Layout) (label : Label) (type : FieldType) :
    ∀ op ∈ hashValue l label type, op.arity ≤ 254 := by
  cases type <;> simp [hashValue, hashReference, Operation.arity, MethodType.returning]

theorem isExact_additions {l : Layout} (h : l.components.length ≤ 254) :
    ∀ a ∈ (method l).additions, a.IsExact := by
  refine (method_isWritable h).isExact_additions (Nat.zero_le _) ?_
  refine List.forall_mem_append.mpr ⟨List.forall_mem_append.mpr ⟨?_, ?_⟩, ?_⟩
  · simp [Operation.arity]
  · refine List.forall_mem_flatMap.mpr fun x _ => ?_
    refine List.forall_mem_append.mpr ⟨List.forall_mem_append.mpr ⟨?_, ?_⟩, ?_⟩
    · exact List.forall_mem_append.mpr ⟨by simp [Operation.arity], l.arity_loadThis x.1⟩
    · exact arity_hashValue l _ _
    · simp [Operation.arity]
  · simp [Operation.arity]

end Hashing

namespace Rendering

theorem isExact_additions {l : Layout} (h : l.components.length ≤ 254) (site : UInt16) :
    ∀ a ∈ (method l site).additions, a.IsExact := by
  refine (method_isWritable h site).isExact_additions (Nat.zero_le _) ?_
  have hshown : (callType l).parameters.length ≤ 254 := by
    show ((shown l).map (·.type)).length ≤ 254
    rw [List.length_map]
    exact Nat.le_trans (length_shown_le l) h
  refine List.forall_mem_append.mpr ⟨?_, ?_⟩
  · exact List.forall_mem_flatMap.mpr fun c _ => l.arity_loadThis c
  · exact List.forall_mem_cons.mpr ⟨hshown, by simp [Operation.arity]⟩

end Rendering

/-! ## The parts of a class -/

namespace Part

/-- The additions of slots for a part. The constructor adds none if there are too many parameters,
and the string form counts its arguments before it knows that there are not. The slots at which the
parameters of the constructor end are counted once more where these are stored, by the same
additions as for their locals. -/
def additions (l : Layout) : Part → List Addition
  | accessors => l.components.flatMap fun c => (Accessor.method l c).additions
  | constructor =>
    if maxParameterSlots < Constructor.slots l then [] else (Constructor.method l).additions
  | equality => (Equality.method l).additions
  | hashing => (Hashing.method l).additions
  | rendering =>
    sums 0 (Rendering.callType l).parameterWords
      ++ if maxArgumentSlots < (Rendering.callType l).parameterSlots.toNat then []
        else (Rendering.method l 0).additions

/-- The additions for parts, up to one that fails. -/
def additionsOf (l : Layout) : List Part → Draft → List Addition
  | [], _ => []
  | part :: parts, d =>
    part.additions l ++ match part.add l d with
      | .ok _ d => additionsOf l parts d
      | .error _ _ => []

theorem isExact_accessors (l : Layout) : ∀ a ∈ accessors.additions l, a.IsExact :=
  List.forall_mem_flatMap.mpr fun c _ => Accessor.isExact_additions l c

theorem isExact_constructor (l : Layout) : ∀ a ∈ constructor.additions l, a.IsExact := by
  rw [additions]
  split
  · simp
  · rename_i h
    exact Constructor.isExact_additions (Nat.not_lt.mp h)

theorem isExact_additions {l : Layout} (h : Constructor.slots l ≤ maxParameterSlots)
    (part : Part) : ∀ a ∈ part.additions l, a.IsExact := by
  have hlength := length_le_of_slots h
  cases part with
  | accessors => exact isExact_accessors l
  | constructor => exact isExact_constructor l
  | equality => exact Equality.isExact_additions hlength
  | hashing => exact Hashing.isExact_additions hlength
  | rendering =>
    have hwords := total_parameterWords_le (Rendering.callType l)
    have hshown : (Rendering.callType l).parameters.length ≤ l.components.length := by
      show ((Rendering.shown l).map (·.type)).length ≤ _
      rw [List.length_map]
      exact Rendering.length_shown_le l
    refine List.forall_mem_append.mpr ⟨forall_isExact_sums_iff.mpr (by simp; omega), ?_⟩
    split
    · simp
    · exact Rendering.isExact_additions hlength 0

theorem isExact_additionsOf {l : Layout} (h : Constructor.slots l ≤ maxParameterSlots)
    (parts : List Part) (d : Draft) : ∀ a ∈ additionsOf l parts d, a.IsExact := by
  induction parts generalizing d with
  | nil => simp [additionsOf]
  | cons part parts ih =>
    refine List.forall_mem_append.mpr ⟨isExact_additions h part, ?_⟩
    split
    · exact ih _
    · simp

end Part

theorem Constructor.slots_le_of_add {l : Layout} {d d' : Draft} (h : add l d = .ok () d') :
    slots l ≤ maxParameterSlots := by
  unfold add at h
  split at h
  · cases h
  · rename_i hslots
    exact Nat.not_lt.mp hslots

namespace Layout

/-- The additions of slots that are made for the class of a layout, as far as it is made. -/
def additions (l : Layout) : List Addition :=
  match l.draft with
  | .error _ => []
  | .ok d => Part.additionsOf l Part.all d

/-- No sum of slots is too large for its word, for any number of components. -/
theorem isExact_additions (l : Layout) : ∀ a ∈ l.additions, a.IsExact := by
  unfold additions
  split
  · simp
  · rename_i d _
    rw [Part.all, Part.additionsOf]
    refine List.forall_mem_append.mpr ⟨Part.isExact_accessors l, ?_⟩
    split
    · rename_i d₁ _
      rw [Part.additionsOf]
      refine List.forall_mem_append.mpr ⟨Part.isExact_constructor l, ?_⟩
      split
      · -- once there is a constructor, there are few components
        rename_i hconstructor
        exact Part.isExact_additionsOf (Constructor.slots_le_of_add hconstructor) _ _
      · simp
    · simp

end Layout

end SchemaRecords.Record
