import SchemaRecords.Proofs.ClassFile.Assembly
import SchemaRecords.Proofs.ClassFile.Demand

/-!
# Operations that can be assembled

`Assemblable ops` collects what has to be right about the operations of a body,
apart from the pool: no operation takes more from the stack than there is, slots
fit in a byte, branches go to labels that are bound, no two labels are bound at
one place, and there are not so many operations that a branch could get too long.

`Body.assemble_asks` is the main result: a body of such operations is assembled
unless the pool refuses one of its constants. The assembler goes on after a
fault, so the proof follows the first fault (`steps_cases`) apart from the
instructions, labels and frames of a run without faults (`Layer`).
-/

namespace SchemaRecords.ClassFile

/-! ## What operations ask of the pool -/

namespace Operation

/-- The texts of the constant that an operation needs. -/
def texts : Operation → List String
  | getField owner name type => [owner, name, type.descriptor]
  | putField owner name type => [owner, name, type.descriptor]
  | invoke _ owner name type => [owner, name, type.descriptor]
  | checkCast name => [name]
  | instanceOf name => [name]
  | _ => []

/-- The entries that the constant of an operation takes at most. -/
def entries : Operation → Nat
  | const _ => 1
  | getField _ _ _ => 6
  | putField _ _ _ => 6
  | invoke _ _ _ _ => 6
  | checkCast _ => 2
  | instanceOf _ => 2
  | _ => 0

theorem constant_asks {op : Operation} {r : Intern UInt16} (h : op.constant = some r) :
    Asks r op.texts op.entries 0 fun _ => True := by
  cases op with
  | const value =>
    rw [constant] at h
    split at h
    · cases h
    · cases h
      exact Pool.insert_asks _
  | getField owner name type => cases h; exact Pool.fieldRef_asks _ _ _
  | putField owner name type => cases h; exact Pool.fieldRef_asks _ _ _
  | invoke kind owner name type => cases h; exact Pool.methodRef_asks _ _ _
  | checkCast name => cases h; exact Pool.classRef_asks _
  | instanceOf name => cases h; exact Pool.classRef_asks _
  | _ => cases h

theorem texts_of_constant {op : Operation} (h : op.constant = none) : op.texts = [] := by
  cases op with
  | getField owner name type => cases h
  | putField owner name type => cases h
  | invoke kind owner name type => cases h
  | checkCast name => cases h
  | instanceOf name => cases h
  | _ => rfl

/-- Whether the operation has an instruction: the slot that it loads must fit in a byte. -/
def isSelectable : Operation → Bool
  | load slot _ => slot < 256
  | _ => true

theorem select_of_isSelectable {op : Operation} (h : op.isSelectable) (index : UInt16) :
    ∃ selected, op.select index = .ok selected := by
  cases op with
  | load slot type =>
    have hslot : slot < 256 := of_decide_eq_true h
    unfold select selectLoad
    simp only
    split
    · exact ⟨_, rfl⟩
    · rename_i e he
      split at he <;> cases he
  | _ => exact ⟨_, rfl⟩

/-- The depth of the stack after an operation, unless it takes more than there is. -/
def settle (depth : UInt16) : Operation → Option UInt16
  | bind _ frame => some frame.stackSlots
  | op => if depth < op.pops then none else some (depth - op.pops + op.pushes)

end Operation

/-- The entries that the constants of operations take at most. -/
def constantEntries : List Operation → Nat
  | [] => 0
  | op :: ops => op.entries + constantEntries ops

/-- The depth of the stack after operations. -/
def settles (depth : UInt16) (ops : List Operation) : Option UInt16 :=
  ops.foldlM Operation.settle depth

/-- No two labels are bound at one place; `fresh` says whether the first operation may be a
label. -/
def spaced : Bool → List Operation → Bool
  | _, [] => true
  | fresh, .bind _ _ :: ops => fresh && spaced false ops
  | _, _ :: ops => spaced true ops

/-- The frames that operations declare, in order. -/
def boundFrames (ops : List Operation) : List Frame :=
  ops.filterMap fun
    | .bind _ frame => some frame
    | _ => none

/-- What has to be right about the operations of a body. -/
structure Assemblable (ops : List Operation) : Prop where
  selectable : ∀ op ∈ ops, op.isSelectable
  settles : ∃ depth, settles 0 ops = some depth
  targets : ∀ condition target, .branch condition target ∈ ops → target ∈ boundLabels ops
  spaced : spaced true ops
  /-- An instruction has at most five bytes, and a branch spans at most 32767. -/
  size : 5 * ops.length ≤ 32767

namespace Assembler

/-! ## Faults -/

variable {s : Assembler} {op : Operation} {ops : List Operation} {e : Error}

theorem noteFault_of_fault (h : s.fault = some e) (e' : Error) : s.noteFault e' = s := by
  rw [noteFault, h]

theorem fault_adjust (h : s.fault = some e) (pops pushes : UInt16) :
    (s.adjust pops pushes).fault = some e := by
  unfold adjust
  split
  · rw [noteFault_of_fault h]
    exact h
  · exact h

theorem fault_placeSelected (h : s.fault = some e) (selected : Except Error Operation.Selected) :
    (s.placeSelected selected).fault = some e := by
  match selected with
  | .ok (.instruction i) => exact h
  | .ok (.jump condition target) => exact h
  | .ok .nothing => exact h
  | .error e' =>
    rw [placeSelected, noteFault_of_fault h]
    exact h

/-- Once there is a fault, the rest of a step keeps it. -/
theorem fault_rest (h : s.fault = some e) (selected : Except Error Operation.Selected)
    (locals pops pushes : UInt16) :
    (((s.placeSelected selected).reserve locals).adjust pops pushes).fault = some e :=
  fault_adjust (s := (s.placeSelected selected).reserve locals) (fault_placeSelected h selected)
    pops pushes

theorem fault_intern (h : s.fault = some e) (r : Intern UInt16) :
    (s.intern r).2.fault = some e := by
  obtain ⟨pool, code, position, labels, frames, depth, maxStack, maxLocals, fault⟩ := s
  obtain rfl : fault = some e := h
  unfold intern
  simp only
  split <;> rfl

theorem fault_indexFor (h : s.fault = some e) (op : Operation) :
    (s.indexFor op).2.fault = some e := by
  unfold indexFor
  split
  · exact fault_intern h _
  · exact h

/-- The first fault is kept. -/
theorem fault_step (h : s.fault = some e) (op : Operation) : (s.step op).fault = some e := by
  obtain ⟨label, frame, rfl⟩ | hop := op.bind_or_ne
  · exact h
  · rw [step_eq hop]
    exact fault_rest (fault_indexFor h op) _ _ _ _

theorem fault_steps (h : s.fault = some e) (ops : List Operation) :
    (s.steps ops).fault = some e := by
  induction ops generalizing s with
  | nil => exact h
  | cons op ops ih => exact ih (fault_step h op)

/-- What went on in the pool while operations were assembled: nothing is wrong yet, or the pool
refused a constant. -/
def Interned (s s' : Assembler) (texts : List String) (k : Nat) : Prop :=
  (s'.fault = none ∧ (∀ t ∈ texts, Fits t) ∧ s'.pool.size ≤ s.pool.size + k ∧
      s.pool.Stores s'.pool texts) ∨
    ∃ e, s'.fault = some e ∧ Refused texts (s.pool.size + k) e

/-- The index of a constant is found unless the pool refuses it. -/
theorem indexFor_cases (h : s.fault = none) (op : Operation) :
    Interned s (s.indexFor op).2 op.texts op.entries ∧ (s.indexFor op).2.depth = s.depth := by
  obtain ⟨pool, code, position, labels, frames, depth, maxStack, maxLocals, fault⟩ := s
  cases h
  unfold indexFor
  split
  · rename_i r hr
    rcases Operation.constant_asks hr pool with ⟨i, q, hok, hi⟩ | ⟨e, q, herror, he⟩
    · simp only [intern, hok, and_true]
      exact .inl ⟨rfl, hi.fits, hi.entries, hi.stores⟩
    · simp only [intern, herror]
      exact ⟨.inr ⟨e, rfl, he⟩, rfl⟩
  · rename_i hr
    rw [Operation.texts_of_constant hr]
    exact ⟨.inl ⟨rfl, by simp, Nat.le_add_right _ _, .refl _⟩, rfl⟩

theorem step_cases (h : s.fault = none) (hselectable : op.isSelectable) {depth : UInt16}
    (hdepth : op.settle s.depth = some depth) :
    Interned s (s.step op) op.texts op.entries ∧
      ((s.step op).fault = none → (s.step op).depth = depth) := by
  obtain ⟨label, frame, rfl⟩ | hop := op.bind_or_ne
  · cases hdepth
    exact ⟨.inl ⟨h, by simp [Operation.texts], Nat.le_add_right _ _, .refl _⟩, fun _ => rfl⟩
  · have hsettle : ¬s.depth < op.pops ∧ s.depth - op.pops + op.pushes = depth := by
      cases op with
      | bind label frame => exact absurd rfl (hop label frame)
      | _ => simpa [Operation.settle] using hdepth
    rw [step_eq hop]
    obtain ⟨hinterned, hsame⟩ := indexFor_cases h op
    obtain ⟨selected, hselected⟩ := Operation.select_of_isSelectable hselectable (s.indexFor op).1
    rcases hinterned with ⟨hfault, hfits, hsize, hstores⟩ | ⟨e, hfault, he⟩
    · -- the instruction is placed, and there is enough on the stack
      have hplaced : ((s.indexFor op).2.placeSelected (op.select (s.indexFor op).1)).fault = none ∧
          ((s.indexFor op).2.placeSelected (op.select (s.indexFor op).1)).pool
            = (s.indexFor op).2.pool ∧
          ((s.indexFor op).2.placeSelected (op.select (s.indexFor op).1)).depth = s.depth := by
        rw [hselected]
        cases selected <;> exact ⟨hfault, rfl, hsame⟩
      have hadjust : ((((s.indexFor op).2.placeSelected (op.select (s.indexFor op).1)).reserve
          op.touches).adjust op.pops op.pushes)
          = (((s.indexFor op).2.placeSelected (op.select (s.indexFor op).1)).reserve
              op.touches).setDepth depth := by
        rw [adjust, if_neg (by rw [reserve, hplaced.2.2]; exact hsettle.1), ← hsettle.2,
          ← hplaced.2.2]
        rfl
      rw [hadjust]
      refine ⟨.inl ⟨hplaced.1, hfits, ?_, ?_⟩, fun _ => rfl⟩
      · show ((s.indexFor op).2.placeSelected (op.select (s.indexFor op).1)).pool.size ≤ _
        rw [hplaced.2.1]
        exact hsize
      · show s.pool.Stores ((s.indexFor op).2.placeSelected (op.select (s.indexFor op).1)).pool _
        rw [hplaced.2.1]
        exact hstores
    · have hkept := fault_rest hfault (op.select (s.indexFor op).1) op.touches op.pops op.pushes
      exact ⟨.inr ⟨e, hkept, he⟩, fun hnone => by rw [hkept] at hnone; cases hnone⟩

/-- Operations are assembled unless the pool refuses a constant of one of them. -/
theorem steps_cases (h : s.fault = none) (hselectable : ∀ op ∈ ops, op.isSelectable)
    (hdepth : ∃ depth, settles s.depth ops = some depth) :
    Interned s (s.steps ops) (ops.flatMap Operation.texts) (constantEntries ops) := by
  induction ops generalizing s with
  | nil => exact .inl ⟨h, by simp, Nat.le_refl _, .refl _⟩
  | cons op ops ih =>
    obtain ⟨depth, hdepth⟩ := hdepth
    rw [settles, List.foldlM_cons] at hdepth
    obtain ⟨depth', hstep, hrest⟩ := Option.bind_eq_some_iff.mp hdepth
    have hcases := step_cases h (hselectable op (by simp)) hstep
    rw [List.flatMap_cons, constantEntries]
    rcases hcases with ⟨⟨hfault, hfits, hsize, hstores⟩ | ⟨e, hfault, he⟩, hdepth'⟩
    · have hinduct := ih hfault (fun o ho => hselectable o (by simp [ho]))
        ⟨depth, by rw [hdepth' hfault]; exact hrest⟩
      rcases hinduct with ⟨hfault', hfits', hsize', hstores'⟩ | ⟨e, hfault', he⟩
      · refine .inl ⟨hfault', ?_, ?_, hstores.trans hstores'⟩
        · intro t ht
          rcases List.mem_append.mp ht with ht | ht
          · exact hfits t ht
          · exact hfits' t ht
        · show ((s.step op).steps ops).pool.size ≤ _
          omega
      · refine .inr ⟨e, hfault', he.mono (List.subset_append_right _ _) ?_⟩
        omega
    · refine .inr ⟨e, fault_steps hfault ops, he.mono (List.subset_append_left _ _) ?_⟩
      omega

/-! ## Runs without faults -/

theorem size_placed (p : Placed) : 1 ≤ p.size ∧ p.size ≤ 5 := by
  cases p with
  | fixed i => cases i <;> simp [Placed.size, Instruction.encode]
  | jump condition target => simp [Placed.size]

/-- What operations added to the code, the labels and the frames. Frames are declared at increasing
offsets, the first at `s` only if `fresh` says so. -/
structure Layer (s s' : Assembler) (ops : List Operation) (fresh : Bool) : Prop where
  position : s.position ≤ s'.position
  extent : s'.position ≤ s.position + 5 * ops.length
  code : ∃ ps, s'.code.toList = s.code.toList ++ ps ∧ ps.length ≤ ops.length ∧
    ∀ q ∈ ps, q.1 ≤ s'.position ∧
      ∀ condition target, q.2 = .jump condition target → .branch condition target ∈ ops
  labels : ∃ ls, s'.labels = ls ++ s.labels ∧ ls.map Prod.fst = (boundLabels ops).reverse ∧
    ∀ q ∈ ls, q.2 ≤ s'.position
  frames : ∃ fs, s'.frames.toList = s.frames.toList ++ fs ∧ fs.map Prod.snd = boundFrames ops ∧
    fs.Pairwise (·.1 < ·.1) ∧ ∀ q ∈ fs, s.position + (if fresh then 0 else 1) ≤ q.1

theorem layer_nil (fresh : Bool) : Layer s s [] fresh where
  position := Nat.le_refl _
  extent := Nat.le_refl _
  code := ⟨[], by simp⟩
  labels := ⟨[], by simp [boundLabels]⟩
  frames := ⟨[], by simp [boundFrames]⟩

/-- A label adds its place and its frame. -/
theorem Layer.bind {label : Label} {frame : Frame} {s' : Assembler}
    (h : Layer (s.step (.bind label frame)) s' ops false) :
    Layer s s' (.bind label frame :: ops) true := by
  obtain ⟨ps, hcode, hlength, hps⟩ := h.code
  obtain ⟨ls, hlabels, hnames, hls⟩ := h.labels
  obtain ⟨fs, hframes, hdeclared, hsorted, hfs⟩ := h.frames
  have hposition : s.position ≤ s'.position := h.position
  have hextent : s'.position ≤ s.position + 5 * ops.length := h.extent
  refine ⟨hposition, ?_, ⟨ps, hcode, ?_, ?_⟩, ⟨ls ++ [(label, s.position)], ?_, ?_, ?_⟩,
    ⟨(s.position, frame) :: fs, ?_, ?_, ?_, ?_⟩⟩
  · rw [List.length_cons]
    omega
  · exact Nat.le_trans hlength (Nat.le_succ _)
  · intro q hq
    refine ⟨(hps q hq).1, fun condition target hjump => ?_⟩
    exact List.mem_cons_of_mem _ ((hps q hq).2 condition target hjump)
  · rw [hlabels, List.append_assoc]
    rfl
  · rw [List.map_append, hnames, boundLabels_bind, List.reverse_cons]
    rfl
  · intro q hq
    rcases List.mem_append.mp hq with hq | hq
    · exact hls q hq
    · rw [List.mem_singleton.mp hq]
      exact hposition
  · rw [hframes]
    show (s.frames.push (s.position, frame)).toList ++ fs = _
    rw [Array.toList_push, List.append_assoc]
    rfl
  · rw [List.map_cons, hdeclared]
    rfl
  · refine List.pairwise_cons.mpr ⟨fun q hq => ?_, hsorted⟩
    exact hfs q hq
  · intro q hq
    rcases List.mem_cons.mp hq with rfl | hq
    · exact Nat.le_refl _
    · exact Nat.le_of_succ_le (hfs q hq)

/-- An instruction moves on. -/
theorem Layer.place {s' s'' : Assembler} {p : Placed} (fresh : Bool)
    (hop : ∀ label frame, op ≠ .bind label frame) (hp : Placement s s' op p)
    (h : Layer s' s'' ops true) : Layer s s'' (op :: ops) fresh := by
  obtain ⟨ps, hcode, hlength, hps⟩ := h.code
  obtain ⟨ls, hlabels, hnames, hls⟩ := h.labels
  obtain ⟨fs, hframes, hdeclared, hsorted, hfs⟩ := h.frames
  have hposition := h.position
  have hextent := h.extent
  have hsize := size_placed p
  rw [hp.position] at hposition hextent hfs
  refine ⟨by omega, ?_, ⟨(s.position, p) :: ps, ?_, ?_, ?_⟩, ⟨ls, ?_, ?_, hls⟩,
    ⟨fs, ?_, ?_, hsorted, ?_⟩⟩
  · rw [List.length_cons]
    omega
  · rw [hcode, hp.code, Array.toList_push, List.append_assoc]
    rfl
  · exact Nat.succ_le_succ hlength
  · intro q hq
    rcases List.mem_cons.mp hq with rfl | hq
    · refine ⟨by omega, fun condition target hjump => ?_⟩
      rw [hp.branch condition target hjump]
      exact List.mem_cons_self
    · refine ⟨(hps q hq).1, fun condition target hjump => ?_⟩
      exact List.mem_cons_of_mem _ ((hps q hq).2 condition target hjump)
  · rw [hlabels, hp.labels]
  · rw [hnames, boundLabels_of_ne hop]
  · rw [hframes, hp.frames]
  · rw [hdeclared]
    cases op with
    | bind label frame => exact absurd rfl (hop label frame)
    | _ => rfl
  · intro q hq
    have := hfs q hq
    split <;> omega

theorem layer_of_steps {fresh : Bool} (h : (s.steps ops).fault = none)
    (hspaced : spaced fresh ops = true) : Layer s (s.steps ops) ops fresh := by
  induction ops generalizing s fresh with
  | nil => exact layer_nil fresh
  | cons op ops ih =>
    obtain ⟨label, frame, rfl⟩ | hop := op.bind_or_ne
    · rw [spaced, Bool.and_eq_true] at hspaced
      obtain ⟨rfl, hspaced⟩ := hspaced
      exact (ih h hspaced).bind
    · have hspaced' : spaced true ops = true := by
        cases op with
        | bind label frame => exact absurd rfl (hop label frame)
        | _ => exact hspaced
      obtain ⟨p, hp⟩ := step_spec hop (fault_of_steps h)
      exact .place fresh hop hp (ih h hspaced')

/-! ## Finishing -/

theorem exists_lookup {labels : List (Label × Nat)} {label : Label}
    (h : label ∈ labels.map Prod.fst) :
    ∃ there, labels.lookup label = some there ∧ (label, there) ∈ labels := by
  induction labels with
  | nil => cases h
  | cons q labels ih =>
    obtain ⟨l, n⟩ := q
    rw [List.lookup_cons]
    by_cases heq : label = l
    · subst heq
      exact ⟨n, by simp, by simp⟩
    · have hne : (label == l) = false := by simpa using heq
      obtain ⟨there, hthere, hmem⟩ := ih (by simpa [heq] using h)
      exact ⟨there, by rw [hne]; exact hthere, List.mem_cons_of_mem _ hmem⟩

/-- A jump is linked if its target is bound and no offset is too large for a branch. -/
theorem exists_link {labels : List (Label × Nat)} {here extent : Nat} {p : Placed}
    (hextent : extent ≤ 32767) (hhere : here ≤ extent) (hlabels : ∀ q ∈ labels, q.2 ≤ extent)
    (htargets : ∀ condition target, p = .jump condition target → target ∈ labels.map Prod.fst) :
    ∃ i, link labels here p = .ok i := by
  cases p with
  | fixed i => exact ⟨i, rfl⟩
  | jump condition target =>
    obtain ⟨there, hlookup, hthere⟩ := exists_lookup (htargets condition target rfl)
    have hle : there ≤ extent := hlabels _ hthere
    have hrange : (-32768 : Int) ≤ there - here ∧ (there : Int) - here ≤ 32767 := by omega
    rw [link, hlookup]
    simp only [hrange, and_self, if_true]
    exact ⟨_, rfl⟩

theorem linkFrom_of_link {labels : List (Label × Nat)} (done : Array Instruction)
    {ps : List (Nat × Placed)} (h : ∀ q ∈ ps, ∃ i, link labels q.1 q.2 = .ok i) :
    ∃ is, linkFrom labels done ps = .ok is := by
  induction ps generalizing done with
  | nil => exact ⟨done, rfl⟩
  | cons q ps ih =>
    obtain ⟨here, p⟩ := q
    obtain ⟨i, hi⟩ := h (here, p) (by simp)
    rw [linkFrom, hi]
    exact ih _ fun q hq => h q (by simp [hq])

/-- Frames at increasing offsets are all kept. -/
theorem joinFrom_of_pairwise (done : Array (Nat × Frame)) {frames : List (Nat × Frame)}
    (h : (done.toList ++ frames).Pairwise (·.1 < ·.1)) :
    ∃ joined, joinFrom done frames = .ok joined ∧ joined.toList = done.toList ++ frames := by
  induction frames generalizing done with
  | nil => exact ⟨done, rfl, by simp⟩
  | cons q frames ih =>
    obtain ⟨offset, frame⟩ := q
    have hpush : (done.push (offset, frame)).toList ++ frames
        = done.toList ++ (offset, frame) :: frames := by simp
    obtain ⟨joined, hjoined, hlist⟩ := ih (done.push (offset, frame)) (hpush ▸ h)
    refine ⟨joined, ?_, hlist.trans hpush⟩
    rw [joinFrom]
    split
    · rename_i last other hback
      have hmem : (last, other) ∈ done.toList := Array.mem_toList_iff.mpr (Array.mem_of_back? hback)
      have hlt : last < offset :=
        (List.pairwise_append.mp h).2.2 _ hmem (offset, frame) (by simp)
      rw [if_neg (Nat.ne_of_lt hlt)]
      exact hjoined
    · exact hjoined

theorem length_flatMap_encode (is : List Instruction) :
    (is.flatMap Instruction.encode).length ≤ 5 * is.length := by
  induction is with
  | nil => exact Nat.le_refl _
  | cons i is ih =>
    have hsize := (size_placed (.fixed i)).2
    rw [Placed.size] at hsize
    rw [List.flatMap_cons, List.length_append, List.length_cons]
    omega

/-- A run without faults ends in code. -/
theorem finish_of_layer {pool : Pool} {locals : UInt16} {s' : Assembler}
    (h : Assemblable ops) (hlayer : Layer (start pool locals) s' ops true)
    (hfault : s'.fault = none) :
    ∃ code, s'.finish = .ok code ∧ code.bytes.length ≤ 5 * ops.length ∧
      code.frames.map Prod.snd = boundFrames ops := by
  obtain ⟨ps, hcode, hlength, hps⟩ := hlayer.code
  obtain ⟨ls, hlabels, hnames, hls⟩ := hlayer.labels
  obtain ⟨fs, hframes, hdeclared, hsorted, -⟩ := hlayer.frames
  have hextent : s'.position ≤ 0 + 5 * ops.length := hlayer.extent
  have hsize := h.size
  have hcode' : s'.code.toList = ps := hcode
  have hlabels' : s'.labels = ls := hlabels.trans (List.append_nil ls)
  have hframes' : s'.frames.toList = fs := hframes
  have hlink : ∀ q ∈ ps, ∃ i, link s'.labels q.1 q.2 = .ok i := by
    intro q hq
    obtain ⟨hhere, htargets⟩ := hps q hq
    rw [hlabels']
    refine exists_link (by omega) hhere hls fun condition target hjump => ?_
    rw [hnames]
    exact List.mem_reverse.mpr (h.targets condition target (htargets condition target hjump))
  obtain ⟨is, his⟩ := linkFrom_of_link #[] hlink
  obtain ⟨linked, hlist, hforall⟩ := linkFrom_eq_ok his
  obtain ⟨joined, hjoined, hjoinedList⟩ := joinFrom_of_pairwise #[] hsorted
  have hposition : ¬65535 < s'.position := by omega
  refine ⟨⟨s'.maxStack, s'.maxLocals, is.toList.flatMap Instruction.encode, joined.toList⟩,
    ?_, ?_, ?_⟩
  · rw [finish, hfault, hcode', hframes']
    simp only [his, hposition, if_false, hjoined]
  · have hcount : is.toList.length = ps.length := by
      rw [hlist]
      exact hforall.length_eq.symm
    have := length_flatMap_encode is.toList
    show (is.toList.flatMap Instruction.encode).length ≤ _
    omega
  · show joined.toList.map Prod.snd = _
    rw [hjoinedList]
    exact hdeclared

end Assembler

/-- A body of operations that can be assembled is, unless the pool refuses a constant. -/
theorem Body.assemble_asks {b : Body} (h : Assemblable b.operations) (hrefusal : b.refusal = none)
    (locals : UInt16) :
    Asks (b.assemble locals) (b.operations.flatMap Operation.texts)
      (constantEntries b.operations) 0 fun code =>
        code.bytes.length ≤ 5 * b.operations.length ∧
          code.frames.map Prod.snd = boundFrames b.operations := by
  intro p
  have hcases := Assembler.steps_cases (s := Assembler.start p locals) rfl h.selectable h.settles
  unfold AsksFrom assemble
  simp only [hrefusal]
  rcases hcases with ⟨hfault, hfits, hsize, hstores⟩ | ⟨e, hfault, he⟩
  · have hlayer := Assembler.layer_of_steps hfault h.spaced
    obtain ⟨code, hfinish, hcode⟩ := Assembler.finish_of_layer h hlayer hfault
    rw [hfinish]
    exact .inl ⟨code, _, rfl, hfits, hsize, Nat.le_refl _, hcode, hstores⟩
  · have hfinish : ((Assembler.start p locals).steps b.operations).finish = .error e := by
      rw [Assembler.finish, hfault]
    rw [hfinish]
    exact .inr ⟨e, _, rfl, he⟩

end SchemaRecords.ClassFile
