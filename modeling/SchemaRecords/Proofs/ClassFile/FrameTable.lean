import SchemaRecords.Proofs.ClassFile.Assembly
import SchemaRecords.Proofs.ClassFile.Attributes

/-!
# Frames that are read back

A table of frames is read frame by frame; each stores how far it stands from the
frame before, less one, and the first stores its offset.

* `FrameTable.write_spec`: a table whose offsets increase is read as the frames that were written.
* `Assembler.ordered_of_finish`: the frames of finished code are such a table.
-/

namespace SchemaRecords.ClassFile

namespace ConstantTable

/-- Reads a type of a frame. -/
def readVerificationType (t : ConstantTable) : Read VerificationType := do
  let tag ← Read.u8
  if tag = 1 then pure .integer
  else if tag = 3 then pure .double
  else if tag = 7 then
    let name ← t.readClassName
    pure (.object name)
  else Read.fail (.malformed "unsupported verification type")

/-- Reads a full frame and the number before its types. -/
def readFrame (t : ConstantTable) : Read (UInt16 × Frame) := do
  let tag ← Read.u8
  if tag = 255 then
    let delta ← Read.u16
    let locals ← Read.list t.readVerificationType
    let stack ← Read.list t.readVerificationType
    pure (delta, ⟨locals, stack⟩)
  else Read.fail (.malformed "unsupported stack map frame")

end ConstantTable

namespace FrameTable

/-- The offsets of frames whose distances are given; `previous` is the offset before. -/
def place (previous : Option Nat) : List (UInt16 × Frame) → List (Nat × Frame)
  | [] => []
  | (delta, frame) :: rest =>
    let offset := match previous with
      | none => delta.toNat
      | some before => before + delta.toNat + 1
    (offset, frame) :: place (some offset) rest

end FrameTable

/-- Reads a table of frames, each with its offset in the code. -/
def ConstantTable.readFrameTable (t : ConstantTable) : Read (List (Nat × Frame)) := do
  let frames ← Read.list t.readFrame
  pure (FrameTable.place none frames)

/-- The frames of code that was read. -/
def Image.frames (c : Image) (code : CodeInfo) : Except Error (List (Nat × Frame)) :=
  match code.attributes.find? fun a => a.name == Code.framesAttribute with
  | none => .ok []
  | some a => readFrom a c.constants.readFrameTable

/-! ## Single frames -/

theorem VerificationType.write_spec (v : VerificationType) :
    Writes v.write fun t bs => Reads t.readVerificationType bs v := by
  cases v with
  | integer =>
    refine (Writes.emit [1]).mono ?_
    rintro t bs rfl
    exact reads_cons (Reads.pure _)
  | double =>
    refine (Writes.emit [3]).mono ?_
    rintro t bs rfl
    exact reads_cons (Reads.pure _)
  | object name =>
    refine (Writes.intern_bind (resolves_classRef name) fun i => Writes.emit _).mono ?_
    rintro t bs ⟨i, hi, rfl⟩
    exact reads_cons (reads_readClassName hi).map

theorem Frame.write_spec (f : Frame) (delta : UInt16) :
    Writes (f.write delta) fun t bs => Reads t.readFrame bs (delta, f) := by
  have hlocals := Writes.list .frameLocals VerificationType.write_spec f.locals
  have hstack := Writes.list .frameStack VerificationType.write_spec f.stack
  have hall := (Writes.emit (255 :: Bytes.ofUInt16 delta)).bind (hlocals.bind hstack)
  rw [bind_assoc] at hall
  refine hall.mono ?_
  rintro t bs ⟨_, _, rfl, rfl, b, c, rfl, hb, hc⟩
  exact reads_cons ((reads_u16 delta).bind (hb.bind hc.map))

namespace FrameTable

/-- How far each frame stands from the one before, less one. -/
def deltas (previous : Option Nat) : List (Nat × Frame) → List (UInt16 × Frame)
  | [] => []
  | (offset, frame) :: rest =>
    let delta := match previous with
      | none => offset
      | some before => offset - before - 1
    (delta.toUInt16, frame) :: deltas (some offset) rest

/-- The offsets increase, and fit in two bytes. -/
structure Ordered (frames : List (Nat × Frame)) : Prop where
  increasing : (frames.map (·.1)).Pairwise (· < ·)
  small : ∀ f ∈ frames, f.1 < 65536

theorem length_deltas (previous : Option Nat) (frames : List (Nat × Frame)) :
    (deltas previous frames).length = frames.length := by
  induction frames generalizing previous with
  | nil => rfl
  | cons f frames ih => simp [deltas, ih]

/-- Distances determine increasing offsets. -/
theorem place_deltas {previous : Option Nat} {frames : List (Nat × Frame)} (h : Ordered frames)
    (hprevious : ∀ before ∈ previous, ∀ f ∈ frames, before < f.1) :
    place previous (deltas previous frames) = frames := by
  induction frames generalizing previous with
  | nil => rfl
  | cons f frames ih =>
    obtain ⟨offset, frame⟩ := f
    have hincreasing := h.increasing
    rw [List.map_cons, List.pairwise_cons] at hincreasing
    have hoffset : offset < 65536 := h.small _ List.mem_cons_self
    have hrest : place (some offset) (deltas (some offset) frames) = frames := by
      apply ih ⟨hincreasing.2, fun f hf => h.small f (List.mem_cons_of_mem _ hf)⟩
      intro before hbefore f hf
      cases hbefore
      exact hincreasing.1 _ (List.mem_map_of_mem hf)
    cases previous with
    | none =>
      have hdelta : offset.toUInt16.toNat = offset := by
        simp
        omega
      simp only [deltas, place, hdelta, hrest]
    | some before =>
      have hbefore : before < offset := hprevious before rfl _ List.mem_cons_self
      have hdelta : before + (offset - before - 1).toUInt16.toNat + 1 = offset := by
        simp
        omega
      simp only [deltas, place, hdelta, hrest]

theorem writeFrom_spec (previous : Option Nat) (frames : List (Nat × Frame)) :
    Writes (writeFrom previous frames) fun t bs =>
      ReadsAll t.readFrame bs (deltas previous frames) := by
  induction frames generalizing previous with
  | nil =>
    refine Writes.pure.mono ?_
    rintro t bs rfl
    exact .nil
  | cons f frames ih =>
    refine ((f.2.write_spec _).bind (ih _)).mono ?_
    rintro t bs ⟨b, c, rfl, hb, hc⟩
    exact .cons hb hc

/-- A table is read as its frames with the distances between them. -/
theorem write_deltas (frames : List (Nat × Frame)) :
    Writes (write frames) fun t bs => Reads (Read.list t.readFrame) bs (deltas none frames) := by
  refine ((Writes.count _ _).bind (writeFrom_spec none frames)).mono ?_
  rintro t bs ⟨_, c, rfl, ⟨rfl, hlt⟩, hc⟩
  have hcount : (deltas none frames).length = frames.length.toUInt16.toNat := by
    rw [length_deltas]
    simp
    omega
  exact reads_list hc hcount

/-- A table whose offsets increase is read as the frames that were written. -/
theorem write_spec {frames : List (Nat × Frame)} (h : Ordered frames) :
    Writes (write frames) fun t bs => Reads t.readFrameTable bs frames := by
  refine (write_deltas frames).mono fun t bs hbs => ?_
  have hread := hbs.map (f := place none)
  rwa [place_deltas h (by simp)] at hread

end FrameTable

/-! ## Frames of assembled code -/

namespace Assembler

/-- The frames recorded so far stand in order, none after the next instruction. -/
structure FramesInOrder (s : Assembler) : Prop where
  sorted : (s.frames.toList.map (·.1)).Pairwise (· ≤ ·)
  bounded : ∀ f ∈ s.frames.toList, f.1 ≤ s.position

theorem framesInOrder_start (pool : Pool) (locals : UInt16) :
    (start pool locals).FramesInOrder where
  sorted := .nil
  bounded := by simp [start]

theorem FramesInOrder.step {s : Assembler} (hs : s.FramesInOrder) {op : Operation}
    (h : (s.step op).fault = none) : (s.step op).FramesInOrder := by
  obtain ⟨label, frame, rfl⟩ | hop := op.bind_or_ne
  · have hframes : (s.step (.bind label frame)).frames.toList
        = s.frames.toList ++ [(s.position, frame)] := Array.toList_push
    constructor
    · rw [hframes, List.map_append, List.pairwise_append]
      refine ⟨hs.sorted, List.pairwise_singleton _ _, ?_⟩
      intro n hn m hm
      obtain ⟨f, hf, rfl⟩ := List.mem_map.mp hn
      rw [List.mem_singleton.mp hm]
      exact hs.bounded f hf
    · intro f hf
      rw [hframes, List.mem_append, List.mem_singleton] at hf
      obtain hf | rfl := hf
      · exact hs.bounded f hf
      · exact Nat.le_refl _
  · obtain ⟨p, hp⟩ := step_spec hop h
    constructor
    · rw [hp.frames]
      exact hs.sorted
    · rw [hp.frames, hp.position]
      intro f hf
      exact Nat.le_add_right_of_le (hs.bounded f hf)

theorem FramesInOrder.steps {s : Assembler} (hs : s.FramesInOrder) {ops : List Operation}
    (h : (s.steps ops).fault = none) : (s.steps ops).FramesInOrder := by
  induction ops generalizing s with
  | nil => exact hs
  | cons op ops ih => exact ih (hs.step (fault_of_steps h)) h

/-- The last of increasing offsets is the largest. -/
theorem le_of_mem_of_back? {done : Array (Nat × Frame)} {last : Nat × Frame}
    (hdone : (done.toList.map (·.1)).Pairwise (· < ·)) (h : done.back? = some last)
    (f : Nat × Frame) (hf : f ∈ done.toList) : f.1 ≤ last.1 := by
  obtain ⟨ys, rfl⟩ := Array.back?_eq_some_iff.mp h
  rw [Array.toList_push, List.map_append, List.pairwise_append] at hdone
  rw [Array.toList_push, List.mem_append, List.mem_singleton] at hf
  obtain hf | rfl := hf
  · exact Nat.le_of_lt (hdone.2.2 _ (List.mem_map_of_mem hf) last.1 (by simp))
  · exact Nat.le_refl _

/-- Joining keeps every frame, and one at each offset. -/
theorem joinFrom_eq_ok {done joined : Array (Nat × Frame)} {frames : List (Nat × Frame)}
    (h : joinFrom done frames = .ok joined)
    (hdone : (done.toList.map (·.1)).Pairwise (· < ·))
    (hframes : ((done.toList ++ frames).map (·.1)).Pairwise (· ≤ ·)) :
    (joined.toList.map (·.1)).Pairwise (· < ·) ∧
      ∀ f, f ∈ joined.toList ↔ f ∈ done.toList ++ frames := by
  induction frames generalizing done with
  | nil =>
    cases h
    exact ⟨hdone, by simp⟩
  | cons f frames ih =>
    obtain ⟨offset, frame⟩ := f
    -- the new frame is put at the end unless the last one is the same
    have hpush (hlt : ∀ f ∈ done.toList, f.1 < offset)
        (hjoin : joinFrom (done.push (offset, frame)) frames = .ok joined) :
        (joined.toList.map (·.1)).Pairwise (· < ·) ∧
          ∀ f, f ∈ joined.toList ↔ f ∈ done.toList ++ (offset, frame) :: frames := by
      have hlist : (done.push (offset, frame)).toList ++ frames
          = done.toList ++ (offset, frame) :: frames := by simp
      rw [← hlist]
      refine ih hjoin ?_ (hlist ▸ hframes)
      rw [Array.toList_push, List.map_append, List.pairwise_append]
      refine ⟨hdone, List.pairwise_singleton _ _, ?_⟩
      intro n hn m hm
      obtain ⟨f, hf, rfl⟩ := List.mem_map.mp hn
      rw [List.mem_singleton.mp hm]
      exact hlt f hf
    have hle : ∀ f ∈ done.toList, f.1 ≤ offset := by
      intro f hf
      rw [List.map_append, List.pairwise_append] at hframes
      exact hframes.2.2 _ (List.mem_map_of_mem hf) offset (by simp)
    unfold joinFrom at h
    split at h
    · rename_i last other hback
      split at h
      · rename_i heq
        subst heq
        split at h
        · rename_i heq
          subst heq
          have hmem := Array.mem_toList_iff.mpr (Array.mem_of_back? hback)
          have hsub : (done.toList ++ frames).Sublist (done.toList ++ (last, other) :: frames) :=
            (List.sublist_cons_self _ _).append_left _
          obtain ⟨hjoined, hiff⟩ := ih h hdone (hframes.sublist (hsub.map _))
          refine ⟨hjoined, fun f => ?_⟩
          rw [hiff, List.mem_append, List.mem_append, List.mem_cons]
          grind
        · cases h
      · rename_i hne
        refine hpush (fun f hf => ?_) h
        have hlast := le_of_mem_of_back? hdone hback f hf
        have := hle _ (Array.mem_toList_iff.mpr (Array.mem_of_back? hback))
        omega
    · rename_i hback
      rw [Array.back?_eq_none_iff] at hback
      subst hback
      exact hpush (by simp) h

theorem ordered_of_finish {pool : Pool} {locals : UInt16} {ops : List Operation} {code : Code}
    (h : ((start pool locals).steps ops).finish = .ok code) : FrameTable.Ordered code.frames := by
  obtain ⟨-, joined, hfault, -, hsize, hjoined, rfl⟩ := finish_eq_ok h
  have hs := (framesInOrder_start pool locals).steps hfault
  obtain ⟨hincreasing, hmem⟩ := joinFrom_eq_ok hjoined .nil hs.sorted
  refine ⟨hincreasing, fun f hf => ?_⟩
  have := hs.bounded f ((hmem f).mp hf)
  omega

end Assembler

end SchemaRecords.ClassFile
