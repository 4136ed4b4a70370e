import Mathlib.Data.List.Nodup
import SchemaRecords.Proofs.ClassFile.FrameTable

/-!
# Frames stand where they were declared

A frame is declared at a label, between two instructions. Labels may be bound in
any order, several at one place, and some more than once. The frames of finished
code are those that were declared, one at each offset and in increasing order,
and each stands as far into the code as the instructions before it take bytes.
The table that is written for them holds the exact distances between them, so
that the frames are found again from it.

* `FrameTable.map_deltas`: the distances that are written are neither cut off nor negative.
* `Assembler.frames_of_finish`: the frames of finished code, and the table for them.
-/

namespace SchemaRecords.ClassFile

namespace FrameTable

/-- How far each frame stands from the one before, less one, as a number of any size and sign. -/
def distances (previous : Int) : List (Nat × Frame) → List (Int × Frame)
  | [] => []
  | (offset, frame) :: rest => (offset - previous - 1, frame) :: distances offset rest

/-- A distance that was stored, as a number. -/
def stored (d : UInt16 × Frame) : Int × Frame := (d.1.toNat, d.2)

/-- The distances between increasing offsets are stored exactly; the first frame stands as if one
before it stood at -1. -/
theorem map_deltas {previous : Option Nat} {frames : List (Nat × Frame)} (h : Ordered frames)
    (hprevious : ∀ before ∈ previous, ∀ f ∈ frames, before < f.1) :
    (deltas previous frames).map stored = distances (previous.elim (-1) Int.ofNat) frames := by
  induction frames generalizing previous with
  | nil => rfl
  | cons f frames ih =>
    obtain ⟨offset, frame⟩ := f
    have hincreasing := h.increasing
    rw [List.map_cons, List.pairwise_cons] at hincreasing
    have hoffset : offset < 65536 := h.small _ List.mem_cons_self
    have hrest : (deltas (some offset) frames).map stored = distances offset frames := by
      apply ih ⟨hincreasing.2, fun f hf => h.small f (List.mem_cons_of_mem _ hf)⟩
      intro before hbefore f hf
      cases hbefore
      exact hincreasing.1 _ (List.mem_map_of_mem hf)
    cases previous with
    | none =>
      have hdelta : (offset.toUInt16.toNat : Int) = offset - -1 - 1 := by
        simp
        omega
      simp only [deltas, List.map_cons, stored, hdelta, hrest, distances, Option.elim_none]
    | some before =>
      have hbefore : before < offset := hprevious before rfl _ List.mem_cons_self
      have hdelta : ((offset - before - 1).toUInt16.toNat : Int) = offset - before - 1 := by
        simp
        omega
      simp only [deltas, List.map_cons, stored, hdelta, hrest, distances, Option.elim_some,
        Int.ofNat_eq_natCast]

end FrameTable

/-! ## Declared frames -/

/-- The frames that operations declare, each with the number of instructions before it; `k`
instructions stand before all of them. -/
def declaredFrames (k : Nat) : List Operation → List (Nat × Frame)
  | [] => []
  | .bind _ frame :: ops => (k, frame) :: declaredFrames k ops
  | _ :: ops => declaredFrames (k + 1) ops

theorem declaredFrames_of_ne (k : Nat) {op : Operation} (hop : ∀ label frame, op ≠ .bind label frame)
    (ops : List Operation) : declaredFrames k (op :: ops) = declaredFrames (k + 1) ops := by
  cases op with
  | bind label frame => exact absurd rfl (hop label frame)
  | _ => rfl

/-- How many instructions operations are assembled to: one for each that is no label. -/
def instructionCount (ops : List Operation) : Nat :=
  ops.countP fun op => op.command?.isSome

theorem instructionCount_of_ne {op : Operation} (hop : ∀ label frame, op ≠ .bind label frame)
    (ops : List Operation) : instructionCount (op :: ops) = instructionCount ops + 1 := by
  cases op with
  | bind label frame => exact absurd rfl (hop label frame)
  | _ => exact List.countP_cons_of_pos rfl

/-- The bytes that placed instructions take. -/
def Placed.extent : List (Nat × Placed) → Nat
  | [] => 0
  | q :: qs => q.2.size + extent qs

theorem Placed.extent_append (ps qs : List (Nat × Placed)) :
    extent (ps ++ qs) = extent ps + extent qs := by
  induction ps with
  | nil => simp [extent]
  | cons p ps ih => rw [List.cons_append, extent, extent, ih, Nat.add_assoc]

namespace Assembler

open Placed (extent extent_append)

/-- The next instruction stands right after those that were placed. -/
def IsDense (s : Assembler) : Prop := s.position = extent s.code.toList

theorem IsDense.step {s : Assembler} {op : Operation} (hs : s.IsDense)
    (h : (s.step op).fault = none) : (s.step op).IsDense := by
  obtain ⟨label, frame, rfl⟩ | hop := op.bind_or_ne
  · exact hs
  · obtain ⟨p, hp⟩ := step_spec hop h
    rw [IsDense, hp.position, hp.code, Array.toList_push, extent_append, hs]
    rfl

/-- What steps add: instructions after those that are there, and each declared frame at the extent
of the instructions before it. -/
theorem steps_add {s : Assembler} {ops : List Operation} (hs : s.IsDense)
    (h : (s.steps ops).fault = none) :
    ∃ ps, (s.steps ops).code.toList = s.code.toList ++ ps ∧ ps.length = instructionCount ops ∧
      (s.steps ops).frames.toList = s.frames.toList ++ (declaredFrames s.code.size ops).map
        fun d => (extent ((s.steps ops).code.toList.take d.1), d.2) := by
  induction ops generalizing s with
  | nil => exact ⟨[], (List.append_nil _).symm, rfl, (List.append_nil _).symm⟩
  | cons op ops ih =>
    have hstep := fault_of_steps (s := s.step op) h
    obtain ⟨ps, hcode, hlength, hframes⟩ := ih (hs.step hstep) h
    obtain ⟨label, frame, rfl⟩ | hop := op.bind_or_ne
    · refine ⟨ps, hcode, hlength, ?_⟩
      have hnew : (s.step (.bind label frame)).frames.toList
          = s.frames.toList ++ [(s.position, frame)] := Array.toList_push
      -- the code up to here is what was placed before the label
      have hhere : extent (((s.step (.bind label frame)).steps ops).code.toList.take s.code.size)
          = s.position := by
        have htake : (s.code.toList ++ ps).take s.code.size = s.code.toList :=
          List.take_left' Array.length_toList
        rw [hcode]
        exact (congrArg extent htake).trans hs.symm
      show ((s.step _).steps ops).frames.toList = _
      rw [hframes, hnew, List.append_assoc, declaredFrames, List.map_cons, ← hhere]
      rfl
    · obtain ⟨p, hp⟩ := step_spec hop hstep
      refine ⟨(s.position, p) :: ps, ?_, ?_, ?_⟩
      · show ((s.step op).steps ops).code.toList = _
        rw [hcode, hp.code, Array.toList_push, List.append_assoc, List.singleton_append]
      · rw [List.length_cons, hlength, instructionCount_of_ne hop]
      · show ((s.step op).steps ops).frames.toList = _
        rw [hframes, hp.frames, hp.code, Array.size_push, declaredFrames_of_ne _ hop]
        rfl

/-- Linked instructions take the bytes that were set aside for them. -/
theorem extent_take_of_link {labels : List (Label × Nat)} {ps : List (Nat × Placed)}
    {is : List Instruction} (h : List.Forall₂ (fun q i => link labels q.1 q.2 = .ok i) ps is)
    (k : Nat) : extent (ps.take k) = ((is.take k).flatMap Instruction.encode).length := by
  induction h generalizing k with
  | nil => simp [extent]
  | cons hlink _ ih =>
    cases k with
    | zero => rfl
    | succ k =>
      rw [List.take_succ_cons, List.take_succ_cons, extent, ih, List.flatMap_cons,
        List.length_append, length_encode_link hlink]

/-- The frames that are in the table of finished code are those that were declared. -/
theorem mem_frames_iff_of_finish {pool : Pool} {locals : UInt16} {ops : List Operation} {code : Code}
    (h : ((start pool locals).steps ops).finish = .ok code) :
    ∃ is : List Instruction, is.length = instructionCount ops ∧
      code.bytes = is.flatMap Instruction.encode ∧
      ∀ f, f ∈ code.frames ↔ ∃ k, (k, f.2) ∈ declaredFrames 0 ops ∧
        f.1 = ((is.take k).flatMap Instruction.encode).length := by
  obtain ⟨is, joined, hfault, hlink, -, hjoined, rfl⟩ := finish_eq_ok h
  obtain ⟨linked, his, hlinked⟩ := linkFrom_eq_ok hlink
  obtain ⟨ps, hcode, hlength, hframes⟩ := steps_add (s := start pool locals) rfl hfault
  rw [List.nil_append] at his
  have hs := (framesInOrder_start pool locals).steps hfault
  refine ⟨is.toList, ?_, rfl, fun f => ?_⟩
  · rw [his, ← hlinked.length_eq, hcode, ← hlength]
    rfl
  · have hmem := (joinFrom_eq_ok hjoined .nil hs.sorted).2 f
    have hnone : (start pool locals).frames.toList = [] := rfl
    rw [hframes, hnone, List.nil_append, List.nil_append] at hmem
    rw [hmem, List.mem_map]
    simp only [extent_take_of_link hlinked, ← his]
    constructor
    · rintro ⟨d, hd, rfl⟩
      exact ⟨d.1, hd, rfl⟩
    · rintro ⟨k, hk, hoffset⟩
      exact ⟨(k, f.2), hk, Prod.ext hoffset.symm rfl⟩

/-- The frames of finished code have increasing offsets and are exactly those that were declared,
each at the end of the instructions before it. The table for them stores the exact distances, and
the frames are found from it again, their classes in the pool that the table was written with. -/
theorem frames_of_finish {pool : Pool} {locals : UInt16} {ops : List Operation} {code : Code}
    (h : ((start pool locals).steps ops).finish = .ok code) :
    (code.frames.map (·.1)).Pairwise (· < ·) ∧ code.frames.Nodup ∧
      (∃ is : List Instruction, is.length = instructionCount ops ∧
        code.bytes = is.flatMap Instruction.encode ∧
        ∀ f, f ∈ code.frames ↔ ∃ k, (k, f.2) ∈ declaredFrames 0 ops ∧
          f.1 = ((is.take k).flatMap Instruction.encode).length) ∧
      ∀ w w' : Writer, w.pool.Valid → FrameTable.write code.frames w = .ok () w' →
        ∃ bs table, w'.out.toBytes = w.out.toBytes ++ bs ∧
          Reads (Read.list w'.pool.table.readFrame) bs table ∧
          FrameTable.place none table = code.frames ∧
          table.map FrameTable.stored = FrameTable.distances (-1) code.frames := by
  have hordered := ordered_of_finish h
  refine ⟨hordered.increasing, ?_, mem_frames_iff_of_finish h, fun w w' hw hwrite => ?_⟩
  · exact List.Nodup.of_map _ (hordered.increasing.imp Nat.ne_of_lt)
  · obtain ⟨bs, hwrote, hreads⟩ := FrameTable.write_deltas code.frames w w' hw hwrite
    exact ⟨bs, _, hwrote.bytes, hreads _ (le_refl _), FrameTable.place_deltas hordered (by simp),
      FrameTable.map_deltas hordered (by simp)⟩

namespace Joining

/-- What all labels declare. -/
def frame : Frame := ⟨[.integer], []⟩

/-- Labels that are bound out of order, two at one place and one of them twice. -/
def operations : List Operation := [
  .bind 1 frame, .bind 0 frame, .load 0 .int, .branch .zero 2,
  .bind 2 frame, .bind 1 frame, .returnVoid]

def code : Code := ⟨1, 1, [0x1A, 0x99, 0, 3, 0xB1], [(0, frame), (4, frame)]⟩

/-- The table of the frames. -/
def table : Bytes := [0, 2, 255, 0, 0, 0, 1, 1, 0, 0, 255, 0, 3, 0, 1, 1, 0, 0]

end Joining

theorem frames_of_finish_joining :
    ((start Pool.empty 1).steps Joining.operations).finish = .ok Joining.code ∧
      FrameTable.write Joining.code.frames ⟨Pool.empty, ⟨#[]⟩⟩
        = .ok () ⟨Pool.empty, ⟨Joining.table.toArray⟩⟩ ∧
      ∃ bs table, Joining.table = [] ++ bs ∧
        Reads (Read.list Pool.empty.table.readFrame) bs table ∧
        FrameTable.place none table = Joining.code.frames ∧
        table.map FrameTable.stored = FrameTable.distances (-1) Joining.code.frames := by
  have hfinish : ((start Pool.empty 1).steps Joining.operations).finish = .ok Joining.code := by
    decide +kernel
  have hwrite : FrameTable.write Joining.code.frames ⟨Pool.empty, ⟨#[]⟩⟩
      = .ok () ⟨Pool.empty, ⟨Joining.table.toArray⟩⟩ := rfl
  exact ⟨hfinish, hwrite, (frames_of_finish hfinish).2.2.2 _ _ Pool.valid_empty hwrite⟩

end Assembler

end SchemaRecords.ClassFile
