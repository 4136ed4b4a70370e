import SchemaRecords.Proofs.ClassFile.Passage
import SchemaRecords.Proofs.ClassFile.Requests

/-!
# Listing assembled code again

`disassemble?` goes through code from an offset to its end and lists the commands
with their offsets. Assembled code is listed as the operations that it was
assembled from: whichever form of an instruction was chosen, wherever its
constants went in the pool, and with every branch leading to the place where its
label was last bound (`Assembler.disassemble?_of_finish`).

The operations are located in the code already; what is left is to say of labels
by which line they stand (`exists_lines_of_located`), and that a label which is
bound more than once stands where it is bound last (`lastBound?_live`).
-/

namespace SchemaRecords.ClassFile

/-! ## Listings -/

/-- An instruction in a listing of code. -/
structure Line where
  offset : Nat
  command : Command Nat
deriving DecidableEq, Repr

/-- The lines of the code from an offset to its end. -/
def disassemble? (t : ConstantTable) (code : Bytes) (here : Nat) : Option (List Line) :=
  if here = code.length then some []
  else
    match _h : fetch? t code here with
    | none => none
    | some (c, next) => (disassemble? t code next).map (⟨here, c⟩ :: ·)
termination_by code.length - here
decreasing_by
  have hnext := lt_of_fetch? _h
  have hlength := lt_length_of_fetch? _h
  omega

/-- The offset of line `k`; the code ends where there is no such line. -/
def startOf (lines : List Line) (length k : Nat) : Nat :=
  (lines[k]?.map Line.offset).getD length

/-- How many instructions stand before the place where a label is last bound. -/
def lastBound? (label : Label) : List Operation → Option Nat
  | [] => none
  | .bind l _ :: ops => (lastBound? label ops).or (if l = label then some 0 else none)
  | _ :: ops => (lastBound? label ops).map (· + 1)

/-- The offset at which a label of the operations is last bound, in a listing of their code. -/
def placeOf (ops : List Operation) (lines : List Line) (length : Nat) (label : Label) :
    Option Nat :=
  (lastBound? label ops).map (startOf lines length)

/-! ## Labels -/

theorem lastBound?_of_ne {op : Operation} (hop : ∀ label frame, op ≠ .bind label frame)
    (label : Label) (ops : List Operation) :
    lastBound? label (op :: ops) = (lastBound? label ops).map (· + 1) := by
  cases op with
  | bind l frame => exact absurd rfl (hop l frame)
  | _ => rfl

theorem lastBound?_eq_none_iff {label : Label} {ops : List Operation} :
    lastBound? label ops = none ↔ label ∉ boundLabels ops := by
  induction ops with
  | nil => simp [lastBound?, boundLabels]
  | cons op ops ih =>
    obtain ⟨l, frame, rfl⟩ | hop := op.bind_or_ne
    · rw [lastBound?, boundLabels_bind, Option.or_eq_none_iff, ih, List.mem_cons, not_or]
      simp [and_comm, eq_comm]
    · rw [lastBound?_of_ne hop, boundLabels_of_ne hop, Option.map_eq_none_iff, ih]

/-- A label that is bound again later does not count. -/
theorem lastBound?_live (label : Label) (ops : List Operation) :
    lastBound? label (live ops) = lastBound? label ops := by
  induction ops with
  | nil => rfl
  | cons op ops ih =>
    obtain ⟨l, frame, rfl⟩ | hop := op.bind_or_ne
    · rw [live]
      split
      · rename_i hagain
        rw [ih, lastBound?]
        by_cases hl : l = label
        · subst hl
          have hsome : lastBound? l ops ≠ none := fun h => lastBound?_eq_none_iff.1 h hagain
          obtain ⟨k, hk⟩ := Option.ne_none_iff_exists'.1 hsome
          rw [hk, Option.some_or]
        · rw [if_neg hl, Option.or_none]
      · rw [lastBound?, lastBound?, ih]
    · rw [live_of_ne hop, lastBound?_of_ne hop, lastBound?_of_ne hop, ih]

/-- Only labels are left out. -/
theorem filterMap_command?_live (ops : List Operation) :
    (live ops).filterMap Operation.command? = ops.filterMap Operation.command? := by
  induction ops with
  | nil => rfl
  | cons op ops ih =>
    obtain ⟨l, frame, rfl⟩ | hop := op.bind_or_ne
    · rw [live]
      split
      · exact ih
      · exact ih
    · rw [live_of_ne hop, List.filterMap_cons, List.filterMap_cons, ih]

/-! ## Located operations are listed -/

section Located

variable {t : ConstantTable} {code : Bytes} {where? : Label → Option Nat}

theorem disassemble?_of_fetch? {here next : Nat} {c : Command Nat}
    (h : fetch? t code here = some (c, next)) :
    disassemble? t code here = (disassemble? t code next).map (⟨here, c⟩ :: ·) := by
  have hlength := lt_length_of_fetch? h
  rw [disassemble?, if_neg (by omega)]
  split
  · rename_i hnone
    rw [h] at hnone
    cases hnone
  · rename_i hsome
    cases h.symm.trans hsome
    rfl

/-- A listing begins where it was begun. -/
theorem startOf_zero {here : Nat} {lines : List Line} (h : disassemble? t code here = some lines) :
    startOf lines code.length 0 = here := by
  rw [disassemble?] at h
  split at h
  · rename_i hend
    cases h
    exact hend.symm
  · split at h
    · cases h
    · obtain ⟨rest, -, rfl⟩ := Option.map_eq_some_iff.1 h
      rfl

/-- Operations that are located in the code up to its end are what is listed there, and the labels
among them stand by their lines. -/
theorem exists_lines_of_located {ops : List Operation} {n : Nat}
    (h : Located t code where? ops n code.length) :
    ∃ lines, disassemble? t code n = some lines ∧
      lines.map (fun line => some line.command) =
        (ops.filterMap Operation.command?).map (Command.place where?) ∧
      ∀ label k, lastBound? label ops = some k →
        where? label = some (startOf lines code.length k) := by
  induction ops generalizing n with
  | nil =>
    obtain rfl : n = code.length := h
    refine ⟨[], ?_, rfl, fun label k hk => ?_⟩
    · rw [disassemble?, if_pos rfl]
    · cases hk
  | cons op ops ih =>
    obtain ⟨next, hstands, hrest⟩ := h
    obtain ⟨lines, hlines, hcommands, hlabels⟩ := ih hrest
    obtain ⟨l, frame, rfl⟩ | hop := op.bind_or_ne
    · obtain ⟨hl, rfl⟩ := hstands
      refine ⟨lines, hlines, hcommands, fun label k hk => ?_⟩
      rw [lastBound?, Option.or_eq_some_iff] at hk
      obtain hlater | ⟨-, hhere⟩ := hk
      · exact hlabels label k hlater
      · split at hhere
        · rename_i heq
          cases hhere
          rw [← heq, hl, startOf_zero hlines]
        · cases hhere
    · obtain ⟨c, hc, hfetch⟩ := (standsAt_of_ne hop).1 hstands
      obtain ⟨command, hcommand, hplace⟩ := Option.bind_eq_some_iff.1 hc
      refine ⟨⟨n, c⟩ :: lines, ?_, ?_, fun label k hk => ?_⟩
      · rw [disassemble?_of_fetch? hfetch, hlines]
        rfl
      · rw [List.map_cons, List.filterMap_cons, hcommand, List.map_cons, hcommands, hplace]
      · rw [lastBound?_of_ne hop] at hk
        obtain ⟨j, hj, rfl⟩ := Option.map_eq_some_iff.1 hk
        exact hlabels label j hj

end Located

namespace Assembler

/-- A label has a place exactly if it is bound, and that is where it is bound last. -/
theorem lookup_eq_placeOf {pool : Pool} {locals : UInt16} {ops : List Operation}
    {lines : List Line} {length : Nat} (h : ((start pool locals).steps ops).fault = none)
    (hlabels : ∀ label k, lastBound? label ops = some k →
      ((start pool locals).steps ops).labels.lookup label = some (startOf lines length k))
    (label : Label) :
    ((start pool locals).steps ops).labels.lookup label = placeOf ops lines length label := by
  unfold placeOf
  cases hlast : lastBound? label ops with
  | none =>
    rw [lookup_steps h (lastBound?_eq_none_iff.1 hlast)]
    rfl
  | some k => exact hlabels label k hlast

namespace Waiting

/-- A loop, and a label that is bound twice. -/
def operations : List Operation := [
  .bind 0 ⟨[.integer], []⟩, .load 7 .int, .branch .zero 0,
  .bind 1 ⟨[.integer], []⟩, .const 70000, .pop, .branch .always 1,
  .bind 0 ⟨[.integer], []⟩, .returnVoid]

theorem assemblable : Assemblable operations := by
  have hpassage : Passage 0 0 [] 9 25 operations :=
    .of_check (by cbv) (by simp [operations, branchTargets, boundLabels]) fun _ => rfl
  exact hpassage.assemblable (List.nil_subset _) (by decide)

end Waiting

/-- **Assembled code is listed as the operations it was assembled from**: each instruction with its
operands as they are found in the pool, and each branch with the offset at which its label was last
bound. -/
theorem disassemble?_of_finish {requests : List Pool.Request} {locals : UInt16}
    {ops : List Operation} {code : Code}
    (h : ((start (Pool.empty.run requests) locals).steps ops).finish = .ok code) :
    ∃ lines,
      disassemble? ((start (Pool.empty.run requests) locals).steps ops).pool.table code.bytes 0 =
        some lines ∧
      lines.map (fun line => some line.command) =
        (ops.filterMap Operation.command?).map
          (Command.place (placeOf ops lines code.bytes.length)) := by
  obtain ⟨-, -, hfault, -⟩ := finish_eq_ok h
  obtain ⟨lines, hlines, hcommands, hlabels⟩ :=
    exists_lines_of_located (located_live_of_finish (Pool.valid_run requests) h le_rfl)
  simp only [lastBound?_live] at hlabels
  rw [filterMap_command?_live, funext (lookup_eq_placeOf hfault hlabels)] at hcommands
  exact ⟨lines, hlines, hcommands⟩

theorem disassemble?_waiting : ∃ code lines,
    ((start (Pool.empty.run [.integer 70000]) 8).steps Waiting.operations).finish = .ok code ∧
      disassemble? ((start (Pool.empty.run [.integer 70000]) 8).steps
        Waiting.operations).pool.table code.bytes 0 = some lines ∧
      lines.map (fun line => some line.command) =
        (Waiting.operations.filterMap Operation.command?).map
          (Command.place (placeOf Waiting.operations lines code.bytes.length)) := by
  have hcapacity : Pool.capacity = 65534 := rfl
  obtain ⟨_, p, hp, hentries⟩ := (Pool.insert_asks (.integer 70000) Pool.empty).succeeds
    (by simp) (by decide)
  have hsize : p.size ≤ 0 + 1 := hentries.entries
  have hrun : Pool.empty.run [.integer 70000] = p := Pool.after_of_ok hp
  obtain ⟨code, q, hcode, -⟩ := (Body.assemble_asks (b := ⟨Waiting.operations, none⟩)
    Waiting.assemblable rfl 8 p).succeeds (by simp [Waiting.operations, Operation.texts])
    (by show p.size + 1 ≤ _; omega)
  have hfinish := (Body.assemble_eq_ok (hrun ▸ hcode)).1
  obtain ⟨lines, hlines⟩ := disassemble?_of_finish hfinish
  exact ⟨code, lines, hfinish, hlines⟩

end Assembler

end SchemaRecords.ClassFile
