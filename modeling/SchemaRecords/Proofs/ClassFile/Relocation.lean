import SchemaRecords.Proofs.ClassFile.BoundFrames
import SchemaRecords.Proofs.ClassFile.Listing
import SchemaRecords.Proofs.ClassFile.MemberAttributes

/-!
# Code with its constants elsewhere

Where a constant stands in the pool shows in the bytes of every instruction that
uses it. As long as no number has to be loaded from the pool, it shows in nothing
else. `Image.procedure?` is the code of a method with all operands looked up. Two
methods with the same operations, but for the indices of their call sites, have the
same procedure, whatever else is in their pools (`Method.exists_procedures`).

* `Assembler.shape`: what assembling keeps track of beside the constants. It
  develops alike for matching operations (`shape_step`, `shape_steps`).
* `places_of_disassemble?`: the lines of a listing stand where the lengths of the
  instructions put them.
-/

namespace SchemaRecords.ClassFile

/-! ## Code with resolved operands -/

/-- What an instruction does, with the call site looked up if it calls one. -/
inductive Effect where
  | plain (command : Command Nat)
  | call (bootstrap : UInt16) (name descriptor : String)
deriving DecidableEq, Repr

/-- The effect of a command whose operands are in the table. -/
def Command.effect? (t : ConstantTable) : Command Nat → Option Effect
  | .act (.invokeDynamic site) =>
    (t.invokeDynamic site).toOption.map fun target => .call target.1 target.2.1 target.2.2
  | c => some (.plain c)

/-- An instruction with all operands looked up. -/
structure Resolved where
  offset : Nat
  opcode : UInt8
  effect : Effect
deriving DecidableEq, Repr

/-- The instruction of a line of the code. -/
def Line.resolve? (t : ConstantTable) (code : Bytes) (line : Line) : Option Resolved :=
  (line.command.effect? t).map fun effect => ⟨line.offset, code.getD line.offset 0, effect⟩

/-- The code of a method as it is without regard to the pool. -/
structure Procedure where
  maxStack : UInt16
  maxLocals : UInt16
  length : Nat
  instructions : List Resolved
  frames : List (Nat × Frame)
  /-- The names of the attributes of the code. -/
  attributes : List String
deriving DecidableEq, Repr

/-- The procedure of a method that was read. -/
def Image.procedure? (image : Image) (m : MemberInfo) : Option Procedure := do
  let code ← (← (image.code m).toOption)
  let frames ← (image.frames code).toOption
  let lines ← disassemble? image.constants code.bytes 0
  let instructions ← lines.mapM (Line.resolve? image.constants code.bytes)
  return {
    maxStack := code.maxStack
    maxLocals := code.maxLocals
    length := code.bytes.length
    instructions
    frames
    attributes := code.attributes.map (·.name) }

/-! ## Operations that match -/

/-- The opcode of an instruction and the bytes it takes. -/
def Instruction.form (i : Instruction) : UInt8 × Nat := (i.encode.headD 0, i.encode.length)

/-- The opcode of a placed instruction and the bytes it takes. -/
def Placed.form : Placed → UInt8 × Nat
  | .fixed i => i.form
  | .jump condition _ => (condition.opcode, 3)

theorem Placed.size_eq (p : Placed) : p.size = p.form.2 := by
  cases p <;> rfl

namespace Operation

/-- The operation has the same kind of instruction wherever its constant stands, and it does not
say itself where that is. -/
def isMovable : Operation → Bool
  | const value => isImmediate value
  | invokeDynamic _ _ => false
  | _ => true

/-- The operations do the same, each with the constants of its own table. -/
inductive Matches (t t' : ConstantTable) : Operation → Operation → Prop
  | same {op : Operation} (h : op.isMovable = true) : Matches t t' op op
  | site {i j : UInt16} {type : MethodType} {target : UInt16 × String × String}
      (h : t.invokeDynamic i = .ok target) (h' : t'.invokeDynamic j = .ok target) :
      Matches t t' (.invokeDynamic i type) (.invokeDynamic j type)

theorem matches_of_movable (t t' : ConstantTable) {ops : List Operation}
    (h : ops.all isMovable = true) : List.Forall₂ (Matches t t') ops ops :=
  List.forall₂_same.mpr fun op hop => .same (List.all_eq_true.mp h op hop)

/-- The opcode and the size of what was selected, if it is an instruction. -/
def selectedForm? : Except Error Selected → Option (UInt8 × Nat)
  | .ok (.instruction i) => some i.form
  | .ok (.jump condition _) => some (condition.opcode, 3)
  | _ => none

variable {t t' : ConstantTable} {op op' : Operation}

/-- A number that needs no constant has the same instruction whatever the index. -/
theorem selectConst_of_immediate {value : Int32} (h : isImmediate value = true) (i j : UInt16) :
    selectConst value i = selectConst value j := by
  have hrange : -32768 ≤ value.toInt ∧ value.toInt ≤ 32767 := by simpa [isImmediate] using h
  unfold selectConst
  simp only [hrange, and_self, if_true]

theorem Matches.selectedForm? (h : Matches t t' op op') (i j : UInt16) :
    Operation.selectedForm? (op.select i) = Operation.selectedForm? (op'.select j) := by
  cases h with
  | site h h' => rfl
  | same h =>
    cases op with
    | const value => rw [select, select, selectConst_of_immediate h i j]
    | invokeDynamic i type => cases h
    | _ => rfl

theorem Matches.stack (h : Matches t t' op op') :
    op.touches = op'.touches ∧ op.pops = op'.pops ∧ op.pushes = op'.pushes := by
  cases h <;> exact ⟨rfl, rfl, rfl⟩

theorem Matches.bind_iff (h : Matches t t' op op') (label : Label) (frame : Frame) :
    op = .bind label frame ↔ op' = .bind label frame := by
  cases h with
  | same h => rfl
  | site h h' => exact ⟨nofun, nofun⟩

end Operation

/-! ## Assembling matching operations -/

/-- What assembling keeps track of beside constants and faults. -/
structure Shape where
  forms : List (UInt8 × Nat)
  position : Nat
  labels : List (Label × Nat)
  frames : Array (Nat × Frame)
  depth : UInt16
  maxStack : UInt16
  maxLocals : UInt16

namespace Assembler

def shape (s : Assembler) : Shape where
  forms := s.code.toList.map fun q => q.2.form
  position := s.position
  labels := s.labels
  frames := s.frames
  depth := s.depth
  maxStack := s.maxStack
  maxLocals := s.maxLocals

variable {s s' : Assembler} {t t' : ConstantTable} {op op' : Operation}

theorem shape_noteFault (s : Assembler) (e : Error) : (s.noteFault e).shape = s.shape := by
  unfold noteFault
  split <;> rfl

theorem shape_indexFor (s : Assembler) (op : Operation) : (s.indexFor op).2.shape = s.shape := by
  unfold indexFor
  split
  · obtain ⟨pool, code, position, labels, frames, depth, maxStack, maxLocals, fault⟩ := s
    unfold intern
    simp only
    split
    · rfl
    · exact shape_noteFault _ _
  · rfl

theorem shape_place (h : s.shape = s'.shape) {p p' : Placed} (hp : p.form = p'.form) :
    (s.place p).shape = (s'.place p').shape := by
  simp only [shape, Shape.mk.injEq] at h
  obtain ⟨hforms, hposition, hlabels, hframes, hdepth, hstack, hlocals⟩ := h
  simp only [shape, place, Array.toList_push, List.map_append, List.map_cons, List.map_nil, hforms,
    hposition, hlabels, hframes, hdepth, hstack, hlocals, Placed.size_eq, hp]

theorem placeSelected_cases (s : Assembler) (x : Except Error Operation.Selected) :
    (Operation.selectedForm? x = none ∧ (s.placeSelected x).shape = s.shape) ∨
      ∃ p, Operation.selectedForm? x = some p.form ∧ s.placeSelected x = s.place p := by
  rcases x with e | ⟨i⟩ | ⟨condition, target⟩ | _
  · exact .inl ⟨rfl, shape_noteFault s e⟩
  · exact .inr ⟨.fixed i, rfl, rfl⟩
  · exact .inr ⟨.jump condition target, rfl, rfl⟩
  · exact .inl ⟨rfl, rfl⟩

/-- Of what is placed only the form is seen. -/
theorem shape_placeSelected (h : s.shape = s'.shape) {x x' : Except Error Operation.Selected}
    (hx : Operation.selectedForm? x = Operation.selectedForm? x') :
    (s.placeSelected x).shape = (s'.placeSelected x').shape := by
  obtain ⟨hnone, hs⟩ | ⟨p, hp, hs⟩ := s.placeSelected_cases x
  · obtain ⟨-, hs'⟩ | ⟨p', hp', -⟩ := s'.placeSelected_cases x'
    · rw [hs, hs', h]
    · rw [hnone, hp'] at hx
      cases hx
  · obtain ⟨hnone, -⟩ | ⟨p', hp', hs'⟩ := s'.placeSelected_cases x'
    · rw [hp, hnone] at hx
      cases hx
    · rw [hs, hs']
      rw [hp, hp'] at hx
      exact shape_place h (Option.some.inj hx)

theorem shape_reserve (h : s.shape = s'.shape) (locals : UInt16) :
    (s.reserve locals).shape = (s'.reserve locals).shape := by
  show { s.shape with maxLocals := max s.shape.maxLocals locals } = _
  rw [h]
  rfl

theorem shape_setDepth (h : s.shape = s'.shape) (depth : UInt16) :
    (s.setDepth depth).shape = (s'.setDepth depth).shape := by
  show { s.shape with depth, maxStack := max s.shape.maxStack depth } = _
  rw [h]
  rfl

theorem shape_adjust (h : s.shape = s'.shape) (pops pushes : UInt16) :
    (s.adjust pops pushes).shape = (s'.adjust pops pushes).shape := by
  have hdepth : s.depth = s'.depth := congrArg Shape.depth h
  unfold adjust
  rw [hdepth]
  split
  · exact shape_setDepth ((shape_noteFault s _).trans (h.trans (shape_noteFault s' _).symm)) pushes
  · exact shape_setDepth h _

theorem shape_bind (h : s.shape = s'.shape) (label : Label) (frame : Frame) :
    (s.bind label frame).shape = (s'.bind label frame).shape := by
  refine shape_setDepth ?_ frame.stackSlots
  show { s.shape with
    labels := (label, s.shape.position) :: s.shape.labels
    frames := s.shape.frames.push (s.shape.position, frame) } = _
  rw [h]
  rfl

/-- One step: matching operations change the shape alike. -/
theorem shape_step (hop : op.Matches t t' op') (h : s.shape = s'.shape) :
    (s.step op).shape = (s'.step op').shape := by
  obtain ⟨label, frame, hbind⟩ | hne := op.bind_or_ne
  · obtain rfl := (hop.bind_iff label frame).1 hbind
    rw [hbind]
    exact shape_bind h label frame
  · have hne' : ∀ label frame, op' ≠ .bind label frame :=
      fun label frame heq => hne label frame ((hop.bind_iff label frame).2 heq)
    obtain ⟨htouches, hpops, hpushes⟩ := hop.stack
    have hindex : (s.indexFor op).2.shape = (s'.indexFor op').2.shape := by
      rw [shape_indexFor, shape_indexFor, h]
    rw [step_eq hne, step_eq hne', htouches, hpops, hpushes]
    exact shape_adjust (shape_reserve
      (shape_placeSelected hindex (hop.selectedForm? _ _)) _) _ _

/-- All steps: whatever the pools are, matching operations lead to the same shape. -/
theorem shape_steps {ops ops' : List Operation}
    (hops : List.Forall₂ (Operation.Matches t t') ops ops') (h : s.shape = s'.shape) :
    (s.steps ops).shape = (s'.steps ops').shape := by
  induction hops generalizing s s' with
  | nil => exact h
  | cons hop _ ih => exact ih (shape_step hop h)

theorem form_link {labels : List (Label × Nat)} {here : Nat} {p : Placed} {i : Instruction}
    (h : link labels here p = .ok i) : i.form = p.form := by
  obtain rfl | ⟨condition, target, offset, rfl, rfl⟩ := link_cases h
  · rfl
  · rfl

/-- What finished code has of the shape. -/
theorem finish_of_shape {code : Code} (h : s.finish = .ok code) :
    code.maxStack = s.shape.maxStack ∧ code.maxLocals = s.shape.maxLocals ∧
      (joinFrom #[] s.shape.frames.toList).map Array.toList = .ok code.frames ∧
      ∃ is : List Instruction, code.bytes = is.flatMap Instruction.encode ∧
        is.map Instruction.form = s.shape.forms := by
  obtain ⟨is, joined, -, hlink, -, hjoined, rfl⟩ := finish_eq_ok h
  obtain ⟨linked, his, hlinked⟩ := linkFrom_eq_ok hlink
  refine ⟨rfl, rfl, ?_, linked, ?_, map_eq_of_forall₂ hlinked fun q i hi => form_link hi⟩
  · show (joinFrom #[] s.frames.toList).map Array.toList = _
    rw [hjoined]
    rfl
  · rw [his]
    rfl

end Assembler

/-! ## Listings of matching code -/

/-- The offsets and opcodes of instructions with these forms, from an offset on. -/
def places (here : Nat) : List (UInt8 × Nat) → List (Nat × UInt8)
  | [] => []
  | (opcode, n) :: rest => (here, opcode) :: places (here + n) rest

/-- The lines of a listing stand where the lengths of the instructions put them. -/
theorem places_of_disassemble? {t : ConstantTable} {code : Bytes} {here : Nat}
    {is : List Instruction} {lines : List Line} (hhere : here ≤ code.length)
    (hcode : code.drop here = is.flatMap Instruction.encode)
    (h : disassemble? t code here = some lines) :
    lines.map (fun line => (line.offset, code.getD line.offset 0)) =
      places here (is.map Instruction.form) := by
  induction is generalizing here lines with
  | nil =>
    have hend : here = code.length := by
      have hlength : code.length ≤ here := List.drop_eq_nil_iff.1 hcode
      omega
    rw [disassemble?, if_pos hend] at h
    cases h
    rfl
  | cons i is ih =>
    rw [List.flatMap_cons] at hcode
    have hlength := congrArg List.length hcode
    rw [List.length_drop, List.length_append] at hlength
    have hpos := i.length_encode_pos
    cases hc : i.command? t here with
    | none =>
      have hnone : fetch? t code here = none := by
        rw [fetch?, hcode, Instruction.decode?_encode]
        simp only
        rw [hc]
        rfl
      rw [disassemble?, if_neg (by omega)] at h
      split at h
      · cases h
      · rename_i hsome
        rw [hnone] at hsome
        cases hsome
    | some c =>
      rw [disassemble?_of_fetch? (fetch?_of_drop hcode hc)] at h
      obtain ⟨rest, hrest, rfl⟩ := Option.map_eq_some_iff.1 h
      have hdrop : code.drop (here + i.encode.length) = is.flatMap Instruction.encode := by
        rw [← List.drop_drop, hcode, List.drop_left]
      have hopcode : code.getD here 0 = i.encode.headD 0 := by
        rw [List.getD_eq_getElem?_getD, ← List.head?_drop, hcode]
        cases i <;> rfl
      rw [List.map_cons, List.map_cons, Instruction.form, places, ih (by omega) hdrop hrest,
        hopcode]

/-- The commands have the same effect, each with the constants of its own table. -/
inductive Command.Agrees {α : Type} (t t' : ConstantTable) : Command α → Command α → Prop
  | same {c : Command α} (h : ∀ site, c ≠ .act (.invokeDynamic site)) : Agrees t t' c c
  | site {i j : UInt16} {target : UInt16 × String × String}
      (h : t.invokeDynamic i = .ok target) (h' : t'.invokeDynamic j = .ok target) :
      Agrees t t' (.act (.invokeDynamic i)) (.act (.invokeDynamic j))

section Agrees

variable {t t' : ConstantTable}

theorem Operation.Matches.command? {op op' : Operation} (h : op.Matches t t' op') :
    Option.Rel (Command.Agrees t t') op.command? op'.command? := by
  cases h with
  | site h h' => exact .some (.site h h')
  | same h =>
    cases op with
    | bind label frame => exact .none
    | invokeDynamic i type => cases h
    | _ => exact .some (.same fun site => nofun)

theorem Command.Agrees.place {α β : Type} {c c' : Command α} (h : c.Agrees t t' c')
    {where? : α → Option β} {d d' : Command β} (hd : c.place where? = some d)
    (hd' : c'.place where? = some d') : d.Agrees t t' d' := by
  cases h with
  | site h h' =>
    cases hd
    cases hd'
    exact .site h h'
  | same h =>
    cases hd.symm.trans hd'
    cases c with
    | act a =>
      cases hd
      exact .same fun site heq => h site (by cases heq; rfl)
    | jump condition target =>
      obtain ⟨there, -, rfl⟩ := Option.map_eq_some_iff.1 hd
      exact .same fun site => nofun

theorem Command.Agrees.effect? {c c' : Command Nat} (h : c.Agrees t t' c') :
    ∃ e, c.effect? t = some e ∧ c'.effect? t' = some e := by
  cases h with
  | @site i j target h h' =>
    refine ⟨.call target.1 target.2.1 target.2.2, ?_, ?_⟩
    · rw [Command.effect?, h]
      rfl
    · rw [Command.effect?, h']
      rfl
  | same h =>
    have hplain (t : ConstantTable) : c.effect? t = some (.plain c) := by
      unfold Command.effect?
      split
      · rename_i site
        exact absurd rfl (h site)
      · rfl
    exact ⟨.plain c, hplain t, hplain t'⟩

/-- Listings of agreeing commands agree line by line, if the labels have the same places. -/
theorem agrees_of_place {where? : Label → Option Nat} {cs cs' : List (Command Label)}
    {lines lines' : List Line} (h : List.Forall₂ (Command.Agrees t t') cs cs')
    (hlines : lines.map (fun line => some line.command) = cs.map (Command.place where?))
    (hlines' : lines'.map (fun line => some line.command) = cs'.map (Command.place where?)) :
    List.Forall₂ (fun line line' => line.command.Agrees t t' line'.command) lines lines' := by
  induction h generalizing lines lines' with
  | nil =>
    rw [List.map_eq_nil_iff.1 hlines, List.map_eq_nil_iff.1 hlines']
    exact .nil
  | cons hc _ ih =>
    obtain ⟨line, rest, rfl, hline, hrest⟩ := List.map_eq_cons_iff.1 hlines
    obtain ⟨line', rest', rfl, hline', hrest'⟩ := List.map_eq_cons_iff.1 hlines'
    exact .cons (hc.place hline.symm hline'.symm) (ih hrest hrest')

/-- Listings with agreeing commands at the same places have the same instructions. -/
theorem exists_resolved {code code' : Bytes} {lines lines' : List Line}
    (h : List.Forall₂ (fun line line' => line.command.Agrees t t' line'.command) lines lines')
    (hplaces : lines.map (fun line => (line.offset, code.getD line.offset 0)) =
      lines'.map fun line => (line.offset, code'.getD line.offset 0)) :
    ∃ instructions, lines.mapM (Line.resolve? t code) = some instructions ∧
      lines'.mapM (Line.resolve? t' code') = some instructions := by
  induction h with
  | nil => exact ⟨[], rfl, rfl⟩
  | @cons line line' _ _ hline _ ih =>
    obtain ⟨hplace, hrest⟩ := List.cons.inj hplaces
    obtain ⟨hoffset, hopcode⟩ := Prod.mk.inj hplace
    obtain ⟨instructions, hinstructions, hinstructions'⟩ := ih hrest
    obtain ⟨effect, heffect, heffect'⟩ := hline.effect?
    have hfirst : line.resolve? t code =
        some ⟨line.offset, code.getD line.offset 0, effect⟩ := by
      rw [Line.resolve?, heffect]
      rfl
    have hfirst' : line'.resolve? t' code' =
        some ⟨line.offset, code.getD line.offset 0, effect⟩ := by
      rw [Line.resolve?, heffect', hopcode, hoffset]
      rfl
    refine ⟨⟨line.offset, code.getD line.offset 0, effect⟩ :: instructions, ?_, ?_⟩
    · simp only [List.mapM_cons, hfirst, hinstructions, Option.bind_eq_bind, Option.bind_some,
        Option.pure_def]
    · simp only [List.mapM_cons, hfirst', hinstructions', Option.bind_eq_bind, Option.bind_some,
        Option.pure_def]

end Agrees

/-! ## Matching methods -/

namespace Assembler

variable {t t' : ConstantTable} {pool pool' : Pool} {locals : UInt16} {ops ops' : List Operation}
  {code code' : Code}

/-- The code of matching operations has the same sizes and frames. -/
theorem finish_of_matches (hops : List.Forall₂ (Operation.Matches t t') ops ops')
    (h : ((start pool locals).steps ops).finish = .ok code)
    (h' : ((start pool' locals).steps ops').finish = .ok code') :
    code.maxStack = code'.maxStack ∧ code.maxLocals = code'.maxLocals ∧
      code.bytes.length = code'.bytes.length ∧ code.frames = code'.frames := by
  have hshape : ((start pool locals).steps ops).shape = ((start pool' locals).steps ops').shape :=
    shape_steps hops rfl
  obtain ⟨hstack, hlocals, hjoined, is, hbytes, hforms⟩ := finish_of_shape h
  obtain ⟨hstack', hlocals', hjoined', is', hbytes', hforms'⟩ := finish_of_shape h'
  rw [hshape] at hstack hlocals hforms hjoined
  have hlengths : is.map (fun i => i.encode.length) = is'.map fun i => i.encode.length := by
    have hsame := congrArg (List.map Prod.snd) (hforms.trans hforms'.symm)
    rwa [List.map_map, List.map_map] at hsame
  refine ⟨hstack.trans hstack'.symm, hlocals.trans hlocals'.symm, ?_,
    Except.ok.inj (hjoined.symm.trans hjoined')⟩
  rw [hbytes, hbytes', List.length_flatMap, List.length_flatMap, hlengths]

/-- The code of matching operations is listed with the same instructions. -/
theorem resolved_of_matches (hops : List.Forall₂ (Operation.Matches t t') ops ops')
    (hpool : pool.Valid) (hpool' : pool'.Valid)
    (h : ((start pool locals).steps ops).finish = .ok code)
    (h' : ((start pool' locals).steps ops').finish = .ok code')
    (ht : ((start pool locals).steps ops).pool.table ≤ t)
    (ht' : ((start pool' locals).steps ops').pool.table ≤ t') :
    ∃ lines lines' instructions, disassemble? t code.bytes 0 = some lines ∧
      disassemble? t' code'.bytes 0 = some lines' ∧
      lines.mapM (Line.resolve? t code.bytes) = some instructions ∧
      lines'.mapM (Line.resolve? t' code'.bytes) = some instructions := by
  have hshape : ((start pool locals).steps ops).shape = ((start pool' locals).steps ops').shape :=
    shape_steps hops rfl
  have hlabels :
      ((start pool locals).steps ops).labels = ((start pool' locals).steps ops').labels :=
    congrArg Shape.labels hshape
  obtain ⟨lines, hlines, hcommands, -⟩ :=
    exists_lines_of_located (located_live_of_finish hpool h ht)
  obtain ⟨lines', hlines', hcommands', -⟩ :=
    exists_lines_of_located (located_live_of_finish hpool' h' ht')
  -- both listings hold the commands of the operations, with labels in the same places
  rw [filterMap_command?_live] at hcommands hcommands'
  rw [← hlabels] at hcommands'
  have hagree := agrees_of_place
    (List.rel_filterMap (fun _ _ hop => hop.command?) hops) hcommands hcommands'
  have hplaces : lines.map (fun line => (line.offset, code.bytes.getD line.offset 0)) =
      lines'.map fun line => (line.offset, code'.bytes.getD line.offset 0) := by
    obtain ⟨-, -, -, is, hbytes, hforms⟩ := finish_of_shape h
    obtain ⟨-, -, -, is', hbytes', hforms'⟩ := finish_of_shape h'
    rw [places_of_disassemble? (Nat.zero_le _) hbytes hlines,
      places_of_disassemble? (Nat.zero_le _) hbytes' hlines', hforms, hforms', hshape]
  obtain ⟨instructions, hinstructions, hinstructions'⟩ := exists_resolved hagree hplaces
  exact ⟨lines, lines', instructions, hlines, hlines', hinstructions, hinstructions'⟩

end Assembler

namespace Method

/-- The methods have the same heading, and their operations match. -/
structure Matches (t t' : ConstantTable) (m m' : Method) : Prop where
  access : m.access = m'.access
  name : m.name = m'.name
  type : m.type = m'.type
  operations : List.Forall₂ (Operation.Matches t t') m.body.operations m'.body.operations

variable {image image' : Image}

/-- **Matching methods have the same procedure**, wherever the constants are that they use. -/
theorem exists_procedure {m m' : Method} {info info' : MemberInfo}
    (hm : m.Matches image.constants image'.constants m') (h : m.Describes image.constants info)
    (h' : m'.Describes image'.constants info') :
    ∃ p, image.procedure? info = some p ∧ image'.procedure? info' = some p := by
  obtain ⟨code, ⟨pool, q, hpool, hassemble, ht⟩, own, hown, hread⟩ := h.code
  obtain ⟨code', ⟨pool', q', hpool', hassemble', ht'⟩, own', hown', hread'⟩ := h'.code
  obtain ⟨hfinish, rfl⟩ := Body.assemble_eq_ok hassemble
  obtain ⟨hfinish', rfl⟩ := Body.assemble_eq_ok hassemble'
  rw [← hm.type] at hfinish' ht'
  obtain ⟨hstack, hlocals, hlength, hframes⟩ :=
    Assembler.finish_of_matches hm.operations hfinish hfinish'
  obtain ⟨lines, lines', instructions, hlines, hlines', hinstructions, hinstructions'⟩ :=
    Assembler.resolved_of_matches hm.operations hpool hpool' hfinish hfinish' ht ht'
  have hnames : own.attributes.map (·.name) = own'.attributes.map (·.name) := by
    rw [hown.attributes, hown'.attributes, hframes]
  refine ⟨⟨code.maxStack, code.maxLocals, code.bytes.length, instructions, code.frames,
    own.attributes.map (·.name)⟩, ?_, ?_⟩
  · simp [Image.procedure?, hread image rfl, hown.frames image rfl, hown.bytes, hlines,
      hinstructions, hown.maxStack, hown.maxLocals, Except.toOption]
  · simp [Image.procedure?, hread' image' rfl, hown'.frames image' rfl, hown'.bytes, hlines',
      hinstructions', hown'.maxStack, hown'.maxLocals, Except.toOption, hstack, hlocals, hlength,
      hframes, hnames]

/-- So it is for all methods of two classes, in order. -/
theorem exists_procedures {ms ms' : List Method} {infos infos' : List MemberInfo}
    (hm : List.Forall₂ (Matches image.constants image'.constants) ms ms')
    (h : List.Forall₂ (Describes image.constants) ms infos)
    (h' : List.Forall₂ (Describes image'.constants) ms' infos') :
    ∃ ps, infos.mapM image.procedure? = some ps ∧ infos'.mapM image'.procedure? = some ps := by
  induction hm generalizing infos infos' with
  | nil =>
    cases h
    cases h'
    exact ⟨[], rfl, rfl⟩
  | cons hfirst _ ih =>
    obtain _ | ⟨hinfo, hinfos⟩ := h
    obtain _ | ⟨hinfo', hinfos'⟩ := h'
    obtain ⟨p, hp, hp'⟩ := exists_procedure hfirst hinfo hinfo'
    obtain ⟨ps, hps, hps'⟩ := ih hinfos hinfos'
    refine ⟨p :: ps, ?_, ?_⟩
    · simp [List.mapM_cons, hp, hps]
    · simp [List.mapM_cons, hp', hps']

end Method

end SchemaRecords.ClassFile
