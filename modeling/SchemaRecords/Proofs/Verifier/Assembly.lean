import SchemaRecords.Proofs.ClassFile.Members
import SchemaRecords.Proofs.Verifier.Depth

/-!
# Assembled flows are accepted

A flow is about operations and labels, the verifier's walk about bytes and
offsets. `accepts_of_flow` takes a flow along to the bytes in which its operations
are located. A label declares its frame at the offset where it stands, and the
frames of finished code are those of its labels (`mem_frames_of_finish`), so that
the walk meets a frame just where the flow passes a label.

* `verifies_of_flow`: a method is verified if the types flow through its operations.
* `isPlain_of_verifies`: only if the types of the fields that it reads can be read themselves.
-/

namespace SchemaRecords.ClassFile

/-! ## Frames in finished code -/

/-- The frames that operations declare, with the offsets of their labels. -/
def placedFrames (where? : Label → Option Nat) (ops : List Operation) : List (Nat × Frame) :=
  ops.filterMap fun
    | .bind label frame => (where? label).map (·, frame)
    | _ => none

theorem placedFrames_append (where? : Label → Option Nat) (ops ops' : List Operation) :
    placedFrames where? (ops ++ ops') = placedFrames where? ops ++ placedFrames where? ops' :=
  List.filterMap_append

theorem placedFrames_bind {where? : Label → Option Nat} {label : Label} {n : Nat}
    (h : where? label = some n) (frame : Frame) (ops : List Operation) :
    placedFrames where? (.bind label frame :: ops) = (n, frame) :: placedFrames where? ops := by
  refine List.filterMap_cons_some ?_
  show (where? label).map _ = _
  rw [h]
  rfl

theorem placedFrames_of_ne (where? : Label → Option Nat) {op : Operation}
    (hop : ∀ label frame, op ≠ .bind label frame) (ops : List Operation) :
    placedFrames where? (op :: ops) = placedFrames where? ops := by
  cases op with
  | bind label frame => exact absurd rfl (hop label frame)
  | _ => rfl

theorem mem_placedFrames {where? : Label → Option Nat} {ops : List Operation} {label : Label}
    {frame : Frame} {n : Nat} (h : .bind label frame ∈ ops) (hn : where? label = some n) :
    (n, frame) ∈ placedFrames where? ops := by
  refine List.mem_filterMap.mpr ⟨.bind label frame, h, ?_⟩
  show (where? label).map _ = _
  rw [hn]
  rfl

namespace Assembler

/-- Steps record the frames of their labels, at the places where the labels end up. -/
theorem frames_steps {s : Assembler} {ops : List Operation} (hnodup : (boundLabels ops).Nodup)
    (h : (s.steps ops).fault = none) :
    (s.steps ops).frames.toList =
      s.frames.toList ++ placedFrames (fun l => (s.steps ops).labels.lookup l) ops := by
  induction ops generalizing s with
  | nil => exact (List.append_nil _).symm
  | cons op ops ih =>
    have hstep := fault_of_steps (s := s.step op) h
    show ((s.step op).steps ops).frames.toList = _
    obtain ⟨l, frame, rfl⟩ | hop := op.bind_or_ne
    · rw [boundLabels_bind, List.nodup_cons] at hnodup
      have hlabel : ((s.step (.bind l frame)).steps ops).labels.lookup l = some s.position := by
        rw [lookup_steps (s := s.step _) h hnodup.1, (step_bind_spec s l frame).2.2.2.1]
        simp
      have hframes : (s.step (.bind l frame)).frames.toList
          = s.frames.toList ++ [(s.position, frame)] := Array.toList_push
      rw [ih hnodup.2 h, hframes, List.append_assoc]
      exact congrArg (s.frames.toList ++ ·) (placedFrames_bind hlabel frame ops).symm
    · obtain ⟨p, hp⟩ := step_spec hop hstep
      rw [ih (boundLabels_of_ne hop ops ▸ hnodup) h, hp.frames, placedFrames_of_ne _ hop]
      rfl

/-- The frames of finished code are those of its labels. -/
theorem mem_frames_of_finish {pool : Pool} {locals : UInt16} {ops : List Operation} {code : Code}
    (hnodup : (boundLabels ops).Nodup)
    (h : ((start pool locals).steps ops).finish = .ok code) (f : Nat × Frame) :
    f ∈ code.frames ↔
      f ∈ placedFrames (fun l => ((start pool locals).steps ops).labels.lookup l) ops := by
  obtain ⟨-, joined, hfault, -, -, hjoined, rfl⟩ := finish_eq_ok h
  have hs := (framesInOrder_start pool locals).steps hfault
  have hmem := (joinFrom_eq_ok hjoined .nil hs.sorted).2 f
  rw [frames_steps hnodup hfault] at hmem
  exact hmem

end Assembler

theorem FrameTable.Ordered.lookup_eq_some_iff {frames : List (Nat × Frame)}
    (h : FrameTable.Ordered frames) {n : Nat} {frame : Frame} :
    frames.lookup n = some frame ↔ (n, frame) ∈ frames := by
  rw [List.lookup_eq_some_iff]
  constructor
  · rintro ⟨before, after, rfl, -⟩
    simp
  · intro hmem
    obtain ⟨before, after, rfl⟩ := List.append_of_mem hmem
    refine ⟨before, after, rfl, fun p hp => ?_⟩
    have hincreasing := h.increasing
    rw [List.map_append, List.pairwise_append] at hincreasing
    have hlt : p.1 < n := hincreasing.2.2 p.1 (List.mem_map_of_mem hp) n (by simp)
    simp only [bne_iff_ne]
    omega

/-! ## Offsets of operations -/

section Located

variable {t : ConstantTable} {code : Bytes} {where? : Label → Option Nat}

theorem StandsAt.lt {op : Operation} (hop : ∀ label frame, op ≠ .bind label frame) {n k : Nat}
    (h : StandsAt t code where? op n k) : n < k := by
  obtain ⟨c, -, hfetch⟩ := (standsAt_of_ne hop).mp h
  exact lt_of_fetch? hfetch

/-- The labels among operations stand where the operations do. -/
theorem le_of_located {ops : List Operation} {n m : Nat} (h : Located t code where? ops n m) :
    ∀ f ∈ placedFrames where? ops, n ≤ f.1 := by
  induction ops generalizing n with
  | nil => simp [placedFrames]
  | cons op ops ih =>
    obtain ⟨k, hop, hrest⟩ := h
    intro f hf
    obtain ⟨label, frame, rfl⟩ | hne := op.bind_or_ne
    · obtain ⟨hlabel, rfl⟩ := hop
      rw [placedFrames_bind hlabel, List.mem_cons] at hf
      obtain rfl | hf := hf
      · exact Nat.le_refl _
      · exact ih hrest f hf
    · rw [placedFrames_of_ne where? hne] at hf
      exact Nat.le_of_lt (Nat.lt_of_lt_of_le (hop.lt hne) (ih hrest f hf))

end Located

end SchemaRecords.ClassFile

namespace SchemaRecords.Verifier

open SchemaRecords.ClassFile

/-! ## From operations to bytes -/

/-- The code declares the frames of the operations' labels and reads their types. -/
structure Listing.Carries (c : Listing) (where? : Label → Option Nat) (ops : List Operation) :
    Prop where
  ordered : FrameTable.Ordered c.frames
  frames : ∀ f, f ∈ c.frames ↔ f ∈ placedFrames where? ops
  covers : ∀ op ∈ ops, Covers c.constants op

theorem Listing.Carries.frame?_eq {c : Listing} {where? : Label → Option Nat}
    {ops : List Operation} (hc : c.Carries where? ops) {n : Nat} {frame : Frame}
    (h : (n, frame) ∈ placedFrames where? ops) :
    c.frame? n = some (.ofFrame c.maxLocals frame) := by
  rw [Listing.frame?, hc.ordered.lookup_eq_some_iff.mpr ((hc.frames _).mpr h)]
  rfl

/-- What the walk and the flow know at offset `n`, after the operations `passed`: the same, unless
the flow has passed labels at this offset, whose frame the walk has yet to meet. -/
inductive Listing.Meets (c : Listing) (where? : Label → Option Nat) (passed : List Operation)
    (n : Nat) : Option State → Option State → Prop
  | same {known : Option State} (before : ∀ f ∈ placedFrames where? passed, f.1 < n) :
      Meets c where? passed n known known
  | framed {incoming : Option State} {frame : Frame}
      (here : (n, frame) ∈ placedFrames where? passed)
      (before : ∀ f ∈ placedFrames where? passed, f.1 ≤ n)
      (flows : ∀ s ∈ incoming, s.FlowsInto (.ofFrame c.maxLocals frame)) :
      Meets c where? passed n incoming (some (.ofFrame c.maxLocals frame))

section Walk

variable {c : Listing} {where? : Label → Option Nat} {passed ops rest : List Operation}
  {n k : Nat} {incoming known : Option State} {op : Operation}

theorem Listing.Meets.le (h : c.Meets where? passed n incoming known) :
    ∀ f ∈ placedFrames where? passed, f.1 ≤ n := by
  cases h with
  | same before => exact fun f hf => Nat.le_of_lt (before f hf)
  | framed here before flows => exact before

/-- After an instruction both know the same. -/
theorem Listing.Meets.next (h : c.Meets where? passed n incoming known)
    (hop : ∀ label frame, op ≠ .bind label frame) (hlt : n < k) (known' : Option State) :
    c.Meets where? (passed ++ [op]) k known' known' := by
  refine .same fun f hf => ?_
  rw [placedFrames_append, placedFrames_of_ne where? hop, List.mem_append] at hf
  obtain hf | hf := hf
  · exact Nat.lt_of_le_of_lt (h.le f hf) hlt
  · cases hf

/-- Passing a label, the flow goes on with its frame. -/
theorem Listing.Meets.bind (hc : c.Carries where? ops) {label : Label} {frame : Frame}
    (hops : ops = passed ++ .bind label frame :: rest) (hlabel : where? label = some n)
    (h : c.Meets where? passed n incoming known)
    (hflows : ∀ s ∈ known, s.FlowsInto (.ofFrame c.maxLocals frame)) :
    c.Meets where? (passed ++ [.bind label frame]) n incoming
      (some (.ofFrame c.maxLocals frame)) := by
  have hpassed : placedFrames where? (passed ++ [.bind label frame]) =
      placedFrames where? passed ++ [(n, frame)] := by
    rw [placedFrames_append, placedFrames_bind hlabel]
    rfl
  have hmem : (n, frame) ∈ placedFrames where? (passed ++ [.bind label frame]) := by
    rw [hpassed]
    simp
  refine .framed hmem ?_ ?_
  · intro f hf
    rw [hpassed, List.mem_append, List.mem_singleton] at hf
    obtain hf | rfl := hf
    · exact h.le f hf
    · exact Nat.le_refl _
  · cases h with
    | same before => exact hflows
    | @framed other here before flows =>
      -- two labels at one offset have one frame
      have hsame : frame = other := by
        have hother : (n, other) ∈ placedFrames where? ops := by
          rw [hops, placedFrames_append]
          exact List.mem_append_left _ here
        have hframe : (n, frame) ∈ placedFrames where? ops :=
          mem_placedFrames (hops ▸ by simp) hlabel
        have hlookup := hc.ordered.lookup_eq_some_iff.mpr ((hc.frames _).mpr hframe)
        have hlookup' := hc.ordered.lookup_eq_some_iff.mpr ((hc.frames _).mpr hother)
        exact Option.some.inj (hlookup.symm.trans hlookup')
      rw [hsame]
      exact flows

/-- The walk carries out an instruction in the state that the flow has reached. -/
theorem Listing.Meets.enters (hc : c.Carries where? ops) (hops : ops = passed ++ op :: rest)
    (hop : ∀ label frame, op ≠ .bind label frame) (hlt : n < k)
    (hrest : ∀ f ∈ placedFrames where? rest, k ≤ f.1) {s : State}
    (h : c.Meets where? passed n incoming (some s)) : c.Enters n incoming s := by
  cases h with
  | same before =>
    have hnone : c.frame? n = none := by
      rw [Listing.frame?, Option.map_eq_none_iff, Option.eq_none_iff_forall_ne_some]
      intro frame hframe
      have hmem := (hc.frames _).mp (hc.ordered.lookup_eq_some_iff.mp hframe)
      rw [hops, placedFrames_append, placedFrames_of_ne where? hop, List.mem_append] at hmem
      obtain hmem | hmem := hmem
      · exact Nat.lt_irrefl n (before _ hmem)
      · exact Nat.lt_irrefl n (Nat.lt_of_lt_of_le hlt (hrest _ hmem))
    rw [Listing.Enters, hnone]
  | @framed frame here before flows =>
    have hmem : (n, frame) ∈ placedFrames where? ops := by
      rw [hops, placedFrames_append]
      exact List.mem_append_left _ here
    rw [Listing.Enters, hc.frame?_eq hmem]
    exact ⟨rfl, flows⟩

/-- An instruction that the flow passes is the next one of the walk. -/
theorem Listing.Meets.step (hc : c.Carries where? ops) (hops : ops = passed ++ op :: rest)
    (hop : ∀ label frame, op ≠ .bind label frame)
    (hlocated : Located c.constants c.code where? (op :: rest) n c.code.length) {s : State}
    (h : c.Meets where? passed n incoming (some s)) :
    ∃ k, StandsAt c.constants c.code where? op n k ∧
      Located c.constants c.code where? rest k c.code.length ∧ c.Enters n incoming s ∧
      ∀ known', c.Meets where? (passed ++ [op]) k known' known' := by
  obtain ⟨k, hstands, hrest⟩ := hlocated
  have hlt := hstands.lt hop
  exact ⟨k, hstands, hrest, h.enters hc hops hop hlt (le_of_located hrest), h.next hop hlt⟩

/-- The frames at or after an instruction are those after it. -/
theorem mem_starts_of_ne {starts : List Nat} (hop : ∀ label frame, op ≠ .bind label frame)
    (h : ∀ f ∈ placedFrames where? rest, f.1 ∈ starts) :
    ∀ f ∈ placedFrames where? (op :: rest), f.1 ∈ n :: starts := by
  intro f hf
  rw [placedFrames_of_ne where? hop] at hf
  exact List.mem_cons_of_mem _ (h f hf)

/-- The verifier accepts code in which a flow's operations are located, and meets an instruction
at every label. -/
theorem accepts_of_flow (hc : c.Carries where? ops) {after : Option State}
    (h : Flow c.toScope (fun label frame => .bind label frame ∈ ops) known rest after)
    (hafter : after = none) (hops : ops = passed ++ rest)
    (hlocated : Located c.constants c.code where? rest n c.code.length)
    (hmeets : c.Meets where? passed n incoming known) (hfits : ∀ s ∈ known, c.Fits s) :
    ∃ starts, c.Accepts n incoming starts ∧ (known ≠ none → n ∈ starts) ∧
      ∀ f ∈ placedFrames where? rest, f.1 ∈ starts := by
  induction h generalizing n passed incoming with
  | nil =>
    subst hafter
    cases hlocated
    cases hmeets with
    | same before => exact ⟨[], .done, fun h => absurd rfl h, by simp [placedFrames]⟩
  | @bind known after label frame rest flows fits _ ih =>
    obtain ⟨_, ⟨hlabel, rfl⟩, hrest⟩ := hlocated
    have hops' : ops = (passed ++ [.bind label frame]) ++ rest := by simpa using hops
    obtain ⟨starts, haccepts, hstart, hframes⟩ := ih hafter hops' hrest
      (.bind hc hops hlabel hmeets flows) (fun _ h => by cases h; exact fits)
    have hmem := hstart (Option.some_ne_none _)
    refine ⟨starts, haccepts, fun _ => hmem, fun f hf => ?_⟩
    rw [placedFrames_bind hlabel, List.mem_cons] at hf
    obtain rfl | hf := hf
    · exact hmem
    · exact hframes f hf
  | @act s s' after op rule rest hasRule acts fits _ ih =>
    obtain ⟨a, hcommand, hrule⟩ := hasRule_of_ruleOf hasRule (hc.covers op (hops ▸ by simp))
    have hop := ne_bind_of_ruleOf hasRule
    obtain ⟨k, hstands, hrest, henters, hnext⟩ := hmeets.step hc hops hop hlocated
    obtain ⟨starts, haccepts, -, hframes⟩ := ih hafter (by simpa using hops) hrest (hnext _)
      (fun _ h => by cases h; exact fits)
    exact ⟨n :: starts,
      .act henters (hfits s rfl) (hstands.act hcommand) hrule acts fits haccepts,
      fun _ => List.mem_cons_self, mem_starts_of_ne hop hframes⟩
  | @leave s after op rule rest hasRule returns _ ih =>
    obtain ⟨a, hcommand, hrule⟩ := hasRule_of_ruleOf hasRule (hc.covers op (hops ▸ by simp))
    have hop := ne_bind_of_ruleOf hasRule
    obtain ⟨k, hstands, hrest, henters, hnext⟩ := hmeets.step hc hops hop hlocated
    obtain ⟨starts, haccepts, -, hframes⟩ := ih hafter (by simpa using hops) hrest (hnext _)
      (by simp)
    exact ⟨n :: starts, .leave henters (hfits s rfl) (hstands.act hcommand) hrule returns haccepts,
      fun _ => List.mem_cons_self, mem_starts_of_ne hop hframes⟩
  | @jump s s' after condition target frame rest acts fits declared flows _ ih =>
    have hop : ∀ label frame, Operation.branch condition target ≠ .bind label frame :=
      fun _ _ e => by cases e
    obtain ⟨k, hstands, hrest, henters, hnext⟩ := hmeets.step hc hops hop hlocated
    obtain ⟨there, hthere, hfetch⟩ := hstands.jump
    have hframe := hc.frame?_eq (mem_placedFrames declared hthere)
    have hfits' : ∀ t ∈ (if condition = .always then none else some s'), c.Fits t := by
      intro t ht
      split at ht
      · cases ht
      · cases ht
        exact fits
    obtain ⟨starts, haccepts, -, hframes⟩ := ih hafter (by simpa using hops) hrest (hnext _) hfits'
    exact ⟨n :: starts, .jump henters (hfits s rfl) hfetch acts hframe flows haccepts,
      fun _ => List.mem_cons_self, mem_starts_of_ne hop hframes⟩

end Walk

/-! ## Methods -/

/-- The locals that values take are as many as their slots. -/
theorem length_spread (types : List VerificationType) :
    (spread types).length = slotsOfTypes types := by
  induction types with
  | nil => rfl
  | cons type types ih =>
    have hslots : 1 ≤ type.slots.toNat := by
      show 1 ≤ (Operand.typed type).slots
      rw [Operand.slots_eq]
      cases (Operand.typed type).family <;> decide
    rw [spread, List.flatMap_cons, List.length_append, List.length_cons, List.length_replicate]
    show _ + (spread types).length = type.slots.toNat + slotsOfTypes types
    omega

/-- The object and the parameters have their place among the locals. -/
theorem length_locals_entry {type : MethodType} (hslots : slotsOfTypes (argumentTypes type) < 65535)
    {maxLocals : Nat} (h : (1 + type.parameterSlots).toNat ≤ maxLocals)
    (receiver : Option Operand) :
    (State.entry maxLocals receiver type.parameters).locals.length = maxLocals := by
  rw [toNat_one_add_parameterSlots hslots, slotsOfTypes_argumentTypes] at h
  refine length_pad (Nat.le_trans ?_ h)
  have hreceiver : receiver.toList.length ≤ 1 := by cases receiver <;> simp
  rw [List.length_append, List.length_map, length_spread, slotsOfTypes, List.map_map, Nat.add_comm]
  exact Nat.add_le_add_left hreceiver _

/-- The types flow through the operations of a method of the class, however many locals it has. -/
def FlowsThrough (image : Image) (m : Method) (receiver : Option Operand) : Prop :=
  ∀ maxLocals, (State.entry maxLocals receiver m.type.parameters).locals.length = maxLocals →
    Flow ⟨image.name, image.superName, m.type.result, 65535, maxLocals⟩
      (fun label frame => .bind label frame ∈ m.body.operations)
      (some (.entry maxLocals receiver m.type.parameters)) m.body.operations none

/-- A method is verified if the types flow through its operations. -/
theorem verifies_of_flow {image : Image} {m : Method} {info : MemberInfo}
    (hm : m.Describes image.constants info) (hnodup : (boundLabels m.body.operations).Nodup)
    (hslots : slotsOfTypes (argumentTypes m.type) < 65535)
    (hplain : m.type.IsPlain) (hcovers : ∀ op ∈ m.body.operations, Covers image.constants op)
    (hflow : FlowsThrough image m (receiver image info m.type)) : Verifies image info := by
  obtain ⟨code, ⟨p, q, hp, hassemble, hle⟩, own, hown, hread⟩ := hm.code
  obtain ⟨hfinish, rfl⟩ := Body.assemble_eq_ok hassemble
  obtain ⟨_, _, hfault, -, -, -, hcode⟩ := Assembler.finish_eq_ok hfinish
  have hlocated := Assembler.located_of_finish hp hnodup hfinish hle
  have hstack : own.maxStack = _ := hown.maxStack.trans (congrArg Code.maxStack hcode)
  have hlocals : own.maxLocals = _ := hown.maxLocals.trans (congrArg Code.maxLocals hcode)
  have hroom : (1 + m.type.parameterSlots).toNat ≤ own.maxLocals.toNat := by
    rw [hlocals]
    exact Assembler.maxLocals_le_steps hfault
  have hentry := length_locals_entry hslots hroom (receiver image info m.type)
  -- the flow keeps within the stack that the assembler has counted
  have htight : Flow (listing image m.type own code.frames).toScope _ _ _ _ :=
    Flow.tighten (hflow _ hentry) (s := Assembler.start p (1 + m.type.parameterSlots))
      (fun _ h => by cases h; rfl) hfault (Nat.le_of_eq (congrArg UInt16.toNat hstack.symm))
  have hcarries : (listing image m.type own code.frames).Carries _ m.body.operations :=
    ⟨Assembler.ordered_of_finish hfinish, Assembler.mem_frames_of_finish hnodup hfinish, hcovers⟩
  rw [← hown.bytes] at hlocated
  obtain ⟨starts, haccepts, -, hframes⟩ := accepts_of_flow hcarries htight rfl
    (List.nil_append _).symm hlocated (.same (by simp [placedFrames]))
    (fun _ h => by cases h; exact ⟨hentry, Nat.zero_le _⟩)
  refine ⟨m.type, own, code.frames, starts, hm.descriptor ▸ MethodType.read?_descriptor hplain,
    hread image rfl,
    hown.frames image rfl, haccepts, fun f hf => ?_⟩
  exact hframes f ((Assembler.mem_frames_of_finish hnodup hfinish f).mp hf)

/-! ## Code that is refused -/

/-- The verifier knows a rule for the instruction at which it is, and goes on behind it. -/
theorem Listing.Accepts.next {c : Listing} {here k : Nat} {incoming : Option State}
    {starts : List Nat} {command : Command Nat} (h : c.Accepts here incoming starts)
    (hfetch : fetch? c.constants c.code here = some (command, k)) :
    (∃ known starts', c.Accepts k known starts') ∧
      ∀ a, command = .act a → ∃ rule, HasRule c.constants a rule := by
  cases h with
  | done => exact absurd (lt_length_of_fetch? hfetch) (Nat.lt_irrefl _)
  | act _ _ fetch hasRule _ _ rest =>
    cases hfetch.symm.trans fetch
    refine ⟨⟨_, _, rest⟩, ?_⟩
    rintro _ ⟨⟩
    exact ⟨_, hasRule⟩
  | leave _ _ fetch hasRule _ rest =>
    cases hfetch.symm.trans fetch
    refine ⟨⟨_, _, rest⟩, ?_⟩
    rintro _ ⟨⟩
    exact ⟨_, hasRule⟩
  | jump _ _ fetch _ _ _ rest =>
    cases hfetch.symm.trans fetch
    exact ⟨⟨_, _, rest⟩, nofun⟩

/-- The verifier comes to every instruction of the code that it accepts, and knows a rule for it. -/
theorem exists_rule_of_accepts {c : Listing} {where? : Label → Option Nat} {ops : List Operation}
    {n : Nat} {incoming : Option State} {starts : List Nat}
    (hlocated : Located c.constants c.code where? ops n c.code.length)
    (h : c.Accepts n incoming starts) {op : Operation} {a : Action} (hop : op ∈ ops)
    (ha : op.command? = some (.act a)) : ∃ rule, HasRule c.constants a rule := by
  induction ops generalizing n incoming starts with
  | nil => cases hop
  | cons first ops ih =>
    obtain ⟨k, hfirst, hrest⟩ := hlocated
    obtain ⟨label, frame, rfl⟩ | hne := first.bind_or_ne
    · obtain ⟨-, rfl⟩ := hfirst
      obtain rfl | hop := List.mem_cons.mp hop
      · cases ha
      · exact ih hrest h hop
    · obtain ⟨command, -, hfetch⟩ := (standsAt_of_ne hne).mp hfirst
      obtain ⟨⟨known, starts', hnext⟩, hrule⟩ := h.next hfetch
      obtain rfl | hop := List.mem_cons.mp hop
      · cases hfetch.symm.trans (hfirst.act ha)
        exact hrule a rfl
      · exact ih hrest hnext hop

/-- A method that is verified reads only fields whose types can be read from their descriptors. -/
theorem isPlain_of_verifies {image : Image} {m : Method} {info : MemberInfo}
    (hm : m.Describes image.constants info) (hnodup : (boundLabels m.body.operations).Nodup)
    (h : Verifies image info) {owner name : String} {type : FieldType}
    (hop : .getField owner name type ∈ m.body.operations) : type.IsPlain := by
  obtain ⟨code, where?, hcode, hlocated⟩ := hm.located hnodup image rfl
  obtain ⟨_, code', _, _, -, hcode', -, haccepts, -⟩ := h
  cases hcode.symm.trans hcode'
  obtain ⟨rule, hrule⟩ := exists_rule_of_accepts hlocated haccepts hop rfl
  cases hrule with
  | getField read => exact FieldType.ofDescriptor?_descriptor_iff.mp ⟨_, read⟩

end SchemaRecords.Verifier
