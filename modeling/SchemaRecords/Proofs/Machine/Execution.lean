import SchemaRecords.Proofs.ClassFile.Members
import SchemaRecords.Proofs.Machine.Step

/-!
# Running operations

`run` carries out a list of operations without regard to where their bytes are:
it stops at the end of the list, at a branch that is taken, or at a return. The
bytes of a method do what its operations do: if the operations are located in
the code, the machine arrives where `run` does (`arrives_of_run`).

The lemmas `run_load`, `run_getField` and so on say what single operations do.
-/

namespace SchemaRecords.Machine

open SchemaRecords.ClassFile

/-- How a list of operations is left. -/
inductive Exit where
  /-- At its end. -/
  | falls (a : Activation)
  /-- By a branch. -/
  | jumps (target : Label) (a : Activation)
  | returns (value : Option Value) (a : Activation)

/-- Carries out operations. Labels are passed by. -/
def run (x : Context) : List Operation → Activation → Option Exit
  | [], a => some (.falls a)
  | op :: ops, a =>
    match op.command? with
    | none => run x ops a
    | some (.act action) =>
      match exec x a action with
      | none => none
      | some (.goes a) => run x ops a
      | some (.returns value a) => some (.returns value a)
    | some (.jump condition target) =>
      match test? condition a.stack with
      | none => none
      | some (true, stack) => some (.jumps target { a with stack })
      | some (false, stack) => run x ops { a with stack }

variable {x : Context}

/-- Operations are carried out one list after the other. -/
theorem run_append (ops ops' : List Operation) (a : Activation) :
    run x (ops ++ ops') a =
      match run x ops a with
      | some (.falls a) => run x ops' a
      | other => other := by
  induction ops generalizing a with
  | nil => rfl
  | cons op ops ih =>
    rw [List.cons_append, run, run]
    split
    · exact ih a
    · split
      · rfl
      · exact ih _
      · rfl
    · split
      · rfl
      · rfl
      · exact ih _

/-! ## From operations to bytes -/

/-- The machine gets from a state to where the operations are left; those that are left at their
end are left at offset `m`. -/
def Arrives (x : Context) (where? : Label → Option Nat) (s : State) (m : Nat) : Exit → Prop
  | .falls a => Reaches x s ⟨m, a⟩
  | .jumps target a => ∃ there, where? target = some there ∧ Reaches x s ⟨there, a⟩
  | .returns value a => Runs x s value a

section Simulation

variable {where? : Label → Option Nat} {m : Nat} {e : Exit}

theorem Reaches.arrives {s s' : State} (h : Reaches x s s') (h' : Arrives x where? s' m e) :
    Arrives x where? s m e := by
  cases e with
  | falls a => exact Relation.ReflTransGen.trans h h'
  | jumps target a =>
    obtain ⟨there, hthere, h'⟩ := h'
    exact ⟨there, hthere, Relation.ReflTransGen.trans h h'⟩
  | returns value a => exact h.runs h'

theorem step_of_act {n k : Nat} {a : Activation} {action : Action}
    (hfetch : fetch? x.image.constants x.code n = some (.act action, k)) :
    step x ⟨n, a⟩ = (exec x a action).map fun
      | .goes a => .running ⟨k, a⟩
      | .returns value a => .returned value a := by
  rw [step, hfetch]
  simp only
  split <;> rename_i h <;> rw [h] <;> rfl

theorem step_of_jump {n k there : Nat} {a : Activation} {condition : Condition}
    (hfetch : fetch? x.image.constants x.code n = some (.jump condition there, k)) :
    step x ⟨n, a⟩ = (test? condition a.stack).map fun (taken, stack) =>
      .running ⟨if taken then there else k, { a with stack }⟩ := by
  rw [step, hfetch]

/-- The machine arrives where the operations do. -/
theorem arrives_of_run {ops : List Operation} {n : Nat} {a : Activation}
    (h : Located x.image.constants x.code where? ops n m) (hrun : run x ops a = some e) :
    Arrives x where? ⟨n, a⟩ m e := by
  induction ops generalizing n a with
  | nil =>
    cases hrun
    cases h
    exact .refl
  | cons op ops ih =>
    obtain ⟨k, hop, hops⟩ := h
    rw [run] at hrun
    split at hrun
    · -- a label has no instruction
      rename_i hnone
      cases op with
      | bind label frame =>
        obtain ⟨-, rfl⟩ := hop
        exact ih hops hrun
      | _ => cases hnone
    · rename_i action haction
      have hstep := step_of_act (a := a) (hop.act haction)
      split at hrun
      · cases hrun
      · rename_i a' hexec
        rw [hexec] at hstep
        exact Reaches.arrives (.single hstep) (ih hops hrun)
      · rename_i value a' hexec
        rw [hexec] at hstep
        cases hrun
        exact .returned hstep
    · rename_i condition target hjump
      have hbranch : op = .branch condition target := by
        cases op <;> cases hjump
        rfl
      subst hbranch
      obtain ⟨there, hthere, hfetch⟩ := hop.jump
      have hstep := step_of_jump (a := a) hfetch
      split at hrun
      · cases hrun
      · rename_i stack htest
        rw [htest] at hstep
        cases hrun
        exact ⟨there, hthere, .single hstep⟩
      · -- the branch is not taken
        rename_i stack htest
        rw [htest] at hstep
        exact Reaches.arrives (.single hstep) (ih hops hrun)

end Simulation

/-! ## Single operations -/

section Operations

variable {ops : List Operation} {stack : List Value} {locals : List (Option Value)}
  {memory : Memory} {stores : List Store}

@[simp]
theorem run_nil (a : Activation) : run x [] a = some (.falls a) := rfl

@[simp]
theorem run_bind (label : Label) (frame : Frame) (a : Activation) :
    run x (.bind label frame :: ops) a = run x ops a := rfl

@[simp]
theorem run_const (n : Int32) (a : Activation) :
    run x (.const n :: ops) a = run x ops (a.push (.int n)) := rfl

theorem run_load {a : Activation} {slot : UInt16} {type : FieldType} {v : Value}
    (hslot : a.locals[slot.toNat]? = some (some v)) (hfamily : v.kind.family = type.family) :
    run x (.load slot type :: ops) a = run x ops (a.push v) := by
  rw [run]
  simp only [Operation.command?, exec, hslot, hfamily, if_true]

theorem run_getField {owner name : String} {type : FieldType} {r : Reference}
    (h : x.hasField r ⟨owner, name, type.descriptor⟩) :
    run x (.getField owner name type :: ops) ⟨.object r :: stack, locals, memory, stores⟩ =
      run x ops ⟨memory.get r ⟨owner, name, type.descriptor⟩ :: stack, locals, memory, stores⟩ := by
  rw [run]
  simp only [Operation.command?, exec, Value.object, h, if_true]

theorem run_putField {owner name : String} {type : FieldType} {r : Reference} {v : Value}
    (h : x.hasField r ⟨owner, name, type.descriptor⟩) (hv : v.HasType type) :
    run x (.putField owner name type :: ops) ⟨v :: .object r :: stack, locals, memory, stores⟩ =
      run x ops ⟨stack, locals, memory.write ⟨r, ⟨owner, name, type.descriptor⟩, v⟩,
        stores ++ [⟨r, ⟨owner, name, type.descriptor⟩, v⟩]⟩ := by
  have hkind : v.kind = Kind.ofDescriptor type.descriptor := by
    rw [Kind.ofDescriptor_descriptor]
    exact hv
  have htyped : Store.Typed ⟨r, ⟨owner, name, type.descriptor⟩, v⟩ := hkind
  rw [Memory.write_of_typed htyped, run]
  simp only [Operation.command?, exec, Value.object, h, hkind, and_self, dite_true]

theorem run_iadd {a b : Value} {m n : Int32} (ha : a.number? = some m) (hb : b.number? = some n) :
    run x (.iadd :: ops) ⟨b :: a :: stack, locals, memory, stores⟩ =
      run x ops ⟨.int (m + n) :: stack, locals, memory, stores⟩ := by
  rw [run]
  simp only [Operation.command?, exec, arithmetic?, ha, hb, Option.map_some]

theorem run_imul {a b : Value} {m n : Int32} (ha : a.number? = some m) (hb : b.number? = some n) :
    run x (.imul :: ops) ⟨b :: a :: stack, locals, memory, stores⟩ =
      run x ops ⟨.int (m * n) :: stack, locals, memory, stores⟩ := by
  rw [run]
  simp only [Operation.command?, exec, arithmetic?, ha, hb, Option.map_some]

theorem run_checkCast {a : Activation} {name : String} {r : Reference}
    (hstack : a.stack = .object r :: stack) (h : x.world.isInstance r name) :
    run x (.checkCast name :: ops) a = run x ops a := by
  rw [run]
  simp only [Operation.command?, exec, hstack, Value.object, h, if_true]

theorem run_instanceOf {name : String} {target : Option Reference} :
    run x (.instanceOf name :: ops) ⟨.reference target :: stack, locals, memory, stores⟩ =
      run x ops ⟨.int (if target.any (x.world.isInstance · name) then 1 else 0) :: stack, locals,
        memory, stores⟩ := rfl

@[simp]
theorem run_returnVoid (a : Activation) :
    run x (.returnVoid :: ops) a = some (.returns none a) := rfl

theorem run_returnValue {a : Activation} {type : FieldType} {v : Value}
    (hstack : a.stack = v :: stack) (hfamily : v.kind.family = type.family) :
    run x (.returnValue type :: ops) a = some (.returns (some v) a) := by
  rw [run]
  simp only [Operation.command?, exec, hstack, hfamily, if_true]

theorem run_branch_taken {condition : Condition} {target : Label} {a : Activation}
    (h : test? condition a.stack = some (true, stack)) :
    run x (.branch condition target :: ops) a = some (.jumps target { a with stack }) := by
  rw [run]
  simp only [Operation.command?, h]

theorem run_branch_passed {condition : Condition} {target : Label} {a : Activation}
    (h : test? condition a.stack = some (false, stack)) :
    run x (.branch condition target :: ops) a = run x ops { a with stack } := by
  rw [run]
  simp only [Operation.command?, h]

/-- A branch at the end of a list is taken or falls through. -/
theorem run_branch_last {condition : Condition} {target : Label} {a : Activation} {taken : Bool}
    (h : test? condition a.stack = some (taken, stack)) :
    run x [.branch condition target] a =
      some (if taken then .jumps target { a with stack } else .falls { a with stack }) := by
  cases taken with
  | true => exact run_branch_taken h
  | false => exact run_branch_passed h

/-- The arguments are on the stack, the last on top. -/
theorem takeArguments_append {parameters : List FieldType} {arguments : List Value}
    (h : List.Forall₂ Value.HasType arguments parameters) (stack : List Value) :
    takeArguments parameters (arguments.reverse ++ stack) = some (arguments, stack) := by
  have hlength : parameters.length = arguments.reverse.length := by
    rw [List.length_reverse, h.length_eq]
  have hkinds : arguments.map Value.kind = parameters.map Kind.ofType := by
    induction h with
    | nil => rfl
    | cons hv _ ih => rw [List.map_cons, List.map_cons, hv, ih (by simpa using hlength)]
  unfold takeArguments
  rw [hlength, List.take_left, List.drop_left, List.reverse_reverse, if_pos hkinds]

section Calls

variable {owner name : String} {type : MethodType} {arguments : List Value}

theorem run_invokeStatic {a : Activation} (hplain : type.IsPlain)
    (harguments : List.Forall₂ Value.HasType arguments type.parameters)
    (hstack : a.stack = arguments.reverse ++ stack) :
    run x (.invoke .static owner name type :: ops) a =
      run x ops { a with
        stack := pushResult x.world ⟨owner, name, type.descriptor⟩ arguments type.result stack }
      := by
  have hcall : call? x.world .static ⟨owner, name, type.descriptor⟩ a.stack
      = some (pushResult x.world ⟨owner, name, type.descriptor⟩ arguments type.result stack) := by
    rw [call?, MethodType.read?_descriptor hplain, hstack]
    simp only
    rw [takeArguments_append harguments]
  rw [run]
  simp only [Operation.command?, exec, hcall, Option.map_some]

/-- A method that is not static is called on the object below its arguments. -/
theorem run_invokeObject {kind : InvokeKind} {a : Activation} {r : Reference}
    (hkind : kind ≠ .static) (hplain : type.IsPlain)
    (harguments : List.Forall₂ Value.HasType arguments type.parameters)
    (hstack : a.stack = arguments.reverse ++ .object r :: stack) :
    run x (.invoke kind owner name type :: ops) a =
      run x ops { a with
        stack := pushResult x.world ⟨owner, name, type.descriptor⟩ (.object r :: arguments)
          type.result stack } := by
  have hcall : call? x.world kind ⟨owner, name, type.descriptor⟩ a.stack
      = some (pushResult x.world ⟨owner, name, type.descriptor⟩ (.object r :: arguments)
          type.result stack) := by
    rw [call?, MethodType.read?_descriptor hplain, hstack]
    simp only
    rw [takeArguments_append harguments]
    cases kind with
    | static => exact absurd rfl hkind
    | virtual => rfl
    | special => rfl
  rw [run]
  simp only [Operation.command?, exec, hcall, Option.map_some]

theorem run_invokeDynamic {site : UInt16} {linked : Site} {a : Activation} {text : String}
    (hsite : x.site? site = some linked)
    (hresult : linked.type.result = some (.object FieldType.stringName))
    (harguments : List.Forall₂ Value.HasType arguments linked.type.parameters)
    (hstack : a.stack = arguments.reverse ++ stack)
    (htext : linked.concatenation.text? (arguments.map x.world.text) = some text) :
    run x (.invokeDynamic site type :: ops) a =
      run x ops { a with stack := .object (x.world.string text) :: stack } := by
  have hconcatenate : concatenate? x.world linked a.stack
      = some (.object (x.world.string text) :: stack) := by
    rw [concatenate?, if_pos hresult, hstack, takeArguments_append harguments]
    simp only [htext, Option.map_some]
  rw [run]
  simp only [Operation.command?, exec, hsite, hconcatenate, Option.map_some]

end Calls

end Operations

/-- A call of a site whose type has another number of parameters than the recipe has tags fails. -/
theorem concatenate?_eq_none {w : World} {site : Site}
    (h : site.type.parameters.length ≠ site.concatenation.arity) (stack : List Value) :
    concatenate? w site stack = none := by
  unfold concatenate? takeArguments
  split
  · dsimp only
    split
    · rfl
    · rename_i arguments rest harguments
      obtain ⟨hkinds, heq⟩ := Option.ite_none_right_eq_some.mp harguments
      cases heq
      rw [Option.map_eq_none_iff, Concatenation.text?, Option.map_eq_none_iff]
      by_contra hexpand
      obtain ⟨text, htext⟩ := Option.ne_none_iff_exists'.mp hexpand
      have hcount := Concatenation.count_of_expand htext
      have hlength := congrArg List.length hkinds
      rw [List.length_map] at hcount
      rw [List.length_map, List.length_map] at hlength
      exact h (hlength.symm.trans hcount.symm)
  · rfl

/-! ## Calls -/

/-- A method returns what its operations make it return. -/
theorem returns_of_runs {image : Image} {w : World} {m : Method} {info : MemberInfo}
    {bootstraps : List BootstrapInfo} {memory after : Memory} {arguments stack : List Value}
    {result : Option Value} {locals : List (Option Value)} {stores : List Store}
    (hfind : image.method? m.name m.type.descriptor = some info)
    (hinfo : m.Describes image.constants info) (hlabels : (boundLabels m.body.operations).Nodup)
    (hbootstraps : image.bootstraps = .ok bootstraps)
    (hruns : ∀ code where?,
      Located image.constants code where? m.body.operations 0 code.length →
      Runs ⟨image, bootstraps, code, w⟩ ⟨0, Activation.entry memory arguments⟩ result
        ⟨stack, locals, after, stores⟩) :
    Returns image w m.name m.type.descriptor memory arguments result after stores := by
  obtain ⟨code, where?, hcode, hlocated⟩ := hinfo.located hlabels image rfl
  exact ⟨info, code, bootstraps, locals, stack, hfind, hcode, hbootstraps,
    hruns code.bytes where? hlocated⟩

end SchemaRecords.Machine
