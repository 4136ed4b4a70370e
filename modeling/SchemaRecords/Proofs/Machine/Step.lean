import Mathlib.Logic.Relation
import SchemaRecords.Proofs.ClassFile.Descriptor
import SchemaRecords.Proofs.ClassFile.Disassembly
import SchemaRecords.Proofs.Machine.Concatenation
import SchemaRecords.Proofs.Machine.State

/-!
# Running the code of a method

`step` fetches the instruction at an offset of the code, resolves its operands in
the constants of the class, and carries it out. It has no result where the
machine would stop or throw an exception: an operand is missing or of the wrong
kind, a field is used on null or on an object of another class, a field is not
declared by the class, a descriptor cannot be read. What a call takes from the
stack is said by the descriptor in the class file, also for a call site.

`Returns image w name descriptor memory arguments result after stores` says that
the method of the class with this name and descriptor, called in the world `w`
with the arguments, terminates with the result, leaves the memory `after` and has
made the assignments `stores`. `CallsSite` says that a method gets to a call of a
call site.

* `Runs.unique`, `Returns.unique`, `Returns.iff`: a call has one result.
-/

namespace SchemaRecords.Machine

open SchemaRecords.ClassFile

/-- A call site that is linked: the type of its calls, and what they concatenate. -/
structure Site where
  type : MethodType
  concatenation : Concatenation
deriving DecidableEq, Repr

/-- What the code of a method runs in. -/
structure Context where
  image : Image
  /-- The bootstrap methods of the class. -/
  bootstraps : List BootstrapInfo
  code : Bytes
  world : World

namespace Context

/-- Whether the class declares a field. -/
def declares (x : Context) (f : MemberRef) : Bool :=
  f.owner == x.image.name
    && x.image.fields.any fun m => m.name == f.name && m.descriptor == f.descriptor

/-- Whether an object has a field that the class declares. -/
def hasField (x : Context) (r : Reference) (f : MemberRef) : Bool :=
  x.declares f && x.world.isInstance r f.owner

/-- The call site at a pool index. Its name has no meaning to the method that links it. -/
def site? (x : Context) (site : UInt16) : Option Site :=
  match x.image.constants.invokeDynamic site with
  | .error _ => none
  | .ok (number, _, descriptor) =>
    match MethodType.read? descriptor, x.bootstraps[number.toNat]?.bind Concatenation.link? with
    | some type, some concatenation => some ⟨type, concatenation⟩
    | _, _ => none

end Context

/-! ## Instructions -/

/-- What an instruction that does not branch leads to. -/
inductive Outcome where
  | goes (a : Activation)
  | returns (value : Option Value) (a : Activation)

/-- The top `parameters.length` values of a stack in the order in which they were pushed, if they
are of the given types, and the stack below. -/
def takeArguments (parameters : List FieldType) (stack : List Value) :
    Option (List Value × List Value) :=
  let arguments := (stack.take parameters.length).reverse
  if arguments.map Value.kind = parameters.map Kind.ofType then
    some (arguments, stack.drop parameters.length)
  else none

/-- The stack after a method of another class returned. -/
def pushResult (w : World) (m : MemberRef) (arguments : List Value) (result : Option FieldType)
    (stack : List Value) : List Value :=
  match result with
  | none => stack
  | some t => w.call m arguments (Kind.ofType t) :: stack

/-- The stack after a call. A method that is not static is called on an object. -/
def call? (w : World) (kind : InvokeKind) (m : MemberRef) (stack : List Value) :
    Option (List Value) :=
  match MethodType.read? m.descriptor with
  | none => none
  | some type =>
    match takeArguments type.parameters stack, kind with
    | none, _ => none
    | some (arguments, rest), .static => some (pushResult w m arguments type.result rest)
    | some (arguments, .reference (some r) :: rest), _ =>
      some (pushResult w m (.object r :: arguments) type.result rest)
    | some _, _ => none

/-- The stack after two numbers on it were replaced by one. -/
def arithmetic? (f : Int32 → Int32 → Int32) : List Value → Option (List Value)
  | b :: a :: rest =>
    match a.number?, b.number? with
    | some a, some b => some (.int (f a b) :: rest)
    | _, _ => none
  | _ => none

/-- The stack after a call of a linked concatenation, which returns a string. -/
def concatenate? (w : World) (site : Site) (stack : List Value) : Option (List Value) :=
  if site.type.result = some (.object FieldType.stringName) then
    match takeArguments site.type.parameters stack with
    | none => none
    | some (arguments, rest) =>
      (site.concatenation.text? (arguments.map w.text)).map fun text => .object (w.string text) :: rest
  else none

/-- Carries out an instruction that does not branch. -/
def exec (x : Context) (a : Activation) : Action → Option Outcome
  | .push n => some (.goes (a.push (.int n)))
  | .load family slot =>
    match a.locals[slot]? with
    | some (some v) => if v.kind.family = family then some (.goes (a.push v)) else none
    | _ => none
  | .pop =>
    match a.stack with
    | v :: rest => if v.kind = .double then none else some (.goes { a with stack := rest })
    | [] => none
  | .dup =>
    match a.stack with
    | v :: _ => if v.kind = .double then none else some (.goes (a.push v))
    | [] => none
  | .iadd => (arithmetic? (· + ·) a.stack).map fun stack => .goes { a with stack }
  | .imul => (arithmetic? (· * ·) a.stack).map fun stack => .goes { a with stack }
  | .getField f =>
    match a.stack with
    | .reference (some r) :: rest =>
      if x.hasField r f then some (.goes { a with stack := a.memory.get r f :: rest }) else none
    | _ => none
  | .putField f =>
    match a.stack with
    | v :: .reference (some r) :: rest =>
      if h : x.hasField r f ∧ v.kind = Kind.ofDescriptor f.descriptor then
        some (.goes {
          a with
          stack := rest
          memory := a.memory.set r f v h.2
          stores := a.stores ++ [⟨r, f, v⟩] })
      else none
    | _ => none
  | .invoke kind m => (call? x.world kind m a.stack).map fun stack => .goes { a with stack }
  | .invokeDynamic site =>
    match x.site? site with
    | none => none
    | some linked => (concatenate? x.world linked a.stack).map fun stack => .goes { a with stack }
  | .checkCast name =>
    match a.stack with
    | .reference none :: _ => some (.goes a)
    | .reference (some r) :: _ => if x.world.isInstance r name then some (.goes a) else none
    | _ => none
  | .instanceOf name =>
    match a.stack with
    | .reference target :: rest =>
      let answer := if target.any (x.world.isInstance · name) then 1 else 0
      some (.goes { a with stack := .int answer :: rest })
    | _ => none
  | .returnValue family =>
    match a.stack with
    | v :: _ => if v.kind.family = family then some (.returns (some v) a) else none
    | [] => none
  | .returnVoid => some (.returns none a)

/-- Whether a branch is taken, and the stack after its test. -/
def test? : Condition → List Value → Option (Bool × List Value)
  | .zero, v :: rest => v.number?.map fun n => (n == 0, rest)
  | .nonzero, v :: rest => v.number?.map fun n => (n != 0, rest)
  | .intsDiffer, b :: a :: rest =>
    match a.number?, b.number? with
    | some m, some n => some (m != n, rest)
    | _, _ => none
  | .sameReference, .reference b :: .reference a :: rest => some (a == b, rest)
  | .always, stack => some (true, stack)
  | .null, .reference target :: rest => some (target == none, rest)
  | .nonnull, .reference target :: rest => some (target != none, rest)
  | _, _ => none

/-! ## Steps and runs -/

/-- A running method: the offset of its next instruction, and its activation. -/
structure State where
  offset : Nat
  activation : Activation

/-- What a step leads to. -/
inductive Next where
  | running (s : State)
  | returned (value : Option Value) (a : Activation)

/-- One step of a method. -/
def step (x : Context) (s : State) : Option Next :=
  match fetch? x.image.constants x.code s.offset with
  | none => none
  | some (.act action, next) =>
    match exec x s.activation action with
    | none => none
    | some (.goes a) => some (.running ⟨next, a⟩)
    | some (.returns value a) => some (.returned value a)
  | some (.jump condition target, next) =>
    (test? condition s.activation.stack).map fun (taken, stack) =>
      .running ⟨if taken then target else next, { s.activation with stack }⟩

/-- Some number of steps leads from one state to another. -/
def Reaches (x : Context) : State → State → Prop :=
  Relation.ReflTransGen fun s s' => step x s = some (.running s')

/-- The method returns. -/
inductive Runs (x : Context) : State → Option Value → Activation → Prop
  | returned {s : State} {value : Option Value} {a : Activation}
      (h : step x s = some (.returned value a)) : Runs x s value a
  | running {s s' : State} {value : Option Value} {a : Activation}
      (h : step x s = some (.running s')) (rest : Runs x s' value a) : Runs x s value a

theorem Reaches.runs {x : Context} {s s' : State} {value : Option Value} {a : Activation}
    (h : Reaches x s s') (h' : Runs x s' value a) : Runs x s value a := by
  induction h using Relation.ReflTransGen.head_induction_on with
  | refl => exact h'
  | head hstep _ ih => exact .running hstep ih

/-- A run goes through every state that is reached. -/
theorem Reaches.runs_of_runs {x : Context} {s s' : State} {value : Option Value} {a : Activation}
    (h : Reaches x s s') (h' : Runs x s value a) : Runs x s' value a := by
  induction h using Relation.ReflTransGen.head_induction_on with
  | refl => exact h'
  | head hstep _ ih =>
    cases h' with
    | returned h' => cases hstep.symm.trans h'
    | running h' rest =>
      cases hstep.symm.trans h'
      exact ih rest

theorem Runs.unique {x : Context} {s : State} {value value' : Option Value} {a a' : Activation}
    (h : Runs x s value a) (h' : Runs x s value' a') : value = value' ∧ a = a' := by
  induction h with
  | returned h =>
    cases h' with
    | returned h' =>
      cases h.symm.trans h'
      exact ⟨rfl, rfl⟩
    | running h' _ => cases h.symm.trans h'
  | running h _ ih =>
    cases h' with
    | returned h' => cases h.symm.trans h'
    | running h' rest =>
      cases h.symm.trans h'
      exact ih rest

/-! ## Calls -/

/-- The method of a class with a name and descriptor terminates with a result, a memory and the
assignments it made. -/
def Returns (image : Image) (w : World) (name descriptor : String) (memory : Memory)
    (arguments : List Value) (result : Option Value) (after : Memory) (stores : List Store) :
    Prop :=
  ∃ info code bootstraps locals stack, image.method? name descriptor = some info ∧
    image.code info = .ok (some code) ∧ image.bootstraps = .ok bootstraps ∧
    Runs ⟨image, bootstraps, code.bytes, w⟩ ⟨0, Activation.entry memory arguments⟩ result
      ⟨stack, locals, after, stores⟩

theorem Returns.unique {image : Image} {w : World} {name descriptor : String}
    {memory after after' : Memory} {arguments : List Value} {result result' : Option Value}
    {stores stores' : List Store}
    (h : Returns image w name descriptor memory arguments result after stores)
    (h' : Returns image w name descriptor memory arguments result' after' stores') :
    result = result' ∧ after = after' ∧ stores = stores' := by
  obtain ⟨info, code, bootstraps, locals, stack, hinfo, hcode, hboot, hruns⟩ := h
  obtain ⟨info', code', bootstraps', locals', stack', hinfo', hcode', hboot', hruns'⟩ := h'
  cases hinfo.symm.trans hinfo'
  cases hcode.symm.trans hcode'
  cases hboot.symm.trans hboot'
  obtain ⟨hresult, ha⟩ := hruns.unique hruns'
  cases ha
  exact ⟨hresult, rfl, rfl⟩

/-- The method of a class with a name and descriptor gets to a call of the call site at a pool
index, with these operands pushed in order. -/
def CallsSite (image : Image) (w : World) (name descriptor : String) (memory : Memory)
    (arguments operands : List Value) (site : UInt16) : Prop :=
  ∃ info code bootstraps offset next a, image.method? name descriptor = some info ∧
    image.code info = .ok (some code) ∧ image.bootstraps = .ok bootstraps ∧
    Reaches ⟨image, bootstraps, code.bytes, w⟩ ⟨0, Activation.entry memory arguments⟩
      ⟨offset, a⟩ ∧
    a.stack = operands.reverse ∧
    fetch? image.constants code.bytes offset = some (.act (.invokeDynamic site), next)

/-- What a call comes to, and nothing else, is what it is known to come to. -/
theorem Returns.iff {image : Image} {w : World} {name descriptor : String}
    {memory after after' : Memory} {arguments : List Value} {result result' : Option Value}
    {stores stores' : List Store}
    (h : Returns image w name descriptor memory arguments result after stores) :
    Returns image w name descriptor memory arguments result' after' stores' ↔
      result' = result ∧ after' = after ∧ stores' = stores := by
  constructor
  · intro h'
    exact h'.unique h
  · rintro ⟨rfl, rfl, rfl⟩
    exact h

end SchemaRecords.Machine
