import SchemaRecords.Proofs.ClassFile.Assembly
import SchemaRecords.Proofs.Verifier.Check

/-!
# Types along operations

`Flow x declares before ops after` follows the types along the operations of a
method body, where branches still name labels and labels carry their frames. It
is the verifier's walk before assembly: `none` stands for a place that is not
reached from the operation before. The flow of a body is put together by
`Flow.append` from those of its operations.

* `hasRule_of_ruleOf`: the instruction of an operation has the operation's rule.
-/

namespace SchemaRecords.Verifier

open SchemaRecords.ClassFile

/-! ## Rules of operations -/

/-- The rule of an operation that neither branches nor binds a label. -/
def ruleOf : Operation → Option Rule
  | .load slot type => some (.load type.family slot.toNat)
  | .const _ => some (.uses [] [.integer])
  | .iadd => some (.uses [.integer, .integer] [.integer])
  | .imul => some (.uses [.integer, .integer] [.integer])
  | .dup => some .dup
  | .pop => some .pop
  | .getField owner _ type => some (.uses [.object owner] [type.verification])
  | .putField owner _ type => some (.uses [type.verification, .object owner] [])
  | .invoke .static _ name type =>
    if name = constructorName then none
    else some (.uses (argumentTypes type) (resultTypes type))
  | .invoke .virtual owner name type =>
    if name = constructorName then none
    else some (.uses (argumentTypes type ++ [.object owner]) (resultTypes type))
  | .invoke .special owner name type =>
    if name = constructorName ∧ type.result = none then
      some (.construct owner (argumentTypes type))
    else none
  | .invokeDynamic _ type => some (.uses (argumentTypes type) (resultTypes type))
  | .checkCast name => some (.uses [.object FieldType.objectName] [.object name])
  | .instanceOf _ => some (.uses [.object FieldType.objectName] [.integer])
  | .branch _ _ => none
  | .bind _ _ => none
  | .returnVoid => some (.returns none)
  | .returnValue type => some (.returns (some type.family))

/-- The types of an operation can be read from their descriptors, and a call site that it calls is
that of a method of this type. -/
def Covers (t : ConstantTable) (op : Operation) : Prop :=
  op.IsPlain ∧ ∀ site type, op = .invokeDynamic site type →
    ∃ number name, t.invokeDynamic site = .ok (number, name, type.descriptor) ∧
      name ≠ constructorName

/-- The instruction of an operation has the operation's rule. -/
theorem hasRule_of_ruleOf {t : ConstantTable} {op : Operation} {rule : Rule}
    (h : ruleOf op = some rule) (hcovers : Covers t op) :
    ∃ a, op.command? = some (.act a) ∧ HasRule t a rule := by
  cases op with
  | load slot type => cases h; exact ⟨_, rfl, .load _ _⟩
  | const value => cases h; exact ⟨_, rfl, .push _⟩
  | iadd => cases h; exact ⟨_, rfl, .iadd⟩
  | imul => cases h; exact ⟨_, rfl, .imul⟩
  | dup => cases h; exact ⟨_, rfl, .dup⟩
  | pop => cases h; exact ⟨_, rfl, .pop⟩
  | getField owner name type =>
    cases h
    have hread := FieldType.ofDescriptor?_descriptor hcovers.1
    exact ⟨_, rfl, .getField (f := ⟨owner, name, type.descriptor⟩) hread⟩
  | putField owner name type =>
    cases h
    have hread := FieldType.ofDescriptor?_descriptor hcovers.1
    exact ⟨_, rfl, .putField (f := ⟨owner, name, type.descriptor⟩) hread⟩
  | invoke kind owner name type =>
    have hread := MethodType.read?_descriptor hcovers.1
    refine ⟨.invoke kind ⟨owner, name, type.descriptor⟩, rfl, ?_⟩
    cases kind with
    | static =>
      obtain ⟨hname, hrule⟩ := Option.ite_none_left_eq_some.mp h
      cases hrule
      exact .invokeStatic hread hname
    | virtual =>
      obtain ⟨hname, hrule⟩ := Option.ite_none_left_eq_some.mp h
      cases hrule
      exact .invokeVirtual (m := ⟨owner, name, type.descriptor⟩) hread hname
    | special =>
      obtain ⟨⟨hname, hvoid⟩, hrule⟩ := Option.ite_none_right_eq_some.mp h
      cases hrule
      exact .construct (m := ⟨owner, name, type.descriptor⟩) hread hname hvoid
  | invokeDynamic site type =>
    cases h
    obtain ⟨number, name, hsite, hname⟩ := hcovers.2 site type rfl
    exact ⟨_, rfl, .invokeDynamic hsite (MethodType.read?_descriptor hcovers.1) hname⟩
  | checkCast name => cases h; exact ⟨_, rfl, .checkCast _⟩
  | instanceOf name => cases h; exact ⟨_, rfl, .instanceOf _⟩
  | branch condition target => cases h
  | bind label frame => cases h
  | returnVoid => cases h; exact ⟨_, rfl, .returnVoid⟩
  | returnValue type => cases h; exact ⟨_, rfl, .returnValue _⟩

theorem ne_bind_of_ruleOf {op : Operation} {rule : Rule} (h : ruleOf op = some rule) :
    ∀ label frame, op ≠ .bind label frame := by
  rintro label frame rfl
  cases h

/-! ## Flows -/

/-- The operations lead from what is known before them to what is known after them; `declares` says
which frame a label has. -/
inductive Flow (x : Scope) (declares : Label → Frame → Prop) :
    Option State → List Operation → Option State → Prop
  | nil {s : Option State} : Flow x declares s [] s
  | bind {before after : Option State} {label : Label} {frame : Frame} {ops : List Operation}
      (flows : ∀ s ∈ before, s.FlowsInto (.ofFrame x.maxLocals frame))
      (fits : x.Fits (.ofFrame x.maxLocals frame))
      (rest : Flow x declares (some (.ofFrame x.maxLocals frame)) ops after) :
      Flow x declares before (.bind label frame :: ops) after
  | act {s s' : State} {after : Option State} {op : Operation} {rule : Rule}
      {ops : List Operation} (hasRule : ruleOf op = some rule) (acts : rule.Acts x s s')
      (fits : x.Fits s') (rest : Flow x declares (some s') ops after) :
      Flow x declares (some s) (op :: ops) after
  | leave {s : State} {after : Option State} {op : Operation} {rule : Rule}
      {ops : List Operation} (hasRule : ruleOf op = some rule) (returns : rule.Returns x s)
      (rest : Flow x declares none ops after) : Flow x declares (some s) (op :: ops) after
  | jump {s s' : State} {after : Option State} {condition : Condition} {target : Label}
      {frame : Frame} {ops : List Operation}
      (acts : (Rule.uses (tested condition) []).Acts x s s') (fits : x.Fits s')
      (declared : declares target frame) (flows : s'.FlowsInto (.ofFrame x.maxLocals frame))
      (rest : Flow x declares (if condition = .always then none else some s') ops after) :
      Flow x declares (some s) (.branch condition target :: ops) after

theorem Flow.append {x : Scope} {declares : Label → Frame → Prop} {a b c : Option State}
    {ops ops' : List Operation} (h : Flow x declares a ops b) (h' : Flow x declares b ops' c) :
    Flow x declares a (ops ++ ops') c := by
  induction h with
  | nil => exact h'
  | bind flows fits _ ih => exact .bind flows fits (ih h')
  | act hasRule acts fits _ ih => exact .act hasRule acts fits (ih h')
  | leave hasRule returns _ ih => exact .leave hasRule returns (ih h')
  | jump acts fits declared flows _ ih => exact .jump acts fits declared flows (ih h')

theorem Flow.cons {x : Scope} {declares : Label → Frame → Prop} {a b c : Option State}
    {op : Operation} {ops : List Operation} (h : Flow x declares a [op] b)
    (h' : Flow x declares b ops c) : Flow x declares a (op :: ops) c :=
  h.append h'

theorem Flow.flatMap {α : Type} {x : Scope} {declares : Label → Frame → Prop} {s : Option State}
    {f : α → List Operation} {as : List α} (h : ∀ a ∈ as, Flow x declares s (f a) s) :
    Flow x declares s (as.flatMap f) s := by
  induction as with
  | nil => exact .nil
  | cons a as ih =>
    rw [List.flatMap_cons]
    exact (h a List.mem_cons_self).append (ih fun b hb => h b (List.mem_cons_of_mem _ hb))

/-! ## Flows of single operations -/

theorem slotsOf_le (os : List Operand) : slotsOf os ≤ 2 * os.length := by
  induction os with
  | nil => exact Nat.le_refl _
  | cons o os ih =>
    have hslots : o.slots ≤ 2 := by
      rw [o.slots_eq]
      cases o.family <;> decide
    rw [slotsOf, List.length_cons]
    omega

/-- There is all the room on the stack that can be counted, and the locals are those of the
method. -/
structure Scope.Roomy (x : Scope) (locals : List (Option Operand)) : Prop where
  depth : x.maxStack = 65535
  locals : locals.length = x.maxLocals

/-- The number of operands for which there is always room. -/
def operandLimit : Nat := 32767

theorem Scope.Roomy.fits {x : Scope} {locals : List (Option Operand)} (h : x.Roomy locals)
    {stack : List Operand} (hstack : stack.length ≤ operandLimit) (constructing : Bool) :
    x.Fits ⟨locals, stack, constructing⟩ := by
  refine ⟨h.locals, ?_⟩
  show slotsOf stack ≤ x.maxStack
  have hle := slotsOf_le stack
  rw [operandLimit] at hstack
  rw [h.depth]
  omega

namespace Flow

variable {x : Scope} {declares : Label → Frame → Prop} {locals : List (Option Operand)}
  {stack : List Operand} {b : Bool}

theorem load (h : x.Roomy locals) {slot : UInt16} {type : FieldType} {o : Operand}
    (held : locals[slot.toNat]? = some (some o)) (hfamily : type.family = o.family)
    (wide : o.slots = 2 → locals[slot.toNat + 1]? = some none)
    (hstack : (o :: stack).length ≤ operandLimit) :
    Flow x declares (some ⟨locals, stack, b⟩) [.load slot type]
      (some ⟨locals, o :: stack, b⟩) := by
  have hrule : ruleOf (.load slot type) = some (.load o.family slot.toNat) := by
    rw [← hfamily]
    rfl
  exact .act hrule (.load held wide) (h.fits hstack b) .nil

theorem loadReference (h : x.Roomy locals) {slot : UInt16} {o : Operand}
    (held : locals[slot.toNat]? = some (some o)) (hfamily : o.family = .reference)
    (hstack : (o :: stack).length ≤ operandLimit) :
    Flow x declares (some ⟨locals, stack, b⟩) [.loadReference slot]
      (some ⟨locals, o :: stack, b⟩) := by
  refine load h held hfamily.symm (fun hwide => ?_) hstack
  rw [o.slots_eq, hfamily] at hwide
  cases hwide

/-- An operation that takes the given operands from the stack. -/
theorem uses (h : x.Roomy locals) {op : Operation} {pops pushes : List VerificationType}
    {before after : List Operand} (operands : List Operand)
    (hop : ruleOf op = some (.uses pops pushes)) (hbefore : before = operands ++ stack)
    (hafter : after = pushes.map .typed ++ stack)
    (hoperands : List.Forall₂ Assignable operands (pops.map .typed))
    (hstack : after.length ≤ operandLimit) :
    Flow x declares (some ⟨locals, before, b⟩) [op] (some ⟨locals, after, b⟩) := by
  subst hafter
  exact .act hop (.uses hbefore hoperands) (h.fits hstack b) .nil

theorem dup (h : x.Roomy locals) {o : Operand} (hnarrow : o.slots = 1)
    (hstack : (o :: o :: stack).length ≤ operandLimit) :
    Flow x declares (some ⟨locals, o :: stack, b⟩) [.dup] (some ⟨locals, o :: o :: stack, b⟩) :=
  .act rfl (.dup rfl hnarrow) (h.fits hstack b) .nil

theorem pop (h : x.Roomy locals) {o : Operand} (hnarrow : o.slots = 1)
    (hstack : stack.length ≤ operandLimit) :
    Flow x declares (some ⟨locals, o :: stack, b⟩) [.pop] (some ⟨locals, stack, b⟩) :=
  .act rfl (.pop rfl hnarrow) (h.fits hstack b) .nil

/-- A branch to a label whose frame agrees with what is left on the stack. -/
theorem branch (h : x.Roomy locals) {condition : Condition} {target : Label} {frame : Frame}
    {before : List Operand} (operands : List Operand) (hcondition : condition ≠ .always)
    (hbefore : before = operands ++ stack)
    (hoperands : List.Forall₂ Assignable operands ((tested condition).map .typed))
    (hframe : declares target frame)
    (hflows : State.FlowsInto ⟨locals, stack, b⟩ (.ofFrame x.maxLocals frame))
    (hstack : stack.length ≤ operandLimit) :
    Flow x declares (some ⟨locals, before, b⟩) [.branch condition target]
      (some ⟨locals, stack, b⟩) := by
  refine .jump (.uses hbefore hoperands) (h.fits hstack b) hframe hflows ?_
  rw [if_neg hcondition]
  exact .nil

/-- After a jump that is always taken nothing is known. -/
theorem goto (h : x.Roomy locals) {target : Label} {frame : Frame} (hframe : declares target frame)
    (hflows : State.FlowsInto ⟨locals, stack, b⟩ (.ofFrame x.maxLocals frame))
    (hstack : stack.length ≤ operandLimit) :
    Flow x declares (some ⟨locals, stack, b⟩) [.branch .always target] none :=
  .jump (.uses (List.nil_append stack).symm .nil) (h.fits hstack b) hframe hflows .nil

/-- At a label the state is that of its frame. -/
theorem label {before : Option State} {label : Label} {frame : Frame} {s : State}
    (hframe : State.ofFrame x.maxLocals frame = s) (hflows : ∀ t ∈ before, t.FlowsInto s)
    (hfits : x.Fits s) : Flow x declares before [.bind label frame] (some s) := by
  subst hframe
  exact .bind hflows hfits .nil

/-- A constructor calls that of its superclass. -/
theorem construct (h : x.Roomy locals) {owner : String} (hsuper : some owner = x.superName) :
    Flow x declares (some ⟨locals, [.uninitializedThis], b⟩)
      [.invoke .special owner constructorName .void]
      (some ⟨locals.map (·.map (Operand.constructed x.thisName)), [], false⟩) := by
  have hrule : ruleOf (.invoke .special owner constructorName .void) =
      some (.construct owner []) := by
    rw [ruleOf, if_pos ⟨rfl, rfl⟩]
    rfl
  refine .act hrule (.construct (List.nil_append _).symm .nil (.inr hsuper)) ⟨?_, Nat.zero_le _⟩
    .nil
  exact (List.length_map _).trans h.locals

theorem returnVoid (hresult : x.result = none) :
    Flow x declares (some ⟨locals, stack, false⟩) [.returnVoid] none :=
  .leave rfl (.void hresult rfl) .nil

theorem returnValue {type : FieldType} {o : Operand} (hresult : x.result = some type)
    (ho : Assignable o (.typed type.verification)) :
    Flow x declares (some ⟨locals, o :: stack, b⟩) [.returnValue type] none :=
  .leave rfl (.value hresult rfl ho) .nil

end Flow

end SchemaRecords.Verifier
