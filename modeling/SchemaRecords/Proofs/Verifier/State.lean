import Mathlib.Data.List.Forall2
import SchemaRecords.ClassFile.Frame
import SchemaRecords.ClassFile.Instruction

/-!
# What the verifier knows at a place of the code

Before code is run, a verifier follows the types of the values in the locals and
on the operand stack. A `State` is what it knows before an instruction, a `Rule`
is what an instruction asks of the types and does to them.

* `Assignable`: which values may stand for values of a type.
* `State.FlowsInto`: which states agree with a declared frame.
* `Rule.Acts`, `Rule.Returns`: how an instruction changes a state, or leaves the method.
-/

namespace SchemaRecords.Verifier

open SchemaRecords.ClassFile

/-! ## Operands -/

/-- What is known of a value: its type, or that it is the object whose constructor runs and has
not yet called that of its superclass. -/
inductive Operand where
  | typed (type : VerificationType)
  | uninitializedThis
deriving DecidableEq, Repr

namespace Operand

/-- The slots a value takes. -/
def slots : Operand → Nat
  | typed type => type.slots.toNat
  | uninitializedThis => 1

/-- Which instructions handle the value. -/
def family : Operand → Family
  | typed .integer => .int
  | typed .double => .double
  | typed (.object _) => .reference
  | uninitializedThis => .reference

/-- The value once the superclass has set up the object of class `name`. -/
def constructed (name : String) : Operand → Operand
  | typed type => typed type
  | uninitializedThis => typed (.object name)

end Operand

/-- The slots that values of a family take. -/
def slotsOfFamily : Family → Nat
  | .double => 2
  | _ => 1

theorem Operand.slots_eq (o : Operand) : o.slots = slotsOfFamily o.family := by
  cases o with
  | typed type => cases type <;> rfl
  | uninitializedThis => rfl

theorem slots_fieldType (t : FieldType) : t.slots.toNat = slotsOfFamily t.family := by
  cases t <;> rfl

theorem slots_verification (t : FieldType) : t.verification.slots = t.slots := by
  cases t <;> rfl

/-- The slots that values on the stack take together. -/
def slotsOf : List Operand → Nat
  | [] => 0
  | o :: os => o.slots + slotsOf os

theorem slotsOf_append (os os' : List Operand) :
    slotsOf (os ++ os') = slotsOf os + slotsOf os' := by
  induction os with
  | nil => exact (Nat.zero_add _).symm
  | cons o os ih => rw [List.cons_append, slotsOf, ih, slotsOf, Nat.add_assoc]

/-- The descriptor of arrays of arbitrary objects. -/
def objectsName : String := "[Ljava/lang/Object;"

/-- Whether a type name is that of an array of references. -/
def isReferenceArray (name : String) : Bool :=
  match name.toList with
  | '[' :: 'L' :: _ => true
  | '[' :: '[' :: _ => true
  | _ => false

/-- A value that may stand for a value of a type. -/
inductive Assignable : Operand → Operand → Prop
  | refl (o : Operand) : Assignable o o
  | object (name : String) :
      Assignable (.typed (.object name)) (.typed (.object FieldType.objectName))
  | objects {name : String} (h : isReferenceArray name) :
      Assignable (.typed (.object name)) (.typed (.object objectsName))

theorem Assignable.slots_eq {o p : Operand} (h : Assignable o p) : o.slots = p.slots := by
  cases h <;> rfl

theorem slotsOf_eq {os ps : List Operand} (h : List.Forall₂ Assignable os ps) :
    slotsOf os = slotsOf ps := by
  induction h with
  | nil => rfl
  | cons h _ ih => rw [slotsOf, h.slots_eq, ih, slotsOf]

theorem assignable_refl (os : List Operand) : List.Forall₂ Assignable os os :=
  List.forall₂_same.mpr fun o _ => .refl o

/-! ## States -/

/-- What is known before an instruction. -/
structure State where
  /-- What each local holds, if it can be used. The second slot of a wide value cannot. -/
  locals : List (Option Operand)
  /-- The operands, the last pushed first. -/
  stack : List Operand
  /-- Whether this is a constructor that has not called that of the superclass. -/
  constructing : Bool
deriving DecidableEq, Repr

/-- What a local may hold where another content is declared. -/
inductive LocalAssignable : Option Operand → Option Operand → Prop
  | forget (o : Option Operand) : LocalAssignable o none
  | keep {o p : Operand} (h : Assignable o p) : LocalAssignable (some o) (some p)

theorem localAssignable_refl (locals : List (Option Operand)) :
    List.Forall₂ LocalAssignable locals locals := by
  refine List.forall₂_same.mpr fun o _ => ?_
  cases o with
  | none => exact .forget none
  | some o => exact .keep (.refl o)

/-- The locals that values take one after the other. -/
def spread (types : List VerificationType) : List (Option Operand) :=
  types.flatMap fun type => some (.typed type) :: List.replicate (type.slots.toNat - 1) none

/-- All locals, of which the first are given. -/
def pad (n : Nat) (locals : List (Option Operand)) : List (Option Operand) :=
  locals ++ List.replicate (n - locals.length) none

theorem length_pad {n : Nat} {locals : List (Option Operand)} (h : locals.length ≤ n) :
    (pad n locals).length = n := by
  rw [pad, List.length_append, List.length_replicate]
  omega

namespace State

/-- The state that a frame declares. -/
def ofFrame (maxLocals : Nat) (f : Frame) : State :=
  ⟨pad maxLocals (spread f.locals), f.stack.reverse.map .typed, false⟩

/-- The state at the start of a method. -/
def entry (maxLocals : Nat) (receiver : Option Operand) (parameters : List FieldType) : State :=
  ⟨pad maxLocals (receiver.toList.map some ++ spread (parameters.map FieldType.verification)), [],
    receiver == some .uninitializedThis⟩

/-- The state with another stack. -/
def withStack (s : State) (stack : List Operand) : State := { s with stack }

/-- The state once the superclass has set up the object of class `name`. -/
def constructed (name : String) (s : State) : State :=
  ⟨s.locals.map (·.map (Operand.constructed name)), s.stack.map (Operand.constructed name), false⟩

/-- What is known in `s` agrees with what is declared in `t`. -/
structure FlowsInto (s t : State) : Prop where
  locals : List.Forall₂ LocalAssignable s.locals t.locals
  stack : List.Forall₂ Assignable s.stack t.stack
  constructing : s.constructing = true → t.constructing = true

theorem FlowsInto.refl (s : State) : s.FlowsInto s :=
  ⟨localAssignable_refl _, assignable_refl _, id⟩

end State

/-! ## Rules -/

/-- What is known of the method whose code is verified. -/
structure Scope where
  thisName : String
  superName : Option String
  result : Option FieldType
  maxStack : Nat
  maxLocals : Nat

/-- The state has the locals of the method and no more operands than allowed. -/
structure Scope.Fits (x : Scope) (s : State) : Prop where
  locals : s.locals.length = x.maxLocals
  depth : slotsOf s.stack ≤ x.maxStack

/-- What an instruction asks of the types and does to them. Operands are listed from the top of the
stack. -/
inductive Rule where
  /-- Takes operands of the types `pops` and leaves ones of the types `pushes`. -/
  | uses (pops pushes : List VerificationType)
  | load (family : Family) (slot : Nat)
  | pop
  | dup
  /-- Calls the constructor of class `owner` on the object under construction. -/
  | construct (owner : String) (arguments : List VerificationType)
  | returns (family : Option Family)
deriving DecidableEq, Repr

namespace Rule

/-- The instruction can be carried out in state `s` and leads to `s'`. -/
inductive Acts (x : Scope) : Rule → State → State → Prop
  | uses {s : State} {pops pushes : List VerificationType} {operands rest : List Operand}
      (stack : s.stack = operands ++ rest)
      (operands : List.Forall₂ Assignable operands (pops.map .typed)) :
      Acts x (.uses pops pushes) s (s.withStack (pushes.map .typed ++ rest))
  | load {s : State} {slot : Nat} {o : Operand} (held : s.locals[slot]? = some (some o))
      (wide : o.slots = 2 → s.locals[slot + 1]? = some none) :
      Acts x (.load o.family slot) s (s.withStack (o :: s.stack))
  | pop {s : State} {o : Operand} {rest : List Operand} (stack : s.stack = o :: rest)
      (narrow : o.slots = 1) : Acts x .pop s (s.withStack rest)
  | dup {s : State} {o : Operand} {rest : List Operand} (stack : s.stack = o :: rest)
      (narrow : o.slots = 1) : Acts x .dup s (s.withStack (o :: o :: rest))
  | construct {s : State} {owner : String} {arguments : List VerificationType}
      {operands rest : List Operand} (stack : s.stack = operands ++ .uninitializedThis :: rest)
      (operands : List.Forall₂ Assignable operands (arguments.map .typed))
      (super : owner = x.thisName ∨ some owner = x.superName) :
      Acts x (.construct owner arguments) s ((s.withStack rest).constructed x.thisName)

/-- The instruction leaves the method in state `s`, with a value if the method has a result. -/
inductive Returns (x : Scope) : Rule → State → Prop
  | value {s : State} {type : FieldType} {o : Operand} {rest : List Operand}
      (result : x.result = some type) (stack : s.stack = o :: rest)
      (operand : Assignable o (.typed type.verification)) :
      Returns x (.returns (some type.family)) s
  | void {s : State} (result : x.result = none) (constructed : s.constructing = false) :
      Returns x (.returns none) s

end Rule

/-- The operands that a test takes. -/
def tested : Condition → List VerificationType
  | .zero => [.integer]
  | .nonzero => [.integer]
  | .intsDiffer => [.integer, .integer]
  | .sameReference => [.object FieldType.objectName, .object FieldType.objectName]
  | .always => []
  | .null => [.object FieldType.objectName]
  | .nonnull => [.object FieldType.objectName]

end SchemaRecords.Verifier
