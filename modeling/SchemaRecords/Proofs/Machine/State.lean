import Mathlib.Logic.Equiv.List
import SchemaRecords.ClassFile.ConstantTable
import SchemaRecords.ClassFile.Descriptor

/-!
# What a running method sees

A method works on an `Activation`: its operand stack, its locals and the memory.
Everything outside the class is a `World`: which objects are instances of which
classes, what the methods of other classes return, and the texts of values. A
world is arbitrary; only the kinds of its answers are fixed.

A memory holds in each field a value of the kind that the field's descriptor
says (`Memory.typed`), so reading a field never gives anything else.
-/

namespace SchemaRecords.Machine

open SchemaRecords.ClassFile

/-! ## Values -/

/-- An object, by its address. -/
abbrev Reference := Nat

/-- The kinds of values. -/
inductive Kind where
  | boolean
  | int
  | double
  | reference
deriving DecidableEq, Repr

namespace Kind

/-- Which instructions handle values of the kind. -/
def family : Kind → Family
  | boolean => .int
  | int => .int
  | double => .double
  | reference => .reference

/-- The kind of the values of a type. -/
def ofType : FieldType → Kind
  | .boolean => boolean
  | .int => int
  | .double => double
  | .object _ => reference
  | .array _ => reference

/-- The kind of the values of a field, which the first letter of its descriptor tells. -/
def ofDescriptor (descriptor : String) : Kind :=
  match descriptor.toList with
  | 'Z' :: _ => boolean
  | 'I' :: _ => int
  | 'D' :: _ => double
  | _ => reference

@[simp]
theorem family_ofType (t : FieldType) : (ofType t).family = t.family := by
  cases t <;> rfl

@[simp]
theorem ofDescriptor_descriptor (t : FieldType) : ofDescriptor t.descriptor = ofType t := by
  rw [ofDescriptor, FieldType.descriptor, String.toList_ofList]
  cases t <;> rfl

end Kind

/-- A value on the operand stack, in a local or in a field. -/
inductive Value where
  | boolean (value : Bool)
  | int (value : Int32)
  /-- A floating-point number, by its bits. -/
  | double (bits : UInt64)
  /-- An object, or null. -/
  | reference (target : Option Reference)
deriving DecidableEq, Repr

namespace Value

/-- A reference to an object. -/
def object (r : Reference) : Value := reference (some r)

def kind : Value → Kind
  | boolean _ => .boolean
  | int _ => .int
  | double _ => .double
  | reference _ => .reference

/-- The number that an instruction for integers sees; booleans are 0 and 1. -/
def number? : Value → Option Int32
  | boolean value => some (if value then 1 else 0)
  | int value => some value
  | _ => none

@[simp]
theorem number?_boolean (b : Bool) : (boolean b).number? = some (if b then 1 else 0) := rfl

@[simp]
theorem number?_int (n : Int32) : (int n).number? = some n := rfl

/-- The locals a value takes as an argument. The second local of a double cannot be used. -/
def slots : Value → List (Option Value)
  | double bits => [some (double bits), none]
  | v => [some v]

/-- The value is one of the type. -/
def HasType (v : Value) (t : FieldType) : Prop := v.kind = Kind.ofType t

theorem hasType_boolean {v : Value} : v.HasType .boolean ↔ ∃ b, v = .boolean b := by
  cases v <;> simp [HasType, kind, Kind.ofType]

theorem hasType_int {v : Value} : v.HasType .int ↔ ∃ n, v = .int n := by
  cases v <;> simp [HasType, kind, Kind.ofType]

theorem hasType_double {v : Value} : v.HasType .double ↔ ∃ bits, v = .double bits := by
  cases v <;> simp [HasType, kind, Kind.ofType]

theorem hasType_array {v : Value} {element : FieldType} :
    v.HasType (.array element) ↔ ∃ target, v = .reference target := by
  cases v <;> simp [HasType, kind, Kind.ofType]

theorem hasType_object {v : Value} {name : String} :
    v.HasType (.object name) ↔ ∃ target, v = .reference target := by
  cases v <;> simp [HasType, kind, Kind.ofType]

theorem length_slots {v : Value} {t : FieldType} (h : v.HasType t) :
    v.slots.length = t.slots.toNat := by
  cases v <;> cases t <;> first | rfl | cases h

/-- Values of one kind that count as numbers are equal if the numbers are. -/
theorem eq_of_number? {a b : Value} {n : Int32} (hkind : a.kind = b.kind)
    (ha : a.number? = some n) (hb : b.number? = some n) : a = b := by
  cases a <;> cases b <;> simp_all [kind, number?]
  grind

end Value

/-! ## Memory -/

/-- The fields of all objects. -/
structure Memory where
  get : Reference → MemberRef → Value
  typed : ∀ r f, (get r f).kind = Kind.ofDescriptor f.descriptor

namespace Memory

/-- The memory after an assignment. -/
def set (m : Memory) (r : Reference) (f : MemberRef) (v : Value)
    (h : v.kind = Kind.ofDescriptor f.descriptor) : Memory where
  get r' f' := if r' = r ∧ f' = f then v else m.get r' f'
  typed r' f' := by
    by_cases hsame : r' = r ∧ f' = f
    · rw [if_pos hsame, hsame.2, h]
    · rw [if_neg hsame, m.typed]

variable {m : Memory} {r : Reference} {f : MemberRef} {v : Value}
  {h : v.kind = Kind.ofDescriptor f.descriptor}

@[simp]
theorem get_set_self : (m.set r f v h).get r f = v :=
  if_pos ⟨rfl, rfl⟩

theorem get_set_of_ne {f' : MemberRef} (hne : f' ≠ f) (r' : Reference) :
    (m.set r f v h).get r' f' = m.get r' f' :=
  if_neg fun hsame => hne hsame.2

end Memory

/-- An assignment to a field. -/
structure Store where
  object : Reference
  field : MemberRef
  value : Value
deriving DecidableEq, Repr

namespace Store

/-- The value is of the kind that the field holds. -/
def Typed (s : Store) : Prop := s.value.kind = Kind.ofDescriptor s.field.descriptor

instance (s : Store) : Decidable s.Typed :=
  inferInstanceAs (Decidable (s.value.kind = Kind.ofDescriptor s.field.descriptor))

end Store

namespace Memory

/-- The memory after an assignment; one of a value of the wrong kind has no effect. -/
def write (m : Memory) (s : Store) : Memory :=
  if h : s.Typed then m.set s.object s.field s.value h else m

/-- The memory after some assignments. -/
def writes (m : Memory) (stores : List Store) : Memory := stores.foldl write m

theorem write_of_typed {m : Memory} {s : Store} (h : s.Typed) :
    m.write s = m.set s.object s.field s.value h :=
  dif_pos h

theorem get_write_of_ne {m : Memory} {s : Store} {f : MemberRef} (hne : f ≠ s.field)
    (r : Reference) : (m.write s).get r f = m.get r f := by
  unfold write
  split
  · exact get_set_of_ne hne r
  · rfl

/-- A field keeps its value if none of the assignments is to it. -/
theorem get_writes_of_notMem {m : Memory} {stores : List Store} {f : MemberRef}
    (h : f ∉ stores.map (·.field)) (r : Reference) : (m.writes stores).get r f = m.get r f := by
  induction stores generalizing m with
  | nil => rfl
  | cons s stores ih =>
    rw [List.map_cons, List.mem_cons, not_or] at h
    have hrest := ih (m := m.write s) h.2
    exact hrest.trans (get_write_of_ne h.1 r)

/-- After assignments to different fields each field has the value assigned to it. -/
theorem get_writes_of_mem {m : Memory} {stores : List Store} {s : Store} (hs : s ∈ stores)
    (htyped : s.Typed) (hnodup : (stores.map (·.field)).Nodup) :
    (m.writes stores).get s.object s.field = s.value := by
  induction stores generalizing m with
  | nil => cases hs
  | cons s' stores ih =>
    rw [List.map_cons, List.nodup_cons] at hnodup
    rcases List.mem_cons.mp hs with rfl | hs
    · have hkeeps := get_writes_of_notMem (m := m.write s) hnodup.1 s.object
      refine hkeeps.trans ?_
      rw [write_of_typed htyped]
      exact get_set_self
    · exact ih (m := m.write s') hs hnodup.2

end Memory

/-! ## The world outside the class -/

/-- All that a method may ask of other classes. Their methods have no effect on the memory, and
what they return depends on their arguments only. -/
structure World where
  isInstance : Reference → String → Bool
  /-- What methods return, for each kind of result. -/
  boolean : MemberRef → List Value → Bool
  int : MemberRef → List Value → Int32
  double : MemberRef → List Value → UInt64
  reference : MemberRef → List Value → Option Reference
  /-- The text of a value in a concatenation. -/
  text : Value → String
  /-- The object that holds a text; different texts are held by different objects. -/
  string : String ↪ Reference

/-- What a method returns. -/
def World.call (w : World) (m : MemberRef) (arguments : List Value) : Kind → Value
  | .boolean => .boolean (w.boolean m arguments)
  | .int => .int (w.int m arguments)
  | .double => .double (w.double m arguments)
  | .reference => .reference (w.reference m arguments)

/-- A world of plain answers: two values are equal if they are the same, and all else that is asked
has a fixed answer. -/
def World.plain : World where
  isInstance _ _ := true
  boolean _ arguments := match arguments with
    | [a, b] => a = b
    | _ => false
  int _ arguments := match arguments with
    | [a, b] => if a = b then 0 else 1
    | _ => 7
  double _ _ := 0
  reference _ _ := none
  text v := match v with
    | .boolean value => toString value
    | .int value => toString value.toInt
    | .double _ => "0.0"
    | .reference none => "null"
    | .reference (some _) => "object"
  string := {
    toFun := fun text => Encodable.encode (text.toList.map Char.toNat)
    inj' := fun a b h => by
      have hcodes : Function.Injective (List.map Char.toNat) :=
        List.map_injective_iff.mpr fun _ _ => Char.toNat_inj.mp
      exact String.toList_inj.mp (hcodes (Encodable.encode_injective h)) }

/-- A memory in which objects come in pairs: integer fields hold half the address of the object,
and all other fields are the same in all objects. -/
def Memory.paired : Memory where
  get r f := match Kind.ofDescriptor f.descriptor with
    | .boolean => .boolean true
    | .int => .int (Int32.ofNat (r / 2))
    | .double => .double 0
    | .reference => .reference none
  typed r f := by
    cases Kind.ofDescriptor f.descriptor <;> rfl

/-! ## Activations -/

/-- A method that is running, apart from its place in the code. -/
structure Activation where
  /-- The operand stack, the top first. A double is one entry. -/
  stack : List Value := []
  locals : List (Option Value)
  memory : Memory
  /-- The assignments made so far, in order. -/
  stores : List Store := []

namespace Activation

/-- A method that was just called. -/
def entry (memory : Memory) (arguments : List Value) : Activation :=
  { locals := arguments.flatMap Value.slots, memory }

/-- The activation with another value on the stack. -/
def push (a : Activation) (v : Value) : Activation := { a with stack := v :: a.stack }

end Activation

end SchemaRecords.Machine
