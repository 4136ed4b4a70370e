import SchemaRecords.Proofs.Record.Equality
import SchemaRecords.Proofs.Record.Hashing

/-!
# Equal records have equal hash codes

The methods `equals` and `hashCode` of a record class go through its components
with different calls: doubles are compared by one method and hashed by another,
and so are arrays and all other references. What these methods promise each other
is `World.Laws`; with it the two methods of the class agree as well.

* `hashOf_eq_of_agree`: values of a component that count as equal have one hash.
* `hashCode_eq_of_equals`: records that count as equal have one hash.
-/

namespace SchemaRecords.Machine

open SchemaRecords.ClassFile
open SchemaRecords.Record.Equality
open SchemaRecords.Record.Hashing

/-- The comparison of an object, which is not null, with another one or with null. -/
def equalToObject : MemberRef := ⟨"java/lang/Object", "equals", "(Ljava/lang/Object;)Z"⟩

/-- What the methods of other classes that compare and hash promise each other. -/
structure World.Laws (w : World) : Prop where
  doubles : ∀ a b, w.int compareDoubles [.double a, .double b] = 0 →
    w.int hashDouble [.double a] = w.int hashDouble [.double b]
  arrays : ∀ a b, w.boolean equalArrays [.reference a, .reference b] = true →
    w.int hashArray [.reference a] = w.int hashArray [.reference b]
  /-- Null equals null; otherwise the first object is asked. -/
  references : ∀ a b, w.boolean equalObjects [.reference a, .reference b] = true ↔
    (a = none ∧ b = none) ∨
      ∃ r, a = some r ∧ w.boolean equalToObject [.object r, .reference b] = true
  objects : ∀ r b, w.boolean equalToObject [.object r, .reference b] = true →
    ∃ r', b = some r' ∧ w.int hashObject [.object r] = w.int hashObject [.object r']

/-- Where only the same values are equal, nothing is asked of hashes. -/
theorem World.laws_plain : World.plain.Laws where
  doubles _ _ _ := rfl
  arrays _ _ _ := rfl
  references a b := by
    cases a with
    | none => simp [World.plain, eq_comm]
    | some r => simp [World.plain, Value.object]
  objects r b h := by
    have hb : Value.object r = .reference b := of_decide_eq_true h
    cases hb
    exact ⟨r, rfl, rfl⟩

end SchemaRecords.Machine

namespace SchemaRecords.Record

open SchemaRecords.ClassFile
open SchemaRecords.Machine
open SchemaRecords.Record.Equality
open SchemaRecords.Record.Hashing

variable {w : World}

/-- References that count as equal are both null, or are objects with one hash. -/
theorem hashOf_object_eq (hw : w.Laws) {name : String} {a b : Option Reference}
    (h : w.boolean equalObjects [.reference a, .reference b] = true) :
    hashOf w (.object name) (.reference a) = hashOf w (.object name) (.reference b) := by
  obtain ⟨rfl, rfl⟩ | ⟨r, rfl, hr⟩ := (hw.references a b).mp h
  · rfl
  · obtain ⟨r', rfl, hhash⟩ := hw.objects r b hr
    have hsome (r : Reference) :
        hashOf w (.object name) (.object r) = w.int hashObject [.object r] := by
      rw [hashOf, if_neg (by simp [Value.object])]
    exact ((hsome r).trans hhash).trans (hsome r').symm

/-- Values of a component that count as equal have one hash. -/
theorem hashOf_eq_of_agree (hw : w.Laws) {type : FieldType} {a b : Value} (ha : a.HasType type)
    (hb : b.HasType type) (h : Agree w type a b) : hashOf w type a = hashOf w type b := by
  cases type with
  | boolean => exact congrArg (hashOf w .boolean) h
  | int => exact congrArg (hashOf w .int) h
  | double =>
    obtain ⟨x, rfl⟩ := Value.hasType_double.mp ha
    obtain ⟨y, rfl⟩ := Value.hasType_double.mp hb
    exact hw.doubles x y h
  | array element =>
    obtain ⟨x, rfl⟩ := Value.hasType_array.mp ha
    obtain ⟨y, rfl⟩ := Value.hasType_array.mp hb
    exact hw.arrays x y h
  | object name =>
    obtain ⟨x, rfl⟩ := Value.hasType_object.mp ha
    obtain ⟨y, rfl⟩ := Value.hasType_object.mp hb
    exact hashOf_object_eq hw h

/-- The hashes of records that agree on their components are the same from any start on. -/
theorem hashFrom_eq_of_agree (hw : w.Laws) (l : Layout) (memory : Memory) {this other : Reference}
    {cs : List Component} (start : Int32)
    (h : ∀ c ∈ cs, Agree w c.type (l.valueOf memory this c) (l.valueOf memory other c)) :
    hashFrom l w memory this start cs = hashFrom l w memory other start cs := by
  induction cs generalizing start with
  | nil => rfl
  | cons c cs ih =>
    obtain ⟨hc, hcs⟩ := List.forall_mem_cons.mp h
    have hhash := hashOf_eq_of_agree hw (l.hasType_valueOf memory this c)
      (l.hasType_valueOf memory other c) hc
    have hrest := ih (start * 59 + hashOf w c.type (l.valueOf memory this c)) hcs
    unfold hashFrom at hrest ⊢
    rw [List.foldl_cons, List.foldl_cons, hrest, hhash]

/-- A record has the hash of every record it counts as equal to. -/
theorem hashFrom_eq_of_equalTo (hw : w.Laws) {l : Layout} {memory : Memory}
    {this other : Reference} (h : EqualTo l w memory this (some other)) (start : Int32) :
    hashFrom l w memory this start l.components = hashFrom l w memory other start l.components := by
  obtain ⟨-, rfl | hagree⟩ := equalTo_some.mp h
  · rfl
  · exact hashFrom_eq_of_agree hw l memory start hagree

/-- **Equal records have equal hash codes**: where the library keeps its laws, and `equals` called
on a record with another object returns 1, `hashCode` returns on both and gives the same hash. -/
theorem hashCode_eq_of_equals {s : Settings} {type : Schema.RecordType} {artifact : Artifact}
    (h : Artifact.ofType s type = .ok artifact) :
    ∃ image, Image.parse artifact.bytes = .ok image ∧
      ∀ (w : World), w.Laws → ∀ (memory : Memory) (this other : Reference),
        w.isInstance this artifact.internalName →
        w.isInstance other artifact.internalName →
        ∀ after stores,
          Returns image w "equals" "(Ljava/lang/Object;)Z" memory [.object this, .object other]
            (some (.int 1)) after stores →
          ∃ hash,
            Returns image w "hashCode" "()I" memory [.object this] (some (.int hash)) memory [] ∧
            Returns image w "hashCode" "()I" memory [.object other] (some (.int hash)) memory []
      := by
  obtain ⟨image, site, hparse, hname, hemitted⟩ := emitted_of_ofType h
  refine ⟨image, hparse, fun w hw memory this other hthis hother after stores hequals => ?_⟩
  rw [hname] at hthis hother
  obtain ⟨hresult, -⟩ := hequals.unique
    (Equality.returns_of_emitted hemitted w memory hthis (some other))
  have hequal : EqualTo (Layout.ofType s type) w memory this (some other) := by
    by_contra hne
    rw [if_neg hne] at hresult
    cases hresult
  have hhash := Hashing.returns_of_emitted hemitted w memory hother
  rw [← hashFrom_eq_of_equalTo hw hequal] at hhash
  exact ⟨_, Hashing.returns_of_emitted hemitted w memory hthis, hhash⟩

/-- Two records with the same components, which are different objects. -/
theorem hashCode_eq_measurement :
    ∃ artifact image, Artifact.ofType Measurement.settings Measurement.type = .ok artifact ∧
      Image.parse artifact.bytes = .ok image ∧
      Returns image .plain "equals" "(Ljava/lang/Object;)Z" .paired [.object 2, .object 3]
        (some (.int 1)) .paired [] ∧
      ∃ hash,
        Returns image .plain "hashCode" "()I" .paired [.object 2] (some (.int hash)) .paired [] ∧
        Returns image .plain "hashCode" "()I" .paired [.object 3] (some (.int hash)) .paired []
    := by
  obtain ⟨artifact, hartifact⟩ := Measurement.ofType_eq_ok
  obtain ⟨image, hparse, hhash⟩ := hashCode_eq_of_equals hartifact
  obtain ⟨image', site, hparse', -, hemitted⟩ := emitted_of_ofType hartifact
  cases hparse.symm.trans hparse'
  have hequal : EqualTo (Layout.ofType Measurement.settings Measurement.type) .plain .paired 2
      (some 3) := by decide +kernel
  have hinstance : World.plain.isInstance 2
      (Layout.ofType Measurement.settings Measurement.type).thisName = true := rfl
  have hequals := Equality.returns_of_emitted hemitted .plain .paired hinstance (some 3)
  rw [if_pos hequal] at hequals
  exact ⟨artifact, image, hartifact, hparse, hequals,
    hhash .plain World.laws_plain .paired 2 3 rfl rfl .paired [] hequals⟩

end SchemaRecords.Record
