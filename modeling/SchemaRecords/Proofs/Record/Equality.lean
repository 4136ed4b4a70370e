import SchemaRecords.Proofs.Record.Admissible
import SchemaRecords.Proofs.Record.Lookup

/-!
# Equality of records

The method `equals` of a record class, run from the bytes of its class file.

* `equals_returns_iff`: it returns 1 exactly for an object of the class that is the record itself
  or agrees with it on every component, and 0 for all else.
-/

namespace SchemaRecords.Record

open SchemaRecords.ClassFile
open SchemaRecords.Machine

namespace Equality

/-- The comparison of doubles. -/
def compareDoubles : MemberRef := ⟨"java/lang/Double", "compare", "(DD)I"⟩

/-- The comparison of references that may be null. -/
def equalObjects : MemberRef :=
  ⟨"java/util/Objects", "equals", "(Ljava/lang/Object;Ljava/lang/Object;)Z"⟩

/-- The comparison of arrays by their elements, at every depth. -/
def equalArrays : MemberRef :=
  ⟨"java/util/Objects", "deepEquals", "(Ljava/lang/Object;Ljava/lang/Object;)Z"⟩

/-- When two values of a component count as equal. -/
def Agree (w : World) (type : FieldType) (a b : Value) : Prop :=
  match type with
  | .boolean => a = b
  | .int => a = b
  | .double => w.int compareDoubles [a, b] = 0
  | .array _ => w.boolean equalArrays [a, b] = true
  | .object _ => w.boolean equalObjects [a, b] = true

instance (w : World) (type : FieldType) (a b : Value) : Decidable (Agree w type a b) :=
  match type with
  | .boolean => inferInstanceAs (Decidable (a = b))
  | .int => inferInstanceAs (Decidable (a = b))
  | .double => inferInstanceAs (Decidable (w.int compareDoubles [a, b] = 0))
  | .array _ => inferInstanceAs (Decidable (w.boolean equalArrays [a, b] = true))
  | .object _ => inferInstanceAs (Decidable (w.boolean equalObjects [a, b] = true))

/-- When a record counts as equal to an object, or to null. -/
def EqualTo (l : Layout) (w : World) (memory : Memory) (this : Reference)
    (other : Option Reference) : Prop :=
  ∃ r, other = some r ∧ w.isInstance r l.thisName ∧
    (r = this ∨ ∀ c ∈ l.components,
      Agree w c.type (l.valueOf memory this c) (l.valueOf memory r c))

theorem not_equalTo_none {l : Layout} {w : World} {memory : Memory} {this : Reference} :
    ¬EqualTo l w memory this none := by
  rintro ⟨r, hr, -⟩
  cases hr

theorem equalTo_some {l : Layout} {w : World} {memory : Memory} {this r : Reference} :
    EqualTo l w memory this (some r) ↔ w.isInstance r l.thisName ∧
      (r = this ∨ ∀ c ∈ l.components,
        Agree w c.type (l.valueOf memory this c) (l.valueOf memory r c)) := by
  constructor
  · rintro ⟨r', hr', h⟩
    cases hr'
    exact h
  · intro h
    exact ⟨r, rfl, h⟩

instance (l : Layout) (w : World) (memory : Memory) (this : Reference) :
    (other : Option Reference) → Decidable (EqualTo l w memory this other)
  | none => isFalse not_equalTo_none
  | some _ => decidable_of_iff _ equalTo_some.symm

/-! ## The parts of the method -/

section Parts

variable {x : Context} {l : Layout}

/-- Numbers of one kind are told apart by their values. -/
theorem run_intsDiffer {a b : Value} {m n : Int32} (hkind : a.kind = b.kind)
    (ha : a.number? = some m) (hb : b.number? = some n) (locals : List (Option Value))
    (memory : Memory) (stores : List Store) :
    run x [.branch .intsDiffer different] ⟨[b, a], locals, memory, stores⟩ =
      some (if a = b then .falls ⟨[], locals, memory, stores⟩
        else .jumps different ⟨[], locals, memory, stores⟩) := by
  have htest : test? .intsDiffer [b, a] = some (m != n, []) := by
    rw [test?, ha, hb]
  rw [run_branch_last htest]
  by_cases hab : a = b
  · have hmn : m = n := by
      rw [hab, hb] at ha
      exact (Option.some.inj ha).symm
    simp [hab, hmn]
  · have hmn : m ≠ n := fun hmn => hab (Value.eq_of_number? hkind ha (hmn ▸ hb))
    simp [hab, hmn]

theorem run_compareDoubles {a b : Value} (ha : a.HasType .double) (hb : b.HasType .double)
    (locals : List (Option Value)) (memory : Memory) (stores : List Store) :
    run x [.invoke .static doubleName "compare" comparison, .branch .nonzero different]
        ⟨[b, a], locals, memory, stores⟩ =
      some (if x.world.int compareDoubles [a, b] = 0 then .falls ⟨[], locals, memory, stores⟩
        else .jumps different ⟨[], locals, memory, stores⟩) := by
  have hplain : comparison.IsPlain := by decide
  have htest : test? .nonzero [.int (x.world.int compareDoubles [a, b])]
      = some (x.world.int compareDoubles [a, b] != 0, []) := rfl
  rw [run_invokeStatic hplain (.cons ha (.cons hb .nil)) rfl]
  refine (run_branch_last htest).trans ?_
  by_cases hzero : x.world.int compareDoubles [a, b] = 0
  · simp [hzero]
  · simp [hzero]

/-- A test of two references leaves if they fail it. -/
theorem run_predicate {a b : Value} {m : MemberRef} (hm : m.descriptor = predicate.descriptor)
    (ha : a.kind = .reference) (hb : b.kind = .reference)
    (locals : List (Option Value)) (memory : Memory) (stores : List Store) :
    run x [.invoke .static m.owner m.name predicate, .branch .zero different]
        ⟨[b, a], locals, memory, stores⟩ =
      some (if x.world.boolean m [a, b] = true then .falls ⟨[], locals, memory, stores⟩
        else .jumps different ⟨[], locals, memory, stores⟩) := by
  have hplain : predicate.IsPlain := by decide
  have hm' : (⟨m.owner, m.name, predicate.descriptor⟩ : MemberRef) = m := by
    rw [← hm]
  rw [run_invokeStatic hplain (.cons ha (.cons hb .nil)) rfl, hm']
  have htest : test? .zero [x.world.call m [a, b] .boolean]
      = some (!x.world.boolean m [a, b], []) := by
    rw [World.call]
    cases x.world.boolean m [a, b] <;> rfl
  refine (run_branch_last htest).trans ?_
  cases x.world.boolean m [a, b] <;> rfl

/-- The test of a component falls through if the values agree, and leaves otherwise. -/
theorem run_test {type : FieldType} {a b : Value} (ha : a.HasType type) (hb : b.HasType type)
    (locals : List (Option Value)) (memory : Memory) (stores : List Store) :
    run x (test type) ⟨[b, a], locals, memory, stores⟩ =
      some (if Agree x.world type a b then .falls ⟨[], locals, memory, stores⟩
        else .jumps different ⟨[], locals, memory, stores⟩) := by
  cases type with
  | boolean =>
    obtain ⟨p, rfl⟩ := Value.hasType_boolean.mp ha
    obtain ⟨q, rfl⟩ := Value.hasType_boolean.mp hb
    exact run_intsDiffer (a := .boolean p) (b := .boolean q) rfl rfl rfl _ _ _
  | int =>
    obtain ⟨m, rfl⟩ := Value.hasType_int.mp ha
    obtain ⟨n, rfl⟩ := Value.hasType_int.mp hb
    exact run_intsDiffer (a := .int m) (b := .int n) rfl rfl rfl _ _ _
  | double => exact run_compareDoubles ha hb _ _ _
  | array element => exact run_predicate (m := equalArrays) rfl ha hb _ _ _
  | object name => exact run_predicate (m := equalObjects) rfl ha hb _ _ _

/-- The method when it was just called. -/
def started (memory : Memory) (this : Reference) (other : Option Reference) : Activation :=
  Activation.entry memory [.object this, .reference other]

variable (memory : Memory) (this r : Reference)

theorem run_compare {c : Component} (hthis : x.hasField this (l.fieldRef c))
    (hr : x.hasField r (l.fieldRef c)) (hinstance : x.world.isInstance r l.thisName) :
    run x (compare l c) (started memory this (some r)) =
      some (if Agree x.world c.type (l.valueOf memory this c) (l.valueOf memory r c)
        then .falls (started memory this (some r))
        else .jumps different (started memory this (some r))) := by
  show run x (compare l c) ⟨[], [some (.object this), some (.object r)], memory, []⟩ = _
  rw [compare, List.append_assoc, run_loadThis hthis, List.cons_append, List.cons_append,
    List.cons_append, List.nil_append, Operation.loadReference, run_load rfl rfl,
    run_checkCast rfl hinstance]
  refine (run_getField hr).trans ?_
  exact run_test (l.hasType_valueOf memory this c) (l.hasType_valueOf memory r c) _ _ _

/-- The components are compared in order until one differs. -/
theorem run_components {cs : List Component} (hthis : ∀ c ∈ cs, x.hasField this (l.fieldRef c))
    (hr : ∀ c ∈ cs, x.hasField r (l.fieldRef c)) (hinstance : x.world.isInstance r l.thisName) :
    run x (cs.flatMap (compare l)) (started memory this (some r)) =
      some (if ∀ c ∈ cs, Agree x.world c.type (l.valueOf memory this c) (l.valueOf memory r c)
        then .falls (started memory this (some r))
        else .jumps different (started memory this (some r))) := by
  induction cs with
  | nil => simp
  | cons c cs ih =>
    rw [List.flatMap_cons, run_append,
      run_compare memory this r (hthis c (by simp)) (hr c (by simp)) hinstance]
    by_cases hagree : Agree x.world c.type (l.valueOf memory this c) (l.valueOf memory r c)
    · rw [if_pos hagree]
      simp only
      rw [ih (fun d hd => hthis d (by simp [hd])) (fun d hd => hr d (by simp [hd]))]
      simp [hagree]
    · rw [if_neg hagree]
      simp [hagree]

theorem run_opening_null :
    run x (opening l) (started memory this none)
      = some (.jumps different (started memory this none)) := by
  rw [opening, Operation.loadReference, run_load rfl rfl]
  exact run_branch_taken rfl

/-- An object leaves the opening if it is of another class, or the record itself. -/
theorem run_opening_object :
    run x (opening l) (started memory this (some r)) =
      some (if x.world.isInstance r l.thisName then
          if this = r then .jumps equal (started memory this (some r))
          else .falls (started memory this (some r))
        else .jumps different (started memory this (some r))) := by
  rw [opening, Operation.loadReference, Operation.loadReference, run_load rfl rfl,
    run_branch_passed rfl, run_load rfl rfl]
  refine run_instanceOf.trans ?_
  rw [Option.any_some]
  by_cases hinstance : x.world.isInstance r l.thisName = true
  · have hsame : test? .sameReference [.object r, .object this] = some (this == r, []) := by
      simp [test?, Value.object]
    rw [if_pos hinstance, if_pos hinstance, run_branch_passed rfl, run_load rfl rfl,
      run_load rfl rfl]
    refine (run_branch_last hsame).trans ?_
    simp only [beq_iff_eq, apply_ite some]
    rfl
  · rw [if_neg hinstance, if_neg hinstance]
    exact run_branch_taken rfl

/-- The closing returns 1 from where equal records go, its start, and 0 from where different ones
go. -/
theorem runs_closing {where? : Label → Option Nat} {n m : Nat}
    (h : Located x.image.constants x.code where? (closing l) n m) (a : Activation) :
    where? equal = some n ∧ Runs x ⟨n, a⟩ (some (.int 1)) (a.push (.int 1)) ∧
      ∀ d, where? different = some d → Runs x ⟨d, a⟩ (some (.int 0)) (a.push (.int 0)) := by
  obtain ⟨e, hequal, rfl, h⟩ := (located_bind (a := [])).mp h
  obtain ⟨d, hdifferent, hone, h⟩ := (located_bind (a := [.const 1, .branch .always done])).mp h
  obtain ⟨k, hdone, hzero, hreturn⟩ := (located_bind (a := [.const 0])).mp h
  have hreturns (v : Int32) : Runs x ⟨k, a.push (.int v)⟩ (some (.int v)) (a.push (.int v)) :=
    arrives_of_run (e := .returns _ _) hreturn (run_returnValue rfl rfl)
  refine ⟨hequal, ?_, fun d' hd' => ?_⟩
  · have hrun : run x [.const 1, .branch .always done] a = some (.jumps done (a.push (.int 1))) :=
      rfl
    obtain ⟨k', hk', hreaches⟩ := arrives_of_run hone hrun
    cases hdone.symm.trans hk'
    exact hreaches.runs (hreturns 1)
  · cases hdifferent.symm.trans hd'
    have hrun : run x [.const 0] a = some (.falls (a.push (.int 0))) := rfl
    exact Reaches.runs (arrives_of_run hzero hrun) (hreturns 0)

/-- Before the closing, equal records go to its start and different ones leave. -/
theorem run_decision (hfields : ∀ r, x.world.isInstance r l.thisName → ∀ c ∈ l.components,
      x.hasField r (l.fieldRef c))
    (hthis : x.world.isInstance this l.thisName) (other : Option Reference) :
    ∃ e, run x (opening l ++ l.components.flatMap (compare l)) (started memory this other)
        = some e ∧
      (EqualTo l x.world memory this other ∧
          (e = .falls (started memory this other) ∨ e = .jumps equal (started memory this other)) ∨
        ¬EqualTo l x.world memory this other ∧
          e = .jumps different (started memory this other)) := by
  rw [run_append]
  cases other with
  | none =>
    rw [run_opening_null]
    exact ⟨_, rfl, .inr ⟨not_equalTo_none, rfl⟩⟩
  | some r =>
    rw [run_opening_object, equalTo_some]
    by_cases hinstance : x.world.isInstance r l.thisName = true
    · rw [if_pos hinstance]
      by_cases hsame : this = r
      · -- the record itself is not compared
        rw [if_pos hsame]
        exact ⟨_, rfl, .inl ⟨⟨hinstance, .inl hsame.symm⟩, .inr rfl⟩⟩
      · rw [if_neg hsame]
        simp only
        rw [run_components memory this r (hfields this hthis) (hfields r hinstance) hinstance]
        refine ⟨_, rfl, ?_⟩
        by_cases hagree : ∀ c ∈ l.components,
            Agree x.world c.type (l.valueOf memory this c) (l.valueOf memory r c)
        · rw [if_pos hagree]
          exact .inl ⟨⟨hinstance, .inr hagree⟩, .inl rfl⟩
        · rw [if_neg hagree]
          refine .inr ⟨?_, rfl⟩
          rintro ⟨-, hrthis | hall⟩
          · exact hsame hrthis.symm
          · exact hagree hall
    · rw [if_neg hinstance]
      exact ⟨_, rfl, .inr ⟨fun h => hinstance h.1, rfl⟩⟩

/-- Run from its start, the method returns 1 for equal records and 0 otherwise. -/
theorem runs_operations {where? : Label → Option Nat} {m : Nat}
    (h : Located x.image.constants x.code where? (operations l) 0 m)
    (hfields : ∀ r, x.world.isInstance r l.thisName → ∀ c ∈ l.components,
      x.hasField r (l.fieldRef c))
    (hthis : x.world.isInstance this l.thisName) (other : Option Reference) {answer : Value}
    (hanswer : answer = .int (if EqualTo l x.world memory this other then 1 else 0)) :
    Runs x ⟨0, started memory this other⟩ (some answer)
      ((started memory this other).push answer) := by
  obtain ⟨n, hdecision, hclosing⟩ := located_append.mp h
  obtain ⟨hequal, hone, hzero⟩ := runs_closing hclosing (started memory this other)
  obtain ⟨e, hrun, ⟨heq, he⟩ | ⟨hne, rfl⟩⟩ := run_decision memory this hfields hthis other
  · rw [hanswer, if_pos heq]
    rcases he with rfl | rfl
    · exact Reaches.runs (arrives_of_run hdecision hrun) hone
    · obtain ⟨k, hk, hreaches⟩ := arrives_of_run hdecision hrun
      cases hequal.symm.trans hk
      exact hreaches.runs hone
  · rw [hanswer, if_neg hne]
    obtain ⟨d, hd, hreaches⟩ := arrives_of_run hdecision hrun
    exact hreaches.runs (hzero d hd)

end Parts

/-! ## The method in the class file -/

theorem nodup_labels (l : Layout) : (boundLabels (operations l)).Nodup := by
  have hcompare (cs : List Component) : boundLabels (cs.flatMap (compare l)) = [] := by
    induction cs with
    | nil => rfl
    | cons c cs ih =>
      rw [List.flatMap_cons, boundLabels_append, ih, List.append_nil]
      obtain ⟨key, name, type⟩ := c
      cases type <;> rfl
  rw [operations, boundLabels_append, boundLabels_append, hcompare]
  exact (by decide : [equal, different, done].Nodup)

theorem returns_of_emitted {l : Layout} {image : Image} {site : UInt16}
    (h : l.Emitted image site) (w : World) (memory : Memory) {this : Reference}
    (hthis : w.isInstance this l.thisName) (other : Option Reference) :
    Returns image w "equals" "(Ljava/lang/Object;)Z" memory [.object this, .reference other]
      (some (.int (if EqualTo l w memory this other then 1 else 0))) memory [] := by
  obtain ⟨info, hfind, hinfo⟩ := h.equality
  exact returns_of_runs (m := method l) hfind hinfo (nodup_labels l) h.bootstraps
    fun code where? hlocated =>
      runs_operations memory this hlocated (fun r hr c hc => h.hasField hc hr) hthis other rfl

/-- `equals` returns 1 exactly for an object of the class that is the record itself or agrees with
it on every component, and 0 otherwise. It changes nothing. -/
theorem equals_returns_iff {s : Settings} {type : Schema.RecordType} {artifact : Artifact}
    (h : Artifact.ofType s type = .ok artifact) :
    ∃ image, Image.parse artifact.bytes = .ok image ∧
      ∀ (w : World) (memory : Memory) (this : Reference) (other : Option Reference),
        w.isInstance this artifact.internalName →
        ∀ result after stores,
          Returns image w "equals" "(Ljava/lang/Object;)Z" memory
              [.object this, .reference other] result after stores ↔
            result = some (.int (if EqualTo (Layout.ofType s type) w memory this other
                then 1 else 0)) ∧
              after = memory ∧ stores = [] := by
  obtain ⟨image, site, hparse, hname, hemitted⟩ := emitted_of_ofType h
  refine ⟨image, hparse, fun w memory this other hthis result after stores => ?_⟩
  exact (returns_of_emitted hemitted w memory (hname ▸ hthis) other).iff

/-- A record equals another one with the same components, but none with another count, nor null. -/
theorem equals_measurement :
    ∃ artifact image, Artifact.ofType Measurement.settings Measurement.type = .ok artifact ∧
      Image.parse artifact.bytes = .ok image ∧
      ∀ result after stores,
        (Returns image .plain "equals" "(Ljava/lang/Object;)Z" .paired
            [.object 2, .reference (some 3)] result after stores ↔
          result = some (.int 1) ∧ after = .paired ∧ stores = []) ∧
        (Returns image .plain "equals" "(Ljava/lang/Object;)Z" .paired
            [.object 2, .reference (some 4)] result after stores ↔
          result = some (.int 0) ∧ after = .paired ∧ stores = []) ∧
        (Returns image .plain "equals" "(Ljava/lang/Object;)Z" .paired
            [.object 2, .reference none] result after stores ↔
          result = some (.int 0) ∧ after = .paired ∧ stores = []) := by
  obtain ⟨artifact, hartifact⟩ := Measurement.ofType_eq_ok
  obtain ⟨image, hparse, hreturns⟩ := equals_returns_iff hartifact
  have hequal : EqualTo (Layout.ofType Measurement.settings Measurement.type) .plain .paired 2
      (some 3) := by decide +kernel
  have hdiffer : ¬EqualTo (Layout.ofType Measurement.settings Measurement.type) .plain .paired 2
      (some 4) := by decide +kernel
  refine ⟨artifact, image, hartifact, hparse, fun result after stores => ⟨?_, ?_, ?_⟩⟩
  · rw [hreturns .plain .paired 2 (some 3) rfl, if_pos hequal]
  · rw [hreturns .plain .paired 2 (some 4) rfl, if_neg hdiffer]
  · rw [hreturns .plain .paired 2 none rfl, if_neg not_equalTo_none]

end Equality

end SchemaRecords.Record
