import SchemaRecords.Proofs.Record.Admissible
import SchemaRecords.Proofs.Record.Lookup

/-!
# Hash codes of records

The method `hashCode` of a record class, run from the bytes of its class file.

* `hashCode_returns_iff`: it returns the hash that starts from 1 and, for each component in order,
  is multiplied by 59 and increased by the hash of the component.
-/

namespace SchemaRecords.Record

open SchemaRecords.ClassFile
open SchemaRecords.Machine

namespace Hashing

/-- The hash of a double. -/
def hashDouble : MemberRef := ⟨"java/lang/Double", "hashCode", "(D)I"⟩

/-- The hash of an array by its elements, at every depth. -/
def hashArray : MemberRef := ⟨"java/util/Arrays", "deepHashCode", "([Ljava/lang/Object;)I"⟩

/-- The hash of an object. -/
def hashObject : MemberRef := ⟨"java/lang/Object", "hashCode", "()I"⟩

/-- The hash of a component's value. -/
def hashOf (w : World) (type : FieldType) (v : Value) : Int32 :=
  match type with
  | .boolean => v.number?.getD 0
  | .int => v.number?.getD 0
  | .double => w.int hashDouble [v]
  | .array _ => w.int hashArray [v]
  | .object _ => if v = .reference none then 43 else w.int hashObject [v]

/-- The hash of the components of a record, after a hash to start from. -/
def hashFrom (l : Layout) (w : World) (memory : Memory) (this : Reference) (start : Int32)
    (cs : List Component) : Int32 :=
  cs.foldl (fun hash c => hash * 59 + hashOf w c.type (l.valueOf memory this c)) start

/-! ## The parts of the method -/

section Parts

variable {x : Context} {where? : Label → Option Nat} {l : Layout} {n m : Nat}

/-- Null takes the shorter way past the call. -/
theorem reaches_hashReference {label : Label} {type : FieldType}
    (h : Located x.image.constants x.code where? (hashReference l label type) n m)
    (target : Option Reference) (stack : List Value) (locals : List (Option Value))
    (memory : Memory) (stores : List Store) :
    Reaches x ⟨n, ⟨.reference target :: stack, locals, memory, stores⟩⟩
      ⟨m, ⟨.int (if target = none then 43 else x.world.int hashObject [.reference target]) :: stack,
        locals, memory, stores⟩⟩ := by
  obtain ⟨k, hcall, hstart, h⟩ := (located_bind (a := [.dup, .branch .nonnull label, .pop,
    .const nullHash, .branch .always (label + 1)])).mp h
  obtain ⟨k', hdone, hinvoke, hend⟩ := (located_bind (a := [.invoke .virtual FieldType.objectName
    "hashCode" (.returning .int)])).mp h
  cases hend
  cases target with
  | none =>
    have hrun : run x [.dup, .branch .nonnull label, .pop, .const nullHash,
        .branch .always (label + 1)] ⟨.reference none :: stack, locals, memory, stores⟩
        = some (.jumps (label + 1) ⟨.int 43 :: stack, locals, memory, stores⟩) := rfl
    obtain ⟨there, hthere, hreaches⟩ := arrives_of_run hstart hrun
    cases hdone.symm.trans hthere
    exact hreaches
  | some r =>
    have hrun : run x [.dup, .branch .nonnull label, .pop, .const nullHash,
        .branch .always (label + 1)] ⟨.object r :: stack, locals, memory, stores⟩
        = some (.jumps label ⟨.object r :: stack, locals, memory, stores⟩) := rfl
    obtain ⟨there, hthere, hreaches⟩ := arrives_of_run hstart hrun
    cases hcall.symm.trans hthere
    have hrun' : run x [.invoke .virtual FieldType.objectName "hashCode" (.returning .int)]
        ⟨.object r :: stack, locals, memory, stores⟩
        = some (.falls ⟨.int (x.world.int hashObject [.object r]) :: stack, locals, memory,
            stores⟩) :=
      run_invokeObject (by decide) (by decide) .nil rfl
    exact hreaches.trans (arrives_of_run hinvoke hrun')

/-- A value on the stack is replaced by something that counts as its hash. -/
theorem reaches_hashValue {label : Label} {type : FieldType}
    (h : Located x.image.constants x.code where? (hashValue l label type) n m) {v : Value}
    (hv : v.HasType type) (stack : List Value) (locals : List (Option Value)) (memory : Memory)
    (stores : List Store) :
    ∃ hash, hash.number? = some (hashOf x.world type v) ∧
      Reaches x ⟨n, ⟨v :: stack, locals, memory, stores⟩⟩
        ⟨m, ⟨hash :: stack, locals, memory, stores⟩⟩ := by
  cases type with
  | boolean =>
    obtain ⟨b, rfl⟩ := Value.hasType_boolean.mp hv
    cases h
    exact ⟨.boolean b, rfl, .refl⟩
  | int =>
    obtain ⟨i, rfl⟩ := Value.hasType_int.mp hv
    cases h
    exact ⟨.int i, rfl, .refl⟩
  | double =>
    have hrun : run x [.invoke .static doubleName "hashCode" ⟨[.double], some .int⟩]
        ⟨v :: stack, locals, memory, stores⟩
        = some (.falls ⟨.int (x.world.int hashDouble [v]) :: stack, locals, memory, stores⟩) :=
      run_invokeStatic (by decide) (.cons hv .nil) rfl
    exact ⟨_, rfl, arrives_of_run h hrun⟩
  | array element =>
    have hrun : run x [.invoke .static arraysName "deepHashCode"
          ⟨[.array (.object FieldType.objectName)], some .int⟩]
        ⟨v :: stack, locals, memory, stores⟩
        = some (.falls ⟨.int (x.world.int hashArray [v]) :: stack, locals, memory, stores⟩) :=
      run_invokeStatic (by decide) (.cons hv .nil) rfl
    exact ⟨_, rfl, arrives_of_run h hrun⟩
  | object name =>
    obtain ⟨target, rfl⟩ := Value.hasType_object.mp hv
    refine ⟨_, ?_, reaches_hashReference h target stack locals memory stores⟩
    rw [Value.number?_int, hashOf]
    simp

variable (memory : Memory) (this : Reference)

/-- The method with the hash of some components on the stack. -/
def hashed (hash : Int32) : Activation :=
  (Activation.entry memory [.object this]).push (.int hash)

theorem reaches_combine {c : Component} {i : Nat}
    (h : Located x.image.constants x.code where? (combine l c i) n m)
    (hfield : x.hasField this (l.fieldRef c)) (hash : Int32) :
    Reaches x ⟨n, hashed memory this hash⟩
      ⟨m, hashed memory this (hash * 59 + hashOf x.world c.type (l.valueOf memory this c))⟩ := by
  obtain ⟨k', h, hadd⟩ := located_append.mp h
  obtain ⟨k, hstart, hvalue⟩ := located_append.mp h
  have hrun : run x ([.const prime, .imul] ++ l.loadThis c) (hashed memory this hash)
      = some (.falls ⟨[l.valueOf memory this c, .int (hash * 59)], [some (.object this)], memory,
          []⟩) := by
    have hmul : run x ([.const prime, .imul] ++ l.loadThis c) (hashed memory this hash)
        = run x (l.loadThis c ++ []) ⟨[.int (hash * 59)], [some (.object this)], memory, []⟩ := by
      rw [List.append_nil]
      exact run_imul (a := .int hash) (b := .int prime) rfl rfl
    rw [hmul]
    exact run_loadThis hfield _ _ _ _ _
  -- while a reference is hashed, the hash so far stays below it on the stack
  obtain ⟨v, hv, hreaches⟩ := reaches_hashValue hvalue (l.hasType_valueOf memory this c)
    [.int (hash * 59)] [some (.object this)] memory []
  have hrun' : run x [.iadd] ⟨[v, .int (hash * 59)], [some (.object this)], memory, []⟩
      = some (.falls (hashed memory this
          (hash * 59 + hashOf x.world c.type (l.valueOf memory this c)))) :=
    run_iadd rfl hv
  have hreaches' : Reaches x ⟨n, hashed memory this hash⟩ ⟨k, _⟩ := arrives_of_run hstart hrun
  exact (hreaches'.trans hreaches).trans (arrives_of_run hadd hrun')

/-- The components are worked in one after the other. -/
theorem reaches_components {cs : List Component} {i : Nat}
    (h : Located x.image.constants x.code where?
      ((cs.zipIdx i).flatMap fun (c, i) => combine l c i) n m)
    (hfields : ∀ c ∈ cs, x.hasField this (l.fieldRef c)) (hash : Int32) :
    Reaches x ⟨n, hashed memory this hash⟩
      ⟨m, hashed memory this (hashFrom l x.world memory this hash cs)⟩ := by
  induction cs generalizing n i hash with
  | nil =>
    cases h
    exact .refl
  | cons c cs ih =>
    rw [List.zipIdx_cons, List.flatMap_cons] at h
    obtain ⟨k, hc, hcs⟩ := located_append.mp h
    exact (reaches_combine memory this hc (hfields c (by simp)) hash).trans
      (ih hcs (fun d hd => hfields d (by simp [hd])) _)

theorem runs_operations (h : Located x.image.constants x.code where? (operations l) 0 m)
    (hfields : ∀ c ∈ l.components, x.hasField this (l.fieldRef c)) {hash : Int32}
    (hhash : hash = hashFrom l x.world memory this 1 l.components) :
    Runs x ⟨0, Activation.entry memory [.object this]⟩ (some (.int hash))
      (hashed memory this hash) := by
  subst hhash
  obtain ⟨k', h, hreturn⟩ := located_append.mp h
  obtain ⟨k, hstart, hcomponents⟩ := located_append.mp h
  have hrun : run x [.const 1] (Activation.entry memory [.object this])
      = some (.falls (hashed memory this 1)) := rfl
  have hreaches := reaches_components memory this hcomponents hfields 1
  exact Reaches.runs (arrives_of_run hstart hrun)
    (hreaches.runs (arrives_of_run (e := .returns _ _) hreturn (run_returnValue rfl rfl)))

end Parts

/-! ## The method in the class file -/

/-- A component binds labels of its own only. -/
theorem boundLabels_combine (l : Layout) (c : Component) (i : Nat) :
    boundLabels (combine l c i) = [] ∨ boundLabels (combine l c i) = [2 * i, 2 * i + 1] := by
  obtain ⟨key, name, type⟩ := c
  cases type with
  | object name => exact .inr rfl
  | _ => exact .inl rfl

theorem le_of_mem_boundLabels {l : Layout} {cs : List Component} {i : Nat} {label : Label}
    (h : label ∈ boundLabels ((cs.zipIdx i).flatMap fun (c, i) => combine l c i)) :
    2 * i ≤ label := by
  induction cs generalizing i with
  | nil => cases h
  | cons c cs ih =>
    rw [List.zipIdx_cons, List.flatMap_cons, boundLabels_append] at h
    rcases List.mem_append.mp h with h | h
    · rcases boundLabels_combine l c i with hc | hc
      · simp [hc] at h
      · rw [hc] at h
        grind
    · have := ih h
      omega

theorem nodup_labels (l : Layout) : (boundLabels (operations l)).Nodup := by
  have hcombine (cs : List Component) (i : Nat) :
      (boundLabels ((cs.zipIdx i).flatMap fun (c, i) => combine l c i)).Nodup := by
    induction cs generalizing i with
    | nil => exact List.nodup_nil
    | cons c cs ih =>
      rw [List.zipIdx_cons, List.flatMap_cons, boundLabels_append]
      have hlater (label : Label) (h : label ∈ boundLabels
          ((cs.zipIdx (i + 1)).flatMap fun (c, i) => combine l c i)) : 2 * (i + 1) ≤ label :=
        le_of_mem_boundLabels h
      rcases boundLabels_combine l c i with hc | hc
      · rw [hc]
        exact ih (i + 1)
      · rw [hc]
        refine List.nodup_append.mpr ⟨by simp, ih (i + 1), ?_⟩
        grind
  rw [operations, boundLabels_append, boundLabels_append]
  exact (List.append_nil _).symm ▸ hcombine l.components 0

theorem returns_of_emitted {l : Layout} {image : Image} {site : UInt16}
    (h : l.Emitted image site) (w : World) (memory : Memory) {this : Reference}
    (hthis : w.isInstance this l.thisName) :
    Returns image w "hashCode" "()I" memory [.object this]
      (some (.int (hashFrom l w memory this 1 l.components))) memory [] := by
  obtain ⟨info, hfind, hinfo⟩ := h.hashing
  exact returns_of_runs (m := method l) hfind hinfo (nodup_labels l) h.bootstraps
    fun code where? hlocated =>
      runs_operations memory this hlocated (fun c hc => h.hasField hc hthis) rfl

/-- `hashCode` returns the hash of all components in order, and changes nothing. -/
theorem hashCode_returns_iff {s : Settings} {type : Schema.RecordType} {artifact : Artifact}
    (h : Artifact.ofType s type = .ok artifact) :
    ∃ image, Image.parse artifact.bytes = .ok image ∧
      ∀ (w : World) (memory : Memory) (this : Reference),
        w.isInstance this artifact.internalName →
        ∀ result after stores,
          Returns image w "hashCode" "()I" memory [.object this] result after stores ↔
            result = some (.int ((Layout.ofType s type).components.foldl (fun hash c =>
                hash * 59 + hashOf w c.type ((Layout.ofType s type).valueOf memory this c)) 1)) ∧
              after = memory ∧ stores = [] := by
  obtain ⟨image, site, hparse, hname, hemitted⟩ := emitted_of_ofType h
  refine ⟨image, hparse, fun w memory this hthis result after stores => ?_⟩
  exact (returns_of_emitted hemitted w memory (hname ▸ hthis)).iff

/-- The hash of a record with two null components. -/
theorem hashCode_measurement :
    ∃ artifact image, Artifact.ofType Measurement.settings Measurement.type = .ok artifact ∧
      Image.parse artifact.bytes = .ok image ∧
      ∀ result after stores,
        Returns image .plain "hashCode" "()I" .paired [.object 4] result after stores ↔
          result = some (.int (-66489222)) ∧ after = .paired ∧ stores = [] := by
  obtain ⟨artifact, hartifact⟩ := Measurement.ofType_eq_ok
  obtain ⟨image, hparse, hreturns⟩ := hashCode_returns_iff hartifact
  have hhash : (Layout.ofType Measurement.settings Measurement.type).components.foldl
      (fun hash c => hash * 59 + hashOf .plain c.type
        ((Layout.ofType Measurement.settings Measurement.type).valueOf .paired 4 c)) 1
      = -66489222 := by
    decide +kernel
  refine ⟨artifact, image, hartifact, hparse, fun result after stores => ?_⟩
  rw [hreturns .plain .paired 4 rfl, hhash]

end Hashing

end SchemaRecords.Record
