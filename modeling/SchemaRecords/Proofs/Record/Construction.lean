import Mathlib.Data.List.Nodup
import SchemaRecords.Proofs.Record.Admissible
import SchemaRecords.Proofs.Record.Lookup

/-!
# Construction of records

The constructor of a record class and its accessors, run from the bytes of the class file.

* `Constructor.returns_of_emitted`: the constructor assigns the arguments to the fields, in order.
* `Accessor.returns_of_emitted`: an accessor returns the value of its component.
* `construct_then_access`: after construction each accessor returns the argument that was passed
  for its property.
-/

namespace SchemaRecords.Record

open SchemaRecords.ClassFile
open SchemaRecords.Machine

namespace Constructor

/-! ## The assignments of a constructor -/

/-- The assignments of arguments to the fields of components. -/
def assignments (l : Layout) (this : Reference) (cs : List Component) (arguments : List Value) :
    List Store :=
  (cs.zip arguments).map fun (c, v) => ⟨this, l.fieldRef c, v⟩

section Assignments

variable {l : Layout} {this : Reference} {cs : List Component} {arguments : List Value}

theorem map_field_assignments (hlength : cs.length = arguments.length) :
    (assignments l this cs arguments).map (·.field) = cs.map l.fieldRef := by
  induction cs generalizing arguments with
  | nil => rfl
  | cons c cs ih =>
    cases arguments with
    | nil => cases hlength
    | cons v arguments =>
      exact congrArg (l.fieldRef c :: ·) (ih (Nat.succ.inj hlength))

theorem map_value_assignments (hlength : cs.length = arguments.length) :
    (assignments l this cs arguments).map (·.value) = arguments := by
  induction cs generalizing arguments with
  | nil =>
    cases arguments with
    | nil => rfl
    | cons v arguments => cases hlength
  | cons c cs ih =>
    cases arguments with
    | nil => cases hlength
    | cons v arguments => exact congrArg (v :: ·) (ih (Nat.succ.inj hlength))

/-- Components with different names have different fields. -/
theorem nodup_fieldRef (h : (cs.map (·.name)).Nodup) : (cs.map l.fieldRef).Nodup := by
  have hnames : cs.map (·.name) = (cs.map l.fieldRef).map (·.name) := by
    rw [List.map_map]
    rfl
  rw [hnames] at h
  exact List.Nodup.of_map _ h

theorem mem_assignments {i : Nat} {c : Component} {v : Value} (hc : cs[i]? = some c)
    (hv : arguments[i]? = some v) :
    (⟨this, l.fieldRef c, v⟩ : Store) ∈ assignments l this cs arguments := by
  have hzip : (cs.zip arguments)[i]? = some (c, v) :=
    List.getElem?_zip_eq_some.mpr ⟨hc, hv⟩
  exact List.mem_map.mpr ⟨(c, v), List.mem_of_getElem? hzip, rfl⟩

theorem object_of_mem_assignments {store : Store} (h : store ∈ assignments l this cs arguments) :
    store.object = this := by
  obtain ⟨⟨c, v⟩, -, rfl⟩ := List.mem_map.mp h
  rfl

theorem typed_of_mem_assignments {store : Store}
    (h : List.Forall₂ Value.HasType arguments (cs.map (·.type)))
    (hstore : store ∈ assignments l this cs arguments) : store.Typed := by
  induction cs generalizing arguments with
  | nil => cases hstore
  | cons c cs ih =>
    rw [List.map_cons] at h
    cases h with
    | @cons v _ arguments _ hv h =>
      rcases List.mem_cons.mp hstore with rfl | hstore
      · exact hv.trans (Kind.ofDescriptor_descriptor c.type).symm
      · exact ih h hstore

/-- The arguments take as many locals as the constructor has parameter slots. -/
theorem length_flatMap_slots (h : List.Forall₂ Value.HasType arguments (cs.map (·.type)))
    (n : Nat) :
    cs.foldl (fun n c => n + c.type.slots.toNat) n
      = n + (arguments.flatMap Value.slots).length := by
  induction cs generalizing arguments n with
  | nil =>
    cases h
    rfl
  | cons c cs ih =>
    rw [List.map_cons] at h
    cases h with
    | @cons v _ arguments _ hv h =>
      rw [List.foldl_cons, ih h, List.flatMap_cons, List.length_append, Value.length_slots hv]
      omega

end Assignments

/-! ## Running the constructor -/

section Parts

variable {x : Context} {l : Layout} {this : Reference} {locals : List (Option Value)}

/-- The locals from `slot` on hold the arguments; each is assigned to its field. -/
theorem run_stores {cs : List Component} {arguments : List Value} {slot : UInt16}
    (h : List.Forall₂ Value.HasType arguments (cs.map (·.type)))
    (hthis : locals[0]? = some (some (.object this)))
    (hlocals : locals.drop slot.toNat = arguments.flatMap Value.slots)
    (hbound : slot.toNat + (arguments.flatMap Value.slots).length < 65536)
    (hfields : ∀ c ∈ cs, x.hasField this (l.fieldRef c)) (ops : List Operation)
    (memory : Memory) (done : List Store) :
    run x (stores l slot cs ++ ops) ⟨[], locals, memory, done⟩ =
      run x ops ⟨[], locals, memory.writes (assignments l this cs arguments),
        done ++ assignments l this cs arguments⟩ := by
  -- from `slot` on, the locals are those of the arguments not yet stored
  induction cs generalizing arguments slot memory done with
  | nil =>
    cases h
    rw [stores, List.nil_append, assignments, List.zip_nil_left, List.map_nil, List.append_nil]
    rfl
  | cons c cs ih =>
    rw [List.map_cons] at h
    cases h with
    | @cons v _ arguments _ hv h =>
      rw [List.flatMap_cons] at hlocals hbound
      rw [List.length_append, Value.length_slots hv] at hbound
      -- the argument is in the first local that is left
      have hslot : locals[slot.toNat]? = some (some v) := by
        have hhead : (locals.drop slot.toNat)[0]? = some (some v) := by
          rw [hlocals]
          cases v <;> rfl
        rw [List.getElem?_drop] at hhead
        exact hhead
      have hnext : (slot + c.type.slots).toNat = slot.toNat + c.type.slots.toNat := by
        rw [UInt16.toNat_add]
        omega
      have hrest : locals.drop (slot + c.type.slots).toNat = arguments.flatMap Value.slots := by
        rw [hnext, ← List.drop_drop, hlocals, ← Value.length_slots hv, List.drop_left]
      have hfamily : v.kind.family = c.type.family := by
        rw [hv, Kind.family_ofType]
      rw [stores, Operation.loadReference, List.append_assoc, List.cons_append, List.cons_append,
        List.cons_append, List.nil_append, run_load hthis rfl, run_load hslot hfamily]
      refine (run_putField (hfields c (by simp)) hv).trans ?_
      refine (ih h hrest (by rw [hnext]; omega) (fun d hd => hfields d (by simp [hd])) _ _).trans ?_
      rw [List.append_assoc]
      rfl

variable {arguments : List Value}

theorem run_operations (h : List.Forall₂ Value.HasType arguments (l.components.map (·.type)))
    (hslots : slots l ≤ maxParameterSlots)
    (hfields : ∀ c ∈ l.components, x.hasField this (l.fieldRef c)) (memory : Memory) :
    run x (operations l) (Activation.entry memory (.object this :: arguments)) =
      some (.returns none ⟨[], (.object this :: arguments).flatMap Value.slots,
        memory.writes (assignments l this l.components arguments),
        assignments l this l.components arguments⟩) := by
  have hlength : (arguments.flatMap Value.slots).length ≤ maxParameterSlots := by
    have := length_flatMap_slots h 0
    rw [Nat.zero_add] at this
    rw [← this]
    exact hslots
  have hbound : (1 : UInt16).toNat + (arguments.flatMap Value.slots).length < 65536 := by
    have h254 : maxParameterSlots = 254 := rfl
    have h1 : (1 : UInt16).toNat = 1 := rfl
    omega
  rw [operations, Operation.loadReference, List.append_assoc, List.cons_append, List.cons_append,
    List.nil_append, run_load (v := .object this) rfl rfl]
  refine (run_invokeObject (by decide) (by decide) .nil rfl).trans ?_
  exact run_stores h rfl rfl hbound hfields [.returnVoid] memory []

end Parts

theorem nodup_labels (l : Layout) : (boundLabels (operations l)).Nodup := by
  have hstores (cs : List Component) (slot : UInt16) : boundLabels (stores l slot cs) = [] := by
    induction cs generalizing slot with
    | nil => rfl
    | cons c cs ih =>
      rw [stores, boundLabels_append, ih]
      rfl
  rw [operations, boundLabels_append, boundLabels_append, hstores]
  exact List.nodup_nil

/-- The constructor assigns each argument to its field, in order. -/
theorem returns_of_emitted {l : Layout} {image : Image} {site : UInt16}
    (h : l.Emitted image site) (w : World) (memory : Memory) {this : Reference}
    (hthis : w.isInstance this l.thisName) {arguments : List Value}
    (harguments : List.Forall₂ Value.HasType arguments (type l).parameters) :
    Returns image w "<init>" (type l).descriptor memory (.object this :: arguments) none
      (memory.writes (assignments l this l.components arguments))
      (assignments l this l.components arguments) := by
  obtain ⟨info, hfind, hinfo⟩ := h.constructor
  exact returns_of_runs (m := method l) hfind hinfo (nodup_labels l) h.bootstraps
    fun code where? hlocated => arrives_of_run (e := .returns _ _) hlocated
      (run_operations harguments h.parameterSlots (fun c hc => h.hasField hc hthis) memory)

end Constructor

/-! ## Accessors -/

namespace Accessor

theorem returns_of_emitted {l : Layout} {image : Image} {site : UInt16}
    (h : l.Emitted image site) (hnames : (l.components.map (·.name)).Nodup) {c : Component}
    (hc : c ∈ l.components) (w : World) (memory : Memory) {this : Reference}
    (hthis : w.isInstance this l.thisName) :
    Returns image w c.name (type c).descriptor memory [.object this]
      (some (l.valueOf memory this c)) memory [] := by
  obtain ⟨info, hfind, hinfo⟩ := h.accessor hnames hc
  have hfamily : (l.valueOf memory this c).kind.family = c.type.family := by
    rw [l.hasType_valueOf memory this c, Kind.family_ofType]
  exact returns_of_runs (m := method l c) hfind hinfo List.nodup_nil h.bootstraps
    fun code where? hlocated => arrives_of_run (e := .returns _ _) hlocated
      ((run_loadThis (h.hasField hc hthis) _ _ _ _ _).trans (run_returnValue rfl hfamily))

end Accessor

/-! ## Construction, then access -/

/-- The fields that the class file declares are those of the components, in order. -/
theorem Layout.Emitted.map_fields {l : Layout} {image : Image} {site : UInt16}
    (h : l.Emitted image site) :
    image.fields.map (fun m => (⟨image.name, m.name, m.descriptor⟩ : MemberRef))
      = l.components.map l.fieldRef := by
  have hfields : image.fields.map (fun m => (⟨image.name, m.name, m.descriptor⟩ : MemberRef)) = _ :=
    map_eq_of_forall₂ (f := fun f => ⟨image.name, f.name, f.type.descriptor⟩) h.fields
      fun f m hm => by rw [hm.name, hm.descriptor]
  rw [hfields, List.map_map, h.name]
  rfl

/-- After construction a component has the value that was passed for it. -/
theorem valueOf_writes_assignments {l : Layout} {arguments : List Value}
    (hnames : (l.components.map (·.name)).Nodup)
    (harguments : List.Forall₂ Value.HasType arguments (Constructor.type l).parameters)
    (memory : Memory) (this : Reference) {i : Nat} {c : Component} {v : Value}
    (hc : l.components[i]? = some c) (hv : arguments[i]? = some v) :
    l.valueOf (memory.writes (Constructor.assignments l this l.components arguments)) this c
      = v := by
  have hlength : l.components.length = arguments.length := by
    rw [harguments.length_eq, Constructor.type, List.length_map]
  have hmem : (⟨this, l.fieldRef c, v⟩ : Store)
      ∈ Constructor.assignments l this l.components arguments :=
    Constructor.mem_assignments hc hv
  have hnodup : ((Constructor.assignments l this l.components arguments).map (·.field)).Nodup := by
    rw [Constructor.map_field_assignments hlength]
    exact Constructor.nodup_fieldRef hnames
  exact Memory.get_writes_of_mem hmem (Constructor.typed_of_mem_assignments harguments hmem) hnodup

/-- The constructor assigns each declared field once, and after it the accessor of each property
returns the argument that was passed at the position of the property. -/
theorem construct_then_access {s : Settings} {type : Schema.RecordType} {artifact : Artifact}
    (h : Artifact.ofType s type = .ok artifact) (hnames : (type.properties.map (·.field)).Nodup) :
    ∃ image, Image.parse artifact.bytes = .ok image ∧
      ∀ (w : World) (memory : Memory) (this : Reference) (arguments : List Value),
        w.isInstance this artifact.internalName →
        List.Forall₂ Value.HasType arguments (type.properties.map fun p => fieldType s p.type) →
        ∃ built stores,
          (∀ result after stores',
            Returns image w "<init>"
                (MethodType.mk (type.properties.map fun p => fieldType s p.type) none).descriptor
                memory (.object this :: arguments) result after stores' ↔
              result = none ∧ after = built ∧ stores' = stores) ∧
          (∀ store ∈ stores, store.object = this) ∧
          stores.map (·.field)
            = image.fields.map (fun m => ⟨image.name, m.name, m.descriptor⟩) ∧
          (stores.map (·.field)).Nodup ∧
          stores.map (·.value) = arguments ∧
          ∀ (i : Nat) (p : Schema.Property) (v : Value),
            type.properties[i]? = some p → arguments[i]? = some v →
            ∀ result after stores',
              Returns image w p.field (MethodType.returning (fieldType s p.type)).descriptor built
                  [.object this] result after stores' ↔
                result = some v ∧ after = built ∧ stores' = [] := by
  obtain ⟨image, site, hparse, hname, hemitted⟩ := emitted_of_ofType h
  refine ⟨image, hparse, fun w memory this arguments hthis harguments => ?_⟩
  rw [hname] at hthis
  have hnames' : ((Layout.ofType s type).components.map (·.name)).Nodup := by
    rw [Layout.ofType, List.map_map]
    exact hnames
  have harguments' : List.Forall₂ Value.HasType arguments
      (Constructor.type (Layout.ofType s type)).parameters := by
    rw [Constructor.type, Layout.ofType, List.map_map]
    exact harguments
  have hdescriptor : (Constructor.type (Layout.ofType s type)).descriptor
      = (MethodType.mk (type.properties.map fun p => fieldType s p.type) none).descriptor := by
    rw [Constructor.type, Layout.ofType, List.map_map]
    rfl
  have hlength : (Layout.ofType s type).components.length = arguments.length := by
    rw [harguments'.length_eq, Constructor.type, List.length_map]
  have hfields : (Constructor.assignments (Layout.ofType s type) this
      (Layout.ofType s type).components arguments).map (·.field)
      = (Layout.ofType s type).components.map (Layout.ofType s type).fieldRef :=
    Constructor.map_field_assignments hlength
  refine ⟨memory.writes (Constructor.assignments (Layout.ofType s type) this
      (Layout.ofType s type).components arguments),
    Constructor.assignments (Layout.ofType s type) this (Layout.ofType s type).components
      arguments, ?_, ?_, ?_, ?_, ?_, ?_⟩
  · intro result after stores'
    rw [← hdescriptor]
    exact (Constructor.returns_of_emitted hemitted w memory hthis harguments').iff
  · intro store hstore
    exact Constructor.object_of_mem_assignments hstore
  · rw [hfields, hemitted.map_fields]
  · rw [hfields]
    exact Constructor.nodup_fieldRef hnames'
  · exact Constructor.map_value_assignments hlength
  · intro i p v hp hv result after stores'
    have hc : (Layout.ofType s type).components[i]?
        = some ⟨p.key, p.field, fieldType s p.type⟩ := by
      rw [Layout.ofType, List.getElem?_map, hp]
      rfl
    rw [← valueOf_writes_assignments hnames' harguments' memory this hc hv]
    exact (Accessor.returns_of_emitted hemitted hnames' (List.mem_of_getElem? hc) w _ hthis).iff

/-- Components after a double, which takes two slots, are those that were passed. -/
theorem construct_then_access_measurement :
    ∃ artifact image built stores,
      Artifact.ofType Measurement.settings Measurement.type = .ok artifact ∧
      Image.parse artifact.bytes = .ok image ∧
      Returns image .plain "<init>"
        "(Ljava/time/OffsetDateTime;IDZ[Ljava/lang/String;Ljava/lang/String;)V" .paired
        [.object 8, .reference none, .int 5, .double 1, .boolean false, .reference (some 6),
          .reference (some 7)] none built stores ∧
      stores.length = 6 ∧
      Returns image .plain "sound" "()Z" built [.object 8] (some (.boolean false)) built [] ∧
      Returns image .plain "unit\x01" "()Ljava/lang/String;" built [.object 8]
        (some (.reference (some 7))) built [] := by
  obtain ⟨artifact, hartifact⟩ := Measurement.ofType_eq_ok
  obtain ⟨image, hparse, hruns⟩ := construct_then_access hartifact (by decide +kernel)
  have htypes : List.Forall₂ Value.HasType
      [.reference none, .int 5, .double 1, .boolean false, .reference (some 6),
        .reference (some 7)]
      (Measurement.type.properties.map fun p => fieldType Measurement.settings p.type) :=
    .cons rfl (.cons rfl (.cons rfl (.cons rfl (.cons rfl (.cons rfl .nil)))))
  obtain ⟨built, stores, hinit, -, -, -, hvalues, hread⟩ := hruns .plain .paired 8 _ rfl htypes
  have hdescriptor : (MethodType.mk (Measurement.type.properties.map fun p =>
      fieldType Measurement.settings p.type) none).descriptor
      = "(Ljava/time/OffsetDateTime;IDZ[Ljava/lang/String;Ljava/lang/String;)V" := by
    decide +kernel
  rw [hdescriptor] at hinit
  refine ⟨artifact, image, built, stores, hartifact, hparse, (hinit _ _ _).mpr ⟨rfl, rfl, rfl⟩,
    ?_, ?_, ?_⟩
  · rw [← List.length_map (·.value), hvalues]
    rfl
  · exact (hread 3 _ _ rfl rfl _ _ _).mpr ⟨rfl, rfl, rfl⟩
  · exact (hread 5 _ _ rfl rfl _ _ _).mpr ⟨rfl, rfl, rfl⟩

end SchemaRecords.Record
