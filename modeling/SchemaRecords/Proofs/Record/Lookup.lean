import SchemaRecords.Proofs.Machine.Execution
import SchemaRecords.Proofs.Record.Emission

/-!
# Finding the members of a record class

Methods are found by name and descriptor. The accessors come first in the table
of methods, so one of them could hide a method that every record class has; none
does, since an accessor has no parameters, has a result, and may not have the
name and type of the methods without parameters.

* `Emitted.constructor`, `Emitted.equality`, `Emitted.hashing`, `Emitted.rendering`: the
  methods that every record class has are found.
* `Emitted.accessor`: so are the accessors, if no two components have one name.
* `Emitted.hasField`: an instance has a field for each component.
-/

namespace SchemaRecords.Record

open SchemaRecords.ClassFile
open SchemaRecords.Machine

/-! ## Components -/

namespace Layout

/-- The field of a component, as instructions refer to it. -/
def fieldRef (l : Layout) (c : Component) : MemberRef :=
  ⟨l.thisName, c.name, c.type.descriptor⟩

/-- The value of a component of a record. -/
def valueOf (l : Layout) (memory : Memory) (r : Reference) (c : Component) : Value :=
  memory.get r (l.fieldRef c)

theorem hasType_valueOf (l : Layout) (memory : Memory) (r : Reference) (c : Component) :
    (l.valueOf memory r c).HasType c.type := by
  rw [Value.HasType, valueOf, memory.typed, fieldRef, Kind.ofDescriptor_descriptor]

end Layout

/-- Pushes a component of the record in local 0. -/
theorem run_loadThis {x : Context} {l : Layout} {c : Component} {this : Reference}
    (hfield : x.hasField this (l.fieldRef c)) (ops : List Operation) (stack : List Value)
    (locals : List (Option Value)) (memory : Memory) (stores : List Store) :
    run x (l.loadThis c ++ ops) ⟨stack, some (.object this) :: locals, memory, stores⟩ =
      run x ops ⟨l.valueOf memory this c :: stack, some (.object this) :: locals, memory,
        stores⟩ := by
  rw [Layout.loadThis, Operation.loadReference, List.cons_append, List.cons_append,
    List.nil_append, run_load rfl rfl]
  exact run_getField hfield

/-! ## Methods -/

/-- A method without parameters and one with parameters have different descriptors. -/
theorem descriptor_ne_of_parameters {m m' : MethodType} (h : m.parameters = [])
    (h' : m'.parameters ≠ []) : m.descriptor ≠ m'.descriptor := by
  obtain ⟨t, ts, hts⟩ := List.exists_cons_of_ne_nil h'
  intro heq
  have hchars := congrArg String.toList heq
  simp only [MethodType.descriptor, String.toList_ofList, h, hts, List.flatMap_nil,
    List.flatMap_cons, List.nil_append, List.append_assoc, List.cons_append] at hchars
  cases t <;> simp [FieldType.signature] at hchars

/-- The first method with a name and descriptor is found. -/
theorem find_of_forall₂ {t : ConstantTable} {before after : List Method} {m : Method}
    {infos : List MemberInfo}
    (h : List.Forall₂ (Method.Describes t) (before ++ m :: after) infos)
    (hne : ∀ m' ∈ before, ¬(m'.name = m.name ∧ m'.type.descriptor = m.type.descriptor)) :
    ∃ info, infos.find? (fun i => i.name == m.name && i.descriptor == m.type.descriptor)
        = some info ∧ m.Describes t info := by
  induction before generalizing infos with
  | nil =>
    cases h with
    | @cons _ info _ infos hm _ =>
      refine ⟨info, ?_, hm⟩
      rw [List.find?_cons_of_pos]
      simp [hm.name, hm.descriptor]
  | cons m' before ih =>
    cases h with
    | @cons _ info _ infos hm' hrest =>
      have hskip : (info.name == m.name && info.descriptor == m.type.descriptor) = false := by
        rw [hm'.name, hm'.descriptor]
        simpa using hne m' (by simp)
      rw [List.find?_cons, hskip]
      exact ih hrest fun m'' hm'' => hne m'' (by simp [hm''])

namespace Layout.Emitted

variable {l : Layout} {image : Image} {site : UInt16}

theorem find (h : l.Emitted image site) {before after : List Method} {m : Method}
    (hm : l.methods site = before ++ m :: after)
    (hne : ∀ m' ∈ before, ¬(m'.name = m.name ∧ m'.type.descriptor = m.type.descriptor)) :
    ∃ info, image.method? m.name m.type.descriptor = some info ∧
      m.Describes image.constants info :=
  find_of_forall₂ (hm ▸ h.methods) hne

theorem accessor_ne {m : Method} (hm : m.type.parameters ≠ []) :
    ∀ m' ∈ l.components.map (Accessor.method l),
      ¬(m'.name = m.name ∧ m'.type.descriptor = m.type.descriptor) := by
  intro m' hm' heq
  obtain ⟨c, -, rfl⟩ := List.mem_map.mp hm'
  exact descriptor_ne_of_parameters rfl hm heq.2

theorem unreserved_ne (h : l.Emitted image site) {name : String} {type : MethodType}
    (hreserved : (name, type.descriptor) ∈ Accessor.reserved) :
    ∀ m' ∈ l.components.map (Accessor.method l),
      ¬(m'.name = name ∧ m'.type.descriptor = type.descriptor) := by
  intro m' hm' heq
  obtain ⟨c, hc, rfl⟩ := List.mem_map.mp hm'
  have := h.unreserved c hc
  rw [Accessor.isReserved, List.contains_eq_mem, decide_eq_false_iff_not] at this
  refine this ?_
  have hpair : (c.name, (Accessor.type c).descriptor) = (name, type.descriptor) :=
    Prod.ext heq.1 heq.2
  rw [hpair]
  exact hreserved

/-- A method after the accessors is found, if neither an accessor nor a method between has its
name and descriptor. -/
theorem find_later (h : l.Emitted image site) (before after : List Method) {m : Method}
    (hm : [Constructor.method l, Equality.method l, Hashing.method l, Rendering.method l site]
      = before ++ m :: after)
    (haccessors : ∀ m' ∈ l.components.map (Accessor.method l),
      ¬(m'.name = m.name ∧ m'.type.descriptor = m.type.descriptor))
    (hnames : m.name ∉ before.map (·.name)) :
    ∃ info, image.method? m.name m.type.descriptor = some info ∧
      m.Describes image.constants info := by
  have hmethods : l.methods site
      = (l.components.map (Accessor.method l) ++ before) ++ m :: after := by
    rw [Layout.methods, hm, List.append_assoc]
  refine h.find hmethods fun m' hm' heq => ?_
  rcases List.mem_append.mp hm' with hm' | hm'
  · exact haccessors m' hm' heq
  · exact hnames (heq.1 ▸ List.mem_map_of_mem hm')

theorem constructor (h : l.Emitted image site) :
    ∃ info, image.method? Constructor.name (Constructor.type l).descriptor = some info ∧
      (Constructor.method l).Describes image.constants info := by
  refine h.find_later [] _ rfl (fun m' hm' => ?_) List.not_mem_nil
  obtain ⟨c, hc, -⟩ := List.mem_map.mp hm'
  have hparameters : (Constructor.method l).type.parameters ≠ [] := by
    rw [Constructor.method, Constructor.type]
    exact fun hnil => List.ne_nil_of_mem hc (List.map_eq_nil_iff.mp hnil)
  exact accessor_ne hparameters m' hm'

theorem equality (h : l.Emitted image site) :
    ∃ info, image.method? "equals" Equality.type.descriptor = some info ∧
      (Equality.method l).Describes image.constants info :=
  h.find_later [Constructor.method l] _ rfl (accessor_ne (List.cons_ne_nil _ _))
    (show "equals" ∉ ["<init>"] by decide)

theorem hashing (h : l.Emitted image site) :
    ∃ info, image.method? "hashCode" Hashing.type.descriptor = some info ∧
      (Hashing.method l).Describes image.constants info :=
  h.find_later [Constructor.method l, Equality.method l] _ rfl
    (h.unreserved_ne (show ("hashCode", Hashing.type.descriptor) ∈ Accessor.reserved by decide))
    (show "hashCode" ∉ ["<init>", "equals"] by decide)

theorem rendering (h : l.Emitted image site) :
    ∃ info, image.method? Rendering.name (MethodType.returning Rendering.stringType).descriptor
        = some info ∧
      (Rendering.method l site).Describes image.constants info :=
  h.find_later [Constructor.method l, Equality.method l, Hashing.method l] _ rfl
    (h.unreserved_ne (show (Rendering.name,
      (MethodType.returning Rendering.stringType).descriptor) ∈ Accessor.reserved by decide))
    (show "toString" ∉ ["<init>", "equals", "hashCode"] by decide)

/-- The accessor of a component is found, if no two components have one name. -/
theorem accessor (h : l.Emitted image site) (hnames : (l.components.map (·.name)).Nodup)
    {c : Component} (hc : c ∈ l.components) :
    ∃ info, image.method? c.name (Accessor.type c).descriptor = some info ∧
      (Accessor.method l c).Describes image.constants info := by
  obtain ⟨before, after, hsplit⟩ := List.append_of_mem hc
  have hmethods : l.methods site = before.map (Accessor.method l)
      ++ Accessor.method l c :: (after.map (Accessor.method l)
        ++ [Constructor.method l, Equality.method l, Hashing.method l,
          Rendering.method l site]) := by
    rw [Layout.methods, hsplit]
    simp
  refine h.find hmethods fun m' hm' heq => ?_
  obtain ⟨c', hc', rfl⟩ := List.mem_map.mp hm'
  rw [hsplit, List.map_append, List.map_cons] at hnames
  have hdisjoint := (List.nodup_append.mp hnames).2.2
  exact hdisjoint c'.name (List.mem_map_of_mem hc') c.name (by simp) heq.1

/-- An instance has a field for each component. -/
theorem hasField (h : l.Emitted image site) {c : Component} (hc : c ∈ l.components)
    {bootstraps : List BootstrapInfo} {code : Bytes} {w : World} {r : Reference}
    (hr : w.isInstance r l.thisName) :
    Context.hasField ⟨image, bootstraps, code, w⟩ r (l.fieldRef c) = true := by
  obtain ⟨m, hm, hfield⟩ := exists_of_forall₂ h.fields (List.mem_map_of_mem hc)
  have hdeclares : image.fields.any
      (fun m => m.name == c.name && m.descriptor == c.type.descriptor) = true := by
    refine List.any_eq_true.mpr ⟨m, hm, ?_⟩
    rw [hfield.name, hfield.descriptor]
    simp [Accessor.field]
  unfold Context.hasField Context.declares
  simp only [fieldRef]
  rw [hdeclares, h.name, hr]
  simp

end Layout.Emitted

end SchemaRecords.Record
