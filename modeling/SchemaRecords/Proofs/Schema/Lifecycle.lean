import Mathlib.Data.List.Nodup
import SchemaRecords.Proofs.Schema.Registration

/-!
# The life of a registry

Calls enter and complete names in any order, and some of them fail. What the
registry holds then can be told from the calls and their answers alone: it has a
slot for each name that was entered, in the order in which this happened first,
the index says so (`Tracks.lists`), and in the slot is the type that was added
under the name, if any (`Tracks.slots`). That slots stand in the order of entry,
are filled once and never change again all follows from these two, which every
call keeps (`Tracks.call`).

* `lifecycle`: what holds of a registry after any calls, and what the next call does.
-/

namespace SchemaRecords.Schema.Registry

/-! ## Calls and their answers -/

/-- A call of a registry. -/
inductive Call where
  | enter (name : String)
  | complete (type : RecordType)
deriving DecidableEq, Repr

/-- What a call answers. -/
inductive Answer where
  | entered
  | registered (done : Registration)
  | failed (cause : Error)
deriving DecidableEq, Repr

/-- Makes a call. -/
def call (r : Registry) : Call → Answer × Registry
  | .enter name =>
    match r.enter name with
    | (.ok _, r') => (.entered, r')
    | (.error e, r') => (.failed e, r')
  | .complete type =>
    match r.complete type with
    | (.ok done, r') => (.registered done, r')
    | (.error e, r') => (.failed e, r')

/-- The registry after calls, whether they fail or not. -/
def after (r : Registry) (calls : List Call) : Registry :=
  calls.foldl (fun r c => (r.call c).2) r

/-- The calls with their answers. -/
def transcript (r : Registry) : List Call → List (Call × Answer)
  | [] => []
  | c :: calls => (c, (r.call c).1) :: (r.call c).2.transcript calls

/-- The name that a call entered. -/
def enteredName? : Call × Answer → Option String
  | (.enter name, .entered) => some name
  | _ => none

/-- The type that a call added. -/
def addedType? : Call × Answer → Option RecordType
  | (.complete type, .registered .added) => some type
  | _ => none

/-- The names that calls of an empty registry enter, in the order of their first entries. -/
def entries (calls : List Call) : List String :=
  ((empty.transcript calls).filterMap enteredName?).eraseDups

/-- The types that calls of an empty registry add. -/
def additions (calls : List Call) : List RecordType :=
  (empty.transcript calls).filterMap addedType?

/-- The first of the types with the given name. -/
def typeOf? (types : List RecordType) (name : String) : Option RecordType :=
  types.find? fun t => t.name == name

theorem name_of_typeOf? {types : List RecordType} {name : String} {type : RecordType}
    (h : typeOf? types name = some type) : type.name = name := by
  simpa using List.find?_some h

theorem typeOf?_eq_none_iff {types : List RecordType} {name : String} :
    typeOf? types name = none ↔ name ∉ types.map RecordType.name := by
  simp [typeOf?]

theorem typeOf?_append (types types' : List RecordType) (name : String) :
    typeOf? (types ++ types') name = (typeOf? types name).or (typeOf? types' name) :=
  List.find?_append

/-- A new type is the one of its name, and nothing changes for other names. -/
theorem typeOf?_append_singleton {types : List RecordType} {type : RecordType}
    (h : typeOf? types type.name = none) (name : String) :
    typeOf? (types ++ [type]) name = if name = type.name then some type else typeOf? types name := by
  rw [typeOf?_append]
  split
  · rename_i heq
    rw [heq, h]
    simp [typeOf?]
  · rename_i hne
    have hother : typeOf? [type] name = none := by
      simpa [typeOf?] using fun heq => hne heq.symm
    rw [hother, Option.or_none]

/-! ## What single calls do -/

section Calls

variable {r : Registry} {name : String} {type : RecordType}

theorem call_enter_of_mem (h : name ∈ r.inProgress) :
    r.call (.enter name) = (.failed (.circularReference (r.inProgress ++ [name])), r) := by
  rw [call, enter_of_mem h]

theorem call_enter_of_not_mem (h : name ∉ r.inProgress) :
    r.call (.enter name) = (.entered, r.opened name) := by
  rw [call, enter_of_not_mem h]

theorem call_enter_eq_entered_iff : (r.call (.enter name)).1 = .entered ↔ name ∉ r.inProgress := by
  by_cases h : name ∈ r.inProgress
  · simp [call_enter_of_mem h, h]
  · simp [call_enter_of_not_mem h, h]

theorem call_complete_of_not_mem (h : type.name ∉ r.inProgress) :
    r.call (.complete type) = (.failed (.invalidDocument (.notEntered type.name)), r) := by
  rw [call, complete_of_not_mem h]

section Open

variable {i : Nat} (hopen : type.name ∈ r.inProgress) (hi : r.index[type.name]? = some i)

include hopen hi

theorem call_complete_of_none (hget : r.get? type.name = none) :
    r.call (.complete type) = (.registered .added, (r.leave type.name).fill i type) := by
  rw [call, complete_eq hopen hi, hget]

theorem call_complete_of_eq (hget : r.get? type.name = some type) :
    r.call (.complete type) = (.registered .deduplicated, r.leave type.name) := by
  simp only [call, complete_eq hopen hi, hget, if_true]

theorem call_complete_of_ne {other : RecordType} (hget : r.get? type.name = some other)
    (hne : other ≠ type) :
    r.call (.complete type)
      = (.failed (.conflictingDefinition type.name), r.leave type.name) := by
  simp only [call, complete_eq hopen hi, hget, hne, if_false]

end Open

/-- One time that the name is being built ends. -/
theorem exists_removed (h : name ∈ r.inProgress) :
    ∃ before behind, r.inProgress = before ++ name :: behind ∧
      (r.leave name).inProgress = before ++ behind := by
  obtain ⟨behind, before, -, hsplit, herase⟩ := List.exists_erase_eq (List.mem_reverse.2 h)
  refine ⟨before.reverse, behind.reverse, ?_, ?_⟩
  · rw [← List.reverse_reverse r.inProgress, hsplit]
    simp
  · rw [leave, herase, List.reverse_append]

end Calls

theorem filterMap_cons_eq_append {α β : Type} (f : α → Option β) (a : α) (as : List α) :
    (a :: as).filterMap f = (f a).toList ++ as.filterMap f := by
  rw [List.filterMap_cons]
  cases f a <;> rfl

/-! ## The invariant -/

/-- The registry after `names` were entered, with repetitions, and `types` were added. -/
structure Tracks (r : Registry) (names : List String) (types : List RecordType) : Prop where
  lists : r.Lists names.eraseDups
  slots : r.slots.toList = names.eraseDups.map (typeOf? types)
  entered : ∀ t ∈ types, t.name ∈ names
  distinct : (types.map RecordType.name).Nodup
  inProgress : r.inProgress.Nodup
  known : ∀ name ∈ r.inProgress, name ∈ names

theorem tracks_empty : empty.Tracks [] [] :=
  ⟨lists_empty, rfl, by simp, .nil, .nil, by simp [empty]⟩

namespace Tracks

variable {r : Registry} {names : List String} {types : List RecordType} {type : RecordType}
  {name : String} {i : Nat}

theorem contains_iff (h : r.Tracks names types) : r.contains name = true ↔ name ∈ names := by
  rw [h.lists.contains_iff, List.mem_eraseDups]

theorem exists_index (h : r.Tracks names types) (hname : name ∈ names) :
    ∃ i, r.index[name]? = some i :=
  contains_iff_exists.1 (h.contains_iff.2 hname)

/-- The slot of a name holds the type that was added under it. -/
theorem getElem?_slots (h : r.Tracks names types) (hi : r.index[name]? = some i) :
    r.slots[i]? = some (typeOf? types name) := by
  rw [← Array.getElem?_toList, h.slots, List.getElem?_map, (h.lists.index name i).1 hi]
  rfl

theorem get?_eq (h : r.Tracks names types) (hi : r.index[name]? = some i) :
    r.get? name = typeOf? types name := by
  rw [get?_eq_slot? hi, slot?, h.getElem?_slots hi, Option.join_some]

theorem opened (h : r.Tracks names types) (hopen : name ∉ r.inProgress) :
    (r.opened name).Tracks (names ++ [name]) types := by
  have hprogress : (r.opened name).inProgress.Nodup := by
    rw [Registry.opened, List.nodup_append]
    refine ⟨h.inProgress, by simp, ?_⟩
    intro n hn n' hn' heq
    obtain rfl : n = name := heq.trans (List.mem_singleton.1 hn')
    exact hopen hn
  have hentered : ∀ t ∈ types, t.name ∈ names ++ [name] :=
    fun t ht => List.mem_append_left _ (h.entered t ht)
  have hknown : ∀ n ∈ (r.opened name).inProgress, n ∈ names ++ [name] := by
    intro n hn
    obtain hn | hn := List.mem_append.1 hn
    · exact List.mem_append_left _ (h.known n hn)
    · exact List.mem_append_right _ hn
  by_cases hname : name ∈ names
  · have hsame : r.reserve name none = r := reserve_of_contains (h.contains_iff.2 hname) none
    have hdups : (names ++ [name]).eraseDups = names.eraseDups := by
      rw [eraseDups_append_singleton, if_pos hname]
    refine ⟨hdups ▸ ?_, hdups ▸ ?_, hentered, h.distinct, hprogress, hknown⟩
    · rw [Registry.opened, hsame]
      exact ⟨h.lists.nodup, h.lists.size, h.lists.index⟩
    · rw [Registry.opened, hsame]
      exact h.slots
  · have hnew : name ∉ names.eraseDups := fun hmem => hname (List.mem_eraseDups.1 hmem)
    have hdups : (names ++ [name]).eraseDups = names.eraseDups ++ [name] := by
      rw [eraseDups_append_singleton, if_neg hname]
    -- no type was added under a name that was never entered
    have hnone : typeOf? types name = none := by
      rw [typeOf?_eq_none_iff]
      intro hmem
      obtain ⟨t, ht, rfl⟩ := List.mem_map.1 hmem
      exact hname (h.entered t ht)
    have hlists := h.lists.reserve hnew none
    refine ⟨hdups ▸ ⟨hlists.nodup, hlists.size, hlists.index⟩, ?_, hentered, h.distinct, hprogress,
      hknown⟩
    show (r.reserve name none).slots.toList = _
    rw [reserve_of_not (h.contains_iff.not.2 hname), hdups, List.map_append, List.map_singleton,
      hnone, ← h.slots, Array.toList_push]

theorem leave (h : r.Tracks names types) (name : String) : (r.leave name).Tracks names types where
  lists := ⟨h.lists.nodup, h.lists.size, h.lists.index⟩
  slots := h.slots
  entered := h.entered
  distinct := h.distinct
  inProgress := List.nodup_reverse.2 ((List.nodup_reverse.2 h.inProgress).erase _)
  known n hn := h.known n (List.mem_reverse.1 (List.mem_of_mem_erase (List.mem_reverse.1 hn)))

/-- What is put in the place of one name. -/
theorem set_map {ns : List String} (h : ns.Nodup) (hi : ns[i]? = some name)
    (f : String → Option RecordType) (slot : Option RecordType) :
    (ns.map f).set i slot = ns.map fun n => if n = name then slot else f n := by
  refine List.ext_getElem? fun j => ?_
  rw [List.getElem?_set, List.getElem?_map, List.getElem?_map, List.length_map]
  by_cases hij : i = j
  · subst hij
    obtain ⟨hlt, -⟩ := List.getElem?_eq_some_iff.1 hi
    rw [if_pos rfl, if_pos hlt, hi, Option.map_some, if_pos rfl]
  · rw [if_neg hij]
    cases hj : ns[j]? with
    | none => rfl
    | some n =>
      have hne : n ≠ name := by
        rintro rfl
        obtain ⟨hlt, -⟩ := List.getElem?_eq_some_iff.1 hi
        exact hij ((List.getElem?_inj hlt h).1 (hi.trans hj.symm))
      simp [hne]

/-- A type fills the one slot of its name. -/
theorem filled (h : r.Tracks names types) (hname : type.name ∈ names)
    (hi : r.index[type.name]? = some i) (hnone : typeOf? types type.name = none) :
    (r.fill i type).Tracks names (types ++ [type]) where
  lists := ⟨h.lists.nodup, (Array.size_setIfInBounds ..).trans h.lists.size, h.lists.index⟩
  slots := by
    rw [fill, Array.toList_setIfInBounds, h.slots,
      set_map h.lists.nodup ((h.lists.index _ i).1 hi)]
    exact List.map_congr_left fun n _ => (typeOf?_append_singleton hnone n).symm
  entered t ht := by
    obtain ht | ht := List.mem_append.1 ht
    · exact h.entered t ht
    · exact List.mem_singleton.1 ht ▸ hname
  distinct := by
    rw [List.map_append, List.nodup_append]
    refine ⟨h.distinct, by simp, ?_⟩
    intro n hn n' hn' heq
    obtain rfl : n = type.name := heq.trans (List.mem_singleton.1 hn')
    exact typeOf?_eq_none_iff.1 hnone hn
  inProgress := h.inProgress
  known := h.known

/-- Every call keeps the account. -/
theorem call (h : r.Tracks names types) (c : Call) :
    (r.call c).2.Tracks (names ++ (enteredName? (c, (r.call c).1)).toList)
      (types ++ (addedType? (c, (r.call c).1)).toList) := by
  cases c with
  | enter name =>
    by_cases hopen : name ∈ r.inProgress
    · rw [call_enter_of_mem hopen]
      simpa [enteredName?, addedType?] using h
    · rw [call_enter_of_not_mem hopen]
      simpa [enteredName?, addedType?] using h.opened hopen
  | complete type =>
    by_cases hopen : type.name ∈ r.inProgress
    · have hname := h.known _ hopen
      obtain ⟨i, hi⟩ := h.exists_index hname
      have hget := h.get?_eq hi
      cases hslot : typeOf? types type.name with
      | none =>
        rw [call_complete_of_none hopen hi (hget.trans hslot)]
        simpa [enteredName?, addedType?] using (h.leave type.name).filled hname hi hslot
      | some other =>
        by_cases heq : other = type
        · rw [call_complete_of_eq hopen hi (hget.trans (heq ▸ hslot))]
          simpa [enteredName?, addedType?] using h.leave type.name
        · rw [call_complete_of_ne hopen hi (hget.trans hslot) heq]
          simpa [enteredName?, addedType?] using h.leave type.name
    · rw [call_complete_of_not_mem hopen]
      simpa [enteredName?, addedType?] using h

theorem after (h : r.Tracks names types) (calls : List Call) :
    (r.after calls).Tracks (names ++ (r.transcript calls).filterMap enteredName?)
      (types ++ (r.transcript calls).filterMap addedType?) := by
  induction calls generalizing r names types with
  | nil => simpa [Registry.after, transcript] using h
  | cons c calls ih =>
    have hstep := ih (h.call c)
    rw [List.append_assoc, List.append_assoc] at hstep
    rw [transcript, filterMap_cons_eq_append, filterMap_cons_eq_append]
    exact hstep

/-! ## What the account says -/

/-- A name keeps its slot: names only come after those that are there. -/
theorem getElem?_index_after (h : r.Tracks names types) (hi : r.index[name]? = some i)
    (calls : List Call) : (r.after calls).index[name]? = some i := by
  have hname := (h.lists.index name i).1 hi
  obtain ⟨hlt, -⟩ := List.getElem?_eq_some_iff.1 hname
  rw [(h.after calls).lists.index, List.eraseDups_append, List.getElem?_append_left hlt, hname]

/-- A filled slot stays as it is: the first type of a name remains the first. -/
theorem getElem?_slots_after (h : r.Tracks names types) (hslot : r.slots[i]? = some (some type))
    (calls : List Call) : (r.after calls).slots[i]? = some (some type) := by
  obtain ⟨hlt, -⟩ := Array.getElem?_eq_some_iff.1 hslot
  obtain ⟨name, hi⟩ := h.lists.exists_index hlt
  have htype := Option.some.inj ((h.getElem?_slots hi).symm.trans hslot)
  rw [(h.after calls).getElem?_slots (h.getElem?_index_after hi calls), typeOf?_append, htype,
    Option.some_or]

theorem name_of_slot (h : r.Tracks names types) (hi : r.index[name]? = some i)
    (hslot : r.slots[i]? = some (some type)) : type.name = name :=
  name_of_typeOf? (Option.some.inj ((h.getElem?_slots hi).symm.trans hslot))

theorem types_eq (h : r.Tracks names types) :
    r.types = names.eraseDups.filterMap (typeOf? types) := by
  rw [Registry.types, h.slots, List.filterMap_map]
  rfl

theorem typeOf?_of_mem (h : r.Tracks names types) (hmem : type ∈ types) :
    typeOf? types type.name = some type := by
  cases hfind : typeOf? types type.name with
  | none => exact absurd (List.mem_map_of_mem hmem) (typeOf?_eq_none_iff.1 hfind)
  | some other =>
    have hother : other ∈ types := List.mem_of_find?_eq_some hfind
    rw [List.inj_on_of_nodup_map h.distinct hother hmem (name_of_typeOf? hfind)]

theorem mem_types_iff (h : r.Tracks names types) : type ∈ r.types ↔ type ∈ types := by
  rw [h.types_eq, List.mem_filterMap]
  constructor
  · rintro ⟨name, -, hfind⟩
    exact List.mem_of_find?_eq_some hfind
  · intro hmem
    exact ⟨type.name, List.mem_eraseDups.2 (h.entered type hmem), h.typeOf?_of_mem hmem⟩

end Tracks

/-- What ending a type does whose name is being built and has the slot `i`. -/
structure Completes (r : Registry) (i : Nat) (type : RecordType) (answer : Answer) (r' : Registry) :
    Prop where
  removed : ∃ before behind, r.inProgress = before ++ type.name :: behind ∧
    r'.inProgress = before ++ behind
  index : r'.index = r.index
  added : answer = .registered .added ↔
    r.slots[i]? = some none ∧ r'.slots.toList = r.slots.toList.set i (some type)
  deduplicated : answer = .registered .deduplicated ↔ r.slots[i]? = some (some type)
  otherwise : answer ≠ .registered .added → answer ≠ .registered .deduplicated →
    answer = .failed (.conflictingDefinition type.name)
  kept : answer ≠ .registered .added → r'.slots = r.slots

/-- What holds of the registry that calls of an empty one lead to, and of its next call. -/
structure Accounted (r : Registry) (calls : List Call) : Prop where
  inProgress : r.inProgress.Nodup
  known : ∀ name ∈ r.inProgress, r.contains name = true
  /-- The index numbers the names in the order in which they were first entered. -/
  order : ∀ (name : String) (i : Nat), r.index[name]? = some i ↔ (entries calls)[i]? = some name
  /-- A name is known exactly if it has a slot. -/
  total : ∀ name, r.contains name = true ↔ ∃ i, r.index[name]? = some i ∧ i < r.slots.size
  injective : ∀ (name name' : String) (i : Nat), r.index[name]? = some i → r.index[name']? = some i →
    name = name'
  surjective : ∀ i < r.slots.size, ∃ name : String, r.index[name]? = some i
  named : ∀ (name : String) (i : Nat) (type : RecordType), r.index[name]? = some i →
    r.slots[i]? = some (some type) → type.name = name
  permanent : ∀ (i : Nat) (type : RecordType), r.slots[i]? = some (some type) →
    ∀ later, (r.after later).slots[i]? = some (some type)
  /-- A name keeps its slot. -/
  fixed : ∀ (name : String) (i : Nat), r.index[name]? = some i →
    ∀ later, (r.after later).index[name]? = some i
  enters : ∀ name, (r.call (.enter name)).1 = .entered ↔ name ∉ r.inProgress
  failedEnter : ∀ name cause, (r.call (.enter name)).1 = .failed cause →
    (r.call (.enter name)).2 = r
  notInProgress : ∀ type, type.name ∉ r.inProgress → (r.call (.complete type)).2 = r
  completes : ∀ type, type.name ∈ r.inProgress → ∃ i, r.index[type.name]? = some i ∧
    r.Completes i type (r.call (.complete type)).1 (r.call (.complete type)).2
  /-- The types are those that were added, in the order in which their names were first entered. -/
  types : r.types = (entries calls).filterMap (typeOf? (additions calls))
  mem_types : ∀ type, type ∈ r.types ↔ type ∈ additions calls

namespace Tracks

variable {r : Registry} {names : List String} {types : List RecordType} {type : RecordType}
  {i : Nat}

theorem completes (h : r.Tracks names types) (hopen : type.name ∈ r.inProgress)
    (hi : r.index[type.name]? = some i) :
    r.Completes i type (r.call (.complete type)).1 (r.call (.complete type)).2 := by
  have hget := h.get?_eq hi
  have hslot := h.getElem?_slots hi
  cases hfind : typeOf? types type.name with
  | none =>
    rw [hfind] at hget hslot
    rw [call_complete_of_none hopen hi hget]
    exact {
      removed := exists_removed hopen
      index := rfl
      added := ⟨fun _ => ⟨hslot, Array.toList_setIfInBounds ..⟩, fun _ => rfl⟩
      deduplicated := ⟨nofun, fun hfull => nomatch hslot.symm.trans hfull⟩
      otherwise := fun hne => absurd rfl hne
      kept := fun hne => absurd rfl hne }
  | some other =>
    rw [hfind] at hget hslot
    by_cases heq : other = type
    · subst heq
      rw [call_complete_of_eq hopen hi hget]
      exact {
        removed := exists_removed hopen
        index := rfl
        added := ⟨nofun, fun hfill => nomatch hslot.symm.trans hfill.1⟩
        deduplicated := ⟨fun _ => hslot, fun _ => rfl⟩
        otherwise := fun _ hne => absurd rfl hne
        kept := fun _ => rfl }
    · rw [call_complete_of_ne hopen hi hget heq]
      exact {
        removed := exists_removed hopen
        index := rfl
        added := ⟨nofun, fun hfill => nomatch hslot.symm.trans hfill.1⟩
        deduplicated := ⟨nofun, fun hfull =>
          absurd (Option.some.inj (Option.some.inj (hslot.symm.trans hfull))) heq⟩
        otherwise := fun _ _ => rfl
        kept := fun _ => rfl }

end Tracks

/-- After any calls, failed ones included: the names being built are distinct and known; the index
is a bijection between the known names and the slots, in the order of their first entry; a filled
slot has a type of its name and never changes; calls that fail at once change nothing; a type that
ends fills its slot, or finds an equal one there, or conflicts; and the types are those that were
added. -/
theorem lifecycle (calls : List Call) : (empty.after calls).Accounted calls := by
  have h := tracks_empty.after calls
  rw [List.nil_append, List.nil_append] at h
  exact {
    inProgress := h.inProgress
    known := fun name hopen => h.contains_iff.2 (h.known name hopen)
    order := h.lists.index
    total := fun name => contains_iff_exists.trans
      ⟨fun ⟨i, hi⟩ => ⟨i, hi, h.lists.lt_size hi⟩, fun ⟨i, hi, _⟩ => ⟨i, hi⟩⟩
    injective := fun name name' i hi hi' => Option.some.inj
      (((h.lists.index name i).1 hi).symm.trans ((h.lists.index name' i).1 hi'))
    surjective := fun i hlt => h.lists.exists_index hlt
    named := fun name i type hi hslot => h.name_of_slot hi hslot
    permanent := fun i type hslot later => h.getElem?_slots_after hslot later
    fixed := fun name i hi later => h.getElem?_index_after hi later
    enters := fun name => call_enter_eq_entered_iff
    failedEnter := fun name cause hfailed => by
      have hopen : name ∈ (empty.after calls).inProgress := by
        by_contra hclosed
        rw [call_enter_eq_entered_iff.2 hclosed] at hfailed
        cases hfailed
      rw [call_enter_of_mem hopen]
    notInProgress := fun type hopen => by rw [call_complete_of_not_mem hopen]
    completes := fun type hopen => by
      obtain ⟨i, hi⟩ := h.exists_index (h.known _ hopen)
      exact ⟨i, hi, h.completes hopen hi⟩
    types := h.types_eq
    mem_types := fun type => h.mem_types_iff }

/-- A cycle and a conflict on the way change no slot. -/
example :
    (empty.after [.enter "A", .enter "B", .enter "A", .complete ⟨"B", []⟩, .enter "B",
        .complete ⟨"B", [⟨"x", "x", .generic⟩]⟩, .complete ⟨"A", []⟩]).types
      = [⟨"A", []⟩, ⟨"B", []⟩] := by cbv

end SchemaRecords.Schema.Registry
