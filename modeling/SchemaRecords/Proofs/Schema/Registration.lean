import Mathlib.Data.List.Nodup
import SchemaRecords.Schema.Registry

/-!
# What a registry holds after types were entered and completed

The slots of a registry and its index belong together: the index numbers the
names in the order of their slots (`Lists`). Entering a type, registering all
types inside it and then completing it has the effect of adding them all in this
order, where a type whose name is known adds nothing: `exists_complete_iff`. The
types of a registry to which types were added are these types without repetitions
(`types_add`), provided that one name stands for one type.
-/

namespace SchemaRecords.Schema

/-- One name stands for one type. -/
def Agreeing (types : List RecordType) : Prop :=
  ∀ t ∈ types, ∀ t' ∈ types, t.name = t'.name → t = t'

theorem Agreeing.mono {types types' : List RecordType} (h : Agreeing types)
    (hsub : types' ⊆ types) : Agreeing types' :=
  fun t ht t' ht' => h t (hsub ht) t' (hsub ht')

section Repetitions

variable {α : Type} [BEq α] [LawfulBEq α]

theorem nodup_eraseDups (as : List α) : as.eraseDups.Nodup := by
  match as with
  | [] => exact .nil
  | a :: rest =>
    rw [List.eraseDups_cons, List.nodup_cons]
    refine ⟨fun h => ?_, nodup_eraseDups _⟩
    simpa using List.mem_eraseDups.1 h
termination_by as.length
decreasing_by
  have := List.length_filter_le (fun b => !b == a) rest
  simp only [List.length_cons]
  omega

theorem eraseDups_append_singleton (as : List α) (a : α) :
    (as ++ [a]).eraseDups = if a ∈ as then as.eraseDups else as.eraseDups ++ [a] := by
  rw [List.eraseDups_append]
  split <;> simp_all [List.removeAll, List.eraseDups_cons]

end Repetitions

namespace Registry

variable {r : Registry} {names : List String} {name : String}

/-! ## Slots and their index -/

/-- The slots are those of these names, one after the other, and the index says which is which. -/
structure Lists (r : Registry) (names : List String) : Prop where
  nodup : names.Nodup
  size : r.slots.size = names.length
  index : ∀ (name : String) (i : Nat), r.index[name]? = some i ↔ names[i]? = some name

theorem lists_empty : empty.Lists [] :=
  ⟨.nil, rfl, fun name i => by simp [empty]⟩

theorem contains_iff_exists : r.contains name = true ↔ ∃ i, r.index[name]? = some i := by
  rw [contains, Std.HashMap.contains_eq_isSome_getElem?, Option.isSome_iff_exists]

theorem slot?_eq_some_iff {i : Nat} {type : RecordType} :
    r.slot? i = some type ↔ r.slots[i]? = some (some type) :=
  Option.join_eq_some_iff

theorem get?_eq_slot? {i : Nat} (h : r.index[name]? = some i) : r.get? name = r.slot? i := by
  rw [get?, h, Option.bind_some]

theorem contains_of_get? {type : RecordType} (h : r.get? name = some type) :
    r.contains name = true := by
  obtain ⟨i, hi, -⟩ := Option.bind_eq_some_iff.1 h
  exact contains_iff_exists.2 ⟨i, hi⟩

namespace Lists

theorem contains_iff (h : r.Lists names) : r.contains name = true ↔ name ∈ names := by
  simp only [contains_iff_exists, h.index, List.mem_iff_getElem?]

theorem lt_size (h : r.Lists names) {i : Nat} (hi : r.index[name]? = some i) :
    i < r.slots.size := by
  obtain ⟨hlt, -⟩ := List.getElem?_eq_some_iff.1 ((h.index name i).1 hi)
  rwa [h.size]

/-- Every slot is that of a name. -/
theorem exists_index (h : r.Lists names) {i : Nat} (hi : i < r.slots.size) :
    ∃ name : String, r.index[name]? = some i := by
  rw [h.size] at hi
  exact ⟨names[i], (h.index _ i).2 (List.getElem?_eq_getElem hi)⟩

theorem mem_types (h : r.Lists names) {type : RecordType} :
    type ∈ r.types ↔ ∃ name, r.get? name = some type := by
  rw [types, List.mem_filterMap]
  constructor
  · rintro ⟨slot, hslot, rfl⟩
    obtain ⟨i, hi⟩ := List.mem_iff_getElem?.1 hslot
    rw [Array.getElem?_toList] at hi
    obtain ⟨hlt, -⟩ := Array.getElem?_eq_some_iff.1 hi
    obtain ⟨name, hname⟩ := h.exists_index hlt
    exact ⟨name, (get?_eq_slot? hname).trans (slot?_eq_some_iff.2 hi)⟩
  · rintro ⟨name, hget⟩
    obtain ⟨i, -, hi⟩ := Option.bind_eq_some_iff.1 hget
    rw [slot?_eq_some_iff, ← Array.getElem?_toList] at hi
    exact ⟨some type, List.mem_of_getElem? hi, rfl⟩

end Lists

/-! ## A slot for a name -/

theorem reserve_of_contains (h : r.contains name = true) (slot : Option RecordType) :
    r.reserve name slot = r := if_pos h

theorem reserve_of_not (h : ¬r.contains name = true) (slot : Option RecordType) :
    r.reserve name slot
      = { r with slots := r.slots.push slot, index := r.index.insert name r.slots.size } := if_neg h

@[simp] theorem inProgress_reserve (slot : Option RecordType) :
    (r.reserve name slot).inProgress = r.inProgress := by
  unfold reserve
  split <;> rfl

theorem reserve_within (slot : Option RecordType) (inProgress : List String) :
    ({ r with inProgress } : Registry).reserve name slot
      = { r.reserve name slot with inProgress } := by
  unfold reserve
  show (if r.contains name = true then _ else _) = _
  split <;> rfl

theorem getElem?_index_reserve {other : String} {slot : Option RecordType}
    (h : ¬r.contains name = true) :
    (r.reserve name slot).index[other]?
      = if name = other then some r.slots.size else r.index[other]? := by
  rw [reserve_of_not h]
  simp only [Std.HashMap.getElem?_insert, beq_iff_eq]

theorem contains_reserve {other : String} {slot : Option RecordType} :
    (r.reserve name slot).contains other = true ↔ r.contains other = true ∨ other = name := by
  by_cases h : r.contains name = true
  · rw [reserve_of_contains h]
    exact ⟨.inl, fun hor => hor.elim id fun heq => heq ▸ h⟩
  · rw [contains_iff_exists, getElem?_index_reserve h, contains_iff_exists]
    by_cases hother : name = other
    · simp [hother]
    · simp [hother, Ne.symm hother]

theorem types_reserve (slot : Option RecordType) :
    (r.reserve name slot).types
      = if r.contains name = true then r.types else r.types ++ slot.toList := by
  unfold reserve types
  split
  · rfl
  · cases slot <;> simp

theorem Lists.reserve (h : r.Lists names) (hname : name ∉ names) (slot : Option RecordType) :
    (r.reserve name slot).Lists (names ++ [name]) where
  nodup := by
    rw [List.nodup_append]
    refine ⟨h.nodup, List.nodup_cons.2 ⟨List.not_mem_nil, .nil⟩, ?_⟩
    intro n hn n' hn' heq
    obtain rfl : n = name := heq.trans (List.mem_singleton.1 hn')
    exact hname hn
  size := by
    rw [reserve_of_not (h.contains_iff.not.2 hname)]
    simp [h.size]
  index other i := by
    rw [getElem?_index_reserve (h.contains_iff.not.2 hname), List.getElem?_append, h.size]
    by_cases hother : name = other
    · -- the name has the last place and no other
      subst hother
      have hold : ∀ i, names[i]? ≠ some name := fun i hi => hname (List.mem_of_getElem? hi)
      rw [if_pos rfl]
      split
      · have := hold i
        grind
      · grind
    · rw [if_neg hother, h.index]
      split
      · rfl
      · grind

theorem Lists.exists_reserve (h : r.Lists names) (name : String) (slot : Option RecordType) :
    ∃ names, (r.reserve name slot).Lists names := by
  by_cases hname : name ∈ names
  · rw [reserve_of_contains (h.contains_iff.2 hname)]
    exact ⟨names, h⟩
  · exact ⟨_, h.reserve hname slot⟩

/-- A name gets what is put into its new slot. An old slot is not the one at the end. -/
theorem Lists.get?_reserve (h : r.Lists names) (slot : Option RecordType) (other : String) :
    (r.reserve name slot).get? other
      = if ¬r.contains name = true ∧ name = other then slot else r.get? other := by
  by_cases hknown : r.contains name = true
  · rw [reserve_of_contains hknown, if_neg (fun hand => hand.1 hknown)]
  · have hslots : (r.reserve name slot).slots = r.slots.push slot := by rw [reserve_of_not hknown]
    rw [get?, getElem?_index_reserve hknown]
    by_cases hother : name = other
    · rw [if_pos hother, if_pos ⟨hknown, hother⟩, Option.bind_some, slot?, hslots]
      simp
    · rw [if_neg hother, if_neg (fun hand => hother hand.2), get?]
      cases hi : r.index[other]? with
      | none => rfl
      | some i =>
        have hne : i ≠ r.slots.size := Nat.ne_of_lt (h.lt_size hi)
        rw [Option.bind_some, Option.bind_some, slot?, slot?, hslots, Array.getElem?_push,
          if_neg hne]

/-- What holds of every registry in use. -/
structure Proper (r : Registry) : Prop where
  lists : ∃ names, r.Lists names
  named : ∀ name type, r.get? name = some type → type.name = name
  /-- A name without a type is being built. -/
  pending : ∀ name, r.contains name = true → r.get? name = none → name ∈ r.inProgress

theorem Proper.mem_types (h : r.Proper) {type : RecordType} :
    type ∈ r.types ↔ ∃ name, r.get? name = some type :=
  h.lists.choose_spec.mem_types

theorem proper_empty : empty.Proper :=
  ⟨⟨[], lists_empty⟩, by simp [empty, get?], by simp [empty, contains]⟩

/-! ## Adding complete types -/

/-- The registry with complete types added in order, each in a slot of its own. -/
def add (r : Registry) (types : List RecordType) : Registry :=
  types.foldl (fun r type => r.reserve type.name (some type)) r

theorem add_nil : r.add [] = r := rfl

theorem add_cons (type : RecordType) (types : List RecordType) :
    r.add (type :: types) = (r.add [type]).add types := rfl

theorem add_append (types types' : List RecordType) :
    r.add (types ++ types') = (r.add types).add types' := by
  simp only [add, List.foldl_append]

theorem add_singleton (type : RecordType) : r.add [type] = r.reserve type.name (some type) := rfl

@[simp] theorem add_inProgress (types : List RecordType) :
    (r.add types).inProgress = r.inProgress := by
  induction types generalizing r with
  | nil => rfl
  | cons type types ih => rw [add_cons, ih, add_singleton, inProgress_reserve]

theorem add_within (types : List RecordType) (inProgress : List String) :
    ({ r with inProgress } : Registry).add types = { r.add types with inProgress } := by
  induction types generalizing r with
  | nil => rfl
  | cons type types ih => rw [add_cons, add_singleton, reserve_within, ih, ← add_singleton, ← add_cons]

theorem contains_add {types : List RecordType} :
    (r.add types).contains name = true ↔
      r.contains name = true ∨ name ∈ types.map RecordType.name := by
  induction types generalizing r with
  | nil => simp [add_nil]
  | cons type types ih =>
    rw [add_cons, ih, add_singleton, contains_reserve, List.map_cons, List.mem_cons, or_assoc]

theorem Proper.get?_add_singleton (h : r.Proper) (type : RecordType) (name : String) :
    (r.add [type]).get? name
      = if ¬r.contains type.name = true ∧ type.name = name then some type else r.get? name := by
  obtain ⟨names, hlists⟩ := h.lists
  exact hlists.get?_reserve (some type) name

theorem Proper.add (h : r.Proper) (types : List RecordType) : (r.add types).Proper := by
  induction types generalizing r with
  | nil => exact h
  | cons type types ih =>
    rw [add_cons]
    apply ih
    refine ⟨?_, ?_, ?_⟩
    · obtain ⟨names, hlists⟩ := h.lists
      exact hlists.exists_reserve _ _
    · intro name other hget
      rw [h.get?_add_singleton] at hget
      split at hget
      · rename_i hnew
        cases hget
        exact hnew.2
      · exact h.named name other hget
    · intro name hknown hget
      rw [h.get?_add_singleton] at hget
      split at hget
      · cases hget
      · rename_i hold
        rw [add_inProgress]
        obtain hknown | hname := contains_reserve.1 hknown
        · exact h.pending name hknown hget
        · have hthere : r.contains type.name = true := by
            by_contra hnot
            exact hold ⟨hnot, hname.symm⟩
          exact h.pending name (hname ▸ hthere) hget

/-- A known name has a type, unless it is being built. -/
theorem Proper.exists_type (h : r.Proper) (hknown : r.contains name = true)
    (hopen : name ∉ r.inProgress) : ∃ type, r.get? name = some type := by
  cases hget : r.get? name with
  | none => exact absurd (h.pending name hknown hget) hopen
  | some type => exact ⟨type, rfl⟩

/-- Nothing changes for a known name. -/
theorem Proper.get?_add (h : r.Proper) (hknown : r.contains name = true) (types : List RecordType) :
    (r.add types).get? name = r.get? name := by
  induction types generalizing r with
  | nil => rfl
  | cons first types ih =>
    rw [add_cons, ih (h.add [first]) (contains_add.2 (.inl hknown)), h.get?_add_singleton, if_neg]
    exact fun hand => hand.1 (hand.2 ▸ hknown)

/-- A type that agrees with those of the registry is there after it was added. -/
theorem Proper.mem_types_add_singleton (h : r.Proper) {type : RecordType}
    (hopen : type.name ∉ r.inProgress) (hagree : Agreeing (type :: r.types)) :
    type ∈ (r.add [type]).types := by
  rw [(h.add [type]).mem_types]
  refine ⟨type.name, ?_⟩
  by_cases hknown : r.contains type.name = true
  · obtain ⟨other, hget⟩ := h.exists_type hknown hopen
    have hother : other ∈ r.types := h.mem_types.2 ⟨_, hget⟩
    obtain rfl : type = other := hagree type List.mem_cons_self other
      (List.mem_cons_of_mem _ hother) (h.named _ _ hget).symm
    rw [h.get?_add hknown, hget]
  · rw [h.get?_add_singleton, if_pos ⟨hknown, rfl⟩]

theorem types_add_singleton (type : RecordType) :
    (r.add [type]).types =
      if r.contains type.name = true then r.types else r.types ++ [type] :=
  types_reserve (some type)

theorem types_add_singleton_subset (type : RecordType) : (r.add [type]).types ⊆ type :: r.types := by
  intro other hmem
  rw [types_add_singleton] at hmem
  split at hmem
  · exact List.mem_cons_of_mem _ hmem
  · obtain hold | hnew := List.mem_append.1 hmem
    · exact List.mem_cons_of_mem _ hold
    · exact List.mem_singleton.1 hnew ▸ List.mem_cons_self

theorem types_subset_types_add_singleton (type : RecordType) :
    r.types ⊆ (r.add [type]).types := by
  rw [types_add_singleton]
  split
  · exact List.Subset.refl _
  · exact List.subset_append_left _ _

theorem types_add_subset (types : List RecordType) : (r.add types).types ⊆ r.types ++ types := by
  induction types generalizing r with
  | nil => simp [add_nil]
  | cons type types ih =>
    intro other hmem
    obtain hold | hnew := List.mem_append.1 (ih (r := r.add [type]) hmem)
    · obtain rfl | hknown := List.mem_cons.1 (types_add_singleton_subset type hold)
      · exact List.mem_append_right _ List.mem_cons_self
      · exact List.mem_append_left _ hknown
    · exact List.mem_append_right _ (List.mem_cons_of_mem _ hnew)

/-- The types of the registry and the added ones are there afterwards, if they agree. -/
theorem Proper.mem_types_add (h : r.Proper) {types : List RecordType}
    (hopen : ∀ t ∈ types, t.name ∉ r.inProgress) (hagree : Agreeing (r.types ++ types))
    {type : RecordType} : type ∈ (r.add types).types ↔ type ∈ r.types ++ types := by
  refine ⟨fun hmem => types_add_subset types hmem, ?_⟩
  induction types generalizing r with
  | nil => simp [add_nil]
  | cons first types ih =>
    intro hmem
    have hfirst : first ∈ (r.add [first]).types :=
      h.mem_types_add_singleton (hopen first List.mem_cons_self) <| hagree.mono <| by
        intro t ht
        obtain rfl | ht := List.mem_cons.1 ht
        · exact List.mem_append_right _ List.mem_cons_self
        · exact List.mem_append_left _ ht
    have hagree' : Agreeing ((r.add [first]).types ++ types) := hagree.mono <| by
      intro t ht
      obtain ht | ht := List.mem_append.1 ht
      · obtain rfl | ht := List.mem_cons.1 (types_add_singleton_subset first ht)
        · exact List.mem_append_right _ List.mem_cons_self
        · exact List.mem_append_left _ ht
      · exact List.mem_append_right _ (List.mem_cons_of_mem _ ht)
    have hopen' : ∀ t ∈ types, t.name ∉ (r.add [first]).inProgress := by
      intro t ht
      rw [add_inProgress]
      exact hopen t (List.mem_cons_of_mem _ ht)
    apply ih (h.add [first]) hopen' hagree'
    obtain hold | hnew := List.mem_append.1 hmem
    · exact List.mem_append_left _ (types_subset_types_add_singleton first hold)
    · obtain rfl | hnew := List.mem_cons.1 hnew
      · exact List.mem_append_left _ hfirst
      · exact List.mem_append_right _ hnew

/-- Types that agree are added one by one as they are added together. -/
theorem Proper.agreeing_append_iff (h : r.Proper) {types types' : List RecordType}
    (hopen : ∀ t ∈ types, t.name ∉ r.inProgress) :
    Agreeing (r.types ++ (types ++ types')) ↔
      Agreeing (r.types ++ types) ∧ Agreeing ((r.add types).types ++ types') := by
  have hmem : Agreeing (r.types ++ types) →
      ∀ {type}, type ∈ (r.add types).types ↔ type ∈ r.types ++ types :=
    fun hagree => h.mem_types_add hopen hagree
  constructor
  · intro hall
    have hagree : Agreeing (r.types ++ types) := hall.mono (by simp)
    refine ⟨hagree, hall.mono fun t ht => ?_⟩
    rw [List.mem_append, hmem hagree] at ht
    simpa [or_assoc] using ht
  · rintro ⟨hagree, hall⟩
    refine hall.mono fun t ht => ?_
    rw [List.mem_append, hmem hagree]
    simpa [or_assoc] using ht

/-- Added types stand in the order in which they first come. -/
theorem Proper.types_add (h : r.Proper) {types before : List RecordType}
    (hopen : ∀ t ∈ types, t.name ∉ r.inProgress) (hagree : Agreeing (r.types ++ types))
    (hbefore : r.types = before.eraseDups) : (r.add types).types = (before ++ types).eraseDups := by
  induction types generalizing r before with
  | nil => rw [add_nil, hbefore, List.append_nil]
  | cons first types ih =>
    have hfirst : ∀ t ∈ [first], t.name ∉ r.inProgress := by simp_all
    have hsplit : Agreeing (r.types ++ [first]) ∧ Agreeing ((r.add [first]).types ++ types) :=
      (h.agreeing_append_iff hfirst).1 hagree
    have hopen' : ∀ t ∈ types, t.name ∉ (r.add [first]).inProgress := by simp_all
    rw [add_cons, List.append_cons]
    apply ih (h.add [first]) hopen' hsplit.2
    rw [types_add_singleton, eraseDups_append_singleton, hbefore]
    -- a name is known exactly if its type is
    have hiff : r.contains first.name = true ↔ first ∈ before := by
      rw [← List.mem_eraseDups (l := before), ← hbefore]
      constructor
      · intro hknown
        have hthere := (h.mem_types_add hfirst hsplit.1).2
          (List.mem_append_right _ List.mem_cons_self)
        rwa [types_add_singleton, if_pos hknown] at hthere
      · intro hthere
        obtain ⟨name, hget⟩ := h.mem_types.1 hthere
        rw [h.named _ _ hget]
        exact contains_of_get? hget
    simp only [hiff]

/-! ## Entering and completing -/

/-- The registry after a name was entered. -/
def opened (r : Registry) (name : String) : Registry :=
  { r.reserve name none with inProgress := r.inProgress ++ [name] }

theorem enter_of_mem (h : name ∈ r.inProgress) :
    r.enter name = (.error (.circularReference (r.inProgress ++ [name])), r) :=
  if_pos (List.contains_iff_mem.2 h)

theorem enter_of_not_mem (h : name ∉ r.inProgress) : r.enter name = (.ok (), r.opened name) :=
  if_neg (List.contains_iff_mem.not.2 h)

theorem types_opened (name : String) : (r.opened name).types = r.types := by
  show (r.reserve name none).types = r.types
  rw [types_reserve]
  split
  · rfl
  · exact List.append_nil _

theorem contains_opened {other : String} :
    (r.opened name).contains other = true ↔ r.contains other = true ∨ other = name :=
  contains_reserve

theorem Proper.get?_opened (h : r.Proper) (name other : String) :
    (r.opened name).get? other
      = if ¬r.contains name = true ∧ name = other then none else r.get? other := by
  obtain ⟨names, hlists⟩ := h.lists
  exact hlists.get?_reserve none other

theorem Proper.opened (h : r.Proper) (name : String) : (r.opened name).Proper := by
  obtain ⟨names, hlists⟩ := h.lists
  obtain ⟨names', hlists'⟩ := hlists.exists_reserve name none
  refine ⟨⟨names', hlists'.nodup, hlists'.size, hlists'.index⟩, ?_, ?_⟩
  · intro other type hsome
    rw [h.get?_opened] at hsome
    split at hsome
    · cases hsome
    · exact h.named other type hsome
  · intro other hknown hnone
    obtain hold | rfl := contains_opened.1 hknown
    · by_cases hname : name = other
      · exact List.mem_append_right _ (List.mem_singleton.2 hname.symm)
      · rw [h.get?_opened, if_neg (fun hand => hname hand.2)] at hnone
        exact List.mem_append_left _ (h.pending other hold hnone)
    · exact List.mem_append_right _ List.mem_cons_self

/-- A name that is being built leaves the place where it came last. -/
theorem leave_concat (h : r.inProgress = names ++ [name]) :
    r.leave name = { r with inProgress := names } := by
  rw [leave, h]
  simp

theorem opened_within (r : Registry) (name : String) :
    ({ r.opened name with inProgress := r.inProgress } : Registry) = r.reserve name none := by
  unfold opened reserve
  split <;> rfl

/-- Completing a type goes by what its slot holds. -/
theorem complete_eq {type : RecordType} {i : Nat} (hopen : type.name ∈ r.inProgress)
    (hi : r.index[type.name]? = some i) :
    r.complete type = match r.get? type.name with
      | none => (.ok .added, (r.leave type.name).fill i type)
      | some existing =>
        if existing = type then (.ok .deduplicated, r.leave type.name)
        else (.error (.conflictingDefinition type.name), r.leave type.name) := by
  rw [complete, List.contains_iff_mem.2 hopen, hi, get?_eq_slot? hi]
  rfl

theorem complete_of_not_mem {type : RecordType} (h : type.name ∉ r.inProgress) :
    r.complete type = (.error (.invalidDocument (.notEntered type.name)), r) := by
  have hclosed : r.inProgress.contains type.name = false := by simpa using h
  rw [complete, hclosed]

/-- A slot that is there can be filled before or after others are added. -/
theorem fill_add {i : Nat} (hi : i < r.slots.size) (type : RecordType) (types : List RecordType) :
    (r.add types).fill i type = (r.fill i type).add types := by
  induction types generalizing r with
  | nil => rfl
  | cons first types ih =>
    have hstep : (r.add [first]).fill i type = (r.fill i type).add [first] := by
      simp only [add_singleton, reserve]
      show _ = if r.contains first.name = true then _ else _
      split
      · rfl
      · simp only [fill, Array.size_setIfInBounds, Registry.mk.injEq, and_true]
        exact Array.ext (by simp) fun j hj hj' => by grind
    have hsize : i < (r.add [first]).slots.size := by
      rw [add_singleton, reserve]
      split
      · exact hi
      · rw [Array.size_push]
        exact Nat.lt_succ_of_lt hi
    rw [add_cons, ih hsize, hstep, ← add_cons]

theorem index_add {i : Nat} (h : r.index[name]? = some i) (types : List RecordType) :
    (r.add types).index[name]? = some i := by
  induction types generalizing r with
  | nil => exact h
  | cons first types ih =>
    refine ih (r := r.add [first]) ?_
    rw [add_singleton]
    by_cases hknown : r.contains first.name = true
    · rw [reserve_of_contains hknown, h]
    · rw [getElem?_index_reserve hknown, if_neg, h]
      exact fun heq => hknown (contains_iff_exists.2 ⟨i, heq ▸ h⟩)

/-- A type that was entered after `r`, with others inside it, can be completed exactly if it
agrees with the types of `r`. It then stands before those inside it. -/
theorem Proper.exists_complete_iff (h : r.Proper) {type : RecordType} {inner : List RecordType}
    (hopen : type.name ∉ r.inProgress) {r' : Registry} :
    (∃ done, ((r.opened type.name).add inner).complete type = (.ok done, r')) ↔
      (∀ t ∈ r.types, t.name = type.name → t = type) ∧ r' = r.add (type :: inner) := by
  have hprogress : ((r.opened type.name).add inner).inProgress = r.inProgress ++ [type.name] :=
    add_inProgress inner
  have hthere : type.name ∈ ((r.opened type.name).add inner).inProgress :=
    hprogress ▸ List.mem_append_right _ List.mem_cons_self
  have hleave : ((r.opened type.name).add inner).leave type.name
      = (r.reserve type.name none).add inner := by
    rw [leave_concat hprogress, ← add_within, opened_within]
  have hentered : (r.opened type.name).contains type.name = true := contains_opened.2 (.inr rfl)
  have hget := (h.opened type.name).get?_add hentered inner
  rw [h.get?_opened] at hget
  by_cases hknown : r.contains type.name = true
  · -- the name has a slot already, and a type in it, since it is not being built
    obtain ⟨existing, hexisting⟩ := h.exists_type hknown hopen
    obtain ⟨i, hi⟩ := contains_iff_exists.1 hentered
    rw [if_neg (fun hand => hand.1 hknown), hexisting] at hget
    have hagree : (∀ t ∈ r.types, t.name = type.name → t = type) ↔ existing = type := by
      constructor
      · intro hall
        exact hall existing (h.mem_types.2 ⟨_, hexisting⟩) (h.named _ _ hexisting)
      · intro heq t ht hsame
        obtain ⟨name, ht⟩ := h.mem_types.1 ht
        rw [← h.named _ _ ht, hsame, hexisting] at ht
        exact (Option.some.inj ht).symm.trans heq
    rw [complete_eq hthere (index_add hi inner), hget, hleave, hagree, add_cons, add_singleton,
      reserve_of_contains hknown, reserve_of_contains hknown]
    by_cases heq : existing = type
    · simp [heq, eq_comm]
    · simp [heq]
  · -- the name got a slot when it was entered, which the type fills
    have hi : (r.opened type.name).index[type.name]? = some r.slots.size := by
      show (r.reserve type.name none).index[type.name]? = _
      rw [getElem?_index_reserve hknown, if_pos rfl]
    rw [if_pos ⟨hknown, rfl⟩] at hget
    have hfill : ((r.reserve type.name none).add inner).fill r.slots.size type
        = r.add (type :: inner) := by
      have hlast : (r.slots.push none).setIfInBounds r.slots.size (some type)
          = r.slots.push (some type) := Array.ext (by simp) fun j hj hj' => by grind
      rw [fill_add (by simp [reserve_of_not hknown]), add_cons, add_singleton,
        reserve_of_not hknown, reserve_of_not hknown, fill, hlast]
    have hagree : ∀ t ∈ r.types, t.name = type.name → t = type := by
      intro t ht hsame
      obtain ⟨name, ht⟩ := h.mem_types.1 ht
      rw [← h.named _ _ ht, hsame] at ht
      exact absurd (contains_of_get? ht) hknown
    rw [complete_eq hthere (index_add hi inner), hget, hleave, hfill]
    rw [and_iff_right hagree, eq_comm]
    simp

end Registry

end SchemaRecords.Schema
