import Mathlib.Data.Multiset.Bind
import SchemaRecords.Json.Node

/-!
# Documents in another order

An object whose keys differ means the same in whatever order its entries stand.
`Node.Reordered` relates documents that differ only in such orders, at any depth.
What a document shows of itself is then the same: its outermost layer up to
entries and items (`Reordered.alike`), what stands under a key (`Reordered.get?`)
and its entries as a bag (`Reordered.rel_entries`).

* `Node.Distinct.reordered_canonical`: a document without repeated keys has its
  canonical form as a reordering.
-/

namespace SchemaRecords.Json.Node

/-- The documents differ only in the order of entries of objects whose keys differ. -/
inductive Reordered : Node → Node → Prop where
  | refl (node : Node) : Reordered node node
  | trans {a b c : Node} (first : Reordered a b) (second : Reordered b c) : Reordered a c
  | entries {entries entries' : List (String × Node)} (distinct : (entries.map (·.1)).Nodup)
      (perm : entries.Perm entries') : Reordered (.object entries) (.object entries')
  /-- An item of an array is reordered. -/
  | item {a b : Node} (before after : List Node) (inner : Reordered a b) :
      Reordered (.array (before ++ a :: after)) (.array (before ++ b :: after))
  /-- A value of an object is reordered. The keys of that object may repeat. -/
  | value {a b : Node} (key : String) (before after : List (String × Node))
      (inner : Reordered a b) :
      Reordered (.object (before ++ (key, a) :: after)) (.object (before ++ (key, b) :: after))

/-- The entries have the same key, and their values differ only in order. -/
def EntryReordered (e e' : String × Node) : Prop := e.1 = e'.1 ∧ Reordered e.2 e'.2

/-- The documents are equal, or both are arrays or both are objects. -/
inductive Alike : Node → Node → Prop where
  | same (node : Node) : Alike node node
  | arrays (items items' : List Node) : Alike (.array items) (.array items')
  | objects (entries entries' : List (String × Node)) : Alike (.object entries) (.object entries')

theorem EntryReordered.refl (e : String × Node) : EntryReordered e e := ⟨rfl, .refl _⟩

instance : IsTrans (String × Node) EntryReordered :=
  ⟨fun _ _ _ h h' => ⟨h.1.trans h'.1, h.2.trans h'.2⟩⟩

/-- A key that occurs once has its value wherever it stands. -/
theorem lookup_eq_of_perm {entries entries' : List (String × Node)} (h : entries.Perm entries')
    (hkeys : (entries.map (·.1)).Nodup) (key : String) :
    entries.lookup key = entries'.lookup key := by
  induction h with
  | nil => rfl
  | cons entry _ ih =>
    obtain ⟨k, v⟩ := entry
    rw [List.map_cons, List.nodup_cons] at hkeys
    rw [List.lookup_cons, List.lookup_cons, ih hkeys.2]
  | swap entry other rest =>
    obtain ⟨k, v⟩ := entry
    obtain ⟨k', v'⟩ := other
    have hne : k' ≠ k := by
      intro heq
      simp [heq] at hkeys
    simp only [List.lookup_cons]
    by_cases hk : key = k
    · have hk' : key ≠ k' := fun h => hne (h.symm.trans hk)
      simp [hk, beq_eq_false_iff_ne.2 (hk ▸ hk')]
    · simp [beq_eq_false_iff_ne.2 hk]
  | trans first _ ih ih' => exact (ih hkeys).trans (ih' ((first.map _).nodup_iff.1 hkeys))

namespace Reordered

variable {a b : Node}

theorem symm (h : a.Reordered b) : b.Reordered a := by
  induction h with
  | refl node => exact .refl node
  | trans _ _ ih ih' => exact .trans ih' ih
  | entries distinct perm => exact .entries ((perm.map _).nodup_iff.1 distinct) perm.symm
  | item before after _ ih => exact .item before after ih
  | value key before after _ ih => exact .value key before after ih

theorem alike (h : a.Reordered b) : a.Alike b := by
  induction h with
  | refl node => exact .same node
  | trans _ _ ih ih' =>
    cases ih with
    | same => exact ih'
    | arrays items items' =>
      cases ih' with
      | same => exact .arrays _ _
      | arrays => exact .arrays _ _
    | objects entries entries' =>
      cases ih' with
      | same => exact .objects _ _
      | objects => exact .objects _ _
  | entries => exact .objects _ _
  | item => exact .arrays _ _
  | value => exact .objects _ _

theorem text?_eq (h : a.Reordered b) : a.text? = b.text? := by
  cases h.alike <;> rfl

theorem rel_refl (found : Option Node) : Option.Rel Reordered found found := by
  cases found with
  | none => exact .none
  | some value => exact .some (.refl value)

theorem rel_trans {x y z : Option Node} (h : Option.Rel Reordered x y)
    (h' : Option.Rel Reordered y z) : Option.Rel Reordered x z := by
  cases h with
  | none => exact h'
  | some first =>
    cases h' with
    | some second => exact .some (first.trans second)

/-- What stands under a key differs only in order. -/
theorem get? (h : a.Reordered b) (key : String) :
    Option.Rel Reordered (a.get? key) (b.get? key) := by
  induction h with
  | refl node => exact rel_refl _
  | trans _ _ ih ih' => exact rel_trans ih ih'
  | entries distinct perm =>
    rw [Node.get?, Node.get?, lookup_eq_of_perm perm distinct]
    exact rel_refl _
  | item => exact .none
  | value k before after inner =>
    rw [Node.get?, Node.get?, List.lookup_append, List.lookup_append, List.lookup_cons,
      List.lookup_cons]
    cases before.lookup key with
    | some found => exact rel_refl _
    | none =>
      cases key == k with
      | true => exact .some inner
      | false => exact rel_refl _

/-- A text under a key is the same. -/
theorem text?_get? (h : a.Reordered b) (key : String) :
    (a.get? key).bind text? = (b.get? key).bind text? := by
  have hfound := h.get? key
  generalize a.get? key = found, b.get? key = found' at hfound
  cases hfound with
  | none => rfl
  | some inner => exact inner.text?_eq

/-- As bags, the entries differ only in the order inside their values. -/
theorem rel_entries (h : a.Reordered b) :
    Multiset.Rel EntryReordered (a.entries?.getD []) (b.entries?.getD []) := by
  induction h with
  | refl node => exact Multiset.rel_refl_of_refl_on fun e _ => .refl e
  | trans _ _ ih ih' => exact Multiset.Rel.trans _ ih ih'
  | entries distinct perm =>
    rw [entries?, entries?, Option.getD_some, Option.getD_some, Multiset.coe_eq_coe.2 perm]
    exact Multiset.rel_refl_of_refl_on fun e _ => .refl e
  | item => exact .zero
  | value key before after inner =>
    rw [entries?, entries?, Option.getD_some, Option.getD_some, ← Multiset.coe_add,
      ← Multiset.coe_add, ← Multiset.cons_coe, ← Multiset.cons_coe]
    exact (Multiset.rel_refl_of_refl_on fun e _ => .refl e).add
      (.cons ⟨rfl, inner⟩ (Multiset.rel_refl_of_refl_on fun e _ => .refl e))

/-- All items of an array may be reordered. -/
theorem array {items items' : List Node} (h : List.Forall₂ Reordered items items')
    (before : List Node) : (Node.array (before ++ items)).Reordered (.array (before ++ items')) := by
  induction h generalizing before with
  | nil => exact .refl _
  | @cons item item' items items' inner _ ih =>
    have hrest := ih (before ++ [item'])
    rw [List.append_assoc, List.append_assoc] at hrest
    exact (Reordered.item before items inner).trans hrest

/-- All values of an object may be reordered. -/
theorem object {entries entries' : List (String × Node)}
    (h : List.Forall₂ EntryReordered entries entries') (before : List (String × Node)) :
    (Node.object (before ++ entries)).Reordered (.object (before ++ entries')) := by
  induction h generalizing before with
  | nil => exact .refl _
  | @cons entry entry' entries entries' inner _ ih =>
    obtain ⟨key, value⟩ := entry
    obtain ⟨_, value'⟩ := entry'
    obtain ⟨rfl, inner⟩ := inner
    have hrest := ih (before ++ [(key, value')])
    rw [List.append_assoc, List.append_assoc] at hrest
    exact (Reordered.value key before entries inner).trans hrest

end Reordered

/-! ## The canonical form -/

/-- No object in the document repeats a key. -/
inductive Distinct : Node → Prop where
  | null : Distinct .null
  | bool (value : Bool) : Distinct (.bool value)
  | number (value : Number) : Distinct (.number value)
  | string (text : String) : Distinct (.string text)
  | array {items : List Node} (inner : ∀ item ∈ items, Distinct item) : Distinct (.array items)
  | object {entries : List (String × Node)} (keys : (entries.map (·.1)).Nodup)
      (inner : ∀ entry ∈ entries, Distinct entry.2) : Distinct (.object entries)

@[simp]
theorem distinct_array_iff {items : List Node} :
    (Node.array items).Distinct ↔ ∀ item ∈ items, item.Distinct := by
  constructor
  · intro h
    cases h with
    | array inner => exact inner
  · exact .array

@[simp]
theorem distinct_object_iff {entries : List (String × Node)} :
    (Node.object entries).Distinct ↔
      (entries.map (·.1)).Nodup ∧ ∀ entry ∈ entries, entry.2.Distinct := by
  constructor
  · intro h
    cases h with
    | object keys inner => exact ⟨keys, inner⟩
  · rintro ⟨keys, inner⟩
    exact .object keys inner

theorem put_perm {key : String} {entries : List (String × Node)} (value : Node)
    (h : key ∉ entries.map (·.1)) : (put key value entries).Perm ((key, value) :: entries) := by
  induction entries with
  | nil => exact .refl _
  | cons entry rest ih =>
    obtain ⟨k, v⟩ := entry
    rw [List.map_cons, List.mem_cons, not_or] at h
    rw [put, if_neg h.1]
    split
    · exact .refl _
    · exact ((ih h.2).cons (k, v)).trans (.swap _ _ _)

theorem canonicalItems_eq (items : List Node) : canonicalItems items = items.map canonical := by
  induction items with
  | nil => rfl
  | cons item rest ih => rw [canonicalItems, ih, List.map_cons]

theorem canonicalEntries_perm {entries done : List (String × Node)}
    (h : ((entries ++ done).map (·.1)).Nodup) :
    (canonicalEntries entries done).Perm
      (entries.map (fun entry => (entry.1, entry.2.canonical)) ++ done) := by
  induction entries generalizing done with
  | nil => exact .refl _
  | cons entry rest ih =>
    obtain ⟨key, value⟩ := entry
    rw [List.cons_append, List.map_cons, List.nodup_cons] at h
    have hdone : key ∉ done.map (·.1) := by
      intro hmem
      apply h.1
      rw [List.map_append]
      exact List.mem_append_right _ hmem
    have hput := put_perm value.canonical hdone
    have hkeys : ((rest ++ put key value.canonical done).map (·.1)).Nodup := by
      rw [((hput.append_left rest).map _).nodup_iff, (List.perm_middle.map _).nodup_iff]
      exact List.nodup_cons.2 h
    rw [canonicalEntries, List.map_cons, List.cons_append]
    exact (ih hkeys).trans ((hput.append_left _).trans List.perm_middle)

/-- A document without repeated keys has its canonical form as a reordering. -/
theorem Distinct.reordered_canonical {node : Node} (h : node.Distinct) :
    node.Reordered node.canonical := by
  induction h with
  | null => exact .refl _
  | bool value => exact .refl _
  | number value => exact .refl _
  | string text => exact .refl _
  | @array items inner ih =>
    rw [canonical, canonicalItems_eq]
    refine Reordered.array (List.forall₂_map_right_iff.2 ?_) []
    exact List.forall₂_same.2 ih
  | @object entries keys inner ih =>
    have hvalues : List.Forall₂ EntryReordered entries
        (entries.map fun entry => (entry.1, entry.2.canonical)) :=
      List.forall₂_map_right_iff.2 (List.forall₂_same.2 fun entry hentry => ⟨rfl, ih entry hentry⟩)
    have hperm : (canonicalEntries entries []).Perm
        (entries.map fun entry => (entry.1, entry.2.canonical)) := by
      rw [← List.append_nil entries] at keys
      simpa only [List.append_nil] using canonicalEntries_perm keys
    rw [canonical]
    refine (Reordered.object hvalues []).trans (.entries ?_ hperm.symm)
    rwa [List.nil_append, List.map_map]

end SchemaRecords.Json.Node
