import SchemaRecords.Proofs.Json.Reordering
import SchemaRecords.Proofs.Schema.References

/-!
# The order of entries does not matter to a model

What a document spells out does not hang on the order of entries in objects
without repeated keys. Names and types are the same, and the occurrences of one
document are those of the other, met in another order (`rel_occurrences`). So the
documents are well-formed together (`WellFormed.of_reordered`), and they have the
same types with the same root first (`exists_types_perm`).
-/

namespace SchemaRecords.Schema

open SchemaRecords.Json (Node)
open SchemaRecords.Json.Node (EntryReordered)

/-! ## Related bags -/

section Bags

variable {α β γ δ : Type} {r : α → β → Prop} {p : γ → δ → Prop}

theorem rel_filterMap {s : Multiset α} {t : Multiset β} {f : α → Option γ} {g : β → Option δ}
    (h : Multiset.Rel r s t) (hfg : ∀ x y, r x y → Option.Rel p (f x) (g y)) :
    Multiset.Rel p (s.filterMap f) (t.filterMap g) := by
  induction h with
  | zero => exact .zero
  | @cons x y s t hxy _ ih =>
    have hhead := hfg x y hxy
    generalize hx : f x = found, hy : g y = found' at hhead
    cases hhead with
    | none => rwa [Multiset.filterMap_cons_none _ _ hx, Multiset.filterMap_cons_none _ _ hy]
    | some hfound =>
      rw [Multiset.filterMap_cons_some _ _ _ hx, Multiset.filterMap_cons_some _ _ _ hy]
      exact .cons hfound ih

/-- What is the same of related members makes lists that differ only in order. -/
theorem map_perm_of_rel {l : List α} {l' : List β} {f : α → γ} {g : β → γ}
    (h : Multiset.Rel r l l') (hfg : ∀ x y, r x y → f x = g y) : (l.map f).Perm (l'.map g) := by
  rw [← Multiset.coe_eq_coe, ← Multiset.map_coe, ← Multiset.map_coe, ← Multiset.rel_eq,
    Multiset.rel_map]
  exact h.mono fun x _ y _ hxy => hfg x y hxy

theorem exists_mem_of_rel {l : List α} {l' : List β} (h : Multiset.Rel r l l') {y : β}
    (hy : y ∈ l') : ∃ x ∈ l, r x y :=
  Multiset.exists_mem_of_rel_of_mem (Multiset.rel_flip.2 h) hy

end Bags

namespace Document

variable {a b : Node}

/-! ## Names and types -/

theorem nameOf_eq_of_reordered (h : a.Reordered b) (fallback : String) :
    nameOf a fallback = nameOf b fallback := by
  rw [nameOf, nameOf, h.text?_get?]

/-- The form is the same, up to the order in the definition of items. -/
theorem formOf_of_reordered (h : a.Reordered b) :
    formOf a = formOf b ∨ ∃ items items', formOf a = .arrayOf items ∧ formOf b = .arrayOf items' ∧
      (Node.object items).Reordered (.object items') := by
  have hkind := h.get? "type"
  have hitems := h.get? "items"
  unfold formOf
  generalize a.get? "type" = kind, b.get? "type" = kind', a.get? "items" = found,
    b.get? "items" = found' at hkind hitems
  cases hkind with
  | none => exact .inl rfl
  | some inner =>
    cases inner.alike with
    | arrays => exact .inl rfl
    | objects => exact .inl rfl
    | same node =>
      cases hitems with
      | none => exact .inl rfl
      | some inner =>
        cases inner.alike with
        | same => exact .inl rfl
        | arrays => exact .inl rfl
        | objects items items' =>
          split
          · exact .inl rfl
          · exact .inr ⟨items, items', rfl, rfl, inner⟩
          · exact .inl rfl
          · exact .inl rfl

theorem typeOf_eq_of_reordered {a b : Node} (h : a.Reordered b) (owner fallback : String) :
    typeOf owner fallback a = typeOf owner fallback b := by
  rw [typeOf_eq, typeOf_eq owner fallback b, nameOf_eq_of_reordered h, h.text?_get? "format"]
  rcases formOf_of_reordered h with hform | ⟨items, items', hitems, hitems', inner⟩
  · rw [hform]
  · rw [hitems, hitems']
    dsimp only
    rw [typeOf_eq_of_reordered inner]
termination_by sizeOf a
decreasing_by exact sizeOf_items hitems

theorem propertyOf_eq_of_reordered {e e' : String × Node} (h : EntryReordered e e')
    (root owner : String) : propertyOf root owner e = propertyOf root owner e' := by
  rw [propertyOf, propertyOf, h.1, typeOf_eq_of_reordered h.2]

theorem rel_objectIn? {a b : Node} (h : a.Reordered b) (owner fallback : String) :
    Option.Rel EntryReordered (objectIn? owner fallback a) (objectIn? owner fallback b) := by
  rw [objectIn?_eq, objectIn?_eq owner fallback b, nameOf_eq_of_reordered h]
  rcases formOf_of_reordered h with hform | ⟨items, items', hitems, hitems', inner⟩
  · rw [hform]
    cases formOf b with
    | object => exact .some ⟨rfl, h⟩
    | arrayOf items =>
      dsimp only
      cases objectIn? owner s!"{owner}_item" (.object items) with
      | none => exact .none
      | some found => exact .some (.refl found)
    | array => exact .none
    | scalar kind => exact .none
    | other => exact .none
  · rw [hitems, hitems']
    exact rel_objectIn? inner owner _
termination_by sizeOf a
decreasing_by exact sizeOf_items hitems

/-! ## Properties -/

theorem entriesOf_eq (definition : Node) :
    entriesOf definition = ((definition.get? "properties").bind Node.entries?).getD [] := by
  unfold entriesOf
  cases definition.get? "properties" with
  | none => rfl
  | some value => cases value <;> rfl

theorem rel_entriesOf (h : a.Reordered b) :
    Multiset.Rel EntryReordered (entriesOf a) (entriesOf b) := by
  rw [entriesOf_eq, entriesOf_eq]
  have hfound := h.get? "properties"
  generalize a.get? "properties" = found, b.get? "properties" = found' at hfound
  cases hfound with
  | none => exact .zero
  | some inner => exact inner.rel_entries

theorem IsTitled.of_reordered (h : a.Reordered b) (ha : IsTitled a) : IsTitled b := by
  have hfound := h.get? "title"
  unfold IsTitled at ha ⊢
  generalize a.get? "title" = found, b.get? "title" = found' at hfound ha
  cases hfound with
  | none => trivial
  | some inner =>
    cases inner.alike with
    | same => exact ha
    | arrays => exact ha
    | objects => exact ha

theorem IsDefinition.of_reordered (h : a.Reordered b) (ha : IsDefinition a) : IsDefinition b := by
  cases h.alike with
  | same => exact ha
  | arrays => exact ha
  | objects => trivial

theorem AreProperties.of_reordered {entries entries' : List (String × Node)}
    (h : Multiset.Rel EntryReordered entries entries') (hentries : AreProperties entries) :
    AreProperties entries' := by
  -- whatever is read off the keys alone is the same up to order
  have hperm (f : String → String) :
      (entries.map fun e => f e.1).Perm (entries'.map fun e => f e.1) :=
    map_perm_of_rel h fun e e' hsame => congrArg f hsame.1
  refine ⟨(hperm id).nodup_iff.1 hentries.keys, (hperm _).nodup_iff.1 hentries.fields, ?_, ?_⟩
  · intro e' he'
    obtain ⟨e, he, hsame⟩ := exists_mem_of_rel h he'
    exact hsame.1 ▸ hentries.named e he
  · intro e' he'
    obtain ⟨e, he, hsame⟩ := exists_mem_of_rel h he'
    exact (hentries.defined e he).of_reordered hsame.2

theorem ListsProperties.of_reordered (h : a.Reordered b) (ha : ListsProperties a) :
    ListsProperties b := by
  have hfound := h.get? "properties"
  unfold ListsProperties at ha ⊢
  generalize a.get? "properties" = found, b.get? "properties" = found' at hfound ha
  cases hfound with
  | none => trivial
  | some inner =>
    cases inner.alike with
    | same => exact ha
    | arrays => exact ha
    | objects => exact ha.of_reordered inner.rel_entries

/-- Properties with keys of their own have one order by key. -/
theorem mergeSort_eq_of_perm {properties properties' : List Property}
    (h : properties.Perm properties') (hkeys : (properties.map Property.key).Nodup) :
    (properties.mergeSort fun p q => decide (p.key ≤ q.key)) =
      properties'.mergeSort fun p q => decide (p.key ≤ q.key) := by
  refine List.Perm.eq_of_pairwise ?_ (pairwise_mergeSort_key _) (pairwise_mergeSort_key _)
    ((List.mergeSort_perm _ _).trans (h.trans (List.mergeSort_perm _ _).symm))
  intro p q hp hq hle hge
  have hp : p ∈ properties := List.mem_mergeSort.1 hp
  have hq : q ∈ properties := h.mem_iff.2 (List.mem_mergeSort.1 hq)
  exact List.inj_on_of_nodup_map hkeys hp hq (String.le_antisymm hle hge)

theorem mergeSort_properties_eq (h : a.Reordered b) (root owner : String) :
    (((a.entries?.getD []).map (propertyOf root owner)).mergeSort
        fun p q => decide (p.key ≤ q.key)) =
      ((b.entries?.getD []).map (propertyOf root owner)).mergeSort
        fun p q => decide (p.key ≤ q.key) := by
  induction h with
  | refl => rfl
  | trans _ _ ih ih' => exact ih.trans ih'
  | entries distinct perm =>
    refine mergeSort_eq_of_perm (perm.map _) ?_
    rw [List.map_map]
    exact distinct
  | item => rfl
  | @value x y key before after inner _ =>
    have hentry : EntryReordered (key, x) (key, y) := ⟨rfl, inner⟩
    have hproperty := propertyOf_eq_of_reordered hentry root owner
    simp only [Node.entries?, Option.getD_some, List.map_append, List.map_cons, hproperty]

end Document

/-! ## Occurrences -/

/-- The occurrences have the same names, and their definitions differ only in order. -/
structure Occurrence.Reordered (o o' : Occurrence) : Prop where
  above : o.above = o'.above
  name : o.name = o'.name
  definition : o.definition.Reordered o'.definition

/-- A definition holds the same occurrence. -/
theorem Document.rel_occurrenceIn? {a b : Node} (h : a.Reordered b) (above : List String)
    (owner fallback : String) :
    Option.Rel Occurrence.Reordered (occurrenceIn? above owner fallback a)
      (occurrenceIn? above owner fallback b) := by
  have hfound := rel_objectIn? h owner fallback
  unfold occurrenceIn?
  generalize objectIn? owner fallback a = found, objectIn? owner fallback b = found' at hfound
  cases hfound with
  | none => exact .none
  | some hfound => exact .some ⟨rfl, hfound.1, hfound.2⟩

namespace Occurrence.Reordered

variable {o o' : Occurrence}

theorem path_eq (h : o.Reordered o') : o.path = o'.path := by
  rw [path, path, h.above, h.name]

theorem rel_children (h : o.Reordered o') (root : String) :
    Multiset.Rel Occurrence.Reordered (o.children root) (o'.children root) := by
  rw [children, children, h.path_eq, h.name, Document.occurrencesIn, Document.occurrencesIn,
    ← Multiset.filterMap_coe, ← Multiset.filterMap_coe]
  refine rel_filterMap (Document.rel_entriesOf h.definition) fun e e' hsame => ?_
  rw [hsame.1]
  exact Document.rel_occurrenceIn? hsame.2 _ _ _

theorem rel_inside {o o' : Occurrence} (h : o.Reordered o') (root : String) :
    Multiset.Rel Occurrence.Reordered (o.inside root) (o'.inside root) := by
  have hinside : Multiset.Rel
      (fun c c' : Occurrence =>
        Multiset.Rel Occurrence.Reordered (c.inside root) (c'.inside root))
      (o.children root) (o'.children root) :=
    (h.rel_children root).mono fun c hc c' _ hsame => hsame.rel_inside root
  rw [inside_eq, inside_eq, ← Multiset.cons_coe, ← Multiset.cons_coe, ← Multiset.coe_bind,
    ← Multiset.coe_bind]
  exact .cons h (Multiset.rel_bind (fun _ _ hsame => hsame) hinside)
termination_by sizeOf o.definition
decreasing_by exact sizeOf_of_mem_children hc

theorem sound (h : o.Reordered o') (ho : o.Sound) : o'.Sound where
  titled := ho.titled.of_reordered h.definition
  named := h.name ▸ ho.named
  properties := ho.properties.of_reordered h.definition
  unrepeated := h.name ▸ h.above ▸ ho.unrepeated

theorem shape_eq (h : o.Reordered o') (root : String) : o.shape root = o'.shape root := by
  rw [shape, shape, h.name, Document.entriesOf_eq, Document.entriesOf_eq]
  have hfound := h.definition.get? "properties"
  generalize o.definition.get? "properties" = found, o'.definition.get? "properties" = found'
    at hfound
  cases hfound with
  | none => rfl
  | some inner => exact Document.mergeSort_properties_eq inner root o'.name

theorem type_eq (h : o.Reordered o') (root : String) : o.type root = o'.type root := by
  rw [type, type, h.name, h.shape_eq]

end Occurrence.Reordered

namespace Document

variable {a b : Node}

theorem rootName_eq_of_reordered (h : a.Reordered b) : rootName a = rootName b :=
  nameOf_eq_of_reordered h _

theorem reordered_rootOf (h : a.Reordered b) : (rootOf a).Reordered (rootOf b) :=
  ⟨rfl, rootName_eq_of_reordered h, h⟩

theorem rel_occurrences (h : a.Reordered b) :
    Multiset.Rel Occurrence.Reordered (occurrences a) (occurrences b) := by
  rw [occurrences, occurrences, rootName_eq_of_reordered h]
  exact (reordered_rootOf h).rel_inside _

theorem WellFormed.of_reordered (h : a.Reordered b) (ha : WellFormed a) : WellFormed b := by
  have hrel := rel_occurrences h
  refine ⟨?_, ?_, ?_⟩
  · obtain ⟨entries, rfl⟩ := ha.object
    cases h.alike with
    | same => exact ⟨entries, rfl⟩
    | objects _ entries' => exact ⟨entries', rfl⟩
  · intro o' ho'
    obtain ⟨o, ho, hsame⟩ := exists_mem_of_rel hrel ho'
    exact hsame.sound (ha.sound o ho)
  · intro o₁' ho₁' o₂' ho₂' hname
    obtain ⟨o₁, ho₁, hsame₁⟩ := exists_mem_of_rel hrel ho₁'
    obtain ⟨o₂, ho₂, hsame₂⟩ := exists_mem_of_rel hrel ho₂'
    rw [← rootName_eq_of_reordered h, ← hsame₁.shape_eq, ← hsame₂.shape_eq]
    apply ha.agreeing o₁ ho₁ o₂ ho₂
    rw [hsame₁.name, hsame₂.name, hname]

/-- The types are the same, with the same root first. -/
theorem exists_types_perm (h : a.Reordered b) :
    ∃ first nested nested', types a = first :: nested ∧ types b = first :: nested' ∧
      first.name = rootName a ∧ nested.Perm nested' := by
  obtain ⟨nested, ha⟩ := exists_types_eq_root_cons a
  obtain ⟨nested', hb⟩ := exists_types_eq_root_cons b
  rw [← rootName_eq_of_reordered h, ← (reordered_rootOf h).type_eq] at hb
  have hmaps : ((occurrences a).map (·.type (rootName a))).Perm
      ((occurrences b).map (·.type (rootName b))) := by
    rw [rootName_eq_of_reordered h]
    exact map_perm_of_rel (rel_occurrences h) fun o o' hsame => hsame.type_eq _
  have htypes : (types a).Perm (types b) := by
    rw [types, types, List.perm_ext_iff_of_nodup (nodup_eraseDups _) (nodup_eraseDups _)]
    intro type
    rw [List.mem_eraseDups, List.mem_eraseDups, hmaps.mem_iff]
  refine ⟨_, nested, nested', ha, hb, rfl, ?_⟩
  rw [ha, hb] at htypes
  exact htypes.cons_inv

end Document

end SchemaRecords.Schema
