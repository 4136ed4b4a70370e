import Mathlib.Logic.Relation
import SchemaRecords.Proofs.Record.Causes
import SchemaRecords.Proofs.Schema.Discovery
import SchemaRecords.Proofs.Text.Utf8Order

/-!
# References in a model

Types refer to each other by name. In a model that was read from a document
every name has one type, all names that are referred to are there, and no type
refers to itself through others. The walk only checks that no type occurs inside
itself. That rules out all cycles: one name stands for one shape, so a chain of
references can be followed down the document from any occurrence of its start,
and it never comes back to a name above it (`exists_occurrence_of_transGen`).

* `Model.linked_of_ofDocument`: all of this.
-/

namespace SchemaRecords.Schema

open SchemaRecords.Json (Node)

/-- A type of the model, by name, has a property that refers to another. -/
def Model.Refers (m : Model) (name target : String) : Prop :=
  ∃ type ∈ m.types, type.name = name ∧ ∃ p ∈ type.properties, p.type.reference? = some target

/-- The properties have keys in strict order and fields of their own. -/
structure RecordType.Ordered (type : RecordType) : Prop where
  /-- The keys increase in the order of their bytes. -/
  keys : type.properties.Pairwise fun p q => Text.utf8 p.key < Text.utf8 q.key
  fields : (type.properties.map Property.field).Nodup
  named : ∀ p ∈ type.properties, p.field ≠ ""

/-- The types of the model fit together. -/
structure Model.Linked (m : Model) : Prop where
  names : (m.types.map RecordType.name).Nodup
  closed : ∀ type ∈ m.types, ∀ p ∈ type.properties, ∀ name, p.type.reference? = some name →
    ∃ type' ∈ m.types, type'.name = name
  acyclic : ∀ name, ¬Relation.TransGen m.Refers name name
  ordered : ∀ type ∈ m.types, type.Ordered

/-! ## Types of a document -/

namespace Document

variable {document : Node}

theorem mem_types {type : RecordType} :
    type ∈ types document ↔ ∃ o ∈ occurrences document, o.type (rootName document) = type := by
  rw [types, List.mem_eraseDups, List.mem_map]

/-- One name stands for one type. -/
theorem WellFormed.eq_type (h : WellFormed document) {o : Occurrence}
    (ho : o ∈ occurrences document) {type : RecordType} (htype : type ∈ types document)
    (hname : o.name = type.name) : o.type (rootName document) = type := by
  obtain ⟨o', ho', rfl⟩ := mem_types.1 htype
  exact agreeing_types_iff.2 h.agreeing _ (List.mem_map_of_mem ho) _ (List.mem_map_of_mem ho') hname

theorem WellFormed.nodup_names (h : WellFormed document) :
    ((types document).map RecordType.name).Nodup := by
  apply List.Nodup.map_on _ (nodup_eraseDups _)
  intro t ht t' ht' hname
  obtain ⟨o, ho, rfl⟩ := mem_types.1 ht
  exact h.eq_type ho ht' hname

/-! ## Keys and fields -/

theorem pairwise_mergeSort_key (properties : List Property) :
    (properties.mergeSort fun p q => decide (p.key ≤ q.key)).Pairwise fun p q => p.key ≤ q.key := by
  have hsorted : (properties.mergeSort fun p q => decide (p.key ≤ q.key)).Pairwise
      fun p q => decide (p.key ≤ q.key) = true := by
    apply List.pairwise_mergeSort
    · intro p q s hpq hqs
      exact decide_eq_true (String.le_trans (of_decide_eq_true hpq) (of_decide_eq_true hqs))
    · intro p q
      simpa using String.le_total p.key q.key
  exact hsorted.imp of_decide_eq_true

theorem pairwise_shape (root : String) (o : Occurrence) :
    (o.shape root).Pairwise fun p q => p.key ≤ q.key :=
  pairwise_mergeSort_key _

theorem map_shape_perm {α : Type} (root : String) (o : Occurrence) (f : Property → α) :
    ((o.shape root).map f).Perm ((entriesOf o.definition).map fun e => f (propertyOf root o.name e)) := by
  have hperm := (List.mergeSort_perm ((entriesOf o.definition).map (propertyOf root o.name))
    fun p q => decide (p.key ≤ q.key)).map f
  rwa [List.map_map] at hperm

theorem ordered_type (root : String) {o : Occurrence} (h : o.Sound) : (o.type root).Ordered := by
  have hentries := (listsProperties_iff.1 h.properties).2
  refine ⟨?_, ?_, ?_⟩
  · have hkeys : ((o.shape root).map Property.key).Nodup :=
      (map_shape_perm root o Property.key).nodup_iff.2 hentries.keys
    have hne : (o.shape root).Pairwise fun p q => p.key ≠ q.key := List.pairwise_map.1 hkeys
    refine ((pairwise_shape root o).and hne).imp fun hpq => ?_
    exact Text.utf8_lt_of_lt (Std.lt_of_le_of_ne hpq.1 hpq.2)
  · exact (map_shape_perm root o Property.field).nodup_iff.2 hentries.fields
  · intro p hp
    obtain ⟨entry, hentry, rfl⟩ := List.mem_map.1 (List.mem_mergeSort.1 hp)
    exact hentries.named entry hentry

/-! ## References -/

/-- What a property refers to occurs directly inside. -/
theorem exists_child_of_reference {root : String} {o : Occurrence} {p : Property}
    (hp : p ∈ o.shape root) {name : String} (hname : p.type.reference? = some name) :
    ∃ c ∈ o.children root, c.name = name := by
  obtain ⟨entry, hentry, rfl⟩ := List.mem_map.1 (List.mem_mergeSort.1 hp)
  rw [propertyOf, reference?_typeOf, Option.map_eq_some_iff] at hname
  obtain ⟨found, hfound, rfl⟩ := hname
  refine ⟨⟨o.path, found.1, found.2⟩, List.mem_filterMap.2 ⟨entry, hentry, ?_⟩, rfl⟩
  rw [occurrenceIn?, hfound, Option.map_some]

theorem mem_occurrences_of_mem_children {o c : Occurrence} (ho : o ∈ occurrences document)
    (hc : c ∈ o.children (rootName document)) : c ∈ occurrences document :=
  Occurrence.inside_subset_of_mem ho
    (Occurrence.mem_inside.2 (.inr ⟨c, hc, Occurrence.mem_inside_self _ c⟩))

end Document

section Chains

variable {document : Node} {model : Model}

/-- A reference can be followed from every occurrence of the type. -/
theorem exists_child_of_refers (h : Document.WellFormed document)
    (htypes : model.types = Document.types document) {o : Occurrence}
    (ho : o ∈ Document.occurrences document) {target : String} (href : model.Refers o.name target) :
    ∃ c ∈ o.children (Document.rootName document), c.name = target := by
  obtain ⟨type, htype, hname, p, hp, htarget⟩ := href
  rw [← h.eq_type ho (htypes ▸ htype) hname.symm] at hp
  exact Document.exists_child_of_reference hp htarget

/-- A chain of references can be followed from every occurrence of its start. What it leads to
has all names on the way above it. -/
theorem exists_occurrence_of_transGen (h : Document.WellFormed document)
    (htypes : model.types = Document.types document) {o : Occurrence}
    (ho : o ∈ Document.occurrences document) {target : String}
    (hchain : Relation.TransGen model.Refers o.name target) :
    ∃ o' ∈ Document.occurrences document, o'.name = target ∧ o.path ⊆ o'.above := by
  induction hchain with
  | single href =>
    obtain ⟨c, hc, hname⟩ := exists_child_of_refers h htypes ho href
    refine ⟨c, Document.mem_occurrences_of_mem_children ho hc, hname, ?_⟩
    rw [Occurrence.above_of_mem_children hc]
    exact List.Subset.refl _
  | tail _ href ih =>
    obtain ⟨o', ho', rfl, hpath⟩ := ih
    obtain ⟨c, hc, hname⟩ := exists_child_of_refers h htypes ho' href
    refine ⟨c, Document.mem_occurrences_of_mem_children ho' hc, hname, ?_⟩
    rw [Occurrence.above_of_mem_children hc]
    exact List.Subset.trans hpath (List.subset_append_left _ _)

theorem not_transGen_refers_self (h : Document.WellFormed document)
    (htypes : model.types = Document.types document) (name : String) :
    ¬Relation.TransGen model.Refers name name := by
  intro hcycle
  -- the start of a cycle is a type of the model, so it occurs
  obtain ⟨target, ⟨type, htype, rfl, -⟩, -⟩ := Relation.TransGen.head'_iff.1 hcycle
  obtain ⟨o, ho, rfl⟩ := Document.mem_types.1 (htypes ▸ htype)
  obtain ⟨o', ho', hname, hpath⟩ := exists_occurrence_of_transGen h htypes ho hcycle
  apply (h.sound o' ho').unrepeated
  rw [hname]
  exact hpath (List.mem_append_right _ List.mem_cons_self)

theorem Model.linked (h : Document.WellFormed document)
    (htypes : model.types = Document.types document) : model.Linked where
  names := htypes ▸ h.nodup_names
  closed := by
    intro type htype p hp name hname
    obtain ⟨o, ho, rfl⟩ := Document.mem_types.1 (htypes ▸ htype)
    obtain ⟨c, hc, rfl⟩ := Document.exists_child_of_reference hp hname
    refine ⟨c.type (Document.rootName document), ?_, rfl⟩
    rw [htypes, Document.mem_types]
    exact ⟨c, Document.mem_occurrences_of_mem_children ho hc, rfl⟩
  acyclic := not_transGen_refers_self h htypes
  ordered := by
    intro type htype
    obtain ⟨o, ho, rfl⟩ := Document.mem_types.1 (htypes ▸ htype)
    exact Document.ordered_type _ (h.sound o ho)

end Chains

/-- **The types of a model fit together.** The names of the types differ, every name that a
property refers to has a type, so that no type is found to be missing when classes are made, no
type refers to itself through others, and the keys of every type are in strict order, with
fields of their own. -/
theorem Model.linked_of_ofDocument {document : Node} {model : Model}
    (hmodel : ofDocument document = .ok model) :
    model.Linked ∧
      ∀ settings name field,
        Record.Artifact.ofModel settings model ≠ .error (.unknownType name field) := by
  obtain ⟨hwell, htypes⟩ := ofDocument_eq_ok_iff.1 hmodel
  have hlinked := linked hwell htypes
  exact ⟨hlinked, fun settings => Record.Artifact.ofModel_ne_unknownType hlinked.closed⟩

namespace Delivery

/-- An address, which occurs twice below. -/
def address : Node :=
  .object [("type", .string "object"), ("title", .string "address"),
    ("properties", .object [("street", .object [("type", .string "string")])])]

/-- The properties of a delivery. -/
def entries : List (String × Node) :=
  [("fragile", .bool true),
    ("stops", .object [("type", .string "array"),
      ("items", .object [("type", .string "array"), ("items", address)])]),
    ("to", address)]

/-- A document with a type that occurs twice, once inside arrays. -/
def document : Node := .object [("title", .string "delivery"), ("properties", .object entries)]

/-- The model of the document. -/
def model : Model where
  root := ⟨"Delivery",
    [⟨"fragile", "fragile", .generic⟩,
      ⟨"stops", "stops", .array (.array (.reference "Address"))⟩,
      ⟨"to", "to", .reference "Address"⟩]⟩
  nested := [⟨"Address", [⟨"street", "street", .primitive .string⟩]⟩]

/-- An occurrence of an address. -/
def stop : Occurrence := ⟨["Delivery"], "Address", address⟩

theorem rootName_document : Document.rootName document = "Delivery" := by decide +kernel

theorem typeName_address : Naming.typeName "address" = "Address" := by decide +kernel

theorem objectIn?_address (owner fallback : String) :
    Document.objectIn? owner fallback address = some ("Address", address) := by
  rw [Document.objectIn?_eq]
  show some (Naming.typeName "address", address) = _
  rw [typeName_address]

theorem occurrences_document :
    Document.occurrences document = [⟨[], "Delivery", document⟩, stop, stop] := by
  have hroot : (Document.rootOf document).children "Delivery" = [stop, stop] := by
    show Document.occurrencesIn "Delivery" [Document.rootName document]
      (Document.rootName document) entries = _
    rw [rootName_document]
    -- the arrays are gone through to what their items are
    have hstops (fallback : String) : Document.objectIn? "Delivery" fallback
        (.object [("type", .string "array"),
          ("items", .object [("type", .string "array"), ("items", address)])]) =
        some ("Address", address) := by
      rw [Document.objectIn?_eq]
      exact (Document.objectIn?_eq _ _ _).trans (objectIn?_address _ _)
    have hfragile (fallback : String) :
        Document.objectIn? "Delivery" fallback (.bool true) = none :=
      Document.objectIn?_eq _ _ _
    simp [Document.occurrencesIn, Document.occurrenceIn?, entries, hfragile, hstops,
      objectIn?_address, stop]
  have hstop : stop.children "Delivery" = [] := by
    have hstreet (fallback : String) : Document.objectIn? "Address" fallback
        (.object [("type", .string "string")]) = none :=
      Document.objectIn?_eq _ _ _
    show Document.occurrencesIn "Delivery" stop.path "Address"
      [("street", .object [("type", .string "string")])] = _
    simp [Document.occurrencesIn, Document.occurrenceIn?, hstreet]
  rw [Document.occurrences, rootName_document, Occurrence.inside_eq, hroot]
  simp [Occurrence.inside_eq, hstop, Document.rootOf, rootName_document]

theorem sound_root : (⟨[], "Delivery", document⟩ : Occurrence).Sound where
  titled := trivial
  named := by decide
  properties := by
    have hfields : entries.map (fun entry => Naming.fieldName entry.1) = ["fragile", "stops", "to"] := by
      decide +kernel
    show Document.AreProperties entries
    refine ⟨by decide, hfields ▸ by decide, ?_, ?_⟩
    · intro entry hentry hempty
      have hmem : Naming.fieldName entry.1 ∈ ["fragile", "stops", "to"] :=
        hfields ▸ List.mem_map_of_mem hentry
      rw [hempty] at hmem
      exact absurd hmem (by decide)
    · simp [entries, address, Document.IsDefinition]
  unrepeated := List.not_mem_nil

theorem sound_stop : stop.Sound where
  titled := trivial
  named := by decide
  properties := by
    have hfield : Naming.fieldName "street" = "street" := by decide +kernel
    show Document.AreProperties [("street", .object [("type", .string "string")])]
    refine ⟨by simp, by simp, by simp [hfield], by simp [Document.IsDefinition]⟩
  unrepeated := by decide

theorem type_root : (⟨[], "Delivery", document⟩ : Occurrence).type "Delivery" = model.root := by
  have hproperties : entries.map (Document.propertyOf "Delivery" "Delivery") =
      model.root.properties := by decide +kernel
  have hshape : (⟨[], "Delivery", document⟩ : Occurrence).shape "Delivery" =
      model.root.properties.mergeSort fun p q => decide (p.key ≤ q.key) := by
    rw [← hproperties]
    rfl
  rw [Occurrence.type, hshape, List.mergeSort_of_pairwise (by decide)]
  rfl

theorem type_stop : stop.type "Delivery" =
    ⟨"Address", [⟨"street", "street", .primitive .string⟩]⟩ := by
  have hproperties : (Document.entriesOf address).map (Document.propertyOf "Delivery" "Address") =
      [⟨"street", "street", .primitive .string⟩] := by decide +kernel
  rw [Occurrence.type, Occurrence.shape]
  show RecordType.mk "Address" (((Document.entriesOf address).map
    (Document.propertyOf "Delivery" "Address")).mergeSort _) = _
  rw [hproperties, List.mergeSort_singleton]

theorem types_document : Document.types document = model.types := by
  rw [Document.types, occurrences_document, rootName_document]
  simp only [List.map_cons, List.map_nil, type_root, type_stop]
  decide

theorem wellFormed_document : Document.WellFormed document where
  object := ⟨_, rfl⟩
  sound := by
    rw [occurrences_document]
    simp only [List.forall_mem_cons]
    exact ⟨sound_root, sound_stop, sound_stop, fun _ h => absurd h List.not_mem_nil⟩
  agreeing := by
    rw [occurrences_document]
    simp [stop]

end Delivery

theorem Model.linked_delivery :
    ofDocument Delivery.document = .ok Delivery.model ∧ Delivery.model.Linked := by
  have hmodel : ofDocument Delivery.document = .ok Delivery.model :=
    ofDocument_eq_ok_iff.2 ⟨Delivery.wellFormed_document, Delivery.types_document.symm⟩
  exact ⟨hmodel, (linked_of_ofDocument hmodel).1⟩

end SchemaRecords.Schema
