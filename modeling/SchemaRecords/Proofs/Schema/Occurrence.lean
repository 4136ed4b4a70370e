import SchemaRecords.Schema.Discovery

/-!
# The record types that a document spells out

An occurrence is an object definition of a document: the root, or a property
definition or array item of type `object`, through any number of arrays. What it
is called and which properties it has can be read off the document alone, without
regard to what else was found. The occurrences of a document form a tree, which
`Document.occurrences` lists with each occurrence before those inside it.

* `Document.WellFormed`: the occurrences describe a model.
* `reference?_typeOf`: a type refers to the record type that occurs in its definition.
* `inside_subset_of_mem`: what is inside an occurrence is inside all around it.
* `above_subset_of_mem`: an occurrence knows all names around it.
-/

namespace SchemaRecords.Schema

open SchemaRecords.Json (Node)

/-! ## Names and types -/

namespace Document

/-- The name of the record type of a definition; `fallback` stands for a missing title. -/
def nameOf (definition : Node) (fallback : String) : String :=
  Naming.typeName (((definition.get? "title").bind Node.text?).getD fallback)

/-- The name of the root type. -/
def rootName (document : Node) : String := nameOf document Discovery.defaultTitle

/-- The entries under `properties`. -/
def entriesOf (definition : Node) : List (String × Node) :=
  match definition.get? "properties" with
  | some (.object entries) => entries
  | _ => []

/-- The forms of definitions. -/
inductive Form where
  | object
  /-- An array with an object as the definition of its items. -/
  | arrayOf (items : List (String × Node))
  | array
  | scalar (kind : String)
  | other

/-- The form of a definition. -/
def formOf (definition : Node) : Form :=
  match definition.get? "type" with
  | some (.string "object") => .object
  | some (.string "array") =>
    match definition.get? "items" with
    | some (.object items) => .arrayOf items
    | _ => .array
  | some (.string kind) => .scalar kind
  | _ => .other

theorem sizeOf_items {definition : Node} {items : List (String × Node)}
    (h : formOf definition = .arrayOf items) : sizeOf (Node.object items) < sizeOf definition := by
  unfold formOf at h
  split at h
  · cases h
  · split at h
    · rename_i hitems
      cases h
      exact sizeOf_get? hitems
    · cases h
  · cases h
  · cases h

/-- The type that a definition stands for inside the record type `owner`. -/
def typeOf (owner fallback : String) (definition : Node) : PropertyType :=
  match _h : formOf definition with
  | .object => .reference (nameOf definition fallback)
  | .arrayOf items => .array (typeOf owner s!"{owner}_item" (.object items))
  | .array => .array .generic
  | .scalar kind => .scalar kind ((definition.get? "format").bind Node.text?)
  | .other => .generic
termination_by sizeOf definition
decreasing_by exact sizeOf_items _h

theorem typeOf_eq (owner fallback : String) (definition : Node) :
    typeOf owner fallback definition =
      match formOf definition with
      | .object => .reference (nameOf definition fallback)
      | .arrayOf items => .array (typeOf owner s!"{owner}_item" (.object items))
      | .array => .array .generic
      | .scalar kind => .scalar kind ((definition.get? "format").bind Node.text?)
      | .other => .generic := by
  rw [typeOf]
  split <;> simp only [*]

/-- The property of an entry of the record type `owner`. -/
def propertyOf (root owner : String) (entry : String × Node) : Property :=
  ⟨entry.1, Naming.fieldName entry.1, typeOf owner s!"{root}_{entry.1}" entry.2⟩

/-- The object definition that a definition is, or that its items are through any number of
arrays, with the name of its record type. -/
def objectIn? (owner fallback : String) (definition : Node) : Option (String × Node) :=
  match _h : formOf definition with
  | .object => some (nameOf definition fallback, definition)
  | .arrayOf items => objectIn? owner s!"{owner}_item" (.object items)
  | .array => none
  | .scalar _ => none
  | .other => none
termination_by sizeOf definition
decreasing_by exact sizeOf_items _h

theorem objectIn?_eq (owner fallback : String) (definition : Node) :
    objectIn? owner fallback definition =
      match formOf definition with
      | .object => some (nameOf definition fallback, definition)
      | .arrayOf items => objectIn? owner s!"{owner}_item" (.object items)
      | .array => none
      | .scalar _ => none
      | .other => none := by
  rw [objectIn?]
  split <;> simp only [*]

end Document

/-! ## Occurrences -/

/-- An object definition of a document. -/
structure Occurrence where
  /-- The names of the record types around it, outermost first. -/
  above : List String
  name : String
  definition : Node

namespace Document

/-- The occurrence that a definition inside the record type `owner` holds. -/
def occurrenceIn? (above : List String) (owner fallback : String) (definition : Node) :
    Option Occurrence :=
  (objectIn? owner fallback definition).map fun found => ⟨above, found.1, found.2⟩

/-- The occurrences that entries of the record type `owner` hold. -/
def occurrencesIn (root : String) (above : List String) (owner : String)
    (entries : List (String × Node)) : List Occurrence :=
  entries.filterMap fun entry => occurrenceIn? above owner s!"{root}_{entry.1}" entry.2

theorem occurrencesIn_cons (root : String) (above : List String) (owner key : String)
    (definition : Node) (rest : List (String × Node)) :
    occurrencesIn root above owner ((key, definition) :: rest) =
      (occurrenceIn? above owner s!"{root}_{key}" definition).toList ++
        occurrencesIn root above owner rest := by
  unfold occurrencesIn
  rw [List.filterMap_cons]
  split <;> simp [*]

theorem above_of_occurrenceIn? {above : List String} {owner fallback : String} {definition : Node}
    {o : Occurrence} (h : occurrenceIn? above owner fallback definition = some o) :
    o.above = above := by
  obtain ⟨found, -, rfl⟩ := Option.map_eq_some_iff.1 h
  rfl

theorem sizeOf_objectIn? {owner fallback name : String} {definition found : Node}
    (h : objectIn? owner fallback definition = some (name, found)) :
    sizeOf found ≤ sizeOf definition := by
  fun_induction objectIn? owner fallback definition with
  | case1 fallback definition =>
    obtain ⟨-, rfl⟩ := Prod.mk.inj (Option.some.inj h)
    exact Nat.le_refl _
  | case2 fallback definition items hform ih =>
    have hsmaller := sizeOf_items hform
    have := ih h
    omega
  | case3 => cases h
  | case4 => cases h
  | case5 => cases h

theorem sizeOf_entriesOf_le (definition : Node) : sizeOf (entriesOf definition) ≤ sizeOf definition := by
  unfold entriesOf
  split
  · rename_i entries hentries
    have hsmaller := sizeOf_get? hentries
    simp only [Node.object.sizeOf_spec] at hsmaller
    omega
  · cases definition <;> simp

theorem sizeOf_of_mem_entriesOf {definition : Node} {entry : String × Node}
    (h : entry ∈ entriesOf definition) : sizeOf entry.2 < sizeOf definition := by
  have hle := sizeOf_entriesOf_le definition
  have hentry := List.sizeOf_lt_of_mem h
  obtain ⟨key, value⟩ := entry
  simp only [Prod.mk.sizeOf_spec] at hentry ⊢
  omega

end Document

namespace Occurrence

/-- The names around what is directly inside an occurrence. -/
def path (o : Occurrence) : List String := o.above ++ [o.name]

/-- The properties of an occurrence, in the order of their keys. -/
def shape (root : String) (o : Occurrence) : List Property :=
  ((Document.entriesOf o.definition).map (Document.propertyOf root o.name)).mergeSort
    fun p q => decide (p.key ≤ q.key)

/-- The record type of an occurrence. -/
def type (root : String) (o : Occurrence) : RecordType := ⟨o.name, o.shape root⟩

/-- What is directly inside an occurrence. -/
def children (root : String) (o : Occurrence) : List Occurrence :=
  Document.occurrencesIn root o.path o.name (Document.entriesOf o.definition)

theorem sizeOf_of_mem_children {root : String} {o c : Occurrence} (h : c ∈ o.children root) :
    sizeOf c.definition < sizeOf o.definition := by
  obtain ⟨entry, hentry, hchild⟩ := List.mem_filterMap.1 h
  obtain ⟨found, hfound, rfl⟩ := Option.map_eq_some_iff.1 hchild
  have hle := Document.sizeOf_objectIn? hfound
  have hlt := Document.sizeOf_of_mem_entriesOf hentry
  show sizeOf found.2 < sizeOf o.definition
  omega

theorem above_of_mem_children {root : String} {o c : Occurrence} (h : c ∈ o.children root) :
    c.above = o.path := by
  obtain ⟨entry, -, hchild⟩ := List.mem_filterMap.1 h
  exact Document.above_of_occurrenceIn? hchild

/-- An occurrence and all inside it, each before those inside it. -/
def inside (root : String) (o : Occurrence) : List Occurrence :=
  o :: (o.children root).attach.flatMap fun c => inside root c.1
termination_by sizeOf o.definition
decreasing_by exact sizeOf_of_mem_children c.2

theorem inside_eq (root : String) (o : Occurrence) :
    o.inside root = o :: (o.children root).flatMap (inside root) := by
  rw [inside]
  simp

theorem mem_inside {root : String} {o o' : Occurrence} :
    o' ∈ o.inside root ↔ o' = o ∨ ∃ c ∈ o.children root, o' ∈ c.inside root := by
  rw [inside_eq, List.mem_cons, List.mem_flatMap]

theorem mem_inside_self (root : String) (o : Occurrence) : o ∈ o.inside root :=
  mem_inside.2 (.inl rfl)

/-- What is inside an occurrence is inside all around it. -/
theorem inside_subset_of_mem {root : String} {o o' : Occurrence} (h : o' ∈ o.inside root) :
    o'.inside root ⊆ o.inside root := by
  obtain rfl | ⟨c, hc, hin⟩ := mem_inside.1 h
  · exact List.Subset.refl _
  · have ih := inside_subset_of_mem hin
    exact fun x hx => mem_inside.2 (.inr ⟨c, hc, ih hx⟩)
termination_by sizeOf o.definition
decreasing_by exact sizeOf_of_mem_children hc

/-- An occurrence knows all names around it. -/
theorem above_subset_of_mem {root : String} {o o' : Occurrence} (h : o' ∈ o.inside root) :
    o.above ⊆ o'.above := by
  obtain rfl | ⟨c, hc, hin⟩ := mem_inside.1 h
  · exact List.Subset.refl _
  · have ih := above_subset_of_mem hin
    rw [above_of_mem_children hc] at ih
    exact List.Subset.trans (List.subset_append_left _ _) ih
termination_by sizeOf o.definition
decreasing_by exact sizeOf_of_mem_children hc

theorem path_subset_of_mem {root : String} {o o' : Occurrence}
    (h : o' ∈ (o.children root).flatMap (inside root)) : o.path ⊆ o'.above := by
  obtain ⟨c, hc, hin⟩ := List.mem_flatMap.1 h
  rw [← above_of_mem_children hc]
  exact above_subset_of_mem hin

end Occurrence

namespace Document

/-- The root of a document as an occurrence. -/
def rootOf (document : Node) : Occurrence := ⟨[], rootName document, document⟩

/-- The occurrences of a document, the root first, each before those inside it. -/
def occurrences (document : Node) : List Occurrence := (rootOf document).inside (rootName document)

/-- The record types of a document, in the order in which they first occur. -/
def types (document : Node) : List RecordType :=
  ((occurrences document).map (·.type (rootName document))).eraseDups

/-! ## References -/

theorem reference?_scalar (kind : String) (format : Option String) :
    (PropertyType.scalar kind format).reference? = none := by
  unfold PropertyType.scalar
  split
  · split <;> rfl
  · rfl
  · rfl
  · rfl
  · rfl

/-- A type refers to the record type that occurs in its definition. -/
theorem reference?_typeOf (owner fallback : String) (definition : Node) :
    (typeOf owner fallback definition).reference? =
      (objectIn? owner fallback definition).map (·.1) := by
  fun_induction typeOf owner fallback definition with
  | case1 fallback definition hform => rw [objectIn?_eq, hform]; rfl
  | case2 fallback definition items hform ih => rw [objectIn?_eq, hform, PropertyType.reference?, ih]
  | case3 fallback definition hform => rw [objectIn?_eq, hform]; rfl
  | case4 fallback definition kind hform => rw [objectIn?_eq, hform, reference?_scalar]; rfl
  | case5 fallback definition hform => rw [objectIn?_eq, hform]; rfl

/-! ## What has to be right -/

/-- The title is left out, null or a text. -/
def IsTitled (definition : Node) : Prop :=
  match definition.get? "title" with
  | none => True
  | some .null => True
  | some (.string _) => True
  | some _ => False

/-- A definition is a truth value or an object. -/
def IsDefinition : Node → Prop
  | .bool _ => True
  | .object _ => True
  | _ => False

/-- The entries define properties with keys and fields of their own. -/
structure AreProperties (entries : List (String × Node)) : Prop where
  keys : (entries.map (·.1)).Nodup
  fields : (entries.map fun entry => Naming.fieldName entry.1).Nodup
  named : ∀ entry ∈ entries, Naming.fieldName entry.1 ≠ ""
  defined : ∀ entry ∈ entries, IsDefinition entry.2

/-- The properties are left out, null or an object that defines properties. -/
def ListsProperties (definition : Node) : Prop :=
  match definition.get? "properties" with
  | none => True
  | some .null => True
  | some (.object entries) => AreProperties entries
  | some _ => False

/-- The properties are left out, null or an object. -/
def HasPropertyList (definition : Node) : Prop :=
  match definition.get? "properties" with
  | none => True
  | some .null => True
  | some (.object _) => True
  | some _ => False

theorem areProperties_nil : AreProperties [] :=
  ⟨.nil, .nil, fun _ h => absurd h List.not_mem_nil, fun _ h => absurd h List.not_mem_nil⟩

theorem areProperties_cons {key : String} {definition : Node} {rest : List (String × Node)} :
    AreProperties ((key, definition) :: rest) ↔
      Naming.fieldName key ≠ "" ∧ IsDefinition definition ∧
        (∀ entry ∈ rest, key ≠ entry.1 ∧ Naming.fieldName key ≠ Naming.fieldName entry.1) ∧
        AreProperties rest := by
  constructor
  · rintro ⟨hkeys, hfields, hnamed, hdefined⟩
    rw [List.map_cons, List.nodup_cons] at hkeys hfields
    rw [List.forall_mem_cons] at hnamed hdefined
    refine ⟨hnamed.1, hdefined.1, ?_, hkeys.2, hfields.2, hnamed.2, hdefined.2⟩
    intro entry hentry
    exact ⟨fun h => hkeys.1 (List.mem_map.2 ⟨entry, hentry, h.symm⟩),
      fun h => hfields.1 (List.mem_map.2 ⟨entry, hentry, h.symm⟩)⟩
  · rintro ⟨hname, hdefinition, hapart, hrest⟩
    refine ⟨List.nodup_cons.2 ⟨?_, hrest.keys⟩, List.nodup_cons.2 ⟨?_, hrest.fields⟩,
      List.forall_mem_cons.2 ⟨hname, hrest.named⟩,
      List.forall_mem_cons.2 ⟨hdefinition, hrest.defined⟩⟩
    · intro hmem
      obtain ⟨entry, hentry, heq⟩ := List.mem_map.1 hmem
      exact (hapart entry hentry).1 heq.symm
    · intro hmem
      obtain ⟨entry, hentry, heq⟩ := List.mem_map.1 hmem
      exact (hapart entry hentry).2 heq.symm

theorem listsProperties_iff {definition : Node} :
    ListsProperties definition ↔ HasPropertyList definition ∧ AreProperties (entriesOf definition) := by
  unfold ListsProperties HasPropertyList entriesOf
  cases definition.get? "properties" with
  | none => simp [areProperties_nil]
  | some value => cases value <;> simp [areProperties_nil]

end Document

/-- What has to be right about an occurrence by itself. -/
structure Occurrence.Sound (o : Occurrence) : Prop where
  titled : Document.IsTitled o.definition
  named : o.name ≠ ""
  properties : Document.ListsProperties o.definition
  /-- The record type is not inside itself. -/
  unrepeated : o.name ∉ o.above

/-- The document describes a model. -/
structure Document.WellFormed (document : Node) : Prop where
  object : ∃ entries, document = .object entries
  sound : ∀ o ∈ occurrences document, o.Sound
  /-- One name stands for one record type. -/
  agreeing : ∀ o ∈ occurrences document, ∀ o' ∈ occurrences document, o.name = o'.name →
    o.shape (rootName document) = o'.shape (rootName document)

end SchemaRecords.Schema
