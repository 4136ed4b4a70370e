import SchemaRecords.Proofs.Schema.Discovery

/-!
# Definitions without a title inside each other

A definition without a title is named after the root and its own key, wherever it
stands. Two such definitions under one key therefore have one name, and if one of
them is inside the other, the walk meets the name while it is being built. It stops
there, whatever the inner definition is.

* `Discovery.record_eq_error_of_inProgress`: a name that is being built is refused.
* `Model.ofDocument_eq_error_of_repeated`: a key that leads from the root to an
  untitled definition, and from there to another one, is a circular reference.
-/

namespace SchemaRecords.Schema

open SchemaRecords.Json (Node)

/-- Only objects hold values under keys. -/
theorem exists_entries_of_get? {node value : Node} {key : String} (h : node.get? key = some value) :
    ∃ entries, node = .object entries := by
  cases node with
  | object entries => exact ⟨entries, rfl⟩
  | null => cases h
  | bool => cases h
  | number => cases h
  | string => cases h
  | array => cases h

/-- An object definition that has no title. -/
structure Document.IsUntitled (definition : Node) : Prop where
  object : definition.get? "type" = some (.string "object")
  untitled : definition.get? "title" = none

/-- The first property of a definition has the given key and definition. -/
def Document.BeginsWith (definition : Node) (key : String) (inner : Node) : Prop :=
  ∃ rest, definition.get? "properties" = some (.object ((key, inner) :: rest))

namespace Discovery

theorem record_eq_error_of_inProgress {name : String} {r : Registry} (h : name ∈ r.inProgress)
    (root : String) (definition : Node) :
    record root name definition r = .error (.circularReference (r.inProgress ++ [name])) := by
  rw [record, Registry.enter_of_mem h]

/-- A record type fails as its first property does. -/
theorem record_eq_error_of_first {root name key : String} {definition inner : Node} {r : Registry}
    {e : Error} (hname : name ∉ r.inProgress) (hbegins : Document.BeginsWith definition key inner)
    (hfield : Naming.fieldName key ≠ "")
    (h : property root name key inner (r.opened name) = .error e) :
    record root name definition r = .error e := by
  obtain ⟨rest, hentries⟩ := hbegins
  have hfirst : fieldOf name key [] = .ok (Naming.fieldName key) :=
    fieldOf_eq_ok_iff.2 ⟨rfl, hfield, by simp⟩
  have hproperties : properties root name ((key, inner) :: rest) [] (r.opened name) = .error e := by
    rw [properties, hfirst]
    dsimp only
    rw [h]
  rw [record, Registry.enter_of_not_mem hname]
  dsimp only
  -- of the forms that `properties` may have, only an object with entries is left
  split <;> rename_i heq <;> rw [hentries] at heq <;> cases heq
  · rw [hproperties]
  · rename_i hobject
    exact absurd rfl (hobject _)

/-- An untitled definition fails as the record type that is named after its key does. -/
theorem property_eq_error_of_record {root owner key name : String} {definition : Node}
    {r : Registry} {e : Error} (hdefinition : Document.IsUntitled definition)
    (hname : Naming.typeName s!"{root}_{key}" = name) (hnamed : name ≠ "")
    (h : record root name definition r = .error e) :
    property root owner key definition r = .error e := by
  have hnameOf : nameOf definition s!"{root}_{key}" = .ok name := by
    rw [nameOf, title?, hdefinition.untitled]
    exact typeName_eq_ok_iff.2 ⟨hname.symm, hnamed⟩
  have hform : Document.formOf definition = .object := by
    simp [Document.formOf, hdefinition.object]
  have hresolve : resolve root owner s!"{root}_{key}" definition r = .error e := by
    rw [resolve_eq, hform]
    dsimp only
    rw [hnameOf]
    dsimp only
    rw [h]
    rfl
  obtain ⟨entries, rfl⟩ := exists_entries_of_get? hdefinition.object
  rw [property]
  exact hresolve

end Discovery

/-- A key that leads from the root to an untitled definition, and from there to another one, is a
circular reference. -/
theorem Model.ofDocument_eq_error_of_repeated {document outer inner : Node} {root key name : String}
    (hroot : Discovery.nameOf document Discovery.defaultTitle = .ok root)
    (hname : Naming.typeName s!"{root}_{key}" = name) (hnamed : name ≠ "") (hother : name ≠ root)
    (hfield : Naming.fieldName key ≠ "") (hdocument : Document.BeginsWith document key outer)
    (houter : Document.IsUntitled outer) (hbegins : Document.BeginsWith outer key inner)
    (hinner : Document.IsUntitled inner) :
    ofDocument document = .error (.circularReference [root, name, name]) := by
  -- inside the outer definition, the names of the root and of that definition are being built
  have hinnermost :
      Discovery.property root name key inner ((Registry.empty.opened root).opened name) =
        .error (.circularReference [root, name, name]) :=
    Discovery.property_eq_error_of_record hinner hname hnamed
      (Discovery.record_eq_error_of_inProgress (List.mem_append_right _ List.mem_cons_self) root
        inner)
  have hmiddle : Discovery.property root root key outer (Registry.empty.opened root)
      = .error (.circularReference [root, name, name]) := by
    refine Discovery.property_eq_error_of_record houter hname hnamed
      (Discovery.record_eq_error_of_first ?_ hbegins hfield hinnermost)
    show name ∉ [root]
    simpa using hother
  have hrecord : Discovery.record root root document Registry.empty
      = .error (.circularReference [root, name, name]) :=
    Discovery.record_eq_error_of_first List.not_mem_nil hdocument hfield hmiddle
  obtain ⟨rest, hproperties⟩ := hdocument
  obtain ⟨entries, rfl⟩ := exists_entries_of_get? hproperties
  unfold ofDocument
  rw [Node.entries?, hroot]
  dsimp only
  rw [hrecord]

end SchemaRecords.Schema
