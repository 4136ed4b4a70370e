import SchemaRecords.Json.Node
import SchemaRecords.Schema.Naming
import SchemaRecords.Schema.Registry
import SchemaRecords.Schema.Scalar

/-!
# Finding the record types in a document

`Model.ofDocument` walks a schema document once, from the root inwards. Each
object definition is a record type, named by its title or, without one, by where
it stands. Types are listed in the order in which the walk enters them.
-/

namespace SchemaRecords.Schema

open SchemaRecords.Json (Node)

/-- What is found in a list by its key is smaller than the list. -/
theorem sizeOf_lookup {key : String} {value : Node} :
    ∀ {entries : List (String × Node)}, entries.lookup key = some value →
      sizeOf value < sizeOf entries
  | (k, v) :: rest, h => by
    rw [List.lookup_cons] at h
    split at h
    · cases h
      simp only [List.cons.sizeOf_spec, Prod.mk.sizeOf_spec]
      omega
    · have := sizeOf_lookup h
      simp only [List.cons.sizeOf_spec]
      omega

/-- What an object holds is smaller than the object. -/
theorem sizeOf_get? {node value : Node} {key : String} (h : node.get? key = some value) :
    sizeOf value < sizeOf node := by
  cases node with
  | object entries =>
    have := sizeOf_lookup h
    simp only [Node.object.sizeOf_spec]
    omega
  | null => simp [Node.get?] at h
  | bool => simp [Node.get?] at h
  | number => simp [Node.get?] at h
  | string => simp [Node.get?] at h
  | array => simp [Node.get?] at h

namespace Discovery

/-- The name of the root type if it has no title. -/
def defaultTitle : String := "UnknownClassName"

/-- The title of a definition. -/
def title? (definition : Node) : Except Error (Option String) :=
  match definition.get? "title" with
  | none => .ok none
  | some .null => .ok none
  | some (.string title) => .ok (some title)
  | some other => .error (.invalidDocument (.titleNotString other.kind))

/-- The type name for a title, which must not be empty. -/
def typeName (title : String) : Except Error String :=
  let name := Naming.typeName title
  if name.isEmpty then .error (.invalidIdentifier title) else .ok name

/-- The type name for a definition; `fallback` stands for a missing title. -/
def nameOf (definition : Node) (fallback : String) : Except Error String :=
  match title? definition with
  | .ok (some title) => typeName title
  | .ok none => typeName fallback
  | .error e => .error e

/-- The field of a new property, which must differ from those of the properties before it. -/
def fieldOf (owner key : String) (before : List Property) : Except Error String :=
  let field := Naming.fieldName key
  if before.any fun p => p.key == key then .error (.duplicateProperty owner key)
  else if field.isEmpty then .error (.invalidIdentifier key)
  else if before.any fun p => p.field == field then .error (.duplicateProperty owner key)
  else .ok field

/-- Ends a type whose properties are all known. -/
def finish (name : String) (properties : List Property) (r : Registry) : Except Error Registry :=
  match r.complete (.ofProperties name properties) with
  | (.ok _, r) => .ok r
  | (.error e, _) => .error e

mutual

/-- Enters the type of a definition, and all types inside it. -/
def record (root name : String) (definition : Node) (r : Registry) : Except Error Registry :=
  match r.enter name with
  | (.error e, _) => .error e
  | (.ok _, r) =>
    match _h : definition.get? "properties" with
    | none => finish name [] r
    | some .null => finish name [] r
    | some (.object entries) =>
      match properties root name entries [] r with
      | .error e => .error e
      | .ok (found, r) => finish name found r
    | some other => .error (.invalidDocument (.propertiesNotObject name other.kind))
termination_by (sizeOf definition, 0)
decreasing_by
  have := sizeOf_get? _h
  simp only [Node.object.sizeOf_spec] at this
  exact Prod.Lex.left _ _ (by omega)

/-- The properties that entries define, after those in `before`, which are in reverse. -/
def properties (root owner : String) (entries : List (String × Node)) (before : List Property)
    (r : Registry) : Except Error (List Property × Registry) :=
  match entries with
  | [] => .ok (before.reverse, r)
  | (key, definition) :: rest =>
    match fieldOf owner key before with
    | .error e => .error e
    | .ok field =>
      match property root owner key definition r with
      | .error e => .error e
      | .ok (type, r) => properties root owner rest (⟨key, field, type⟩ :: before) r
termination_by (sizeOf entries, 0)
decreasing_by
  · exact Prod.Lex.left _ _ (by simp only [List.cons.sizeOf_spec, Prod.mk.sizeOf_spec]; omega)
  · exact Prod.Lex.left _ _ (by simp only [List.cons.sizeOf_spec]; omega)

/-- The type of a property. -/
def property (root owner key : String) (definition : Node) (r : Registry) :
    Except Error (PropertyType × Registry) :=
  match definition with
  | .null => .error (.missingDefinition owner key)
  | .bool _ => .ok (.generic, r)
  | .object entries => resolve root owner s!"{root}_{key}" (.object entries) r
  | other => .error (.invalidDocument (.definitionNotObject key owner other.kind))
termination_by (sizeOf definition, 2)
decreasing_by
  exact Prod.Lex.right _ (by omega)

/-- The type that an object definition stands for; `fallback` names it if it is a record type
without a title. -/
def resolve (root owner fallback : String) (definition : Node) (r : Registry) :
    Except Error (PropertyType × Registry) :=
  match definition.get? "type" with
  | some (.string "object") =>
    match nameOf definition fallback with
    | .error e => .error e
    | .ok name =>
      match record root name definition r with
      | .error e => .error e
      | .ok r => .ok (.reference name, r)
  | some (.string "array") =>
    match _h : definition.get? "items" with
    | some (.object entries) =>
      match resolve root owner s!"{owner}_item" (.object entries) r with
      | .error e => .error e
      | .ok (type, r) => .ok (.array type, r)
    | _ => .ok (.array .generic, r)
  | some (.string kind) =>
    .ok (.scalar kind ((definition.get? "format").bind Node.text?), r)
  | _ => .ok (.generic, r)
termination_by (sizeOf definition, 1)
decreasing_by
  · exact Prod.Lex.right _ (by omega)
  · exact Prod.Lex.left _ _ (sizeOf_get? _h)

end

end Discovery

/-- The model of a schema document. -/
def Model.ofDocument (document : Node) : Except Error Model :=
  match document.entries? with
  | none => .error (.invalidDocument (.rootNotObject document.kind))
  | some _ =>
    match Discovery.nameOf document Discovery.defaultTitle with
    | .error e => .error e
    | .ok root =>
      match Discovery.record root root document Registry.empty with
      | .error e => .error e
      | .ok r =>
        match r.types with
        | [] => .error (.invalidDocument .noRoot)
        | first :: nested => .ok ⟨first, nested⟩

end SchemaRecords.Schema
