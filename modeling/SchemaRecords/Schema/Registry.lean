import SchemaRecords.Schema.Error
import SchemaRecords.Schema.Model
import Std.Data.HashMap

/-!
# Record types under discovery

A `Registry` holds the record types met so far, in the order in which they were
first entered, and the names of those that are still being built, outermost
first. A type is entered when its definition begins and completed when it ends.
Entering a name that is still being built would make the type contain itself.

Each name that was entered has a slot for its type, and the index says which one
it is. Calls give the registry back also when they fail.
-/

namespace SchemaRecords.Schema

/-- What completing a record type did. -/
inductive Registration where
  | added
  | deduplicated
deriving DecidableEq, Repr

/-- The record types met so far. -/
structure Registry where
  /-- A slot for the type of each name, filled once the type is complete. -/
  slots : Array (Option RecordType) := #[]
  /-- The slot of each name that was entered. -/
  index : Std.HashMap String Nat := {}
  /-- The names that are being built, outermost first. -/
  inProgress : List String := []

namespace Registry

/-- The registry with no names. -/
def empty : Registry := {}

/-- The number of names that were entered. -/
def size (r : Registry) : Nat := r.slots.size

/-- Whether no name was entered. -/
def isEmpty (r : Registry) : Bool := r.slots.isEmpty

/-- Whether a name was entered. -/
def contains (r : Registry) (name : String) : Bool := r.index.contains name

/-- The type in a slot. -/
def slot? (r : Registry) (i : Nat) : Option RecordType := r.slots[i]?.join

/-- The complete type of a name. -/
def get? (r : Registry) (name : String) : Option RecordType :=
  r.index[name]?.bind r.slot?

/-- Gives a name a slot after all others, with this in it, unless the name has one. -/
def reserve (r : Registry) (name : String) (slot : Option RecordType) : Registry :=
  if r.contains name then r
  else { r with slots := r.slots.push slot, index := r.index.insert name r.slots.size }

/-- Puts a type into a slot. -/
def fill (r : Registry) (i : Nat) (type : RecordType) : Registry :=
  { r with slots := r.slots.setIfInBounds i (some type) }

/-- Begins the type of a name. Its place is after those of all names entered before. -/
def enter (r : Registry) (name : String) : Except Error Unit × Registry :=
  if r.inProgress.contains name then
    (.error (.circularReference (r.inProgress ++ [name])), r)
  else (.ok (), { r.reserve name none with inProgress := r.inProgress ++ [name] })

/-- The registry in which a name is no longer being built, the innermost time that it is. -/
def leave (r : Registry) (name : String) : Registry :=
  { r with inProgress := (r.inProgress.reverse.erase name).reverse }

/-- Ends a type. A second type of the same name must be equal to the first. The name is no
longer being built afterwards, unless it never was. -/
def complete (r : Registry) (type : RecordType) : Except Error Registration × Registry :=
  match r.inProgress.contains type.name, r.index[type.name]? with
  | true, some i =>
    let r := r.leave type.name
    match r.slot? i with
    | none => (.ok .added, r.fill i type)
    | some existing =>
      if existing = type then (.ok .deduplicated, r)
      else (.error (.conflictingDefinition type.name), r)
  | _, _ => (.error (.invalidDocument (.notEntered type.name)), r)

/-- The complete types, in the order in which their names were entered. -/
def types (r : Registry) : List RecordType := r.slots.toList.filterMap id

end Registry

end SchemaRecords.Schema
