/-!
# Why a document is not a schema

The causes for which no model can be made of a document, and their wording.
-/

namespace SchemaRecords.Schema

/-- A part of a document that has the wrong shape. -/
inductive DocumentFault where
  | rootNotObject (found : String)
  | titleNotString (found : String)
  | propertiesNotObject (owner found : String)
  | definitionNotObject (key owner found : String)
  /-- A record type was finished that was never begun. -/
  | notEntered (name : String)
  /-- No record type was finished. -/
  | noRoot
deriving DecidableEq, Repr

namespace DocumentFault

/-- The fault in words. -/
def message : DocumentFault → String
  | rootNotObject found => s!"root must be an object, found {found}"
  | titleNotString found => s!"'title' must be a string, found {found}"
  | propertiesNotObject owner found =>
    s!"'properties' of '{owner}' must be an object, found {found}"
  | definitionNotObject key owner found =>
    s!"definition of '{key}' in '{owner}' must be an object, found {found}"
  | notEntered name => s!"type '{name}' was not entered"
  | noRoot => "root schema was not registered"

end DocumentFault

/-- Why no model can be made of a document. -/
inductive Error where
  /-- Two properties of one record type have the same key or the same field. -/
  | duplicateProperty (owner key : String)
  /-- A key has no definition. -/
  | missingDefinition (owner key : String)
  /-- Two different record types have the same name. -/
  | conflictingDefinition (name : String)
  /-- A record type contains itself; `path` leads from the root to where its name comes again. -/
  | circularReference (path : List String)
  | invalidDocument (fault : DocumentFault)
  /-- A key or title has an empty name. -/
  | invalidIdentifier (identifier : String)
deriving DecidableEq, Repr

namespace Error

/-- The wording of an error. -/
def message : Error → String
  | duplicateProperty owner key => s!"duplicate property '{key}' in schema '{owner}'"
  | missingDefinition owner key => s!"missing definition for property '{key}' in schema '{owner}'"
  | conflictingDefinition name => s!"conflicting definitions for type '{name}'"
  | circularReference path =>
    "circular type reference detected: " ++ String.intercalate " -> " path
  | invalidDocument fault => s!"invalid schema document: {fault.message}"
  | invalidIdentifier identifier =>
    s!"identifier '{identifier}' does not produce a valid name"

end Error

end SchemaRecords.Schema
