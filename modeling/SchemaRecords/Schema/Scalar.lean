import SchemaRecords.Schema.Model

/-!
# Scalar types

How the keywords `type` and `format` of a definition select a scalar type. What
they do not select can hold any value.
-/

namespace SchemaRecords.Schema

/-- The type that the format of a string selects. -/
def WellKnown.ofFormat? (format : String) : Option WellKnown :=
  match format with
  | "date-time" => some offsetDateTime
  | "time" => some offsetTime
  | "date" => some localDate
  | "duration" => some duration
  | "ipv4" => some ipv4Address
  | "ipv6" => some ipv6Address
  | "uuid" => some uuid
  | "uri" => some uri
  | "uri-reference" => some uri
  | "iri" => some uri
  | "iri-reference" => some uri
  | _ => none

/-- The type that a scalar `type` keyword selects, with the format if there is one. -/
def PropertyType.scalar (kind : String) (format : Option String) : PropertyType :=
  match kind with
  | "string" =>
    match format.bind WellKnown.ofFormat? with
    | some type => wellKnown type
    | none => primitive .string
  | "integer" => primitive .integer
  | "number" => primitive .number
  | "boolean" => primitive .boolean
  | _ => generic

end SchemaRecords.Schema
