import SchemaRecords.Record.Layout

/-!
# Recipes for string forms

The string form of a record is its type name and, in brackets, each component
with its value; for an array the type stands in place of the value. A recipe is
a text in which U+0001 marks the values. Literal text that itself has a mark in
it cannot stand in the recipe: U+0002 marks its place, and the text travels
beside the recipe as a constant.
-/

namespace SchemaRecords.Record

/-- Marks the place of a value. -/
def valueMark : Char := '\x01'

/-- Marks the place of a constant. -/
def constantMark : Char := '\x02'

/-- A part of a string form. -/
inductive Piece where
  | literal (text : String)
  | value
deriving DecidableEq, Repr

/-- A text with marks and the constants they stand for, in order. -/
structure Recipe where
  template : String
  constants : List String
deriving DecidableEq, Repr

namespace Recipe

/-- The pieces for one component. -/
def componentPieces (c : Component) : List Piece :=
  [.literal c.name, .literal "=",
    if c.type.isArray then .literal c.type.displayName else .value]

/-- The pieces for components after the first. -/
def laterPieces (components : List Component) : List Piece :=
  components.flatMap fun c => .literal ", " :: componentPieces c

/-- The pieces of a record's string form. -/
def pieces (typeName : String) (components : List Component) : List Piece :=
  let inner := match components with
    | [] => []
    | c :: rest => componentPieces c ++ laterPieces rest
  [.literal typeName, .literal "["] ++ inner ++ [.literal "]"]

/-- Whether a literal cannot stand in a template. -/
def hasMark (text : List Char) : Bool :=
  text.any fun c => c == valueMark || c == constantMark

/-- A recipe under construction: everything in reverse, with the literal text not yet placed. -/
structure Progress where
  template : List Char := []
  constants : List String := []
  pending : List Char := []
deriving DecidableEq, Repr

namespace Progress

/-- Places the pending literal text. -/
def flush (p : Progress) : Progress :=
  if p.pending.isEmpty then p
  else if hasMark p.pending then
    { template := constantMark :: p.template
      constants := String.ofList p.pending.reverse :: p.constants }
  else { template := p.pending ++ p.template, constants := p.constants }

/-- Adds a piece. -/
def add (p : Progress) : Piece → Progress
  | .literal text => { p with pending := text.toList.reverse ++ p.pending }
  | .value =>
    let p := p.flush
    { p with template := valueMark :: p.template }

end Progress

/-- The recipe for pieces. -/
def ofPieces (pieces : List Piece) : Recipe :=
  let p := (pieces.foldl Progress.add {}).flush
  ⟨String.ofList p.template.reverse, p.constants.reverse⟩

/-- The recipe for a record. -/
def ofRecord (typeName : String) (components : List Component) : Recipe :=
  ofPieces (pieces typeName components)

end Recipe

end SchemaRecords.Record
