import SchemaRecords.Text.Split

/-!
# Paths

Paths are texts in which slashes divide components. A path is used as it is
given and never normalized; `parent?` and `extension?` look at its components,
where empty components and single dots after the first do not count.
-/

namespace SchemaRecords.Output

/-- A path of a file or directory. -/
abbrev Path := String

namespace Path

/-- The start of a path that is no ordinary component: a slash, or a single dot. -/
def lead : List Char → List Char
  | '/' :: _ => ['/']
  | ['.'] => ['.']
  | '.' :: '/' :: _ => ['.']
  | _ => []

/-- The pieces between slashes after the lead. -/
def pieces (path : List Char) : List (List Char) :=
  Text.split '/' (path.drop (lead path).length)

/-- Whether a piece does not count as a component. -/
def isBlank (piece : List Char) : Bool := piece.isEmpty || piece == ['.']

/-- Pieces, the last first, without those at the end that do not count. -/
def trimmed (reversed : List (List Char)) : List (List Char) := reversed.dropWhile isBlank

/-- Pieces joined by slashes. -/
def joined (pieces : List (List Char)) : List Char := List.intercalate ['/'] pieces

/-- What all spellings of a path have in common: the lead and the components. -/
def key (path : Path) : List (List Char) :=
  lead path.toList :: (pieces path.toList).filter fun piece => !isBlank piece

/-- The path without its last component. -/
def parent? (path : Path) : Option Path :=
  let text := path.toList
  match trimmed (pieces text).reverse with
  | _ :: rest => some (String.ofList (lead text ++ joined (trimmed rest).reverse))
  | [] => if lead text = ['.'] then some "" else none

/-- The last component, if it names something. -/
def fileName? (path : Path) : Option (List Char) :=
  match trimmed (pieces path.toList).reverse with
  | last :: _ => if last = ['.', '.'] then none else some last
  | [] => none

/-- The part of the last component after its last dot, if something stands before the dot. -/
def extension? (path : Path) : Option (List Char) :=
  match fileName? path with
  | none => none
  | some name =>
    let tail := name.reverse.takeWhile (· ≠ '.')
    match name.reverse.drop tail.length with
    | '.' :: _ :: _ => some tail.reverse
    | _ => none

/-- A path inside a directory; an absolute path stays as it is. -/
def join (directory path : Path) : Path :=
  match path.toList, directory.toList.getLast? with
  | '/' :: _, _ => path
  | _, none => path
  | _, some '/' => directory ++ path
  | _, some _ => directory ++ "/" ++ path

/-- The path, its parent, the parent of that, and so on. -/
def ancestorsFrom : Nat → Path → List Path
  | 0, path => [path]
  | n + 1, path =>
    match parent? path with
    | none => [path]
    | some up => path :: ancestorsFrom n up

/-- The path and all paths above it, innermost first. -/
def ancestors (path : Path) : List Path := ancestorsFrom path.length path

end Path

end SchemaRecords.Output
