import SchemaRecords.Output.FileSystem

/-!
# A file system in memory

A `FileTree` holds files and directories by their absolute component lists and
has a working directory. `FileTree.fileSystem` gives it the operations of a file
system, with the rules of a Unix kernel for how a path is walked and which error
wins.
-/

namespace SchemaRecords.Output

open SchemaRecords.ClassFile (Bytes)

/-- A file or directory. -/
inductive FileNode where
  | directory
  | file (content : Bytes)
deriving DecidableEq, Repr

/-- Files and directories by their place. -/
structure FileTree where
  /-- The working directory. -/
  cwd : List String := []
  /-- Everything below the root, in no particular order, each place once. -/
  nodes : List (List String × FileNode) := []
deriving DecidableEq, Repr

namespace FileTree

/-- What stands at a place; the root is always a directory. -/
def node? (t : FileTree) (place : List String) : Option FileNode :=
  if place.isEmpty then some .directory else t.nodes.lookup place

/-- Puts something at a place. -/
def put (t : FileTree) (place : List String) (node : FileNode) : FileTree :=
  { t with nodes := (place, node) :: t.nodes.filter fun entry => entry.1 ≠ place }

/-- Takes away what stands at a place. -/
def erase (t : FileTree) (place : List String) : FileTree :=
  { t with nodes := t.nodes.filter fun entry => entry.1 ≠ place }

/-- The longest component, in bytes. -/
def maxComponent : Nat := 255

/-- The longest path, in bytes. -/
def maxPath : Nat := 4095

/-- The place of a name in a directory. -/
def placeOf (here : List String) (name : String) : Except FileError (List String) :=
  if maxComponent < name.utf8ByteSize then .error .nameTooLong else .ok (here ++ [name])

/-- Where a path leads: to a name in a directory, or, if it ends in dots or has no components, to
a directory that is there. -/
inductive Target where
  | name (directory : List String) (name : String)
  | directory (place : List String)
deriving DecidableEq, Repr

/-- The target of a last component, which is met in a directory. -/
def targetOf (here : List String) (component : String) : Target :=
  if component = "." then .directory here
  else if component = ".." then .directory here.dropLast
  else .name here component

/-- The directory that a target is. -/
def enter (t : FileTree) : Target → Except FileError (List String)
  | .directory place => .ok place
  | .name here name =>
    match placeOf here name with
    | .error e => .error e
    | .ok place =>
      match t.node? place with
      | none => .error .notFound
      | some (.file _) => .error .notADirectory
      | some .directory => .ok place

/-- Walks components from a directory. Every component before the last must lead to a
directory. -/
def walk (t : FileTree) (here : List String) : List String → Except FileError Target
  | [] => .ok (.directory here)
  | [last] => .ok (targetOf here last)
  | component :: rest =>
    match t.enter (targetOf here component) with
    | .error e => .error e
    | .ok next => walk t next rest

/-- The target of a path. -/
def target (t : FileTree) (path : Path) : Except FileError Target :=
  if path.toList.contains '\x00' then .error .invalidPath
  else if path.isEmpty then .error .notFound
  else if maxPath < path.utf8ByteSize then .error .nameTooLong
  else
    let components := ((Text.split '/' path.toList).map String.ofList).filter (· ≠ "")
    t.walk (if path.startsWith "/" then [] else t.cwd) components

/-- The place a path leads to. -/
def resolve (t : FileTree) (path : Path) : Except FileError (List String) :=
  match t.target path with
  | .error e => .error e
  | .ok (.directory place) => .ok place
  | .ok (.name here name) => placeOf here name

/-- Whether a path can only be meant for a directory. -/
def endsInSlash (path : Path) : Bool := path.toList.getLast? == some '/'

/-- What stands at a path. -/
def lookup (t : FileTree) (path : Path) : Except FileError FileNode :=
  match t.resolve path with
  | .error e => .error e
  | .ok place =>
    match t.node? place with
    | none => .error .notFound
    | some .directory => .ok .directory
    | some (.file content) =>
      if endsInSlash path then .error .notADirectory else .ok (.file content)

/-- The kind of what stands at a path. -/
def kind? (t : FileTree) (path : Path) : Option FileKind :=
  match t.lookup path with
  | .ok .directory => some .directory
  | .ok (.file _) => some .file
  | .error _ => none

/-- The content of a file. -/
def read (t : FileTree) (path : Path) : Except FileError Bytes :=
  match t.lookup path with
  | .ok (.file content) => .ok content
  | .ok .directory => .error .isADirectory
  | .error e => .error e

/-- The place for a file at a path. A slash at the end of a name is at fault before the name is
looked up; a path that leads to a directory has no place for a file, which is the fault
`occupied`. -/
def filePlace (t : FileTree) (path : Path) (occupied : FileError) :
    Except FileError (List String) :=
  match t.target path with
  | .error e => .error e
  | .ok (.directory _) => .error occupied
  | .ok (.name here name) =>
    if endsInSlash path then .error .isADirectory else placeOf here name

/-- The tree with a file at a path. -/
def write (t : FileTree) (path : Path) (content : Bytes) : Except FileError FileTree :=
  match t.filePlace path .isADirectory with
  | .error e => .error e
  | .ok place =>
    match t.node? place with
    | some .directory => .error .isADirectory
    | _ => .ok (t.put place (.file content))

/-- The tree with an empty file where nothing stood. -/
def create (t : FileTree) (path : Path) : Except FileError FileTree :=
  match t.filePlace path .alreadyExists with
  | .error e => .error e
  | .ok place =>
    match t.node? place with
    | some _ => .error .alreadyExists
    | none => .ok (t.put place (.file []))

/-- The tree with a directory where nothing stood. -/
def createDirectory (t : FileTree) (path : Path) : Except FileError FileTree :=
  match t.resolve path with
  | .error e => .error e
  | .ok place =>
    match t.node? place with
    | some _ => .error .alreadyExists
    | none => .ok (t.put place .directory)

/-- The tree without a file. -/
def remove (t : FileTree) (path : Path) : Except FileError FileTree :=
  match t.lookup path with
  | .error e => .error e
  | .ok .directory => .error .isADirectory
  | .ok (.file _) =>
    match t.resolve path with
    | .error e => .error e
    | .ok place => .ok (t.erase place)

/-- Keeps the tree if a change to it fails. -/
def change (f : FileTree → Except FileError FileTree) : StateM FileTree (Except FileError Unit) :=
  fun t =>
    match f t with
    | .ok t => (.ok (), t)
    | .error e => (.error e, t)

/-- The operations on a tree. -/
def fileSystem : FileSystem (StateM FileTree) where
  kind? path := fun t => (t.kind? path, t)
  read path := fun t => (t.read path, t)
  write path content := change (·.write path content)
  create path := change (·.create path)
  createDirectory path := change (·.createDirectory path)
  remove path := change (·.remove path)

/-- Everything below the working directory by its path from there, sorted. -/
def listing (t : FileTree) : List (Path × FileNode) :=
  let below := t.nodes.filterMap fun (place, node) =>
    if t.cwd.isPrefixOf place && place ≠ t.cwd then
      some (String.intercalate "/" (place.drop t.cwd.length), node)
    else none
  below.mergeSort fun a b => !decide (b.1 < a.1)

end FileTree

end SchemaRecords.Output
