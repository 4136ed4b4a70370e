import SchemaRecords.Output.Sink

/-!
# Class directories

A sink that writes each class to its own file below a directory. It remembers
the files it wrote and what stood in those it replaced. When a compilation is
aborted, replaced files get their content back and the others are removed.
-/

namespace SchemaRecords.Output

open SchemaRecords.ClassFile (Bytes)
open SchemaRecords.Record (Artifact)

/-- The state of a class directory. -/
structure DirectorySink where
  root : Path
  /-- The files written, in order. -/
  written : List Path := []
  /-- The content that files had before they were written, by the keys of their paths. -/
  replaced : List (List (List Char) × Bytes) := []
deriving DecidableEq, Repr

namespace DirectorySink

variable {m : Type → Type} [Monad m]

/-- Where a class goes. -/
def target (s : DirectorySink) (a : Artifact) : Path := s.root.join a.resourcePath

/-- Remembers the content of a file, if none is remembered. -/
def remember (s : DirectorySink) (path : Path) (content : Bytes) : DirectorySink :=
  if (s.replaced.lookup path.key).isSome then s
  else { s with replaced := (path.key, content) :: s.replaced }

/-- Refuses a root that is not a directory; otherwise forgets earlier compilations. -/
def prepare (fs : FileSystem m) : StateT DirectorySink m (Except Refusal Unit) := fun s => do
  match ← fs.kind? s.root with
  | some .file => return (.error (.notADirectory s.root), s)
  | _ => return (.ok (), { s with written := [], replaced := [] })

/-- Makes the directory of a file. -/
def createParent (fs : FileSystem m) (path : Path) : m (Except DeliveryError Unit) := do
  match path.parent? with
  | none => return .ok ()
  | some parent =>
    match ← fs.createAll parent with
    | .ok _ => return .ok ()
    | .error e => return .error (.file parent e)

/-- Writes a file whose previous content, if any, has been remembered. -/
def store (fs : FileSystem m) (path : Path) (bytes : Bytes) :
    StateT DirectorySink m (Except DeliveryError Unit) := fun s => do
  match ← fs.write path bytes with
  | .ok _ => return (.ok (), { s with written := s.written ++ [path] })
  | .error e => return (.error (.file path e), s)

/-- Writes a class to its file. -/
def receive (fs : FileSystem m) (a : Artifact) :
    StateT DirectorySink m (Except DeliveryError Unit) := fun s => do
  let path := s.target a
  match ← createParent fs path with
  | .error e => return (.error e, s)
  | .ok _ =>
    match ← fs.read path with
    | .ok previous => store fs path a.bytes (s.remember path previous)
    | .error .notFound => store fs path a.bytes s
    | .error e => return (.error (.file path e), s)

/-- Forgets what stood in replaced files. -/
def finish : StateT DirectorySink m (Except DeliveryError Unit) := fun s =>
  pure (.ok (), { s with replaced := [] })

/-- Undoes the writing of files, in order. Content that was remembered is used once. -/
def undo (fs : FileSystem m) : List (List (List Char) × Bytes) → List Path → m Unit
  | _, [] => pure ()
  | replaced, path :: rest => do
    match replaced.lookup path.key with
    | some previous => let _ ← fs.write path previous
    | none => let _ ← fs.remove path
    undo fs (replaced.filter fun entry => entry.1 ≠ path.key) rest

/-- Undoes the compilation. -/
def abort (fs : FileSystem m) : StateT DirectorySink m Unit := fun s => do
  undo fs s.replaced s.written
  return ((), { s with written := [], replaced := [] })

/-- The operations of the sink. -/
def sink (fs : FileSystem m) : Sink (StateT DirectorySink m) where
  prepare := prepare fs
  receive := receive fs
  finish := finish
  abort := abort fs

end DirectorySink

end SchemaRecords.Output
