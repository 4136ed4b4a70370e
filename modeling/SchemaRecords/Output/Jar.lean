import SchemaRecords.Output.Archive
import SchemaRecords.Output.Sink

/-!
# Jars

A sink that collects the classes and writes them into one archive at the end,
after a manifest. It never replaces a file, and an archive that could not be
completed is removed.
-/

namespace SchemaRecords.Output

open SchemaRecords.ClassFile (Bytes)
open SchemaRecords.Record (Artifact)

/-- The state of a jar. -/
structure JarSink where
  path : Path
  /-- The names and contents of the classes received, in order. -/
  entries : List (String × Bytes) := []
deriving DecidableEq, Repr

namespace JarSink

variable {m : Type → Type} [Monad m]

/-- The name of the first entry of every jar. -/
def manifestName : String := "META-INF/MANIFEST.MF"

/-- The content of the first entry. -/
def manifest : Bytes :=
  "Manifest-Version: 1.0\r\nCreated-By: classforge\r\n\r\n".toUTF8.data.toList

/-- All entries carry the same time, so equal classes give equal jars. -/
def options : EntryOptions := ⟨.deflated, Stamp.epoch⟩

/-- The name and content of a class. -/
def entry (a : Artifact) : String × Bytes := (a.resourcePath, a.bytes)

/-- Refuses a path where something stands; otherwise forgets earlier classes. -/
def prepare (fs : FileSystem m) : StateT JarSink m (Except Refusal Unit) := fun s => do
  match ← fs.kind? s.path with
  | some _ => return (.error (.outputExists s.path), s)
  | none => return (.ok (), { s with entries := [] })

/-- Keeps a class for the end. -/
def receive (a : Artifact) : StateT JarSink m (Except DeliveryError Unit) := fun s =>
  pure (.ok (), { s with entries := s.entries ++ [entry a] })

/-- Writes an entry into the archive at a path. -/
def pack (zip : ArchiveLibrary m) (path : Path) (entry : String × Bytes) :
    StateT zip.Writer m (Except DeliveryError Unit) := do
  match ← zip.startFile entry.1 options with
  | .error fault => return .error (.archive fault)
  | .ok _ =>
    match ← zip.writeAll entry.2 with
    | .error e => return .error (.file path e)
    | .ok _ => return .ok ()

/-- Writes entries up to the first that fails. -/
def packEach (zip : ArchiveLibrary m) (path : Path) :
    List (String × Bytes) → StateT zip.Writer m (Except DeliveryError Unit)
  | [] => pure (.ok ())
  | entry :: rest => do
    match ← pack zip path entry with
    | .error e => return .error e
    | .ok _ => packEach zip path rest

/-- Writes the archive into its file, which is new and empty: the manifest, then the classes. -/
def writeArchive (zip : ArchiveLibrary m) (s : JarSink) : m (Except DeliveryError Unit) := do
  let z ← zip.attach s.path
  match ← packEach zip s.path ((manifestName, manifest) :: s.entries) z with
  | (.error e, z) =>
    zip.discard z
    return .error e
  | (.ok _, z) =>
    match ← zip.finish z with
    | .error fault => return .error (.archive fault)
    | .ok out =>
      match ← zip.flush out with
      | .error e => return .error (.file s.path e)
      | .ok _ => return .ok ()

/-- Writes the jar. Its classes are forgotten only if that succeeds. -/
def finish (fs : FileSystem m) (zip : ArchiveLibrary m) :
    StateT JarSink m (Except DeliveryError Unit) := fun s => do
  match ← fs.create s.path with
  | .error e => return (.error (.file s.path e), s)
  | .ok _ =>
    match ← writeArchive zip s with
    | .ok _ => return (.ok (), { s with entries := [] })
    | .error e =>
      let _ ← fs.remove s.path
      return (.error e, s)

/-- Forgets all classes. -/
def abort : StateT JarSink m Unit := fun s =>
  pure ((), { s with entries := [] })

/-- The operations of the sink. -/
def sink (fs : FileSystem m) (zip : ArchiveLibrary m) : Sink (StateT JarSink m) where
  prepare := prepare fs
  receive := receive
  finish := finish fs zip
  abort := abort

end JarSink

end SchemaRecords.Output
