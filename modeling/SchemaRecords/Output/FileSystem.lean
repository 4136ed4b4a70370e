import SchemaRecords.ClassFile.Bytes
import SchemaRecords.Output.Path

/-!
# File systems

What a program needs of a file system, as a record of operations in a monad.
Each operation may fail with a `FileError`. `FileSystem.createAll` makes a
directory together with those above it.
-/

namespace SchemaRecords.Output

open SchemaRecords.ClassFile (Bytes)

/-- Why a file operation failed. -/
inductive FileError where
  | notFound
  | alreadyExists
  | isADirectory
  | notADirectory
  | permissionDenied
  | storageFull
  | nameTooLong
  /-- The path holds a character that no path can. -/
  | invalidPath
  /-- The file does not hold text. -/
  | notText
  | other (message : String)
deriving DecidableEq, Repr

namespace FileError

/-- The wording of an error. -/
def message : FileError → String
  | notFound => "No such file or directory (os error 2)"
  | alreadyExists => "File exists (os error 17)"
  | isADirectory => "Is a directory (os error 21)"
  | notADirectory => "Not a directory (os error 20)"
  | permissionDenied => "Permission denied (os error 13)"
  | storageFull => "No space left on device (os error 28)"
  | nameTooLong => "File name too long (os error 36)"
  | invalidPath => "file name contained an unexpected NUL byte"
  | notText => "stream did not contain valid UTF-8"
  | other message => message

end FileError

/-- What stands at a path. -/
inductive FileKind where
  | file
  | directory
deriving DecidableEq, Repr

/-- The operations of a file system. -/
structure FileSystem (m : Type → Type) where
  /-- What stands at a path, if anything can be seen there. -/
  kind? : Path → m (Option FileKind)
  /-- The content of a file. -/
  read : Path → m (Except FileError Bytes)
  /-- Makes the file at a path hold just the given bytes. -/
  write : Path → Bytes → m (Except FileError Unit)
  /-- Makes an empty file where nothing stands. -/
  create : Path → m (Except FileError Unit)
  /-- Makes a directory where nothing stands. -/
  createDirectory : Path → m (Except FileError Unit)
  /-- Removes a file. -/
  remove : Path → m (Except FileError Unit)

namespace FileSystem

variable {m : Type → Type} [Monad m]

/-- Whether a directory stands at a path. -/
def isDirectory (fs : FileSystem m) (path : Path) : m Bool := do
  return (← fs.kind? path) == some .directory

/-- Makes the first of the paths a directory, after those that follow if it needs them. -/
def createEach (fs : FileSystem m) : List Path → m (Except FileError Unit)
  | [] => pure (.error (.other "failed to create whole tree"))
  | path :: above => do
    if path.isEmpty then return .ok ()
    match ← fs.createDirectory path with
    | .ok _ => return .ok ()
    | .error .notFound =>
      match ← createEach fs above with
      | .error e => return .error e
      | .ok _ =>
        match ← fs.createDirectory path with
        | .ok _ => return .ok ()
        | .error e => if ← fs.isDirectory path then return .ok () else return .error e
    | .error e => if ← fs.isDirectory path then return .ok () else return .error e

/-- Makes a directory and all directories above it, as far as they are not there. -/
def createAll (fs : FileSystem m) (path : Path) : m (Except FileError Unit) :=
  fs.createEach path.ancestors

/-- The text of a file. -/
def readText (fs : FileSystem m) (path : Path) : m (Except FileError String) := do
  match ← fs.read path with
  | .error e => return .error e
  | .ok bytes =>
    match String.fromUTF8? ⟨bytes.toArray⟩ with
    | some text => return .ok text
    | none => return .error .notText

end FileSystem

end SchemaRecords.Output
