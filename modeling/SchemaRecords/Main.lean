import SchemaRecords.Command.Run

/-!
# The program

The operations of the file system the program runs on, and the program itself.
-/

open SchemaRecords.Output (FileError FileKind FileSystem Path)
open SchemaRecords.ClassFile (Bytes)

namespace SchemaRecords.Program

/-- The cause of a failed operation, by the number the system gives it, which some operations
negate. -/
def causeOfCode (code : UInt32) (message : String) : FileError :=
  match code.toInt32.toInt.natAbs with
  | 2 => .notFound
  | 13 => .permissionDenied
  | 17 => .alreadyExists
  | 20 => .notADirectory
  | 21 => .isADirectory
  | 22 => .invalidPath
  | 28 => .storageFull
  | 36 => .nameTooLong
  | n => .other s!"{message} (os error {n})"

/-- The cause of a failed operation. -/
def causeOf (e : IO.Error) : FileError :=
  match e with
  | .noFileOrDirectory _ code message => causeOfCode code message
  | .alreadyExists _ code message => causeOfCode code message
  | .permissionDenied _ code message => causeOfCode code message
  | .inappropriateType _ code message => causeOfCode code message
  | .resourceExhausted _ code message => causeOfCode code message
  | .invalidArgument _ code message => causeOfCode code message
  | .otherError code message => causeOfCode code message
  | e => .other (toString e)

/-- The result of an operation, with the cause if it failed. -/
def attempt {α : Type} (action : IO α) : IO (Except FileError α) := do
  match ← action.toBaseIO with
  | .ok a => return .ok a
  | .error e => return .error (causeOf e)

/-- The content of a file. -/
def contentOf (path : Path) : IO (Except FileError Bytes) :=
  attempt do return (← IO.FS.readBinFile path).data.toList

/-- What stands at a path. -/
def kindOf (path : Path) : IO (Option FileKind) := do
  match ← contentOf path with
  | .ok _ => return some .file
  | .error .isADirectory => return some .directory
  | .error .permissionDenied => return some .file
  | .error _ => return none

/-- The file system the program runs on. -/
def fileSystem : FileSystem IO where
  kind? := kindOf
  read := contentOf
  write path bytes := attempt (IO.FS.writeBinFile path ⟨bytes.toArray⟩)
  create path := attempt do
    let _ ← IO.FS.Handle.mk path .writeNew
  createDirectory path := attempt (IO.FS.createDir path)
  remove path := attempt (IO.FS.removeFile path)

/-- Everything up to the end of a stream. -/
partial def readAll (stream : IO.FS.Stream) (done : ByteArray) : IO ByteArray := do
  let more ← stream.read 65536
  if more.isEmpty then return done else readAll stream (done ++ more)

/-- Standard input. -/
def input : IO Bytes := do
  return (← readAll (← IO.getStdin) .empty).data.toList

end SchemaRecords.Program

/-- Runs the program. -/
def main (arguments : List String) : IO UInt32 := do
  let outcome ←
    SchemaRecords.Command.run SchemaRecords.Program.fileSystem SchemaRecords.Program.input arguments
  (← IO.getStdout).putStr outcome.stdout
  (← IO.getStderr).putStr outcome.stderr
  return outcome.exit.toUInt32
