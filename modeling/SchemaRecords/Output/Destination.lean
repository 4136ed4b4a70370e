import SchemaRecords.Output.Directory
import SchemaRecords.Output.Jar

/-!
# Destinations

Where the classes go is chosen by the output path: a path with the extension
`jar`, in small or capital letters, is a jar, and any other a class directory.
-/

namespace SchemaRecords.Output

/-- A class directory or a jar. -/
inductive Destination where
  | directory (state : DirectorySink)
  | jar (state : JarSink)
deriving DecidableEq, Repr

namespace Destination

variable {m : Type → Type} [Monad m]

/-- Whether a path names a jar. -/
def isJar (path : Path) : Bool :=
  match path.extension? with
  | some extension => extension.map Char.toLower == ['j', 'a', 'r']
  | none => false

/-- The destination for an output path. -/
def ofPath (path : Path) : Destination :=
  if isJar path then .jar { path } else .directory { root := path }

/-- Uses the operation for the kind of destination. -/
def dispatch {α : Type} (onDirectory : StateT DirectorySink m α) (onJar : StateT JarSink m α) :
    StateT Destination m α := fun d => do
  match d with
  | .directory s =>
    let (a, s) ← onDirectory s
    return (a, .directory s)
  | .jar s =>
    let (a, s) ← onJar s
    return (a, .jar s)

/-- The operations of the sink. -/
def sink (fs : FileSystem m) : Sink (StateT Destination m) where
  prepare := dispatch (DirectorySink.prepare fs) (JarSink.prepare fs)
  receive a := dispatch (DirectorySink.receive fs a) (JarSink.receive a)
  finish := dispatch DirectorySink.finish (JarSink.finish fs (Archive.library fs))
  abort := dispatch (DirectorySink.abort fs) JarSink.abort

end Destination

end SchemaRecords.Output
