import SchemaRecords.Output.FileSystem
import SchemaRecords.Record.Artifact

/-!
# Sinks

A sink is where the classes of one compilation go. It is asked to prepare before
any class is made, so that it can refuse early; then it receives the classes
one by one, and is told at the end to finish or, after a failure, to abort.

`Sink m` is given by its four operations in a monad, which carries whatever
state the sink has.
-/

namespace SchemaRecords.Output

open SchemaRecords.Record (Artifact SettingsFault)

/-- Why a sink or the settings cannot be used. -/
inductive Refusal where
  | outputExists (path : Path)
  | notADirectory (path : Path)
  | settings (fault : SettingsFault)
  | other (message : String)
deriving DecidableEq, Repr

namespace Refusal

/-- The wording of a refusal. -/
def message : Refusal → String
  | outputExists path => s!"output '{path}' already exists"
  | notADirectory path => s!"output '{path}' is not a directory"
  | settings (.package name) => s!"invalid package name '{name}'"
  | settings (.annotationType descriptor) => s!"invalid annotation descriptor '{descriptor}'"
  | other message => s!"invalid configuration: {message}"

end Refusal

/-- Why a class could not be delivered. -/
inductive DeliveryError where
  | file (path : Path) (cause : FileError)
  /-- The archive has a fault, such as a name that occurs twice. -/
  | archive (fault : String)
deriving DecidableEq, Repr

namespace DeliveryError

/-- The wording of an error. -/
def message : DeliveryError → String
  | file path cause => s!"IO error on '{path}': {cause.message}"
  | archive fault => s!"archive error: {fault}"

/-- The wording of what caused the error. -/
def cause : DeliveryError → String
  | file _ cause => cause.message
  | archive fault => fault

end DeliveryError

/-- Where classes go. -/
structure Sink (m : Type → Type) where
  /-- Checks the destination before anything is made. -/
  prepare : m (Except Refusal Unit)
  /-- Takes a class. -/
  receive : Artifact → m (Except DeliveryError Unit)
  /-- Completes the output after the last class. -/
  finish : m (Except DeliveryError Unit)
  /-- Gives up the output of a failed compilation, as far as possible. -/
  abort : m Unit

/-- A sink that keeps classes in memory. -/
structure MemorySink where
  pending : List Artifact := []
  /-- The classes of the last compilation that was finished. -/
  artifacts : List Artifact := []
  finished : Bool := false
deriving DecidableEq, Repr

namespace MemorySink

/-- The operations of the sink. -/
def sink {m : Type → Type} [Monad m] : Sink (StateT MemorySink m) where
  prepare := fun s => pure (.ok (), { s with pending := [], finished := false })
  receive a := fun s => pure (.ok (), { s with pending := s.pending ++ [a] })
  finish := fun s => pure (.ok (), { pending := [], artifacts := s.pending, finished := true })
  abort := fun s => pure ((), { s with pending := [] })

end MemorySink

end SchemaRecords.Output
