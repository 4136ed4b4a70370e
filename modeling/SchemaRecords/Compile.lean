import SchemaRecords.Json.Parse
import SchemaRecords.Output.Sink
import SchemaRecords.Schema.Discovery

/-!
# Compiling schemas

From a schema document to classes in a sink. Nothing is sent to the sink before
every class has been made, and a sink that was prepared is aborted if anything
fails after that.
-/

namespace SchemaRecords

open SchemaRecords.Json (Node)
open SchemaRecords.Output (DeliveryError FileError FileSystem Path Refusal Sink)
open SchemaRecords.Record (Artifact Settings)
open SchemaRecords.Schema (Model)

/-- Why there is no document. -/
inductive ReadError where
  | json (cause : Json.Error)
  | file (cause : FileError)
deriving DecidableEq, Repr

namespace ReadError

/-- The wording of an error. -/
def message : ReadError → String
  | json cause => s!"JSON parsing error: {cause.message}"
  | file cause => s!"IO error: {cause.message}"

/-- The wording of what caused the error. -/
def cause : ReadError → String
  | json cause => cause.message
  | file cause => cause.message

end ReadError

/-- Why a compilation failed. -/
inductive CompileError where
  | read (cause : ReadError)
  | schema (cause : Schema.Error)
  | record (cause : Record.Error)
  | delivery (cause : DeliveryError)
  | refused (cause : Refusal)
deriving DecidableEq, Repr

namespace CompileError

/-- The wording of an error and of all its causes, outermost first. -/
def chain : CompileError → List String
  | read e =>
    [s!"parse error: {e.message}", e.message, e.cause]
  | schema e => [s!"schema error: {e.message}", e.message]
  | record (.classFile e) =>
    [s!"emission error: codegen error: class file error: {e.message}",
      s!"codegen error: class file error: {e.message}",
      s!"class file error: {e.message}", e.message]
  | record e =>
    [s!"emission error: codegen error: {e.message}", s!"codegen error: {e.message}", e.message]
  | delivery e => [s!"emission error: {e.message}", e.message, e.cause]
  | refused e => [s!"configuration error: {e.message}", e.message]

/-- The wording of an error. -/
def message (e : CompileError) : String := e.chain.headD ""

end CompileError

/-- The document that a text holds. -/
def documentOf (text : String) : Except ReadError Node :=
  match Json.parse text with
  | .ok node => .ok node
  | .error e => .error (.json e)

/-- The document in a file. -/
def documentAt {m : Type → Type} [Monad m] (fs : FileSystem m) (path : Path) :
    m (Except ReadError Node) := do
  match ← fs.readText path with
  | .ok text => return documentOf text
  | .error e => return .error (.file e)

/-- The classes for a document. -/
def generate (s : Settings) (document : Node) : Except CompileError (List Artifact) :=
  match Model.ofDocument document with
  | .error e => .error (.schema e)
  | .ok model =>
    match Artifact.ofModel s model with
    | .error e => .error (.record e)
    | .ok artifacts => .ok artifacts

section

variable {m : Type → Type} [Monad m]

/-- Hands classes to a sink up to the first that it does not take. -/
def deliverEach (sink : Sink m) : List Artifact → m (Except DeliveryError Unit)
  | [] => pure (.ok ())
  | a :: rest => do
    match ← sink.receive a with
    | .error e => return .error e
    | .ok _ => deliverEach sink rest

/-- Hands classes to a sink and finishes. -/
def deliver (sink : Sink m) (artifacts : List Artifact) : m (Except DeliveryError Unit) := do
  match ← deliverEach sink artifacts with
  | .error e => return .error e
  | .ok _ => sink.finish

/-- Aborts the sink and reports a failure. -/
def giveUp {α : Type} (sink : Sink m) (e : CompileError) : m (Except CompileError α) := do
  sink.abort
  return .error e

/-- Compiles a document into a sink. Gives the names of the classes. -/
def compileDocument (sink : Sink m) (s : Settings) (document : Node) :
    m (Except CompileError (List String)) := do
  match ← sink.prepare with
  | .error e => return .error (.refused e)
  | .ok _ =>
    match generate s document with
    | .error e => giveUp sink e
    | .ok artifacts =>
      match ← deliver sink artifacts with
      | .error e => giveUp sink (.delivery e)
      | .ok _ => return .ok (artifacts.map Artifact.typeName)

/-- Compiles a schema text into a sink. -/
def compileText (sink : Sink m) (s : Settings) (text : String) :
    m (Except CompileError (List String)) :=
  match documentOf text with
  | .error e => pure (.error (.read e))
  | .ok document => compileDocument sink s document

/-- Compiles a schema file into a sink. -/
def compileFile {n : Type → Type} [Monad n] [MonadLiftT n m] (fs : FileSystem n) (sink : Sink m)
    (s : Settings) (path : Path) : m (Except CompileError (List String)) := do
  match ← (documentAt fs path : n _) with
  | .error e => return .error (.read e)
  | .ok document => compileDocument sink s document

end

end SchemaRecords
