import SchemaRecords.ClassFile.Summary
import SchemaRecords.Command.Help
import SchemaRecords.Compile
import SchemaRecords.Output.Destination

/-!
# Running commands

`run` does what the arguments ask for and gives what the program prints and its
exit code: 0 for success, 1 for failure, 2 for wrong usage. It needs a file
system and standard input.
-/

namespace SchemaRecords.Command

open SchemaRecords.ClassFile (Bytes)
open SchemaRecords.Output (Destination FileError FileSystem Path Refusal)

/-- What the program prints and its exit code. -/
structure Outcome where
  exit : UInt8
  stdout : String := ""
  stderr : String := ""
deriving DecidableEq, Repr

namespace Report

/-- A text whose lines after the first are indented. -/
def indented (indent : String) (text : String) : String :=
  String.intercalate ("\n" ++ indent) ((Text.split '\n' text.toList).map String.ofList)

/-- A number in a field of five characters. -/
def numberField (n : Nat) : String :=
  let digits := toString n
  String.ofList (List.replicate (5 - digits.length) ' ') ++ digits ++ ": "

/-- The causes of an error; they are numbered if there are several. -/
def causes : List String → String
  | [] => ""
  | [cause] => "\n\nCaused by:\n    " ++ indented "    " cause
  | several =>
    "\n\nCaused by:" ++ String.join (several.zipIdx.map fun (cause, i) =>
      "\n" ++ numberField i ++ indented "       " cause)

/-- The report of a failure, outermost error first. -/
def text : List String → String
  | [] => ""
  | error :: rest => "Error: " ++ error ++ causes rest ++ "\n"

end Report

namespace Outcome

/-- Success, with what is printed. -/
def success (stdout : String) : Outcome := { exit := 0, stdout }

/-- Failure, with an error and its causes. -/
def failure (chain : List String) : Outcome := { exit := 1, stderr := Report.text chain }

/-- The outcome for arguments that ask for nothing that can be done. -/
def ofUsage : Usage → Outcome
  | .help scope => success scope.help
  | .version => success versionText
  | .noArguments => { exit := 2, stderr := Scope.help .program }
  | usage =>
    { exit := 2
      stderr := "error: " ++ usage.complaint ++ "\n\nFor more information, try '--help'.\n" }

end Outcome

/-- The error and causes for settings that cannot be used. -/
def settingsChain (a : CompileArguments) : Option (List String) :=
  a.settings.fault?.map fun fault =>
    ["invalid compiler settings", (Refusal.settings fault).message]

section

variable {m : Type → Type} [Monad m]

/-- Compiles a schema file. -/
def compileAt (fs : FileSystem m) (a : CompileArguments) (path : Path) : m Outcome := do
  let (result, _) ← compileFile fs (Destination.sink fs) a.settings path
    |>.run (Destination.ofPath a.output)
  match result with
  | .ok names => return .success (String.join (names.map (· ++ "\n")))
  | .error e => return .failure (s!"failed to compile {path}" :: e.chain)

/-- Compiles the schema in standard input. -/
def compileInput (fs : FileSystem m) (a : CompileArguments) (input : Bytes) : m Outcome := do
  match String.fromUTF8? ⟨input.toArray⟩ with
  | none =>
    return .failure ["failed to read schema from standard input", FileError.notText.message]
  | some text =>
    let (result, _) ← compileText (Destination.sink fs) a.settings text
      |>.run (Destination.ofPath a.output)
    match result with
    | .ok names => return .success (String.join (names.map (· ++ "\n")))
    | .error e => return .failure ("failed to compile schema from standard input" :: e.chain)

/-- Compiles a schema. -/
def compile (fs : FileSystem m) (stdin : m Bytes) (a : CompileArguments) : m Outcome := do
  match settingsChain a with
  | some chain => return .failure chain
  | none =>
    match a.schemaPath? with
    | some path => compileAt fs a path
    | none => compileInput fs a (← stdin)

/-- Prints the summary of a class file. -/
def inspect (fs : FileSystem m) (path : Path) : m Outcome := do
  match ← fs.read path with
  | .error e => return .failure [s!"failed to read {path}", e.message]
  | .ok bytes =>
    match ClassFile.Summary.ofBytes bytes with
    | .error e => return .failure [s!"failed to inspect {path}", e.message]
    | .ok summary => return .success summary

/-- Does what the arguments ask for. -/
def run (fs : FileSystem m) (stdin : m Bytes) (arguments : List String) : m Outcome := do
  match parse arguments with
  | .error usage => return .ofUsage usage
  | .ok (.compile _ a) => compile fs stdin a
  | .ok (.inspect _ path) => inspect fs path

end

end SchemaRecords.Command
