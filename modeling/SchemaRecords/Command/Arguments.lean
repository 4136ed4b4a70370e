import SchemaRecords.Output.Path
import SchemaRecords.Record.Settings

/-!
# Command-line arguments

The arguments of the program are read from left to right. Options come in a long
form (`--output x`, `--output=x`) and some in a short form (`-o x`, `-ox`,
`-o=x`), and short flags may share one dash. Two dashes alone make everything
after them positional. An option or flag may be given once at each level.

What an argument means is settled when the next one comes: an option that still
waits for its value is only at fault then, and so is a value that cannot be
used.
-/

namespace SchemaRecords.Command

open SchemaRecords.Output (Path)
open SchemaRecords.Record (Settings)

/-- Which arguments are understood: those of the program or those of a command. -/
inductive Scope where
  | program
  | compile
  | inspect
deriving DecidableEq, Repr

/-- An argument without a value. -/
inductive Flag where
  | verbose
  | help
  | version
  | omitKeys
  | primitiveValues
deriving DecidableEq, Repr

/-- An argument with a value. -/
inductive Parameter where
  | schema
  | package
  | output
  | annotationType
  | classFile
deriving DecidableEq, Repr

/-- What the name of an option stands for. -/
inductive Switch where
  | flag (f : Flag)
  | valued (p : Parameter)
deriving DecidableEq, Repr

/-- Why arguments cannot be used, or need not be. -/
inductive Usage where
  /-- Help was asked for. -/
  | help (scope : Scope)
  /-- The version was asked for. -/
  | version
  /-- There are no arguments at all. -/
  | noArguments
  /-- There are flags but no command. -/
  | missingCommand
  | invalidCommand
  | unknownArgument
  /-- A parameter that must be given is not. -/
  | missingArgument
  /-- An option has no value, or one it cannot have. -/
  | invalidValue
  /-- An argument is given twice. -/
  | repeated
  /-- A flag has a value. -/
  | unwantedValue
deriving DecidableEq, Repr

/-- What the compile command is asked to do. -/
structure CompileArguments where
  /-- The schema file; none means standard input. -/
  schema : Option Path := none
  package : Option String := none
  output : Path := "."
  omitKeys : Bool := false
  annotationType : Option String := none
  primitiveValues : Bool := false
deriving DecidableEq, Repr

namespace CompileArguments

/-- The schema file; a path whose only component is a dash means standard input too. -/
def schemaPath? (a : CompileArguments) : Option Path :=
  a.schema.filter fun path => path.key ≠ Path.key "-"

/-- The settings for record classes. -/
def settings (a : CompileArguments) : Settings where
  package := a.package
  keepKeys := !a.omitKeys
  annotationType := a.annotationType.getD ({} : Settings).annotationType
  primitiveValues := a.primitiveValues

end CompileArguments

/-- What the program is asked to do. -/
inductive Invocation where
  | compile (verbose : Bool) (arguments : CompileArguments)
  | inspect (verbose : Bool) (classFile : Path)
deriving DecidableEq, Repr

namespace Scope

/-- The meaning of a long option. -/
def long? : Scope → String → Option Switch
  | _, "verbose" => some (.flag .verbose)
  | _, "help" => some (.flag .help)
  | program, "version" => some (.flag .version)
  | compile, "package-name" => some (.valued .package)
  | compile, "output" => some (.valued .output)
  | compile, "no-original-keys" => some (.flag .omitKeys)
  | compile, "annotation" => some (.valued .annotationType)
  | compile, "primitive-values" => some (.flag .primitiveValues)
  | _, _ => none

/-- The meaning of a short option. -/
def short? : Scope → Char → Option Switch
  | _, 'v' => some (.flag .verbose)
  | _, 'h' => some (.flag .help)
  | program, 'V' => some (.flag .version)
  | compile, 'p' => some (.valued .package)
  | compile, 'o' => some (.valued .output)
  | _, _ => none

/-- The one positional argument of a command. -/
def positional? : Scope → Option Parameter
  | program => none
  | compile => some .schema
  | inspect => some .classFile

/-- The command with a name. -/
def ofName? : String → Option Scope
  | "compile" => some compile
  | "inspect" => some inspect
  | _ => none

end Scope

namespace Parameter

/-- Whether the parameter can have a value. Paths are not empty. -/
def accepts (p : Parameter) (value : String) : Bool :=
  match p with
  | schema => !value.isEmpty
  | output => !value.isEmpty
  | classFile => !value.isEmpty
  | package => true
  | annotationType => true

end Parameter

/-- What has been understood so far at one level. -/
structure Progress where
  flags : List Flag := []
  values : List (Parameter × String) := []
  /-- The parameter met last, with its value if that has come. -/
  pending : Option (Parameter × Option String) := none
  /-- Whether the positional argument was given. -/
  positional : Bool := false
deriving DecidableEq, Repr

namespace Progress

/-- Settles the parameter met last. -/
def settle (g : Progress) : Except Usage Progress :=
  match g.pending with
  | none => .ok g
  | some (_, none) => .error .invalidValue
  | some (p, some value) =>
    if (g.values.lookup p).isSome then .error .repeated
    else if p.accepts value then .ok { g with values := (p, value) :: g.values, pending := none }
    else .error .invalidValue

/-- Takes a flag. -/
def raise (scope : Scope) (f : Flag) (g : Progress) : Except Usage Progress := do
  let g ← g.settle
  match f with
  | .help => throw (.help scope)
  | .version => throw .version
  | f => if g.flags.contains f then throw .repeated else pure { g with flags := f :: g.flags }

/-- Takes an option with its value. -/
def give (p : Parameter) (value : String) (g : Progress) : Except Usage Progress := do
  let g ← g.settle
  settle { g with pending := some (p, some value) }

/-- Takes an option whose value comes next. -/
def await (p : Parameter) (g : Progress) : Except Usage Progress := do
  let g ← g.settle
  pure { g with pending := some (p, none) }

/-- Takes a long option. -/
def long (scope : Scope) (name : String) (value : Option String) (g : Progress) :
    Except Usage Progress :=
  match scope.long? name, value with
  | none, _ => .error .unknownArgument
  | some (.flag f), none => g.raise scope f
  | some (.flag _), some _ => .error .unwantedValue
  | some (.valued p), none => g.await p
  | some (.valued p), some value => g.give p value

/-- Takes the short options after a dash. -/
def short (scope : Scope) : List Char → Progress → Except Usage Progress
  | [], g => .ok g
  | c :: rest, g =>
    match scope.short? c, rest with
    | none, _ => .error .unknownArgument
    | some (.flag f), rest =>
      match g.raise scope f with
      | .error e => .error e
      | .ok g => short scope rest g
    | some (.valued p), [] => g.await p
    | some (.valued p), '=' :: value => g.give p (String.ofList value)
    | some (.valued p), value => g.give p (String.ofList value)

/-- Takes a positional argument. -/
def place (scope : Scope) (value : String) (g : Progress) : Except Usage Progress :=
  match scope.positional? with
  | none => .error .unknownArgument
  | some p =>
    if g.positional then .error .unknownArgument
    else
      match g.settle with
      | .error e => .error e
      | .ok g => .ok { g with pending := some (p, some value), positional := true }

/-- Takes a word that is no option: the value that an option waits for, or a positional
argument. -/
def word (scope : Scope) (value : String) (g : Progress) : Except Usage Progress :=
  match g.pending with
  | some (p, none) => .ok { g with pending := some (p, some value) }
  | _ => g.place scope value

end Progress

/-- The forms of an argument. -/
inductive Form where
  /-- Two dashes alone. -/
  | escape
  | long (name : String) (value : Option String)
  | short (letters : List Char)
  | word
deriving DecidableEq, Repr

namespace Form

/-- The form of an argument. -/
def of (argument : String) : Form :=
  match argument.toList with
  | ['-', '-'] => escape
  | '-' :: '-' :: rest =>
    let name := rest.takeWhile (· ≠ '=')
    match rest.drop name.length with
    | [] => long (String.ofList name) none
    | _ :: value => long (String.ofList name) (some (String.ofList value))
  | ['-'] => word
  | '-' :: rest => short rest
  | _ => word

end Form

/-- Reads arguments that are all positional. -/
def scanPositional (scope : Scope) : List String → Progress → Except Usage Progress
  | [], g => g.settle
  | argument :: rest, g =>
    match g.place scope argument with
    | .error e => .error e
    | .ok g => scanPositional scope rest g

/-- Reads the arguments of a command. -/
def scan (scope : Scope) : List String → Progress → Except Usage Progress
  | [], g => g.settle
  | argument :: rest, g =>
    match Form.of argument with
    | .escape => scanPositional scope rest g
    | .long name value =>
      match g.long scope name value with
      | .error e => .error e
      | .ok g => scan scope rest g
    | .short letters =>
      match g.short scope letters with
      | .error e => .error e
      | .ok g => scan scope rest g
    | .word =>
      match g.word scope argument with
      | .error e => .error e
      | .ok g => scan scope rest g

/-- What a command is asked to do. -/
def Progress.invocation (g : Progress) (verbose : Bool) : Scope → Except Usage Invocation
  | .compile =>
    .ok (.compile (verbose || g.flags.contains .verbose) {
      schema := g.values.lookup .schema
      package := g.values.lookup .package
      output := (g.values.lookup .output).getD "."
      omitKeys := g.flags.contains .omitKeys
      annotationType := g.values.lookup .annotationType
      primitiveValues := g.flags.contains .primitiveValues })
  | .inspect =>
    match g.values.lookup .classFile with
    | some path => .ok (.inspect (verbose || g.flags.contains .verbose) path)
    | none => .error .missingArgument
  | .program => .error .missingCommand

/-- What is asked for after the word `help`: the name of a command, or nothing. -/
def helpTopic : List String → Usage
  | [] => .help .program
  | ["help"] => .help .program
  | [name] =>
    match Scope.ofName? name with
    | some scope => .help scope
    | none => .invalidCommand
  | _ => .invalidCommand

/-- Whether a word is the name of a command. -/
def isCommand (name : String) : Bool := name == "help" || (Scope.ofName? name).isSome

/-- Reads the arguments of the program up to the command, then those of the command. -/
def parseFrom : List String → Progress → Except Usage Invocation
  | [], g => if g.flags.isEmpty then .error .noArguments else .error .missingCommand
  | argument :: rest, g =>
    match Form.of argument with
    | .escape =>
      match rest with
      | [] => if g.flags.isEmpty then .error .noArguments else .error .missingCommand
      | name :: _ => if isCommand name then .error .unknownArgument else .error .invalidCommand
    | .long name value =>
      match g.long .program name value with
      | .error e => .error e
      | .ok g => parseFrom rest g
    | .short letters =>
      match g.short .program letters with
      | .error e => .error e
      | .ok g => parseFrom rest g
    | .word =>
      match Scope.ofName? argument with
      | some scope =>
        match scan scope rest {} with
        | .error e => .error e
        | .ok inner => inner.invocation (g.flags.contains .verbose) scope
      | none => if argument = "help" then .error (helpTopic rest) else .error .invalidCommand

/-- What the program is asked to do by its arguments. -/
def parse (arguments : List String) : Except Usage Invocation := parseFrom arguments {}

end SchemaRecords.Command
