import SchemaRecords.Command.Arguments

/-!
# Help

What the program prints instead of doing something: its version, its usage, and
what is wrong with the arguments.
-/

namespace SchemaRecords.Command

/-- The name and version of the program. -/
def versionText : String := "classforge 0.3.0\n"

namespace Scope

/-- The usage of the program or of a command. -/
def help : Scope → String
  | program =>
    "Command-line front end for classforge\n\n"
      ++ "Usage: classforge [OPTIONS] <COMMAND>\n\n"
      ++ "Commands:\n"
      ++ "  compile  Compile a schema into a class directory or a jar\n"
      ++ "  inspect  Print a summary of a compiled class file\n"
      ++ "  help     Print this message or the help of the given subcommand(s)\n\n"
      ++ "Options:\n"
      ++ "  -v, --verbose  Log at debug level\n"
      ++ "  -h, --help     Print help\n"
      ++ "  -V, --version  Print version\n"
  | compile =>
    "Compile a schema into a class directory or a jar\n\n"
      ++ "Usage: classforge compile [OPTIONS] [SCHEMA]\n\n"
      ++ "Arguments:\n"
      ++ "  [SCHEMA]  Schema file; `-` or omitted reads standard input\n\n"
      ++ "Options:\n"
      ++ "  -p, --package-name <PACKAGE_NAME>  Dotted package prepended to every generated type\n"
      ++ "  -v, --verbose                      Log at debug level\n"
      ++ "  -o, --output <OUTPUT>              Output directory, or a `.jar` file [default: .]\n"
      ++ "      --no-original-keys             Do not annotate fields and parameters with their original keys\n"
      ++ "      --annotation <DESCRIPTOR>      Annotation descriptor used for original keys (e.g. `Lcom/example/Key;`)\n"
      ++ "      --primitive-values             Map integer, number and boolean to `int`, `double` and `boolean`\n"
      ++ "  -h, --help                         Print help\n"
  | inspect =>
    "Print a summary of a compiled class file\n\n"
      ++ "Usage: classforge inspect [OPTIONS] <CLASS_FILE>\n\n"
      ++ "Arguments:\n"
      ++ "  <CLASS_FILE>  Class file to inspect\n\n"
      ++ "Options:\n"
      ++ "  -v, --verbose  Log at debug level\n"
      ++ "  -h, --help     Print help\n"

end Scope

namespace Usage

/-- What is wrong, in words. -/
def complaint : Usage → String
  | help _ => "help was requested"
  | version => "the version was requested"
  | noArguments => "no arguments were given"
  | missingCommand => "'classforge' requires a subcommand but one was not provided"
  | invalidCommand => "unrecognized subcommand"
  | unknownArgument => "unexpected argument found"
  | missingArgument => "the following required arguments were not provided:\n  <CLASS_FILE>"
  | invalidValue => "a value is required but none was supplied"
  | repeated => "an argument cannot be used multiple times"
  | unwantedValue => "unexpected value for a flag found; no more were expected"

end Usage

end SchemaRecords.Command
