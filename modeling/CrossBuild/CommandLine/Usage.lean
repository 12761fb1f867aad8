/-
What the tool says about its command line.

Requests are answered with success, mistakes are not. The texts name the commands and their
arguments; they are for readers and nothing else depends on them.
-/

import CrossBuild.CommandLine.Invocation

namespace CrossBuild.CommandLine

def versionText : String := "xrepo 0.4.0"

/-- The line of a command in the overview. -/
def CommandForm.overview (form : CommandForm) : String :=
  let options := form.options.map fun parameter => " --" ++ parameter.name ++ " <VALUE>"
  let positionals := form.positionals.map fun parameter => " <" ++ parameter.name ++ ">"
  "  " ++ form.name ++ String.join options ++ String.join positionals

def overview : String :=
  let heading :=
    ["Generate multi-repository CI workflows and move build state between their jobs", "",
     "Usage: xrepo [OPTIONS] <COMMAND>", "", "Commands:"]
  let options :=
    ["", "Options:", "  -L, --level <LEVEL>", "      --log-format <FORMAT>",
     "      --log-filter <FILTER>", "  -h, --help", "  -V, --version"]
  "\n".intercalate (heading ++ commandForms.map CommandForm.overview ++ options)

def UsageError.message : UsageError → String
  | .help => overview
  | .version => versionText
  | .helpForMissingCommand => overview
  | .invalidCommand => "error: unrecognized subcommand"
  | .missingCommand => "error: a subcommand is required"
  | .missingArgument => "error: required arguments were not provided"
  | .unknownArgument => "error: unexpected argument"
  | .invalidValue => "error: missing or invalid value"
  | .malformedValue => "error: value is not a number"
  | .repeatedArgument => "error: an argument cannot be used multiple times"
  | .needlessValue => "error: unexpected value"

/-- The text was asked for. -/
def UsageError.isRequest : UsageError → Bool
  | .help => true
  | .version => true
  | _ => false

end CrossBuild.CommandLine
