/-
The commands of the tool.

A command holds what the command line says, with defaults filled in. What it does is defined
elsewhere.
-/

import CrossBuild.Files.Path

namespace CrossBuild.CommandLine

open Files (Path)

structure GenerateWorkflow where
  workflowDirectory : Path
  trigger : Path
  issue : Nat
  branch : String
  repositoryConfig : Path
  templateDirectory : Path
  toolCommand : String
  deriving DecidableEq

inductive Command where
  | generateWorkflow (request : GenerateWorkflow)
  | backup (rootManifest repository directory : Path)
  | overlay (repository backups : Path)
  | split (directory : Path) (threshold : Nat)
  | merge (directory : Path)
  | copyLogs (input output : Path)
  deriving DecidableEq

/-- How much is logged, most first. -/
inductive Level where
  | trace
  | debug
  | info
  | warn
  | error
  deriving DecidableEq

def Level.all : List Level :=
  [.trace, .debug, .info, .warn, .error]

/-- The level as it is given on the command line. -/
def Level.text : Level → String
  | .trace => "trace"
  | .debug => "debug"
  | .info => "info"
  | .warn => "warn"
  | .error => "error"

/-- The level as it stands in a log. -/
def Level.label (level : Level) : String :=
  level.text.map Char.toUpper

inductive LogFormat where
  | pretty
  | compact
  | json
  deriving DecidableEq

def LogFormat.all : List LogFormat :=
  [.pretty, .compact, .json]

def LogFormat.text : LogFormat → String
  | .pretty => "pretty"
  | .compact => "compact"
  | .json => "json"

/-- A command with the settings of the log. -/
structure Invocation where
  command : Command
  level : Level
  logFormat : LogFormat
  logFilter : Option String
  deriving DecidableEq

end CrossBuild.CommandLine
