/-
Why a configuration document is refused.

Each cause carries what its message names. A document is refused for one cause, the first that its
reader meets; nothing of a refused document is used. The wording of the messages is kept here and
nowhere else.
-/

import CrossBuild.Yaml.Outline

namespace CrossBuild.Config

open Yaml (Value)

/-- What a reference points to. -/
inductive ReferenceKind where
  | component
  | job
  deriving DecidableEq

def ReferenceKind.noun : ReferenceKind → String
  | .component => "component"
  | .job => "job"

/-- Rules that concern the meaning of a document rather than the type of one entry. -/
inductive Violation where
  | illegalComponentName (name : String)
  | repeatedComponent (name : String)
  | assignedKey (context key : String)
  | emptyList (key context : String)
  | unknownBuildJob (key context : String)
  | severalRunEntries
  | mavenPrefix (command : String)
  | shellMaven (command : String)
  deriving DecidableEq

def Violation.message : Violation → String
  | .illegalComponentName name =>
      "Illegal component name '" ++ name ++ "'. Only alphabetic characters or '-' are allowed"
  | .repeatedComponent name => "Component '" ++ name ++ "' is declared more than once"
  | .assignedKey context key => context ++ " should not have '" ++ key ++ "'"
  | .emptyList key context => "'" ++ key ++ "' of " ++ context ++ " is empty"
  | .unknownBuildJob key context =>
      "No job called '" ++ key ++ "' referenced by 'build-job' in " ++ context
  | .severalRunEntries => "Only one entry is allowed per 'run' element"
  | .mavenPrefix command =>
      "In a 'mvn' run entry, leave out the mvn command itself: use \x60mvn: install\x60 rather " ++
        "than \x60mvn: mvn install\x60 (got '" ++ command ++ "')"
  | .shellMaven command =>
      "Maven commands belong in a 'mvn' run entry, not 'shell': '" ++ command ++ "'"

inductive Error where
  | unreadable (path : String)
  | malformed (document : String)
  | unknownKeys (context : String) (keys : List String)
  | missingKey (key context : String)
  | wrongType (key context expected : String) (found : Value)
  | unresolved (referrer : String) (kind : ReferenceKind) (name : String)
  | invalid (violation : Violation)

def Error.message : Error → String
  | .unreadable path => "Failed to read " ++ path
  | .malformed document => "Invalid YAML in " ++ document
  | .unknownKeys context keys => "Unknown entries in " ++ context ++ ": " ++ ", ".intercalate keys
  | .missingKey key context => "Missing '" ++ key ++ "' for " ++ context
  | .wrongType key context expected found =>
      "'" ++ key ++ "' for " ++ context ++ " was not " ++ expected ++ ": " ++ Yaml.oneLine found
  | .unresolved referrer kind name =>
      referrer ++ " references unknown " ++ kind.noun ++ " '" ++ name ++ "'"
  | .invalid violation => "Invalid configuration: " ++ violation.message

/-- The stable identifier of the cause. -/
def Error.code : Error → String
  | .unreadable _ => "xrepo::config::io"
  | .malformed _ => "xrepo::config::yaml"
  | .unknownKeys _ _ => "xrepo::config::unknown_keys"
  | .missingKey _ _ => "xrepo::config::missing_key"
  | .wrongType _ _ _ _ => "xrepo::config::invalid_type"
  | .unresolved _ _ _ => "xrepo::config::unresolved_reference"
  | .invalid _ => "xrepo::config::invalid"

/-- Advice on what to change, where there is any. -/
def Error.help : Error → Option String
  | .unreadable _ => some "Check file permissions and ensure the path exists"
  | .unknownKeys _ _ => some "Remove or correct the misspelled keys"
  | .unresolved _ _ name =>
      some ("References resolve in declaration order: declare '" ++ name ++
        "' before the entry that refers to it")
  | _ => none

end CrossBuild.Config
