/-
Why an operation on artifacts fails.

A cause names the path it is about. Operations stop at their first failure and keep what they did
before it. Wording is kept here and nowhere else.
-/

import CrossBuild.Files.Access

namespace CrossBuild.Artifacts

open Files (Path Disk Access)

/-- What the disk refused to do. -/
inductive Operation where
  | readFile
  | readDirectory
  | readSize
  | openFile
  | createFile
  | writeFile
  | removeFile
  | copyFile
  | removeTree
  | makeDirectories
  | prepareDirectory
  | resolvePath
  deriving DecidableEq

def Operation.label : Operation → String
  | .readFile => "read"
  | .readDirectory => "read_dir"
  | .readSize => "metadata"
  | .openFile => "open"
  | .createFile => "create"
  | .writeFile => "write"
  | .removeFile => "remove_file"
  | .copyFile => "copy"
  | .removeTree => "remove_dir_all"
  | .makeDirectories => "create_dir_all"
  | .prepareDirectory => "create directory"
  | .resolvePath => "absolute"

/-- The number of parts that two digits can tell apart. -/
def maxParts : Nat := 100

/-- A number with at least two digits. -/
def twoDigits (value : Nat) : String :=
  if value < 10 then "0" ++ toString value else toString value

inductive Error where
  | refused (operation : Operation) (path : Path)
  | capacity (path : Path) (size parts : Nat)
  | missingPart (directory : Path) (missing found : Nat)
  | malformedManifest (path : Path)
  | incompleteManifest (path : Path) (element : String)
  | endlessModules (path : Path)
  | invalidPath (problem : String) (path : Path)
  deriving DecidableEq

def Error.message : Error → String
  | .refused operation path => "I/O " ++ operation.label ++ " failed: " ++ path.text
  | .capacity path size parts =>
      path.text ++ " is too large to split: " ++ toString size ++ " bytes needs " ++
        toString parts ++ " parts, at most " ++ toString maxParts ++ " are supported"
  | .missingPart directory missing found =>
      "Part xx." ++ twoDigits missing ++ " is missing from " ++ directory.text ++ ", but xx." ++
        twoDigits found ++ " exists"
  | .malformedManifest path => "Failed to parse project manifest " ++ path.text
  | .incompleteManifest path element =>
      "Project manifest " ++ path.text ++ " has no " ++ element ++
        ", neither directly nor in <parent>"
  | .endlessModules path => "The modules of " ++ path.text ++ " come to no end"
  | .invalidPath problem path => problem ++ ": " ++ path.text

/-- The stable identifier of the cause. -/
def Error.code : Error → String
  | .refused _ _ => "xrepo::artifacts::io"
  | .capacity _ _ _ => "xrepo::artifacts::capacity"
  | .missingPart _ _ _ => "xrepo::artifacts::missing_part"
  | .malformedManifest _ => "xrepo::artifacts::manifest_xml"
  | .incompleteManifest _ _ => "xrepo::artifacts::manifest"
  | .endlessModules _ => "xrepo::artifacts::endless_modules"
  | .invalidPath _ _ => "xrepo::artifacts::invalid_path"

/-- Advice on what to change, where there is any. -/
def Error.help : Error → Option String
  | .refused _ _ => some "Check file permissions and ensure the path exists"
  | .capacity _ _ _ =>
      some "Raise the chunk threshold or keep the file out of the backed up tree"
  | .missingPart _ _ _ =>
      some "Restore the missing part; merging now would produce a truncated file"
  | _ => none

/-- An operation on artifacts: it changes the disk, and fails for a cause. -/
abbrev Action (α : Type) := EStateM Error Disk α

/-- Do what the disk may refuse. -/
def attempt {α : Type} (operation : Operation) (path : Path) (access : Access α) : Action α :=
  access.adaptExcept fun _ => .refused operation path

end CrossBuild.Artifacts
