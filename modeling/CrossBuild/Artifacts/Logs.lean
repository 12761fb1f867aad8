/-
Collecting logs of a build.

Log files and the reports of failed tests are copied into an output directory, each to the place it
has in the input. A report counts as failed unless it says that nothing failed. The output directory
may lie within the input; it is left out.
-/

import CrossBuild.Artifacts.Walk
import CrossBuild.Text.Blank
import CrossBuild.Xml.Document

namespace CrossBuild.Artifacts

open Files (Path Disk)

def noInput : String := "Input path does not exist or is not a directory"

def reportsDirectory : String := "surefire-reports"

/-- The suite counts no failures and no errors. -/
def suitePassed (suite : Xml.Node) : Bool :=
  let isZero := fun name : String => (suite.attribute? name).map Text.trim = some "0"
  suite.isNamed "testsuite" && isZero "failures" && isZero "errors"

/-- The report is readable and tells of a suite that passed. -/
def reportPassed (disk : Disk) (path : Path) : Bool :=
  match (disk.readText? path).bind Xml.read? with
  | some suite => suitePassed suite
  | none => false

/-- The file is a log or the report of a failed test. -/
def isWanted (disk : Disk) (path : Path) : Bool :=
  match path.fileName? with
  | none => false
  | some name =>
      let isReport := (path.parent?.bind Path.fileName?) = some reportsDirectory &&
        name.startsWith "TEST-" && Text.endsWith ".xml" name
      Text.endsWith ".log" name || (isReport && !reportPassed disk path)

/-- Copy one file to its place in the output, and give that place. -/
def copyLog (output : Path) (spot : Spot) : Action Path := do
  let target := spot.below output
  match target.parent? with
  | some parent => attempt .makeDirectories parent (Files.makeDirectories parent)
  | none => pure ()
  attempt .copyFile target (Files.copyFile spot.path target)
  return target

/-- What a directory holds, each with whether it is a directory, as the directory itself tells. One
that cannot be read holds nothing. -/
def listing (disk : Disk) (spot : Spot) : List (Spot × Bool) :=
  match disk.locate? spot.path with
  | none => []
  | some location =>
      if disk.isDirectoryAt location then
        (disk.childNames location).map fun name =>
          (spot.child name, disk.isDirectoryAt (location ++ [name]))
      else []

/-- Copy the logs of a directory that are at most so many levels down. What a directory holds is
looked up once, when it is entered. -/
def copyLogsWithin (output : Path) : Nat → Spot → Action (List Path)
  | 0, _ => return []
  | levels + 1, spot => do
      let kept := (listing (← get) spot).filter fun held =>
        held.1.path.components ≠ output.components
      let copied ← kept.mapM fun (inner, isDirectory) => do
        if isDirectory then copyLogsWithin output levels inner
        else if isWanted (← get) inner.path then return [← copyLog output inner]
        else return []
      return copied.flatten

/-- The path made absolute. An empty one cannot be, nor a relative one in a working directory that
is gone. -/
def resolve (path : Path) : Action Path := do
  let disk ← get
  if path.text = "" || (!path.isAbsolute && !disk.isDirectoryAt disk.workingDirectory) then
    throw (.refused .resolvePath path)
  return Path.absoluteFrom disk.workingPath path

/-- Copy all logs below a directory into another one, and give the copies. -/
def copyLogs (input output : Path) : Action (List Path) := do
  if !(← get).isDirectory input then throw (.invalidPath noInput input)
  let source ← resolve input
  let target ← resolve output
  attempt .makeDirectories target (Files.makeDirectories target)
  if source.components = target.components then return []
  copyLogsWithin target (levelBound (← get)) { root := source, names := [] }

end CrossBuild.Artifacts
