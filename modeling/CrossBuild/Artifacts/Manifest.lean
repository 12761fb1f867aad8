/-
Project manifests.

A manifest gives the coordinates of a project, which it may inherit from its parent element, and
lists the directories of its modules. The coordinates say where the build tool installs the project.
A project is collected with all its modules, each before its own.
-/

import CrossBuild.Artifacts.Error
import CrossBuild.Text.Blank
import CrossBuild.Xml.Document

namespace CrossBuild.Artifacts

open Files (Path Disk)

structure Coordinates where
  group : String
  artifact : String
  version : String
  deriving DecidableEq, Inhabited

/-- Where the project is installed, below the local repository. -/
def Coordinates.relativePath (coordinates : Coordinates) : Path :=
  (Text.split '.' coordinates.group ++ Text.split '.' coordinates.artifact ++
    [coordinates.version]).foldl Path.joinName ⟨""⟩

structure Manifest where
  path : Path
  coordinates : Coordinates
  modules : List String
  deriving DecidableEq

namespace Manifest

def fileName : String := "pom.xml"

/-- The text of an element without blanks around it, if anything is left. -/
def trimmedText? (node : Xml.Node) : Option String :=
  (node.text?.map Text.trim).filter fun text => text ≠ ""

def childText? (node : Xml.Node) (name : String) : Option String :=
  (node.child? name).bind trimmedText?

/-- A coordinate of the project, or of its parent. -/
def coordinate? (project : Xml.Node) (name : String) : Option String :=
  (childText? project name).or ((project.child? "parent").bind fun parent => childText? parent name)

def requireCoordinate (path : Path) (project : Xml.Node) (name : String) :
    Except Error String :=
  match coordinate? project name with
  | some text => .ok text
  | none => .error (.incompleteManifest path name)

/-- The directories of the modules in order. -/
def moduleNames (project : Xml.Node) : List String :=
  match project.child? "modules" with
  | some modules =>
      (modules.children.filter fun child => child.isNamed "module").filterMap trimmedText?
  | none => []

/-- Read the text of a manifest; `path` tells where it comes from. -/
def ofText (path : Path) (text : String) : Except Error Manifest := do
  match Xml.read? text with
  | none => throw (.malformedManifest path)
  | some project =>
      let group ← requireCoordinate path project "groupId"
      let artifact ← requireCoordinate path project "artifactId"
      let version ← requireCoordinate path project "version"
      return {
        path
        coordinates := { group, artifact, version }
        modules := moduleNames project }

def load (disk : Disk) (path : Path) : Except Error Manifest :=
  match disk.readText? path with
  | some text => ofText path text
  | none => .error (.refused .readFile path)

/-- The manifests of the modules. -/
def moduleManifests (manifest : Manifest) : List Path :=
  let directory := manifest.path.parent?.getD ⟨""⟩
  manifest.modules.map fun name => (directory.joinName name).joinName fileName

end Manifest

/-- Collect the coordinates of pending manifests and of their modules with at most so many reads;
nothing when these are not enough. -/
def collectWithin (disk : Disk) : Nat → List Path →
    Option (Except Error (List Coordinates))
  | _, [] => some (.ok [])
  | 0, _ :: _ => none
  | reads + 1, path :: pending =>
      match Manifest.load disk path with
      | .error cause => some (.error cause)
      | .ok manifest =>
          (collectWithin disk reads (manifest.moduleManifests ++ pending)).map fun rest =>
            rest.map fun found => manifest.coordinates :: found

/-- Manifests of a disk that are still to be read. -/
structure Unread where
  disk : Disk
  paths : List Path

/-- Collect them with as many reads as it takes; nothing when there is no end to them. -/
def Unread.collect? (unread : Unread) : Option (Except Error (List Coordinates)) :=
  match unread.paths with
  | [] => some (.ok [])
  | path :: rest =>
      match Manifest.load unread.disk path with
      | .error cause => some (.error cause)
      | .ok manifest =>
          { unread with paths := manifest.moduleManifests ++ rest : Unread }.collect?.map fun collected =>
            collected.map fun found => manifest.coordinates :: found
partial_fixpoint monotonicity by
  intro earlier later below unread
  dsimp only
  split
  · exact .refl
  · rename_i rest _
    split
    · exact .refl
    · rename_i manifest _
      -- What becomes of the rest is only mapped.
      have further := below { unread with paths := manifest.moduleManifests ++ rest }
      generalize earlier _ = before, later _ = after at further ⊢
      cases further with
      | bot => exact .bot
      | refl => exact .refl

/-- More reads than a build takes. -/
def readAllowance : Nat := 1000000

/-- The coordinates of a project and of all its modules. Counted reads come first, since their number is
bounded; a project that takes more is collected without counting. -/
def collectCoordinates (disk : Disk) (root : Path) : Except Error (List Coordinates) :=
  match collectWithin disk readAllowance [root] with
  | some collected => collected
  | none => (Unread.mk disk [root]).collect?.getD (.error (.endlessModules root))

end CrossBuild.Artifacts
