/-
Backing up what a build installed, and putting backups back.

A backup holds the installed directories of a project and its modules, with large files in parts.
The backups of several components are laid over a local repository one after the other; the
directories that receive files are cleared before, so nothing of an earlier build remains in them.
-/

import CrossBuild.Artifacts.Copy
import CrossBuild.Artifacts.Manifest

namespace CrossBuild.Artifacts

open Files (Path Disk Location)

def noRootManifest : String := "Root pom does not exist"

def noRepository : String := "Maven repository does not exist or is not a directory"

def noBackups : String := "Backups folder does not exist or is not a directory"

/-- What a backup holds, and what was not installed. -/
structure BackupReport where
  copied : List Coordinates
  skipped : List Coordinates
  deriving DecidableEq

/-- Back up one project, and tell whether it is installed. -/
def backupProject (threshold : Threshold) (repository backup : Path)
    (coordinates : Coordinates) : Action Bool := do
  let source := repository.join coordinates.relativePath
  let target := backup.join coordinates.relativePath
  if (← get).isDirectory source then do
    attempt .makeDirectories target (Files.makeDirectories target)
    copyTree source target (.split threshold)
    return true
  else return false

def backupProjects (threshold : Threshold) (repository backup : Path) :
    List Coordinates → Action BackupReport
  | [] => return { copied := [], skipped := [] }
  | coordinates :: rest => do
      let installed ← backupProject threshold repository backup coordinates
      let report ← backupProjects threshold repository backup rest
      if installed then return { report with copied := coordinates :: report.copied }
      else return { report with skipped := coordinates :: report.skipped }

/-- Replace a backup by what the project of a manifest and its modules have installed. -/
def backup (threshold : Threshold) (rootManifest repository backup : Path) :
    Action BackupReport := do
  let disk ← get
  if !disk.isFile rootManifest then throw (.invalidPath noRootManifest rootManifest)
  if !disk.isDirectory repository then throw (.invalidPath noRepository repository)
  match collectCoordinates disk rootManifest with
  | .error cause => throw cause
  | .ok coordinates => do
      removeExisting backup
      attempt .makeDirectories backup (Files.makeDirectories backup)
      backupProjects threshold repository backup coordinates

/-- The directory, seen from the root of a backup, into which a file of the backup goes: its own, or
for a part the one around the directory of parts. The root itself does not count. -/
def receivingDirectory? (names : List String) : Option (List String) :=
  let directory := names.dropLast
  let receiving :=
    if directory.getLast?.any (Text.endsWith splitSuffix) then directory.dropLast else directory
  if receiving.isEmpty then none else some receiving

/-- The files below a location, each by the names that lead to it. -/
def filesBelow (disk : Disk) (top : Location) : List (List String) :=
  disk.entries.filterMap fun item =>
    match item.2 with
    | .directory => none
    | .file _ =>
        if Files.Disk.isBelow top item.1 then some (item.1.drop top.length) else none

/-- Insert into a sorted list without repetition. -/
def insertNames (names : List String) : List (List String) → List (List String)
  | [] => [names]
  | first :: rest =>
      if names = first then first :: rest
      else if names < first then names :: first :: rest
      else first :: insertNames names rest

/-- The directories that receive files from a backup, in order. -/
def receivingDirectories (disk : Disk) (backup : Path) : List (List String) :=
  match disk.locate? backup with
  | some top => ((filesBelow disk top).filterMap receivingDirectory?).foldr insertNames []
  | none => []

/-- Lay one backup over a repository. -/
def overlayComponent (repository component : Path) : Action Unit := do
  let stale := (receivingDirectories (← get) component).map repository.joinNames
  stale.forM removeExisting
  copyTree component repository .merge

def overlayComponents (repository backups : Path) : List String → Action (List Path)
  | [] => return []
  | name :: rest => do
      let component := backups.joinName name
      if (← get).isDirectory component then do
        overlayComponent repository component
        return component :: (← overlayComponents repository backups rest)
      else overlayComponents repository backups rest

/-- Lay all backups of a folder over a repository, in the order of their names, and give those that
were applied. -/
def overlay (repository backups : Path) : Action (List Path) := do
  let disk ← get
  if !disk.isDirectory repository then throw (.invalidPath noRepository repository)
  if !disk.isDirectory backups then throw (.invalidPath noBackups backups)
  match disk.list? backups with
  | none => throw (.refused .readDirectory backups)
  | some names => overlayComponents repository backups names

end CrossBuild.Artifacts
