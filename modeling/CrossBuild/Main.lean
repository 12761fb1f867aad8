/-
The program.

A command works on a picture of the working directory and of the places its arguments name. What it
changed there is carried over to the file system afterwards, also when it failed half-way.
Everything else about a command is decided in the library.
-/

import CrossBuild.CommandLine.Run
import CrossBuild.CommandLine.Usage

namespace CrossBuild.Main

open CommandLine (Command Invocation)
open Files (Disk Location Path)

/-- The places a command names. -/
def placesOf : Command → List Path
  | .generateWorkflow request =>
      [request.workflowDirectory, request.trigger, request.repositoryConfig,
       request.templateDirectory]
  | .backup rootManifest repository directory => [rootManifest, repository, directory]
  | .overlay repository backups => [repository, backups]
  | .split directory _ => [directory]
  | .merge directory => [directory]
  | .copyLogs input output => [input, output]

/-- The location of a path, with steps up taken back. -/
def locationOf (working path : Path) : Location :=
  (Path.absoluteFrom working path).segments.foldl (fun location segment =>
    if segment = "" then location
    else if segment = ".." then location.dropLast
    else location ++ [segment]) []

def nativePath (location : Location) : String :=
  (Path.ofSegments true location).text

/-- Add what stands at a location, and below it, to the picture. -/
partial def addTree (disk : Disk) (location : Location) : IO Disk := do
  let place := (← IO.currentDir) / nativePath location
  if ← place.isDir then
    let mut picture := disk.place location .directory
    for entry in ← place.readDir do
      picture ← addTree picture (location ++ [entry.fileName])
    return picture
  else if ← place.pathExists then
    return disk.place location (.file (← IO.FS.readBinFile place))
  else return disk

/-- Add the directories above a location to the picture. -/
def addAncestors (disk : Disk) (location : Location) : IO Disk :=
  (List.range location.length).foldlM (fun picture count => do
    let ancestor := location.take count
    let place := (← IO.currentDir) / nativePath ancestor
    if ← place.isDir then return picture.place ancestor .directory else return picture) disk

/-- The picture for a command. -/
def pictureFor (command : Command) : IO Disk := do
  let working : Path := ⟨(← IO.currentDir).toString⟩
  let directory := locationOf working ⟨"."⟩
  let places := directory :: (placesOf command).map (locationOf working)
  let disk ← places.foldlM (fun disk location => do
    addTree (← addAncestors disk location) location) (Disk.empty none)
  return { disk with workingDirectory := directory }

/-- Carry the changes over: first take away, from the inside out, then add, from the outside in. -/
def carryOver (before after : Disk) : IO Unit := do
  let byDepth := fun left right : Location × Files.Entry =>
    decide (left.1.length ≤ right.1.length)
  for item in (before.entries.mergeSort byDepth).reverse do
    if (after.entryAt? item.1).isNone then
      match item.2 with
      | .directory => IO.FS.removeDir (nativePath item.1)
      | .file _ => IO.FS.removeFile (nativePath item.1)
  for item in after.entries.mergeSort byDepth do
    if before.entryAt? item.1 ≠ some item.2 then
      match item.2 with
      | .directory => IO.FS.createDirAll (nativePath item.1)
      | .file content => IO.FS.writeBinFile (nativePath item.1) content

def run (invocation : Invocation) : IO UInt32 := do
  let before ← pictureFor invocation.command
  match invocation.command.run before with
  | .ok summary after =>
      carryOver before after
      IO.println summary
      return 0
  | .error cause after =>
      carryOver before after
      IO.eprintln ("Error: " ++ cause.message)
      if let some help := cause.help then IO.eprintln ("  help: " ++ help)
      return 1

end CrossBuild.Main

open CrossBuild in
def main (arguments : List String) : IO UInt32 := do
  match CommandLine.Invocation.ofArguments arguments with
  | .ok invocation => Main.run invocation
  | .error cause =>
      if cause.isRequest then
        IO.println cause.message
        return 0
      else
        IO.eprintln cause.message
        return 2
