/-
Running a command.

A command works on a disk and ends with a summary of one line, or with the first failure. What it
did to the disk before a failure stays.
-/

import CrossBuild.Artifacts.Backup
import CrossBuild.Artifacts.LargeFiles
import CrossBuild.Artifacts.Logs
import CrossBuild.CommandLine.Command
import CrossBuild.Compile.TemplateDirectory
import CrossBuild.Compile.Workflow
import CrossBuild.Workflow.Store

namespace CrossBuild.CommandLine

open Artifacts (Threshold attempt)
open Files (Disk Path)

inductive Error where
  | compile (cause : Compile.Error)
  | emit (cause : EmitError)
  | artifacts (cause : Artifacts.Error)

def Error.message : Error → String
  | .compile cause => cause.message
  | .emit cause => cause.message
  | .artifacts cause => cause.message

def Error.code : Error → String
  | .compile cause => cause.code
  | .emit cause => cause.code
  | .artifacts cause => cause.code

def Error.help : Error → Option String
  | .compile cause => cause.help
  | .emit cause => cause.help
  | .artifacts cause => cause.help

abbrev Run (α : Type) := EStateM Error Disk α

def onArtifacts {α : Type} (action : Artifacts.Action α) : Run α :=
  action.adaptExcept .artifacts

/-- Compile the workflow that the files describe. -/
def compileRequest (request : GenerateWorkflow) (disk : Disk) : Except Compile.Error Workflow := do
  let trigger ← (Config.Trigger.load disk request.trigger).mapError .config
  let repository ← (Config.Repository.loadOrDefault disk request.repositoryConfig).mapError .config
  let templates : Compile.TemplateDirectory := ⟨request.templateDirectory⟩
  let options := { Compile.Options.ofBranch request.branch request.issue with
    toolCommand := request.toolCommand }
  Compile.workflow trigger repository (templates.load disk) options

/-- Compile a workflow and store it under the number of its issue. -/
def writeWorkflow (request : GenerateWorkflow) : Run Path := do
  match compileRequest request (← get) with
  | .error cause => throw (.compile cause)
  | .ok workflow =>
      (workflow.store generatedHeader request.workflowDirectory
        ("ci-" ++ toString request.issue)).adaptExcept .emit

/-- Lay backups over a repository, which is made first where it is missing. -/
def overlayOnto (repository backups : Path) : Run (List Path) :=
  onArtifacts do
    attempt .prepareDirectory repository (Files.makeDirectories repository)
    Artifacts.overlay repository backups

/-- Run a command, and give its summary. -/
def Command.run : Command → Run String
  | .generateWorkflow request => do
      let path ← writeWorkflow request
      return "Wrote " ++ path.text
  | .backup rootManifest repository directory => do
      let report ← onArtifacts (Artifacts.backup .default rootManifest repository directory)
      return "Backed up " ++ toString report.copied.length ++ " projects to " ++ directory.text ++
        " (" ++ toString report.skipped.length ++ " not installed)"
  | .overlay repository backups => do
      let applied ← overlayOnto repository backups
      return "Overlaid " ++ toString applied.length ++ " component backups onto " ++ repository.text
  | .split directory threshold => do
      let count ← onArtifacts (Artifacts.splitLargeFiles (.ofBytes threshold) directory)
      return "Split " ++ toString count ++ " files in " ++ directory.text
  | .merge directory => do
      let count ← onArtifacts (Artifacts.mergeLargeFiles directory)
      return "Merged " ++ toString count ++ " files in " ++ directory.text
  | .copyLogs input output => do
      let copied ← onArtifacts (Artifacts.copyLogs input output)
      return "Copied " ++ toString copied.length ++ " log files to " ++ output.text

end CrossBuild.CommandLine
