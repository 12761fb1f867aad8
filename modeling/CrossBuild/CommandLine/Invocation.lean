/-
The command lines of the tool.

Each command has its positional arguments and its options; what is not given takes its default. The
settings of the log belong to every part of the command line, and behind the command they outweigh
those before it.
-/

import CrossBuild.Artifacts.Chunk
import CrossBuild.CommandLine.Parse
import CrossBuild.Compile.Jobs

namespace CrossBuild.CommandLine

open Files (Path)

def defaultRepositoryConfig : Path := ⟨".repo-config/config.yml"⟩

def defaultTemplateDirectory : Path := ⟨".repo-config/component-jobs"⟩

/-- A command by its name, with its arguments and how they make it up. -/
structure CommandForm where
  name : String
  positionals : List Parameter
  options : List Parameter
  build : OrderedMap String → Except UsageError Command

def generateForm : CommandForm :=
  { name := "generate-workflow"
    positionals := []
    options := [
      ⟨"workflow-dir", .path⟩, ⟨"yaml", .path⟩, ⟨"issue", .number⟩, ⟨"branch", .text⟩,
      ⟨"repo-config", .path⟩, ⟨"component-jobs-dir", .path⟩, ⟨"tool-command", .text⟩]
    build := fun found => do
      let branch ← require found "branch"
      let issue ← requireNumber found "issue"
      let pathOr := fun (name : String) (path : Path) =>
        ((found.get? name).map Files.Path.mk).getD path
      let toolCommand := (Compile.Options.ofBranch branch issue).toolCommand
      return .generateWorkflow {
        workflowDirectory := ← requirePath found "workflow-dir"
        trigger := ← requirePath found "yaml"
        issue
        branch
        repositoryConfig := pathOr "repo-config" defaultRepositoryConfig
        templateDirectory := pathOr "component-jobs-dir" defaultTemplateDirectory
        toolCommand := (found.get? "tool-command").getD toolCommand } }

def backupForm : CommandForm :=
  { name := "backup-maven-artifacts"
    positionals := [⟨"root_pom", .path⟩, ⟨"maven_repo", .path⟩, ⟨"backup_dir", .path⟩]
    options := []
    build := fun found => do
      return .backup (← requirePath found "root_pom") (← requirePath found "maven_repo")
        (← requirePath found "backup_dir") }

def overlayForm : CommandForm :=
  { name := "overlay-backed-up-maven-artifacts"
    positionals := [⟨"maven_repo", .path⟩, ⟨"backups_root", .path⟩]
    options := []
    build := fun found => do
      return .overlay (← requirePath found "maven_repo") (← requirePath found "backups_root") }

def splitForm : CommandForm :=
  { name := "split-large-files-in-directory"
    positionals := [⟨"dir", .path⟩]
    options := [⟨"threshold", .number⟩]
    build := fun found => do
      let threshold := ((found.get? "threshold").bind readNumber?).getD
        Artifacts.Threshold.default.bytes
      return .split (← requirePath found "dir") threshold }

def mergeForm : CommandForm :=
  { name := "merge-large-files-in-directory"
    positionals := [⟨"dir", .path⟩]
    options := []
    build := fun found => do
      return .merge (← requirePath found "dir") }

def copyLogsForm : CommandForm :=
  { name := "copy-logs"
    positionals := [⟨"input", .path⟩, ⟨"output", .path⟩]
    options := []
    build := fun found => do
      return .copyLogs (← requirePath found "input") (← requirePath found "output") }

def commandForms : List CommandForm :=
  [generateForm, backupForm, overlayForm, splitForm, mergeForm, copyLogsForm]

def CommandForm.grammar (form : CommandForm) : Grammar :=
  { commands := []
    positionals := form.positionals
    options := form.options ++ logOptions
    knowsVersion := false }

/-- The part before the command. -/
def toolGrammar : Grammar :=
  { commands := commandForms.map CommandForm.name
    positionals := []
    options := logOptions
    knowsVersion := true }

/-- A setting given behind the command, or before it. -/
def settingOf (outer inner : OrderedMap String) (name : String) : Option String :=
  (inner.get? name).or (outer.get? name)

/-- A command with the settings of both parts. -/
def invocationOf (outer inner : OrderedMap String) (command : Command) : Invocation :=
  let level := (settingOf outer inner "level").bind fun text =>
    Level.all.find? fun level => level.text = text
  let logFormat := (settingOf outer inner "log-format").bind fun text =>
    LogFormat.all.find? fun format => format.text = text
  { command
    level := level.getD .warn
    logFormat := logFormat.getD .compact
    logFilter := settingOf outer inner "log-filter" }

/-- Read the part behind the name of a command. -/
def readCommand (form : CommandForm) (arguments : List String) :
    Except UsageError (OrderedMap String × Command) := do
  let grammar := form.grammar
  let (reading, _) ← readArguments grammar (.start grammar) arguments
  let resolved ← reading.resolve
  return (resolved.found, ← form.build resolved.found)

/-- Read a whole command line, without the name of the tool. -/
def Invocation.ofArguments (arguments : List String) : Except UsageError Invocation := do
  let (reading, command) ← readArguments toolGrammar (.start toolGrammar) arguments
  match command.bind fun (name, rest) =>
      (commandForms.find? fun form => form.name = name).map fun form => (form, rest) with
  | none => do
      let resolved ← reading.resolve
      throw (if resolved.found.isEmpty then .helpForMissingCommand else .missingCommand)
  | some (form, rest) => do
      let (inner, command) ← readCommand form rest
      let resolved ← reading.resolve
      return invocationOf resolved.found inner command

end CrossBuild.CommandLine
