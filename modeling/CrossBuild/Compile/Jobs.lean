/-
The jobs of one component.

A component without a template has one build job. A component with a template has the jobs of the
template and its end job; in debug mode only the build job remains. Every job checks out the
component and the tools, and a build job hands its artifacts on through the side branch of the
tools. Identifiers and jobs are planned here; whether they fit into one workflow is decided
elsewhere.
-/

import CrossBuild.Compile.Context
import CrossBuild.Compile.Template

namespace CrossBuild.Compile

open Config (Component)

/-- The job every build job waits for. -/
def cancelJobId : String := "cancel-previous-runs"

/-- `branch` starts the workflow and carries the artifacts; `issueNumber` is the issue to report on,
`toolCommand` the command by which generated steps run this tool. -/
structure Options where
  branch : String
  issueNumber : Nat
  toolCommand : String
  defaultJavaVersion : String

def Options.ofBranch (branch : String) (issueNumber : Nat) : Options :=
  { branch := branch
    issueNumber := issueNumber
    toolCommand := toolsDirectory ++ "/xrepo"
    defaultJavaVersion := "11" }

/-- What all jobs of one workflow share. -/
structure Settings where
  workflowName : String
  repository : Config.Repository
  options : Options

/-- A job under its identifier, or the reason for which it cannot be made. -/
structure PlannedJob where
  id : String
  job : Except Error Job

/-- The jobs of a component in order, and the identifier of the one that builds it. -/
structure ComponentPlan where
  buildJob : String
  jobs : List PlannedJob

/-- What differs between the jobs of components. -/
structure JobPart where
  id : String
  displayName : String
  isBuildJob : Bool
  javaVersion : String
  runsOn : List String
  needs : List String
  restoresArtifacts : Bool
  env : Env
  commands : String

/-- The steps of a document, counted from `index`. -/
def userStepsFrom (context : String) (index : Nat) :
    List Yaml.Value → Except Error (List Step)
  | [] => .ok []
  | value :: rest =>
      match Step.ofValue? value with
      | none => .error (.invalidStep context index)
      | some step => (userStepsFrom context (index + 1) rest).map fun steps => step :: steps

def userSteps (context : String) (values : List Yaml.Value) : Except Error (List Step) :=
  userStepsFrom context 0 values

/-- The version of a component as an entry of the environment. -/
def versionEntry (component buildJob : String) : String × String :=
  let output := versionVariable component
  (output, expression (neededOutput buildJob output))

namespace Settings

/-- The component comes first, then the job or its template, then the repository. -/
def javaVersion (settings : Settings) (component : Component) (job : Option String) : String :=
  ((component.javaVersion.or job).or settings.repository.javaVersion).getD
    settings.options.defaultJavaVersion

/-- The machines of jobs that belong to no component. -/
def runsOn (settings : Settings) : RunsOn :=
  .ofLabels settings.repository.runsOn

/-- Artifact names are unique within a run. -/
def logArtifactName (settings : Settings) (job : String) : String :=
  sanitizeName settings.workflowName ++ "-logs-" ++ toString settings.options.issueNumber ++ "-" ++
    job

/-- Bring the artifacts of earlier builds into the local repository. -/
def overlayStep (settings : Settings) : Step :=
  toolCommand settings.options.toolCommand "overlay-backed-up-maven-artifacts"
    [mavenRepository, backupsRoot]

/-- Checkouts, cache and tool chain, then the artifacts of earlier builds where they are used. -/
def setupSteps (settings : Settings) (component : Component) (javaVersion : String)
    (restoresArtifacts : Bool) : List Step :=
  [checkoutRepository component.org component.name component.branch,
   checkoutSelf settings.options.branch (some toolsDirectory),
   cacheMavenRepository,
   setupJava javaVersion] ++
  if restoresArtifacts then [gitRebase toolsDirectory, settings.overlayStep] else []

/-- Store what a build job built. -/
def backupSteps (settings : Settings) (component : Component) : List Step :=
  [(toolCommand settings.options.toolCommand "backup-maven-artifacts"
      ["pom.xml", mavenRepository, backupsRoot ++ "/" ++ component.name]).withCondition
      Condition.success.expression,
   gitCommitAndPush toolsDirectory
      ("Back up the maven artifacts created by " ++ component.name) .success]

/-- Keep the logs of a job that failed. -/
def logSteps (settings : Settings) (job : String) : List Step :=
  [toolCommand settings.options.toolCommand "copy-logs" [".", projectLogsDirectory ++ "/" ++ job],
   zipFolder projectLogsDirectory job,
   uploadArtifact (settings.logArtifactName job) projectLogsDirectory].map fun step =>
    step.withCondition Condition.failure.expression

/-- The outputs of a build job: its version and its commit. -/
def buildOutputs (component : Component) : Env :=
  let output := versionVariable component.name
  .ofList [
    (output, expression (stepOutput versionStepId output)),
    (revisionOutput, expression (stepOutput revisionStepId revisionOutput))]

/-- A job that builds or tests a component, with the fixed steps around its commands. -/
def componentJob (settings : Settings) (component : Component) (part : JobPart) : Job :=
  let versionSteps :=
    if part.isBuildJob then [grabVersion (versionVariable component.name), revParse] else []
  let debugSteps := if component.debug then [tmateDebug] else []
  let backupSteps := if part.isBuildJob then settings.backupSteps component else []
  { name := some part.displayName
    runsOn := .ofLabels part.runsOn
    needs := part.needs
    condition := none
    env := part.env
    outputs := if part.isBuildJob then buildOutputs component else .empty
    steps :=
      settings.setupSteps component part.javaVersion part.restoresArtifacts ++ versionSteps ++
      [ipv6Localhost, mavenBuild part.commands] ++ debugSteps ++ backupSteps ++
      settings.logSteps part.id }

def defaultJobId (component : Component) : String :=
  component.name ++ "-build"

/-- The build job of a component without a template. -/
def defaultJob (settings : Settings) (component : Component) (bindings : List Binding) : Job :=
  settings.componentJob component {
    id := defaultJobId component
    displayName := component.name
    isBuildJob := true
    javaVersion := settings.javaVersion component none
    runsOn := settings.repository.runsOn
    needs := cancelJobId :: bindings.map Binding.buildJob
    restoresArtifacts := !bindings.isEmpty
    env := versionEnv bindings
    commands := defaultBuildCommand component bindings }

/-- A job of a template. In debug mode its siblings are not there, so it does not need them. -/
def templateJob (settings : Settings) (component : Component) (buildJob : String)
    (bindings : List Binding) (job : Config.TemplateJob) : Job :=
  let siblings := if component.debug then [] else job.needs
  let needs := (if job.isBuildJob then [cancelJobId] else []) ++
    bindings.map Binding.buildJob ++ siblings
  let ownVersion :=
    if job.needs.contains buildJob then [versionEntry component.name buildJob] else []
  settings.componentJob component {
    id := job.name
    displayName := job.name
    isBuildJob := job.isBuildJob
    javaVersion := settings.javaVersion component job.javaVersion
    runsOn := job.runsOn.getD settings.repository.runsOn
    needs
    restoresArtifacts := needs.any fun need => need ≠ cancelJobId
    env := (job.env.insertAll (versionEntries bindings)).insertAll ownVersion
    commands := templateBuildCommand job.run bindings }

/-- Add names to a list, leaving out those it has. -/
def addNeeds (needs : List String) (names : List String) : List String :=
  names.foldl (fun needs name => if needs.contains name then needs else needs ++ [name]) needs

/-- The end job of a template. It needs the build jobs of dependencies itself, because outputs are
visible to direct dependents only. -/
def templateEndJob (settings : Settings) (component : Component) (buildJob : String)
    (bindings : List Binding) (endJob : Config.TemplateEndJob) : Except Error Job :=
  (userSteps endJob.name endJob.steps).map fun steps =>
    { name := some endJob.name
      runsOn := .ofLabels (endJob.runsOn.getD settings.repository.runsOn)
      needs := addNeeds endJob.needs (bindings.map Binding.buildJob)
      condition := endJob.condition
      env := (endJob.env.insertAll (versionEntries bindings)).insertAll
        [versionEntry component.name buildJob]
      outputs := .empty
      steps :=
        settings.setupSteps component (settings.javaVersion component endJob.javaVersion) true ++
        steps }

/-- The jobs of a component with a template. -/
def templatePlan (settings : Settings) (component : Component) (template : Config.Template)
    (bindings : List Binding) : ComponentPlan :=
  let jobs := if component.debug then template.jobs.filter Config.TemplateJob.isBuildJob
    else template.jobs
  let endJob := if component.debug then none else template.endJob
  { buildJob := template.buildJob
    jobs :=
      (jobs.map fun job =>
        { id := job.name
          job := .ok (settings.templateJob component template.buildJob bindings job) }) ++
      (endJob.toList.map fun endJob =>
        { id := endJob.name
          job := settings.templateEndJob component template.buildJob bindings endJob }) }

/-- The jobs of a component without a template. -/
def defaultPlan (settings : Settings) (component : Component) (bindings : List Binding) :
    ComponentPlan :=
  { buildJob := defaultJobId component
    jobs := [{
      id := defaultJobId component
      job := .ok (settings.defaultJob component bindings) }] }

/-- The jobs of a component. Options of the build tool are for components without a template only:
in a template each command has its own. -/
def plan (settings : Settings) (component : Component) (template : Option LoadedTemplate)
    (bindings : List Binding) : Except Error ComponentPlan :=
  match template with
  | none => .ok (settings.defaultPlan component bindings)
  | some loaded =>
      if component.mavenOpts.isSome then
        .error (.mavenOptsWithTemplate component.name loaded.origin)
      else .ok (settings.templatePlan component loaded.config bindings)

end Settings

end CrossBuild.Compile
