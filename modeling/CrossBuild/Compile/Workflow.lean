/-
From configuration to a workflow.

Components are compiled in the order of the trigger, between the job that cancels earlier runs and
the jobs that end the workflow. The first problem ends the compilation: templates are loaded only
when their component is reached. Jobs go into one graph, which refuses an identifier that is taken.
-/

import CrossBuild.Compile.Trailing

namespace CrossBuild.Compile

open Config (Component)

/-- What is known between two components. -/
structure Progress where
  graph : JobGraph
  buildJobs : BuildJobs

def addJob (graph : JobGraph) (id : String) (job : Job) : Except Error JobGraph :=
  (graph.insert id job).mapError .graph

/-- Add planned jobs one after the other. -/
def addJobs (graph : JobGraph) : List PlannedJob → Except Error JobGraph
  | [] => .ok graph
  | planned :: rest => do
      let job ← planned.job
      addJobs (← addJob graph planned.id job) rest

namespace Settings

def addComponent (settings : Settings) (templates : TemplateSource) (progress : Progress)
    (component : Component) : Except Error Progress := do
  let bindings := bindingsFor progress.buildJobs component
  let template ← templates component.name
  let plan ← settings.plan component template bindings
  let graph ← addJobs progress.graph plan.jobs
  return { graph, buildJobs := progress.buildJobs.insert component.name plan.buildJob }

def addComponents (settings : Settings) (templates : TemplateSource) (progress : Progress) :
    List Component → Except Error Progress
  | [] => .ok progress
  | component :: rest => do
      addComponents settings templates (← settings.addComponent templates progress component) rest

/-- The end job of the repository, where there is one. -/
def addEndJob (settings : Settings) (progress : Progress) : Except Error JobGraph :=
  match settings.repository.endJob with
  | none => .ok progress.graph
  | some endJob => do
      let job ← settings.endJob progress.buildJobs progress.graph.jobNames endJob
      addJob progress.graph endJobId job

/-- Both reports, where reporting is enabled. -/
def addReports (settings : Settings) (buildJobs : BuildJobs) (graph : JobGraph) :
    Except Error JobGraph :=
  if settings.repository.issueReporting.isEnabled then do
    let report := settings.reportJob buildJobs graph.jobNames
    let graph ← addJob graph Outcome.success.jobId (report .success)
    addJob graph Outcome.failure.jobId (report .failure)
  else .ok graph

def addTrailing (settings : Settings) (progress : Progress) : Except Error JobGraph := do
  let graph ← settings.addEndJob progress
  let graph ← addJob graph statusReadJobId (settings.statusReadJob graph.jobNames)
  let graph ← settings.addReports progress.buildJobs graph
  addJob graph cleanupJobId (settings.cleanupJob graph.jobNames)

/-- All jobs of the workflow for the components. -/
def jobGraph (settings : Settings) (templates : TemplateSource) (components : List Component) :
    Except Error JobGraph := do
  let graph ← addJob .empty cancelJobId settings.cancelJob
  let progress ← settings.addComponents templates { graph, buildJobs := .empty } components
  settings.addTrailing progress

end Settings

/-- The workflow for a trigger. Its environment is that of the repository, with the variables of the
trigger laid over it. -/
def workflow (trigger : Config.Trigger) (repository : Config.Repository)
    (templates : TemplateSource) (options : Options) : Except Error Workflow := do
  let settings : Settings := { workflowName := trigger.name, repository, options }
  let graph ← settings.jobGraph templates trigger.components
  return {
    name := trigger.name
    pushBranches := some [options.branch]
    env := repository.env.merge trigger.env
    jobs := graph.jobs }

end CrossBuild.Compile
