/-
Jobs and workflows of the build service.

A workflow is a named list of jobs with a trigger; a job is a list of steps with the conditions
under which it runs. Jobs, variables and outputs keep the order in which they were added. These are
the things a workflow file says, not what the service does with them.
-/

import CrossBuild.Text.LowerCase
import CrossBuild.Workflow.Step

namespace CrossBuild

/-- The machines a job may run on: one label, or several that all have to match. -/
inductive RunsOn where
  | label (name : String)
  | labels (names : List String)
  deriving DecidableEq, Inhabited

/-- A single label stands alone, anything else is a list. -/
def RunsOn.ofLabels : List String → RunsOn
  | [name] => .label name
  | names => .labels names

structure Job where
  name : Option String
  runsOn : RunsOn
  needs : List String
  condition : Option String
  env : Env
  outputs : Env
  steps : List Step
  deriving Inhabited

/-- The job without steps on the given machines. -/
def Job.onMachine (runsOn : RunsOn) : Job :=
  { name := none
    runsOn := runsOn
    needs := []
    condition := none
    env := .empty
    outputs := .empty
    steps := [] }

/-- `pushBranches` lists the branches whose pushes start the workflow; without it pushes do not. -/
structure Workflow where
  name : String
  pushBranches : Option (List String)
  env : Env
  jobs : OrderedMap Job

/-- A display name as part of a file name: lower case, blanks as dashes, and of the other characters
only letters, digits, dashes and underscores. -/
def sanitizeName (name : String) : String :=
  let dashed := (Text.lower name).toList.map fun char => if char = ' ' then '-' else char
  String.ofList (dashed.filter fun char =>
    Text.isAlphanumeric char || char = '-' || char = '_')

end CrossBuild
