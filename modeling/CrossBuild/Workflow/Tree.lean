/-
The data tree of a workflow.

Known keys come in a fixed order, and an absent or empty part has no entry, except the jobs of a
workflow, its trigger and the steps of a job, which are always there. A step's other keys follow its
known ones. The tree determines the workflow; its text is made elsewhere.
-/

import CrossBuild.Workflow.Basic

namespace CrossBuild

open Yaml (Value)

/-- One entry under a string key. -/
def entry (key : String) (value : Value) : Value × Value :=
  (.string key, value)

/-- An entry for a text that is set, none otherwise. -/
def textEntry (key : String) : Option String → List (Value × Value)
  | some text => [entry key (.string text)]
  | none => []

/-- An entry for a map that is not empty, none otherwise. -/
def mapEntry {β : Type} (toValue : β → Value) (key : String) (map : OrderedMap β) :
    List (Value × Value) :=
  if map.isEmpty then []
  else [entry key (.mapping (map.entries.map fun pair => entry pair.1 (toValue pair.2)))]

/-- An entry for a list that is not empty, none otherwise. -/
def listEntry (key : String) : List String → List (Value × Value)
  | [] => []
  | items => [entry key (.sequence (items.map .string))]

def Step.toValue (step : Step) : Value :=
  .mapping (
    textEntry "name" step.name ++ textEntry "id" step.id ++ textEntry "if" step.condition ++
    textEntry "uses" step.uses ++ textEntry "run" step.run ++
    textEntry "working-directory" step.workingDirectory ++
    mapEntry (fun value => value) "with" step.inputs ++
    mapEntry (fun value => value) "env" step.env ++
    step.extra.entries.map fun pair => entry pair.1 pair.2)

def RunsOn.toValue : RunsOn → Value
  | .label name => .string name
  | .labels names => .sequence (names.map .string)

def Job.toValue (job : Job) : Value :=
  .mapping (
    textEntry "name" job.name ++ [entry "runs-on" job.runsOn.toValue] ++
    listEntry "needs" job.needs ++ textEntry "if" job.condition ++
    mapEntry .string "env" job.env ++ mapEntry .string "outputs" job.outputs ++
    [entry "steps" (.sequence (job.steps.map Step.toValue))])

/-- The trigger: pushes to the listed branches, where there are any. -/
def triggerValue : Option (List String) → Value
  | none => .mapping []
  | some branches => .mapping [entry "push" (.mapping (listEntry "branches" branches))]

def Workflow.toValue (workflow : Workflow) : Value :=
  .mapping (
    [entry "name" (.string workflow.name), entry "on" (triggerValue workflow.pushBranches)] ++
    mapEntry .string "env" workflow.env ++
    [entry "jobs" (.mapping
      (workflow.jobs.entries.map fun pair => entry pair.1 pair.2.toValue))])

end CrossBuild
