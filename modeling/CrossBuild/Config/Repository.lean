/-
The repository document: defaults for every generated job.

All of it is optional, and an empty document stands for the defaults. The end job is a job that runs
after all components; its name, its needs and its machine are assigned when it is generated and so
may not be given. Steps are kept as they are written.
-/

import CrossBuild.Config.Fields

namespace CrossBuild.Config

open Yaml (Value)

/-- Labels that tell the outcome on the issue that asked for the build. -/
structure StatusLabels where
  success : String
  failure : String
  deriving DecidableEq

structure IssueReporting where
  comments : Bool
  labels : Option StatusLabels
  deriving DecidableEq

/-- Comments and labels are independent; either is reason enough for a report. -/
def IssueReporting.isEnabled (reporting : IssueReporting) : Bool :=
  reporting.comments || reporting.labels.isSome

def IssueReporting.default : IssueReporting :=
  { comments := true
    labels := none }

structure EndJob where
  env : Env
  condition : Option String
  steps : List Value

structure Repository where
  env : Env
  javaVersion : Option String
  runsOn : List String
  issueReporting : IssueReporting
  endJob : Option EndJob

def defaultRunsOn : List String :=
  ["ubuntu-latest"]

namespace Repository

def default : Repository :=
  { env := .empty
    javaVersion := none
    runsOn := defaultRunsOn
    issueReporting := .default
    endJob := none }

def labelKeys : List String :=
  ["success", "failure"]

def reportingKeys : List String :=
  ["comments", "labels"]

/-- The keys an end job may have, and those that may be there with null only. -/
def endJobKeys : List String :=
  ["name", "needs", "runs-on", "env", "if", "steps"]

def keys : List String :=
  ["env", "java-version", "runs-on", "issue-reporting", "end-job"]

def readLabels (value : Value) : Except Error StatusLabels := do
  let fields ← Fields.ofValue "'labels'" value
  let success ← fields.requireString "success"
  let failure ← fields.requireString "failure"
  fields.finish labelKeys
  return { success, failure }

def readReporting (value : Value) : Except Error IssueReporting := do
  let fields ← Fields.ofValue "'issue-reporting'" value
  let comments ← fields.bool? "comments"
  let labels ← (fields.get? "labels").mapM readLabels
  fields.finish reportingKeys
  return { comments := comments.getD true, labels }

def readEndJob (value : Value) : Except Error EndJob := do
  let fields ← Fields.ofValue "end-job" value
  fields.forbid "name"
  fields.forbid "needs"
  fields.forbid "runs-on"
  let env ← fields.env?
  let condition ← fields.string? "if"
  let steps ← fields.steps
  fields.finish endJobKeys
  return { env := env.getD .empty, condition, steps }

def readFields (fields : Fields) : Except Error Repository := do
  let env ← fields.env?
  let javaVersion ← fields.javaVersion?
  let runsOn ← fields.runsOn?
  let reporting ← (fields.get? "issue-reporting").mapM readReporting
  let endJob ← (fields.get? "end-job").mapM readEndJob
  fields.finish keys
  return {
    env := env.getD .empty
    javaVersion
    runsOn := runsOn.getD defaultRunsOn
    issueReporting := reporting.getD .default
    endJob }

def read (value : Value) : Except Error Repository := do
  if value.isNull then return default
  readFields (← Fields.ofValue "repository config" value)

end Repository

end CrossBuild.Config
