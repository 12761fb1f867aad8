/-
Job templates: the jobs of one component.

A template lists named jobs, says which of them builds the component, and may add an end job that
waits for all of them. A job may need only jobs listed before it. Settings of the template hold for
every job that does not override them. Names of generated jobs are made of the component and the
key.
-/

import CrossBuild.Config.Fields
import CrossBuild.Text.Blank

namespace CrossBuild.Config

open Yaml (Value)

/-- A command of a job: goals of the build tool, or a command of the shell. -/
inductive RunElement where
  | maven (goals : String)
  | shell (command : String)
  deriving DecidableEq

structure TemplateJob where
  key : String
  name : String
  isBuildJob : Bool
  env : Env
  javaVersion : Option String
  runsOn : Option (List String)
  needs : List String
  run : List RunElement
  deriving DecidableEq

structure TemplateEndJob where
  name : String
  env : Env
  javaVersion : Option String
  runsOn : Option (List String)
  needs : List String
  condition : Option String
  steps : List Value

structure Template where
  component : String
  buildJob : String
  jobs : List TemplateJob
  endJob : Option TemplateEndJob

namespace Template

/-- Settings that every job of the template inherits. -/
structure Defaults where
  component : String
  env : Env
  javaVersion : Option String
  runsOn : Option (List String)

def jobKeys : List String :=
  ["env", "needs", "run", "java-version", "runs-on"]

/-- The keys an end job may have, and those that may be there with null only. -/
def endJobKeys : List String :=
  ["name", "needs", "env", "if", "java-version", "runs-on", "steps"]

def keys : List String :=
  ["build-job", "jobs", "env", "java-version", "runs-on", "end-job"]

/-- The designated build job. -/
def buildJob? (template : Template) : Option TemplateJob :=
  template.jobs.find? TemplateJob.isBuildJob

def jobName (component key : String) : String :=
  component ++ "-" ++ key

/-- The command starts with the build tool itself. -/
def startsWithMaven (command : String) : Bool :=
  (Text.trimStart command).startsWith "mvn "

def readCommand (key : Value) (command : String) : Except Error RunElement :=
  match key.string? with
  | some "mvn" =>
      if startsWithMaven command then .error (.invalid (.mavenPrefix command))
      else .ok (.maven command)
  | some "shell" =>
      if startsWithMaven command then .error (.invalid (.shellMaven command))
      else .ok (.shell command)
  | _ => .error (.wrongType "run" "a run element" "either 'mvn' or 'shell'" key)

/-- A run element is a mapping with one entry. -/
def readRunElement : Value → Except Error RunElement
  | .mapping [(key, .string command)] => readCommand key command
  | .mapping [(_, value)] => .error (.wrongType "run" "a run element" "a string" value)
  | .mapping _ => .error (.invalid .severalRunEntries)
  | value => .error (.wrongType "run" "a run element" "a mapping" value)

/-- The generated name of a job that is needed; it has to be listed already. -/
def readNeed (component key : String) (earlier : List TemplateJob) :
    Value → Except Error String
  | .string need =>
      if earlier.any fun job => job.key = need then .ok (jobName component need)
      else .error (.unresolved ("'needs' of job '" ++ key ++ "'") .job need)
  | value => .error (.wrongType "needs" ("job '" ++ key ++ "'") "a list of strings" value)

def readJob (defaults : Defaults) (buildKey key : String) (earlier : List TemplateJob)
    (value : Value) : Except Error TemplateJob := do
  let fields ← Fields.ofValue ("job '" ++ key ++ "'") value
  let env ← fields.env?
  let needs ← ((← fields.list? "needs").getD []).mapM (readNeed defaults.component key earlier)
  let run ←
    match ← fields.list? "run" with
    | some items => items.mapM readRunElement
    | none => throw (.missingKey "run" fields.context)
  let javaVersion ← fields.javaVersion?
  let runsOn ← fields.runsOn?
  fields.finish jobKeys
  return {
    key
    name := jobName defaults.component key
    isBuildJob := key = buildKey
    env := defaults.env.merge (env.getD .empty)
    javaVersion := javaVersion.or defaults.javaVersion
    runsOn := runsOn.or defaults.runsOn
    needs
    run }

/-- Read jobs one after the other behind the earlier ones. -/
def readJobs (defaults : Defaults) (context buildKey : String) (earlier : List TemplateJob) :
    List (Value × Value) → Except Error (List TemplateJob)
  | [] => .ok earlier
  | (.string key, value) :: rest => do
      let job ← readJob defaults buildKey key earlier value
      readJobs defaults context buildKey (earlier ++ [job]) rest
  | (key, _) :: _ => .error (.wrongType "jobs" context "a string key" key)

def readEndJob (defaults : Defaults) (jobs : List TemplateJob) (value : Value) :
    Except Error TemplateEndJob := do
  let fields ← Fields.ofValue ("end-job of '" ++ defaults.component ++ "'") value
  fields.forbid "name"
  fields.forbid "needs"
  let env ← fields.env?
  let condition ← fields.string? "if"
  let javaVersion ← fields.javaVersion?
  let runsOn ← fields.runsOn?
  let steps ← fields.steps
  fields.finish endJobKeys
  return {
    name := jobName defaults.component "end-job"
    env := defaults.env.merge (env.getD .empty)
    javaVersion := javaVersion.or defaults.javaVersion
    runsOn := runsOn.or defaults.runsOn
    needs := jobs.map TemplateJob.name
    condition
    steps }

def read (component : String) (value : Value) : Except Error Template := do
  let context := "component jobs of '" ++ component ++ "'"
  let fields ← Fields.ofValue context value
  let buildKey ← fields.requireString "build-job"
  let jobsValue ← fields.require "jobs"
  let env ← fields.env?
  let javaVersion ← fields.javaVersion?
  let runsOn ← fields.runsOn?
  fields.finish keys
  let defaults : Defaults := { component, env := env.getD .empty, javaVersion, runsOn }
  match jobsValue with
  | .mapping [] => throw (.invalid (.emptyList "jobs" context))
  | .mapping entries =>
      let jobs ← readJobs defaults context buildKey [] entries
      match jobs.find? TemplateJob.isBuildJob with
      | none => throw (.invalid (.unknownBuildJob buildKey context))
      | some buildJob =>
          let endJob ← (fields.get? "end-job").mapM (readEndJob defaults jobs)
          return { component, buildJob := buildJob.name, jobs, endJob }
  | other => throw (.wrongType "jobs" context "a mapping" other)

end Template

end CrossBuild.Config
