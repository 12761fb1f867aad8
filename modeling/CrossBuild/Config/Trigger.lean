/-
The trigger document: what to build.

It names the workflow and lists the components, each with its repository and the components whose
versions it uses. A component may use only components listed before it, so the list is already an
order in which everything can be built.
-/

import CrossBuild.Config.Fields
import CrossBuild.Text.Letters

namespace CrossBuild.Config

open Yaml (Value)

/-- A component whose version is used, and the build property that receives it. -/
structure Dependency where
  name : String
  property : String
  deriving DecidableEq

structure Component where
  name : String
  org : String
  branch : String
  mavenOpts : Option String
  debug : Bool
  javaVersion : Option String
  dependencies : List Dependency
  deriving DecidableEq

structure Trigger where
  name : String
  env : Env
  components : List Component
  deriving DecidableEq

/-- The environment of a trigger that has none of its own. -/
def defaultTriggerEnv : Env :=
  .ofList [("MAVEN_OPTS", "-Xms756M -Xmx1g")]

/-- Component names become parts of identifiers. -/
def isComponentName (name : String) : Bool :=
  !name.isEmpty && name.toList.all fun char => Text.isAlphabetic char || char = '-'

namespace Trigger

def component? (trigger : Trigger) (name : String) : Option Component :=
  trigger.components.find? fun component => component.name = name

def dependencyKeys : List String :=
  ["name", "property"]

def componentKeys : List String :=
  ["name", "org", "branch", "mavenOpts", "debug", "java-version", "dependencies"]

def keys : List String :=
  ["name", "env", "components"]

def readDependency (value : Value) : Except Error Dependency := do
  let fields ← Fields.ofValue "a dependencies entry" value
  let name ← fields.requireString "name"
  let property ← fields.requireString "property"
  fields.finish dependencyKeys
  return { name, property }

def readComponent (value : Value) : Except Error Component := do
  let fields ← Fields.ofValue "a components entry" value
  let name ← fields.requireString "name"
  unless isComponentName name do
    throw (.invalid (.illegalComponentName name))
  let org ← fields.requireString "org"
  let branch ← fields.requireString "branch"
  let mavenOpts ← fields.string? "mavenOpts"
  let debug ← fields.bool? "debug"
  let javaVersion ← fields.javaVersion?
  let dependencies ← ((← fields.list? "dependencies").getD []).mapM readDependency
  fields.finish componentKeys
  return { name, org, branch, mavenOpts, debug := debug.getD false, javaVersion, dependencies }

/-- A component may follow the earlier ones: it uses only these and has a name of its own. -/
def checkComponent (earlier : List Component) (component : Component) : Except Error Unit :=
  let declared := fun name => earlier.any fun other => other.name = name
  match component.dependencies.find? fun dependency => !declared dependency.name with
  | some dependency =>
      .error (.unresolved ("Component '" ++ component.name ++ "'") .component dependency.name)
  | none =>
      if declared component.name then .error (.invalid (.repeatedComponent component.name))
      else .ok ()

/-- Read components one after the other behind the earlier ones. -/
def readComponents (earlier : List Component) : List Value → Except Error (List Component)
  | [] => .ok earlier
  | value :: rest => do
      let component ← readComponent value
      checkComponent earlier component
      readComponents (earlier ++ [component]) rest

def read (value : Value) : Except Error Trigger := do
  let fields ← Fields.ofValue "workflow trigger" value
  let name ← fields.requireString "name"
  let env ← fields.env?
  let components ← fields.require "components"
  fields.finish keys
  match components with
  | .sequence items =>
      return { name, env := env.getD defaultTriggerEnv, components := ← readComponents [] items }
  | other => throw (.wrongType "components" "workflow trigger" "a list" other)

end Trigger

end CrossBuild.Config
