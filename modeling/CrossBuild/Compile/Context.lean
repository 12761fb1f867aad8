/-
How the version of one component reaches another.

When a component is compiled, the build jobs of the components before it are known. A dependency
bound to such a build job gives an environment variable and a property of the build command, both of
which read an output of that job.
-/

import CrossBuild.Compile.Steps
import CrossBuild.Config.Template
import CrossBuild.Config.Trigger

namespace CrossBuild.Compile

open Config (Component Dependency RunElement)

/-- A dependency with the job that builds it. -/
structure Binding where
  component : String
  property : String
  buildJob : String
  deriving DecidableEq

namespace Binding

def ofDependency (dependency : Dependency) (buildJob : String) : Binding :=
  { component := dependency.name
    property := dependency.property
    buildJob := buildJob }

def versionVariable (binding : Binding) : String :=
  Compile.versionVariable binding.component

/-- The output that holds the version. -/
def outputReference (binding : Binding) : String :=
  neededOutput binding.buildJob binding.versionVariable

/-- The option that passes the version to the build tool. -/
def mavenProperty (binding : Binding) : String :=
  "-D" ++ binding.property ++ "=\"" ++ expression binding.outputReference ++ "\""

end Binding

/-- The build jobs of the components compiled so far, in order. -/
abbrev BuildJobs := OrderedMap String

/-- The dependencies of a component whose build jobs are known. -/
def bindingsFor (buildJobs : BuildJobs) (component : Component) : List Binding :=
  component.dependencies.filterMap fun dependency =>
    (buildJobs.get? dependency.name).map (Binding.ofDependency dependency)

/-- The options for all bindings, each behind a blank. -/
def mavenProperties (bindings : List Binding) : String :=
  String.join (bindings.map fun binding => " " ++ binding.mavenProperty)

/-- One variable for the version of each dependency. -/
def versionEntries (bindings : List Binding) : List (String × String) :=
  bindings.map fun binding => (binding.versionVariable, expression binding.outputReference)

def versionEnv (bindings : List Binding) : Env :=
  .ofList (versionEntries bindings)

/-- The build command of a component without a template. -/
def defaultBuildCommand (component : Component) (bindings : List Binding) : String :=
  let options := match component.mavenOpts with
    | some options => " " ++ options
    | none => ""
  "mvn -B install" ++ options ++ mavenProperties bindings

/-- The command of one run element. -/
def runLine (bindings : List Binding) : RunElement → String
  | .maven goals => "mvn -B " ++ goals ++ mavenProperties bindings
  | .shell command => command

/-- The build commands of a job of a template. -/
def templateBuildCommand (run : List RunElement) (bindings : List Binding) : String :=
  script (run.map (runLine bindings))

end CrossBuild.Compile
