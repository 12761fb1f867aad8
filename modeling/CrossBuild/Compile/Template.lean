/-
Where job templates come from.

A source gives the template of a component, nothing when it has none, or the reason for which its
template cannot be used. Templates kept in memory are one source; other sources are defined where
their storage is.
-/

import CrossBuild.Config.Document
import CrossBuild.Workflow.Graph

namespace CrossBuild.Compile

/-- Why no workflow comes of the configuration. -/
inductive Error where
  | config (cause : Config.Error)
  | graph (cause : GraphError)
  | mavenOptsWithTemplate (component origin : String)
  | invalidStep (context : String) (index : Nat)

def Error.message : Error → String
  | .config cause => cause.message
  | .graph (.duplicateJob name) => "Job '" ++ name ++ "' is defined more than once"
  | .graph (.missingDependency job dependency) =>
      "Job '" ++ job ++ "' needs '" ++ dependency ++ "', which is not defined before it"
  | .mavenOptsWithTemplate component origin =>
      "Component '" ++ component ++ "' has a job template in " ++ origin ++
        " and so cannot use 'mavenOpts'"
  | .invalidStep context index =>
      "Step " ++ toString index ++ " of " ++ context ++ " is not a valid workflow step"

/-- The stable identifier of the cause. -/
def Error.code : Error → String
  | .config cause => cause.code
  | .graph (.duplicateJob _) => "xrepo::ci::duplicate_job"
  | .graph (.missingDependency _ _) => "xrepo::ci::missing_dependency"
  | .mavenOptsWithTemplate _ _ => "xrepo::ci::maven_opts_with_template"
  | .invalidStep _ _ => "xrepo::ci::invalid_step"

/-- Advice on what to change, where there is any. -/
def Error.help : Error → Option String
  | .config cause => cause.help
  | .graph (.duplicateJob _) =>
      some "Component names and job template keys must produce unique job names"
  | .mavenOptsWithTemplate _ _ => some "Move the Maven options into the template's run entries"
  | _ => none

/-- A template with the place where it was found. -/
structure LoadedTemplate where
  origin : String
  config : Config.Template

abbrev TemplateSource := String → Except Error (Option LoadedTemplate)

/-- Templates kept as texts under the names of their components. -/
abbrev MemoryTemplates := OrderedMap String

def MemoryTemplates.load (templates : MemoryTemplates) : TemplateSource := fun component =>
  match templates.get? component with
  | none => .ok none
  | some text =>
      match Config.Template.ofText component text with
      | .ok config =>
          .ok (some { origin := "in-memory template for '" ++ component ++ "'", config })
      | .error cause => .error (.config cause)

end CrossBuild.Compile
