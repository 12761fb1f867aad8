/-
One step of a job.

A step runs a shell script or uses a published action. Its known keys are fields of the type; any
other key of a step that a user wrote is kept beside them. A step of a document is accepted when its
known keys have the right types, and the entries it holds are then exactly those of the document.
Whether a step makes sense to the service that runs it is not decided here.
-/

import CrossBuild.OrderedMap
import CrossBuild.Yaml.Value

namespace CrossBuild

open Yaml (Value)

structure Step where
  name : Option String
  id : Option String
  condition : Option String
  uses : Option String
  run : Option String
  workingDirectory : Option String
  inputs : OrderedMap Value
  env : OrderedMap Value
  extra : OrderedMap Value

namespace Step

/-- The step without any entry. -/
def empty : Step :=
  { name := none
    id := none
    condition := none
    uses := none
    run := none
    workingDirectory := none
    inputs := .empty
    env := .empty
    extra := .empty }

instance : Inhabited Step := ⟨empty⟩

/-- A step that uses a published action. -/
def action (uses : String) : Step :=
  { empty with uses := some uses }

/-- A step that runs a script. -/
def script (run : String) : Step :=
  { empty with run := some run }

def withName (step : Step) (name : String) : Step :=
  { step with name := some name }

def withId (step : Step) (id : String) : Step :=
  { step with id := some id }

def withCondition (step : Step) (condition : String) : Step :=
  { step with condition := some condition }

def withWorkingDirectory (step : Step) (directory : String) : Step :=
  { step with workingDirectory := some directory }

def withInput (step : Step) (key : String) (value : Value) : Step :=
  { step with inputs := step.inputs.insert key value }

def withTextInput (step : Step) (key text : String) : Step :=
  step.withInput key (.string text)

def withEnv (step : Step) (key text : String) : Step :=
  { step with env := step.env.insert key (.string text) }

/-- The known keys of a step, in the order in which they are written. -/
inductive Key where
  | name
  | id
  | condition
  | uses
  | run
  | workingDirectory
  | inputs
  | env
  deriving DecidableEq

def Key.text : Key → String
  | .name => "name"
  | .id => "id"
  | .condition => "if"
  | .uses => "uses"
  | .run => "run"
  | .workingDirectory => "working-directory"
  | .inputs => "with"
  | .env => "env"

def Key.all : List Key :=
  [.name, .id, .condition, .uses, .run, .workingDirectory, .inputs, .env]

def Key.ofText? (text : String) : Option Key :=
  Key.all.find? fun key => key.text = text

/-- A text entry: null counts as absent, and anything but a string is refused. -/
def readText? : Value → Option (Option String)
  | .null => some none
  | value => value.string?.map some

def readEntries? : List (Value × Value) → Option (List (String × Value))
  | [] => some []
  | (key, value) :: rest =>
      match key.string?, readEntries? rest with
      | some text, some entries => some ((text, value) :: entries)
      | _, _ => none

/-- A mapping entry: null counts as empty, and every key has to be a string. -/
def readMap? (value : Value) : Option (OrderedMap Value) :=
  match value.untagged with
  | .null => some .empty
  | .mapping entries => (readEntries? entries).map OrderedMap.ofList
  | _ => none

/-- Store the value of a known key. -/
def setKey? (step : Step) (key : Key) (value : Value) : Option Step :=
  match key with
  | .name => (readText? value).map fun text => { step with name := text }
  | .id => (readText? value).map fun text => { step with id := text }
  | .condition => (readText? value).map fun text => { step with condition := text }
  | .uses => (readText? value).map fun text => { step with uses := text }
  | .run => (readText? value).map fun text => { step with run := text }
  | .workingDirectory =>
      (readText? value).map fun text => { step with workingDirectory := text }
  | .inputs => (readMap? value).map fun map => { step with inputs := map }
  | .env => (readMap? value).map fun map => { step with env := map }

/-- Read the entries from left to right. `seen` holds the known keys met so far, none of which may
come again; values of other keys must not have tags. -/
def readStep? (step : Step) (seen : List Key) : List (String × Value) → Option Step
  | [] => some step
  | (text, value) :: rest =>
      match Key.ofText? text with
      | some key =>
          if seen.contains key then none
          else match step.setKey? key value with
            | some next => readStep? next (key :: seen) rest
            | none => none
      | none =>
          if value.hasTag then none
          else readStep? { step with extra := step.extra.insert text value } seen rest

/-- The step of a document; null is the empty step. -/
def ofValue? (value : Value) : Option Step :=
  match value.untagged with
  | .null => some empty
  | .mapping entries =>
      match readEntries? entries with
      | some pairs => readStep? empty [] pairs
      | none => none
  | _ => none

end Step

end CrossBuild
