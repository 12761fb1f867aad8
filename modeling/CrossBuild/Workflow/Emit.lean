/-
The file of a workflow.

The file is a comment block followed by the workflow's tree in block style. Not every tree has such
a text: a step of a document may hold a mapping key that the format cannot write.
-/

import CrossBuild.Workflow.Tree
import CrossBuild.Yaml.Printer

namespace CrossBuild

/-- What a workflow file begins with. -/
def generatedHeader : String :=
  "# Generated by xrepo - do not edit manually\n# Regenerate with: xrepo generate-workflow\n\n"

/-- The build service that reads the files. -/
def workflowFormat : String := "github"

def workflowExtension : String := "yml"

/-- Why there is no file: the tree has no text, or the text cannot be stored under the path. -/
inductive EmitError where
  | serialization
  | unwritable (path : String)
  deriving DecidableEq

def EmitError.message : EmitError → String
  | .serialization => "Serialization failed"
  | .unwritable path => "Failed to write " ++ path

/-- The stable identifier of the cause. -/
def EmitError.code : EmitError → String
  | .serialization => "xrepo::emitter::serialization"
  | .unwritable _ => "xrepo::emitter::io"

/-- Advice on what to change, where there is any. -/
def EmitError.help : EmitError → Option String
  | .serialization => none
  | .unwritable _ => some "Check that the output directory is writable"

/-- The text of a workflow file. -/
def Workflow.emit (header : String) (workflow : Workflow) : Except EmitError String :=
  match Yaml.render? workflow.toValue with
  | some text => .ok (header ++ text)
  | none => .error .serialization

end CrossBuild
