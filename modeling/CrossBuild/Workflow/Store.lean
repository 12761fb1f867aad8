/-
Storing a workflow in a file.

The directory is made where it is missing, and a file that is there is replaced. Nothing is changed
when the workflow has no text.
-/

import CrossBuild.Files.Access
import CrossBuild.Workflow.Emit

namespace CrossBuild

open Files (Disk Path)

/-- Do what the disk may refuse. -/
def attemptToStore {α : Type} (path : Path) (access : Files.Access α) : EStateM EmitError Disk α :=
  access.adaptExcept fun _ => .unwritable path.text

/-- Write the text of a workflow into a directory, under a name without its extension, and give the
path of the file. -/
def Workflow.store (workflow : Workflow) (header : String) (directory : Path) (stem : String) :
    EStateM EmitError Disk Path := do
  match workflow.emit header with
  | .error cause => throw cause
  | .ok text => do
      attemptToStore directory (Files.makeDirectories directory)
      let path := directory.joinName (stem ++ "." ++ workflowExtension)
      attemptToStore path (Files.writeFile path text.toUTF8)
      return path

end CrossBuild
