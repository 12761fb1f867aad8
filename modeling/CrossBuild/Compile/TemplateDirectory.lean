/-
Templates kept in the files of a directory.

The template of a component is a file with its name and one of two extensions, of which the first
one found counts. The directory need not exist.
-/

import CrossBuild.Compile.Template
import CrossBuild.Config.Load

namespace CrossBuild.Compile

open Files (Disk Path)

structure TemplateDirectory where
  path : Path
  deriving DecidableEq

namespace TemplateDirectory

def extensions : List String := ["yml", "yaml"]

/-- The file with the template of a component. -/
def pathFor? (directory : TemplateDirectory) (disk : Disk) (component : String) : Option Path :=
  (extensions.map fun extension =>
    directory.path.joinName (component ++ "." ++ extension)).find? disk.isFile

def load (directory : TemplateDirectory) (disk : Disk) : TemplateSource := fun component =>
  match directory.pathFor? disk component with
  | none => .ok none
  | some path =>
      match Config.Template.load component disk path with
      | .ok config => .ok (some { origin := path.text, config })
      | .error cause => .error (.config cause)

end TemplateDirectory

end CrossBuild.Compile
