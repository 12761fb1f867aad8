/-
Configuration documents in files.

A document that cannot be read is refused under its path, and so is one whose text is no tree. Only
the repository document may be missing.
-/

import CrossBuild.Config.Document
import CrossBuild.Files.Disk

namespace CrossBuild.Config

open Files (Disk Path)

/-- Read the document at a path. -/
def loadWith {α : Type} (read : Yaml.Value → Except Error α) (disk : Disk) (path : Path) :
    Except Error α :=
  match disk.readText? path with
  | some text => readText read path.text text
  | none => .error (.unreadable path.text)

def Trigger.load (disk : Disk) (path : Path) : Except Error Trigger :=
  loadWith Trigger.read disk path

/-- The repository document, or the defaults when there is none. -/
def Repository.loadOrDefault (disk : Disk) (path : Path) : Except Error Repository :=
  if disk.isThere path then loadWith Repository.read disk path else .ok .default

def Template.load (component : String) (disk : Disk) (path : Path) : Except Error Template :=
  loadWith (Template.read component) disk path

end CrossBuild.Config
