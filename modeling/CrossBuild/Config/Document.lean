/-
Configuration documents as texts.

A text becomes a data tree, and the tree is read as a document of one of the three kinds. A text
that is no tree is refused under the name of its document, which is its path when it comes from a
file.
-/

import CrossBuild.Config.Repository
import CrossBuild.Config.Template
import CrossBuild.Config.Trigger
import CrossBuild.Yaml.Load

namespace CrossBuild.Config

/-- Read a text as a tree and the tree as a document. -/
def readText {α : Type} (read : Yaml.Value → Except Error α) (document text : String) :
    Except Error α :=
  match Yaml.read? text with
  | some value => read value
  | none => .error (.malformed document)

def Trigger.ofText (text : String) : Except Error Trigger :=
  readText Trigger.read "workflow trigger" text

def Repository.ofText (text : String) : Except Error Repository :=
  readText Repository.read "repository config" text

def Template.ofText (component text : String) : Except Error Template :=
  readText (Template.read component) ("component jobs of '" ++ component ++ "'") text

end CrossBuild.Config
