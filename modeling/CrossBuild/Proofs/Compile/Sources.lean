/-
Templates in files and templates in memory.

A compilation asks its source for one template at a time, so two sources that give the same templates
for the components of a trigger lead to the same end. Each source has a name of its own for where a
template stands, and so an error may name different places; it is otherwise the same. A directory is
compared with texts in memory that are those of its files. How a file is found on the disk is said
elsewhere, and files that are no texts are left out.
-/

import CrossBuild.Compile.TemplateDirectory
import CrossBuild.Compile.Workflow
import CrossBuild.Proofs.Runs

namespace CrossBuild.Compile

open Config (Component)
open Files (Disk)
open Runs

/-! ### Two sources -/

/-- The causes are the same up to the name of a document and the place of a template. -/
inductive SameProblem : Error → Error → Prop where
  | same (cause : Error) : SameProblem cause cause
  | document (one other : String) :
      SameProblem (.config (.malformed one)) (.config (.malformed other))
  | origin (component one other : String) :
      SameProblem (.mavenOptsWithTemplate component one) (.mavenOptsWithTemplate component other)

/-- Two sources give a component the same template, wherever it stands, or none, or they refuse it for
the same cause. -/
def SameTemplate (left right : TemplateSource) (component : String) : Prop :=
  Agree (Option.Rel fun one other => one.config = other.config) SameProblem
    (left component) (right component)

variable {settings : Settings} {left right : TemplateSource} {component : Component}
  {components : List Component}

theorem plan_agree {one other : Option LoadedTemplate}
    (same : Option.Rel (fun one other : LoadedTemplate => one.config = other.config) one other)
    (bindings : List Binding) :
    Agree Eq SameProblem (settings.plan component one bindings)
      (settings.plan component other bindings) := by
  cases same with
  | none => exact .ok rfl
  | @some one other same =>
      unfold Settings.plan
      dsimp only
      split
      · exact .error (.origin _ _ _)
      · rw [same]
        exact .ok rfl

theorem addComponent_agree (progress : Progress) (same : SameTemplate left right component.name) :
    Agree Eq SameProblem (settings.addComponent left progress component)
      (settings.addComponent right progress component) := by
  unfold Settings.addComponent
  apply agree_bind same
  intro one other alike
  apply agree_bind (plan_agree alike _)
  intro plan _ equal
  subst equal
  exact agree_self .same _

/-- Templates are asked for in the order of the components, up to the first problem. -/
theorem addComponents_agree (progress : Progress)
    (same : ∀ component ∈ components, SameTemplate left right component.name) :
    Agree Eq SameProblem (settings.addComponents left progress components)
      (settings.addComponents right progress components) := by
  induction components generalizing progress with
  | nil => exact .ok rfl
  | cons component rest ih =>
      rw [List.forall_mem_cons] at same
      unfold Settings.addComponents
      apply agree_bind (addComponent_agree progress same.1)
      intro next _ equal
      subst equal
      exact ih next same.2

theorem jobGraph_agree (same : ∀ component ∈ components, SameTemplate left right component.name) :
    Agree Eq SameProblem (settings.jobGraph left components) (settings.jobGraph right components) := by
  unfold Settings.jobGraph
  apply agree_bind (agree_self .same _)
  intro graph _ equal
  subst equal
  apply agree_bind (addComponents_agree _ same)
  intro progress _ equal
  subst equal
  exact agree_self .same _

theorem workflow_agree {trigger : Config.Trigger} (repository : Config.Repository)
    (options : Options)
    (same : ∀ component ∈ trigger.components, SameTemplate left right component.name) :
    Agree Eq SameProblem (workflow trigger repository left options)
      (workflow trigger repository right options) := by
  unfold workflow
  apply agree_bind (jobGraph_agree same)
  intro graph _ equal
  subst equal
  exact .ok rfl

/-! ### A directory and its texts -/

/-- What a directory holds for a component: the text of the file with the first ending, or else that
of the file with the second one, or nothing. -/
inductive TemplateDirectory.Holds (directory : TemplateDirectory) (disk : Disk) (component : String) :
    Option String → Prop where
  | first {text : String}
      (there : disk.readText? (directory.path.joinName (component ++ ".yml")) = some text) :
      Holds directory disk component (some text)
  | second {text : String}
      (absent : disk.isFile (directory.path.joinName (component ++ ".yml")) = false)
      (there : disk.readText? (directory.path.joinName (component ++ ".yaml")) = some text) :
      Holds directory disk component (some text)
  | neither (absent : disk.isFile (directory.path.joinName (component ++ ".yml")) = false)
      (alsoAbsent : disk.isFile (directory.path.joinName (component ++ ".yaml")) = false) :
      Holds directory disk component none

section Directory

variable {directory : TemplateDirectory} {disk : Disk} {path : Files.Path} {name text : String}
  {templates : MemoryTemplates}

theorem isFile_of_readText? (given : disk.readText? path = some text) : disk.isFile path = true := by
  unfold Disk.isFile
  obtain ⟨content, there, -⟩ := Option.bind_eq_some_iff.mp given
  rw [there]
  rfl

theorem pathFor?_eq : directory.pathFor? disk name =
    [directory.path.joinName (name ++ ".yml"), directory.path.joinName (name ++ ".yaml")].find?
      disk.isFile := by
  unfold TemplateDirectory.pathFor? TemplateDirectory.extensions
  simp only [List.map_cons, List.map_nil, String.append_assoc]
  rfl

/-- The file that is found is the one whose text is held. -/
theorem TemplateDirectory.Holds.pathFor? (holds : directory.Holds disk name (some text)) :
    ∃ path, directory.pathFor? disk name = some path ∧ disk.readText? path = some text := by
  rw [pathFor?_eq]
  cases holds with
  | first there =>
      rw [List.find?_cons_of_pos (isFile_of_readText? there)]
      exact ⟨_, rfl, there⟩
  | second absent there =>
      rw [List.find?_cons_of_neg (Bool.eq_false_iff.mp absent),
        List.find?_cons_of_pos (isFile_of_readText? there)]
      exact ⟨_, rfl, there⟩

theorem TemplateDirectory.Holds.pathFor?_eq_none (holds : directory.Holds disk name none) :
    directory.pathFor? disk name = none := by
  rw [pathFor?_eq]
  cases holds with
  | neither absent alsoAbsent =>
      rw [List.find?_cons_of_neg (Bool.eq_false_iff.mp absent),
        List.find?_cons_of_neg (Bool.eq_false_iff.mp alsoAbsent)]
      rfl

/-- A text is read alike under any name, apart from that name. -/
theorem ofText_agree (one other : String) :
    Agree Eq (fun cause another => SameProblem (.config cause) (.config another))
      (Config.readText (Config.Template.read name) one text)
      (Config.readText (Config.Template.read name) other text) := by
  unfold Config.readText
  cases Yaml.read? text with
  | none => exact .error (.document one other)
  | some value => exact agree_self (fun cause => .same _) _

theorem sameTemplate_of_holds (holds : directory.Holds disk name (templates.get? name)) :
    SameTemplate (directory.load disk) templates.load name := by
  unfold SameTemplate TemplateDirectory.load MemoryTemplates.load
  cases kept : templates.get? name with
  | none =>
      rw [kept] at holds
      rw [holds.pathFor?_eq_none]
      exact .ok .none
  | some text =>
      rw [kept] at holds
      obtain ⟨path, found, given⟩ := holds.pathFor?
      rw [found]
      dsimp only
      unfold Config.Template.load Config.loadWith Config.Template.ofText
      rw [given]
      dsimp only
      have agree := @ofText_agree name text path.text ("component jobs of '" ++ name ++ "'")
      generalize Config.readText (Config.Template.read name) path.text text = one at agree ⊢
      generalize Config.readText (Config.Template.read name) _ text = other at agree ⊢
      cases agree with
      | ok same =>
          subst same
          exact .ok (.some rfl)
      | error same => exact .error same

end Directory

/-- Compiling with the templates of a directory and with their texts in memory comes to the same
workflow, or to the same problem. -/
theorem directory_agrees_with_memory (directory : TemplateDirectory) (disk : Disk)
    (templates : MemoryTemplates) (trigger : Config.Trigger) (repository : Config.Repository)
    (options : Options)
    (holds : ∀ component ∈ trigger.components,
      directory.Holds disk component.name (templates.get? component.name)) :
    Agree Eq SameProblem (workflow trigger repository (directory.load disk) options)
      (workflow trigger repository templates.load options) := by
  apply workflow_agree
  intro component listed
  exact sameTemplate_of_holds (holds component listed)

def threeTrigger : Config.Trigger :=
  { name := "nightly"
    env := .empty
    components := [
      { name := "core", org := "org", branch := "main", mavenOpts := none
        debug := false, javaVersion := none, dependencies := [] },
      { name := "app", org := "org", branch := "main", mavenOpts := none
        debug := false, javaVersion := none
        dependencies := [{ name := "core", property := "core.version" }] },
      { name := "tool", org := "org", branch := "main", mavenOpts := none
        debug := false, javaVersion := none
        dependencies := [{ name := "app", property := "app.version" }] }] }

def templateText (goals : String) : String :=
  "build-job: jar\njobs:\n  jar:\n    run:\n    - mvn: " ++ goals ++ "\n"

/-- One component has files with both endings, one a directory under the first, and one has none. -/
def templateDisk : Disk :=
  { entries := [
      (["t", "core.yml"], .file (templateText "install").toUTF8),
      (["t", "core.yaml"], .file "no template".toUTF8),
      (["t", "app.yml"], .directory),
      (["t", "app.yaml"], .file (templateText "verify").toUTF8),
      (["t"], .directory)]
    workingDirectory := []
    limits := none
    keysDistinct := by decide +kernel
    parentsThere := by decide +kernel
    namesValid := by decide +kernel }

def templatesOfDisk : MemoryTemplates :=
  .ofList [("app", templateText "verify"), ("core", templateText "install")]

theorem templates_of_disk_agree :
    (∀ component ∈ threeTrigger.components,
      TemplateDirectory.Holds ⟨⟨"t"⟩⟩ templateDisk component.name
        (templatesOfDisk.get? component.name)) ∧
    ∃ result,
      workflow threeTrigger .default (TemplateDirectory.load ⟨⟨"t"⟩⟩ templateDisk)
        (.ofBranch "side" 1) = .ok result ∧
      workflow threeTrigger .default templatesOfDisk.load (.ofBranch "side" 1) = .ok result := by
  have holds : ∀ component ∈ threeTrigger.components,
      TemplateDirectory.Holds ⟨⟨"t"⟩⟩ templateDisk component.name
        (templatesOfDisk.get? component.name) := by
    intro component listed
    have core : templatesOfDisk.get? "core" = some (templateText "install") := by decide +kernel
    have app : templatesOfDisk.get? "app" = some (templateText "verify") := by decide +kernel
    have tool : templatesOfDisk.get? "tool" = none := by decide +kernel
    simp only [threeTrigger, List.mem_cons, List.not_mem_nil, or_false] at listed
    rcases listed with rfl | rfl | rfl
    · rw [core]
      exact .first (by decide +kernel)
    · rw [app]
      exact .second (by decide +kernel) (by decide +kernel)
    · rw [tool]
      exact .neither (by decide +kernel) (by decide +kernel)
  apply And.intro holds
  obtain ⟨result, done⟩ : ∃ result, workflow threeTrigger .default
      (TemplateDirectory.load ⟨⟨"t"⟩⟩ templateDisk) (.ofBranch "side" 1) = .ok result :=
    except_exists_ok (by decide +kernel)
  have agree := directory_agrees_with_memory ⟨⟨"t"⟩⟩ templateDisk templatesOfDisk threeTrigger .default
    (.ofBranch "side" 1) holds
  rw [done] at agree
  generalize workflow threeTrigger .default templatesOfDisk.load (.ofBranch "side" 1) = other at agree ⊢
  cases agree with
  | ok same => exact ⟨result, done, congrArg Except.ok same.symm⟩

end CrossBuild.Compile
