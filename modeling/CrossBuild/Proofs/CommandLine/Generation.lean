/-
Writing the workflow file of a request.

The documents are read, the workflow is compiled and its text is made before anything is stored. So
a run that finds a fault in any of this leaves the disk as it was, and a run that ends well adds one
file to it. When the disk refuses the file, the directories made for it stay.
-/

import CrossBuild.CommandLine.Run
import CrossBuild.Proofs.Files.Confined

namespace CrossBuild.CommandLine

open Files Runs

variable {request : GenerateWorkflow} {disk after : Disk} {path : Path} {content : ByteArray}

/-! ### Storing a file -/

theorem read?_of_writeFile (done : writeFile path content disk = .ok () after) :
    after.read? path = some content := by
  obtain ⟨location, found, changed⟩ := writeFile_ok done
  obtain ⟨permitted, open_, led⟩ := Disk.locate?_eq_some_iff.mp found
  have noDirectory : disk.entryAt? location ≠ some .directory := by
    intro there
    unfold writeFile at done
    simp only [bind_ok_iff, get_ok_iff] at done
    obtain ⟨_, _, ⟨rfl, rfl⟩, done⟩ := done
    rw [found] at done
    dsimp only at done
    rw [if_pos (Disk.isDirectoryAt_iff.mpr there)] at done
    cases done
  rw [read?_eq_some_iff]
  refine ⟨location, Disk.locate?_eq_some_iff.mpr ⟨(changed.setting.permits path).mpr permitted, ?_,
    led.trans (changed.setting.leadsTo path).symm⟩, ?_⟩
  · intro place passed
    rw [changed.setting.way] at passed
    have there := open_ place passed
    have other : place ≠ location := by
      rintro rfl
      exact noDirectory there
    rw [changed.entries, if_neg other, there]
  · rw [changed.entries, if_pos rfl]

theorem writeFile_refused {cause : Refused} (failed : writeFile path content disk = .error cause after) :
    after = disk := by
  have unchanged : Ends (fun _ _ => True) (fun _ after => after = disk)
      (writeFile path content disk) := by
    unfold writeFile
    rw [ends_bind_iff, ends_get_iff]
    cases disk.locate? path with
    | none => exact rfl
    | some location =>
        dsimp only
        split
        · exact rfl
        · trivial
  exact unchanged.error failed

/-! ### The ends of a run -/

/-- The file of a request. -/
def GenerateWorkflow.file (request : GenerateWorkflow) : Path :=
  request.workflowDirectory.joinName ("ci-" ++ toString request.issue ++ ".yml")

/-- Only directories have come up on the way to the directory of the workflows, and nothing else has
changed but what stands at one place. -/
def AddsOnly (request : GenerateWorkflow) (before : Disk) (place : Location) (after : Disk) : Prop :=
  before.SameSetting after ∧ ∀ other, other ≠ place →
    after.entryAt? other = before.entryAt? other ∨
      before.entryAt? other = none ∧ after.entryAt? other = some .directory ∧
        other ∈ before.way request.workflowDirectory

/-- The ends that a run can have. -/
inductive Outcome (request : GenerateWorkflow) (disk : Disk) : EStateM.Result Error Disk Path → Prop
  | faulty {cause : Compile.Error} (found : compileRequest request disk = .error cause) :
      Outcome request disk (.error (.compile cause) disk)
  | textless {workflow : Workflow} (compiled : compileRequest request disk = .ok workflow)
      (noText : Yaml.render? workflow.toValue = none) :
      Outcome request disk (.error (.emit .serialization) disk)
  | refused {spelled : String} {after : Disk}
      (grown : disk.Grows (fun place => place ∈ disk.way request.workflowDirectory) after) :
      Outcome request disk (.error (.emit (.unwritable spelled)) after)
  | written {workflow : Workflow} {text : String} {after : Disk}
      (compiled : compileRequest request disk = .ok workflow)
      (rendered : Yaml.render? workflow.toValue = some text)
      (reads : after.read? request.file = some (generatedHeader ++ text).toUTF8)
      (adds : AddsOnly request disk (disk.leadsTo request.file) after) :
      Outcome request disk (.ok request.file after)

theorem ends_attemptToStore_iff {α : Type} {access : Access α} {good : α → Disk → Prop}
    {bad : EmitError → Disk → Prop} :
    Ends good bad (attemptToStore path access disk) ↔
      Ends good (fun _ => bad (.unwritable path.text)) (access disk) :=
  ends_adaptExcept_iff

/-- The text of a workflow is stored as a whole or not at all. -/
theorem store_ends {workflow : Workflow} {text : String}
    (rendered : Yaml.render? workflow.toValue = some text) :
    Ends (fun path after => path = request.file ∧
        after.read? path = some (generatedHeader ++ text).toUTF8 ∧
          AddsOnly request disk (disk.leadsTo path) after)
      (fun cause after => (∃ spelled, cause = .unwritable spelled) ∧
        disk.Grows (fun place => place ∈ disk.way request.workflowDirectory) after)
      (workflow.store generatedHeader request.workflowDirectory ("ci-" ++ toString request.issue)
        disk) := by
  have named : "ci-" ++ toString request.issue ++ "." ++ workflowExtension =
      "ci-" ++ toString request.issue ++ ".yml" := String.append_assoc
  unfold Workflow.store Workflow.emit
  rw [rendered]
  dsimp only
  rw [named, ends_bind_iff, ends_attemptToStore_iff]
  refine (makeDirectories_growing request.workflowDirectory disk).mono (fun _ middle grown => ?_)
    fun _ _ grown => ⟨⟨_, rfl⟩, grown⟩
  rw [ends_bind_iff, ends_attemptToStore_iff]
  change Ends _ _ (writeFile request.file (generatedHeader ++ text).toUTF8 middle)
  cases done : writeFile request.file (generatedHeader ++ text).toUTF8 middle with
  | error cause after =>
      obtain rfl := writeFile_refused done
      exact ⟨⟨_, rfl⟩, grown⟩
  | ok value after =>
      obtain ⟨location, found, changed⟩ := writeFile_ok done
      have led : location = disk.leadsTo request.file :=
        (Disk.leadsTo_of_locate? found).trans (grown.setting.leadsTo request.file)
      refine ⟨rfl, read?_of_writeFile done, grown.setting.trans changed.setting, ?_⟩
      intro other apart
      rw [changed.entries, if_neg (fun same => apart (same.trans led))]
      exact grown.entries other

theorem writeWorkflow_outcome (request : GenerateWorkflow) (disk : Disk) :
    Outcome request disk (writeWorkflow request disk) := by
  unfold writeWorkflow
  rw [get_bind]
  cases compiled : compileRequest request disk with
  | error cause => exact .faulty compiled
  | ok workflow =>
      dsimp only
      cases rendered : Yaml.render? workflow.toValue with
      | none =>
          unfold Workflow.store Workflow.emit
          rw [rendered]
          exact .textless compiled rendered
      | some text =>
          have ends := @store_ends request disk _ _ rendered
          unfold EStateM.adaptExcept
          cases stored : workflow.store generatedHeader request.workflowDirectory
              ("ci-" ++ toString request.issue) disk with
          | error cause after =>
              obtain ⟨⟨spelled, rfl⟩, grown⟩ := ends.error stored
              exact .refused grown
          | ok path after =>
              obtain ⟨rfl, reads, adds⟩ := ends.ok stored
              exact .written compiled rendered reads adds

/-- A workflow is written as a whole or not at all: a run that fails for another reason than that
the disk refuses has changed nothing, and a run that ends well has stored the workflow of the
documents as they were, and nothing else but directories that were missing on the way. -/
theorem writes_all_or_nothing (request : GenerateWorkflow) (disk : Disk) :
    (∀ cause after, writeWorkflow request disk = .error cause after →
      (∀ spelled, cause ≠ .emit (.unwritable spelled)) → after = disk) ∧
    ∀ path after, writeWorkflow request disk = .ok path after →
      path = request.workflowDirectory.joinName ("ci-" ++ toString request.issue ++ ".yml") ∧
      ∃ workflow text, compileRequest request disk = .ok workflow ∧
        Yaml.render? workflow.toValue = some text ∧
        after.read? path = some (generatedHeader ++ text).toUTF8 ∧
        AddsOnly request disk (disk.leadsTo path) after := by
  have outcome := writeWorkflow_outcome request disk
  constructor
  · intro cause after failed noRefusal
    rw [failed] at outcome
    cases outcome with
    | faulty => rfl
    | textless => rfl
    | refused => exact absurd rfl (noRefusal _)
  · intro path after done
    rw [done] at outcome
    cases outcome with
    | written compiled rendered reads adds => exact ⟨rfl, _, _, compiled, rendered, reads, adds⟩

/-- A disk with a trigger that names no component, and without the directory of the workflows. -/
def triggerDisk : Disk :=
  (Disk.empty none).place ["trigger.yml"] (.file "name: n\ncomponents: []\n".toUTF8)

def triggerRequest : GenerateWorkflow :=
  { workflowDirectory := ⟨"out"⟩
    trigger := ⟨"trigger.yml"⟩
    issue := 7
    branch := "main"
    repositoryConfig := ⟨"repository.yml"⟩
    templateDirectory := ⟨"jobs"⟩
    toolCommand := "xrepo" }

theorem trigger_is_written :
    (∃ path after, writeWorkflow triggerRequest triggerDisk = .ok path after ∧
      path.text = "out/ci-7.yml" ∧ after.isFile path = true) ∧
    ∃ after, writeWorkflow { triggerRequest with trigger := ⟨"absent.yml"⟩ } triggerDisk =
      .error (.compile (.config (.unreadable "absent.yml"))) after ∧ after = triggerDisk := by
  constructor
  · have succeeds : (match writeWorkflow triggerRequest triggerDisk with
        | .ok _ _ => true
        | .error _ _ => false) = true := by decide +kernel
    cases done : writeWorkflow triggerRequest triggerDisk with
    | error cause after =>
        rw [done] at succeeds
        cases succeeds
    | ok path after =>
        obtain ⟨rfl, -, text, -, -, reads, -⟩ :=
          (writes_all_or_nothing triggerRequest triggerDisk).2 path after done
        exact ⟨_, after, rfl, by decide, by rw [Disk.isFile, reads]; rfl⟩
  · refine ⟨triggerDisk, rfl, ?_⟩
    exact (writes_all_or_nothing { triggerRequest with trigger := ⟨"absent.yml"⟩ } triggerDisk).1
      _ _ rfl fun _ same => nomatch same

end CrossBuild.CommandLine
