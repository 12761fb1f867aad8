/-
The build jobs of a compiled workflow.

Whatever a compilation knows as the build job of a component is, in the workflow that comes of it, a
job that builds this component: its fixed steps find out version and commit, and it declares both as
outputs. Who reads the outputs is not looked at here.
-/

import CrossBuild.Proofs.Compile.Assembly

namespace CrossBuild.Compile

open Config (Component)
open Runs

variable {trigger : Config.Trigger} {repository : Config.Repository} {templates : TemplateSource}
  {options : Options} {result : Workflow} {settings : Settings} {members : List Member}
  {member : Member} {component : Component} {known : BuildJobs} {id name : String}

/-- A workflow holds the planned jobs of the components of the trigger, in order. -/
theorem workflow_ok (done : workflow trigger repository templates options = .ok result) :
    ∃ members, List.Forall₂ (Member.Loads templates) trigger.components members ∧
      List.Forall₂ PlannedJob.Makes
        (({ workflowName := trigger.name, repository, options } : Settings).plannedJobs members)
        result.jobs.entries := by
  obtain ⟨graph, built, same⟩ := except_bind_ok_iff.mp done
  cases same
  obtain ⟨members, all, added⟩ := Settings.jobGraph_ok_iff.mp built
  obtain ⟨items, made, whole⟩ := addJobs_ok added
  refine ⟨members, all, ?_⟩
  dsimp only
  rw [whole]
  exact made

/-- A planned job is in the workflow as it was made. -/
def PlannedJob.PlacedIn (result : Workflow) (planned : PlannedJob) : Prop :=
  ∃ job, planned.job = .ok job ∧ result.jobs.get? planned.id = some job

theorem placed_of_makes {planned : List PlannedJob}
    (made : List.Forall₂ PlannedJob.Makes planned result.jobs.entries) :
    ∀ first ∈ planned, first.PlacedIn result := by
  intro first listed
  obtain ⟨item, inside, id, own⟩ := exists_of_mem_left made first listed
  refine ⟨item.2, own, ?_⟩
  rw [id]
  exact OrderedMap.get?_eq_some_iff.mpr inside

/-- The workflow has a job of that identifier that builds the component. -/
def Workflow.Builds (result : Workflow) (settings : Settings) (component : Component)
    (id : String) : Prop :=
  ∃ part : JobPart, part.isBuildJob = true ∧
    result.jobs.get? id = some (settings.componentJob component part)

/-- A build job declares the version and the commit of its component, and nothing else. -/
theorem Workflow.Builds.outputs (builds : Workflow.Builds result settings component id) :
    ∃ producer, result.jobs.get? id = some producer ∧ producer.outputs = Settings.buildOutputs component := by
  obtain ⟨part, isBuildJob, found⟩ := builds
  refine ⟨_, found, ?_⟩
  change (if part.isBuildJob then _ else _) = _
  rw [isBuildJob]
  rfl

namespace Settings

/-- One of the jobs of a member builds it. -/
theorem buildJob_planned (sound : member.Sound) :
    ∃ part : JobPart, part.isBuildJob = true ∧
      { id := member.buildJob, job := .ok (settings.componentJob member.component part) } ∈
        (settings.memberPlan known member).jobs := by
  unfold memberPlan Member.buildJob
  cases found : member.template with
  | none => exact ⟨_, rfl, List.mem_singleton.mpr rfl⟩
  | some loaded =>
      obtain ⟨-, buildKey, wellFormed⟩ := sound loaded found
      obtain ⟨job, listed, own⟩ := wellFormed.buildJobThere
      have builds : job.isBuildJob = true := by
        rw [wellFormed.jobs.builds job listed, decide_eq_true_eq]
        exact own
      have named : job.name = loaded.config.buildJob := by
        rw [wellFormed.jobs.named job listed, own]
        exact wellFormed.buildJob.symm
      dsimp only
      rw [← named]
      refine ⟨_, builds, List.mem_append_left _ (List.mem_map.mpr ⟨job, ?_, rfl⟩)⟩
      exact mem_templateJobs.mpr ⟨listed, fun _ => builds⟩

theorem memberJobs_append (known : BuildJobs) (front back : List Member) :
    settings.memberJobs known (front ++ back) =
      settings.memberJobs known front ++
        settings.memberJobs (known.insertAll (memberEntries front)) back := by
  induction front generalizing known with
  | nil => rfl
  | cons member rest ih =>
      rw [List.cons_append, memberJobs, memberJobs, ih, List.append_assoc]
      rfl

end Settings

/-- Every build job that is known builds the component under whose name it is known. -/
def Produced (result : Workflow) (settings : Settings) (known : BuildJobs) : Prop :=
  ∀ name id, known.get? name = some id →
    ∃ component, component.name = name ∧ Workflow.Builds result settings component id

theorem produced_empty : Produced result settings .empty := by
  intro name id absent
  cases absent

theorem Produced.grown (produced : Produced result settings known) (sound : member.Sound)
    (placed : ∀ planned ∈ (settings.memberPlan known member).jobs, planned.PlacedIn result) :
    Produced result settings (known.insert member.component.name member.buildJob) := by
  intro name id inserted
  rw [OrderedMap.get?_insert] at inserted
  split at inserted
  · rename_i same
    cases inserted
    obtain ⟨part, isBuildJob, listed⟩ := @Settings.buildJob_planned settings member known sound
    obtain ⟨job, made, there⟩ := placed _ listed
    cases made
    exact ⟨member.component, same.symm, part, isBuildJob, there⟩
  · exact produced name id inserted

theorem Produced.grownBy (produced : Produced result settings known)
    (sound : ∀ member ∈ members, member.Sound)
    (placed : ∀ planned ∈ settings.memberJobs known members, planned.PlacedIn result) :
    Produced result settings (known.insertAll (memberEntries members)) := by
  induction members generalizing known with
  | nil => exact produced
  | cons member rest ih =>
      rw [Settings.memberJobs, List.forall_mem_append] at placed
      rw [List.forall_mem_cons] at sound
      exact ih (produced.grown sound.1 placed.1) sound.2 placed.2

end CrossBuild.Compile
