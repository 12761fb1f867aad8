/-
References to outputs of other jobs.

The build service gives a job the outputs of those jobs only that it needs itself, and an empty text
for all others. So a reference that the compilation writes has to stand in a job that needs the
producer directly, and the producer has to declare the output. What users write into their own
variables and commands is set apart and not looked at.
-/

import CrossBuild.Proofs.Compile.Producers

namespace CrossBuild

/-- An output of another job. -/
structure Reference where
  job : String
  output : String

/-- The job sees the output: it needs the other job itself, and that job declares the output. -/
def Workflow.Sees (result : Workflow) (job : Job) (reference : Reference) : Prop :=
  reference.job ∈ job.needs ∧ ∃ producer, result.jobs.get? reference.job = some producer ∧
    reference.output ∈ producer.outputs.keys

namespace Compile

open Config (Component)
open Runs

/-- The reference as it is written. -/
def referenceText (reference : Reference) : String :=
  expression (neededOutput reference.job reference.output)

def Binding.reference (binding : Binding) : Reference :=
  { job := binding.buildJob
    output := binding.versionVariable }

/-- Variables that hold references. -/
def referenceEntries (references : List (String × Reference)) : List (String × String) :=
  references.map fun pair => (pair.1, referenceText pair.2)

/-- A job that the configuration asks for: the variables that the user gives it, those that are fixed
whatever the user gives, and its build commands as a function of the versions passed to them. -/
structure Request where
  id : String
  env : Env
  fixed : List (String × String)
  commands : Option (List Binding → String)

namespace Request

/-- A job without variables and build commands. -/
def plain (id : String) : Request :=
  { id, env := .empty, fixed := [], commands := none }

def ofComponent (component : Component) : Request :=
  { id := Settings.defaultJobId component
    env := .empty
    fixed := []
    commands := some (defaultBuildCommand component) }

def ofTemplateJob (job : Config.TemplateJob) : Request :=
  { id := job.name
    env := job.env
    fixed := []
    commands := some (templateBuildCommand job.run) }

def ofTemplateEndJob (endJob : Config.TemplateEndJob) : Request :=
  { id := endJob.name
    env := endJob.env
    fixed := []
    commands := none }

def ofEndJob (endJob : Config.EndJob) : Request :=
  { id := endJobId
    env := endJob.env
    fixed := [(statusFileVariable, expression "github.workspace" ++ "/" ++ statusFile)]
    commands := none }

/-- The jobs of a component; in debug mode only the one that builds it. -/
def ofMember (templates : TemplateSource) (component : Component) : List Request :=
  match templates component.name with
  | .ok (some loaded) =>
      let jobs :=
        if component.debug then loaded.config.jobs.filter Config.TemplateJob.isBuildJob
        else loaded.config.jobs
      let endJob := if component.debug then none else loaded.config.endJob
      jobs.map ofTemplateJob ++ endJob.toList.map ofTemplateEndJob
  | _ => [ofComponent component]

/-- All jobs that the configuration asks for, in order. -/
def all (repository : Config.Repository) (templates : TemplateSource)
    (components : List Component) : List Request :=
  [plain cancelJobId] ++ components.flatMap (ofMember templates) ++
    (repository.endJob.toList.map ofEndJob ++ [plain statusReadJobId] ++
      (if repository.issueReporting.isEnabled then
        [Outcome.success, Outcome.failure].map fun outcome => plain outcome.jobId else []) ++
      [plain cleanupJobId])

/-- The job is what was asked for. Beside what the user gives, its variables and build commands hold
nothing but references to outputs that it sees. -/
structure MetBy (result : Workflow) (request : Request) (item : String × Job) : Prop where
  id : item.1 = request.id
  env : ∃ references : List (String × Reference),
    item.2.env = (request.env.insertAll (referenceEntries references)).insertAll request.fixed ∧
      ∀ pair ∈ references, result.Sees item.2 pair.2
  commands : ∀ text, request.commands = some text → ∃ bindings : List Binding,
    mavenBuild (text bindings) ∈ item.2.steps ∧
      ∀ binding ∈ bindings, result.Sees item.2 binding.reference

/-- A planned job meets the request when it is made. -/
def PlannedFor (result : Workflow) (request : Request) (planned : PlannedJob) : Prop :=
  ∀ job, planned.job = .ok job → request.MetBy result (planned.id, job)

end Request

theorem forall₂_of_planned {result : Workflow} {requests : List Request} {planned : List PlannedJob}
    {items : List (String × Job)} (all : List.Forall₂ (Request.PlannedFor result) requests planned)
    (made : List.Forall₂ PlannedJob.Makes planned items) :
    List.Forall₂ (Request.MetBy result) requests items := by
  induction all generalizing items with
  | nil =>
      cases made
      exact .nil
  | @cons request first _ _ plannedFor _ ih =>
      cases made with
      | @cons _ item _ _ makes others =>
          refine .cons ?_ (ih others)
          have met := plannedFor item.2 makes.2
          rw [makes.1] at met
          exact met

variable {trigger : Config.Trigger} {repository : Config.Repository} {templates : TemplateSource}
  {options : Options} {result : Workflow} {settings : Settings} {members : List Member}
  {member : Member} {component : Component} {components : List Component} {known : BuildJobs}
  {id name : String} {job : Job}

/-! ### What is seen -/

theorem Workflow.Builds.sees_version (builds : Workflow.Builds result settings component id)
    (needed : id ∈ job.needs) :
    result.Sees job { job := id, output := versionVariable component.name } := by
  obtain ⟨producer, found, outputs⟩ := builds.outputs
  refine ⟨needed, producer, found, ?_⟩
  rw [outputs]
  exact OrderedMap.mem_keys_insert.mpr (.inl (OrderedMap.mem_keys_insert.mpr (.inr rfl)))

theorem Workflow.Builds.sees_revision (builds : Workflow.Builds result settings component id)
    (needed : id ∈ job.needs) : result.Sees job { job := id, output := revisionOutput } := by
  obtain ⟨producer, found, outputs⟩ := builds.outputs
  refine ⟨needed, producer, found, ?_⟩
  rw [outputs]
  exact OrderedMap.mem_keys_insert.mpr (.inr rfl)

theorem Produced.sees_bindings (produced : Produced result settings known)
    (needed : ∀ id ∈ (bindingsFor known component).map Binding.buildJob, id ∈ job.needs) :
    ∀ binding ∈ bindingsFor known component, result.Sees job binding.reference := by
  intro binding member
  have listed := needed _ (List.mem_map_of_mem member)
  obtain ⟨dependency, -, found, own⟩ := Settings.buildJob_of_mem_bindingsFor member
  obtain ⟨producer, same, builds⟩ := produced _ _ found
  have sees := builds.sees_version listed
  have variableOf : versionVariable producer.name = binding.versionVariable := by
    rw [own, same]
    rfl
  rw [variableOf] at sees
  exact sees

/-- The versions of dependencies as variables with references. -/
def versionReferences (bindings : List Binding) : List (String × Reference) :=
  bindings.map fun binding => (binding.versionVariable, binding.reference)

theorem referenceEntries_versionReferences (bindings : List Binding) :
    referenceEntries (versionReferences bindings) = versionEntries bindings := by
  unfold referenceEntries versionReferences versionEntries
  rw [List.map_map]
  rfl

theorem forall_versionReferences {bindings : List Binding} {fact : Reference → Prop} :
    (∀ pair ∈ versionReferences bindings, fact pair.2) ↔
      ∀ binding ∈ bindings, fact binding.reference := by
  unfold versionReferences
  rw [List.forall_mem_map]

def ownReference (component buildJob : String) : String × Reference :=
  (versionVariable component, { job := buildJob, output := versionVariable component })

theorem mavenBuild_mem_componentJob (part : JobPart) :
    mavenBuild part.commands ∈ (settings.componentJob component part).steps := by
  unfold Settings.componentJob
  dsimp only
  simp only [List.mem_append, List.mem_cons, true_or, or_true]

theorem referenceEntries_singleton (component buildJob : String) :
    referenceEntries [ownReference component buildJob] = [versionEntry component buildJob] := rfl

theorem referenceEntries_append (front back : List (String × Reference)) :
    referenceEntries (front ++ back) = referenceEntries front ++ referenceEntries back :=
  List.map_append

/-! ### The jobs of a component -/

private theorem default_planned (produced : Produced result settings known) :
    (Request.ofComponent component).PlannedFor result
      { id := Settings.defaultJobId component
        job := .ok (settings.defaultJob component (bindingsFor known component)) } := by
  intro job made
  cases made
  have sees : ∀ binding ∈ bindingsFor known component,
      result.Sees (settings.defaultJob component (bindingsFor known component)) binding.reference :=
    produced.sees_bindings fun id inside => List.mem_cons_of_mem _ inside
  refine ⟨rfl, ⟨versionReferences (bindingsFor known component), ?_,
    forall_versionReferences.mpr sees⟩, fun text same => ?_⟩
  · rw [referenceEntries_versionReferences]
    rfl
  · cases same
    exact ⟨_, mavenBuild_mem_componentJob _, sees⟩

/-- A job of a template that refers to the version of its own component is there only outside debug
mode, where it needs the build job. -/
private theorem debug_of_needs_buildJob {loaded : LoadedTemplate} {own : Config.TemplateJob}
    (sound : member.Sound) (found : member.template = some loaded)
    (listed : own ∈ member.templateJobs loaded) (needs : loaded.config.buildJob ∈ own.needs) :
    member.component.debug = false := by
  obtain ⟨-, buildKey, wellFormed⟩ := sound loaded found
  obtain ⟨inside, onlyBuild⟩ := Settings.mem_templateJobs.mp listed
  by_contra debug
  have builds := onlyBuild (Bool.not_eq_false _ ▸ debug)
  rw [wellFormed.jobs.builds own inside, decide_eq_true_eq] at builds
  refine wellFormed.name_notMem_needs inside ?_
  rw [wellFormed.jobs.named own inside, builds, ← wellFormed.buildJob]
  exact needs

private theorem templateJob_planned {loaded : LoadedTemplate} {own : Config.TemplateJob}
    (produced : Produced result settings known) (sound : member.Sound)
    (found : member.template = some loaded)
    (builds : Workflow.Builds result settings member.component loaded.config.buildJob)
    (listed : own ∈ member.templateJobs loaded) :
    (Request.ofTemplateJob own).PlannedFor result
      { id := own.name
        job := .ok (settings.templateJob member.component loaded.config.buildJob
          (bindingsFor known member.component) own) } := by
  intro job made
  generalize planned : settings.templateJob member.component loaded.config.buildJob
    (bindingsFor known member.component) own = planned at made
  cases made
  have needs : job.needs = (if own.isBuildJob then [cancelJobId] else []) ++
      (bindingsFor known member.component).map Binding.buildJob ++
      (if member.component.debug then [] else own.needs) := by
    rw [← planned]
    rfl
  have sees : ∀ binding ∈ bindingsFor known member.component, result.Sees job binding.reference := by
    refine produced.sees_bindings fun id inside => ?_
    rw [needs]
    exact List.mem_append_left _ (List.mem_append_right _ inside)
  have commands : mavenBuild (templateBuildCommand own.run (bindingsFor known member.component)) ∈
      job.steps := by
    rw [← planned]
    exact mavenBuild_mem_componentJob _
  refine ⟨rfl, ?_, fun text same => ?_⟩
  · by_cases refers : own.needs.contains loaded.config.buildJob
    · have noDebug := debug_of_needs_buildJob sound found listed (List.contains_iff_mem.mp refers)
      refine ⟨versionReferences (bindingsFor known member.component) ++
        [ownReference member.component.name loaded.config.buildJob], ?_, ?_⟩
      · rw [referenceEntries_append, referenceEntries_versionReferences, referenceEntries_singleton,
          OrderedMap.insertAll_append, ← planned]
        unfold Settings.templateJob
        rw [if_pos refers]
        rfl
      · rw [List.forall_mem_append]
        refine ⟨forall_versionReferences.mpr sees, fun pair inside => ?_⟩
        rw [List.mem_singleton.mp inside]
        refine builds.sees_version ?_
        rw [needs, noDebug]
        exact List.mem_append_right _ (List.contains_iff_mem.mp refers)
    · refine ⟨versionReferences (bindingsFor known member.component), ?_,
        forall_versionReferences.mpr sees⟩
      rw [referenceEntries_versionReferences, ← planned]
      unfold Settings.templateJob
      rw [if_neg refers]
      rfl
  · cases same
    exact ⟨_, commands, sees⟩

private theorem templateEndJob_planned {loaded : LoadedTemplate} {endJob : Config.TemplateEndJob}
    (produced : Produced result settings known) (sound : member.Sound)
    (found : member.template = some loaded)
    (builds : Workflow.Builds result settings member.component loaded.config.buildJob)
    (last : loaded.config.endJob = some endJob) :
    (Request.ofTemplateEndJob endJob).PlannedFor result
      { id := endJob.name
        job := settings.templateEndJob member.component loaded.config.buildJob
          (bindingsFor known member.component) endJob } := by
  intro job made
  obtain ⟨steps, -, needs, env, -⟩ := Settings.templateEndJob_ok made
  obtain ⟨-, buildKey, wellFormed⟩ := sound loaded found
  have sees : ∀ binding ∈ bindingsFor known member.component, result.Sees job binding.reference := by
    refine produced.sees_bindings fun id inside => ?_
    rw [needs]
    exact Settings.mem_addNeeds.mpr (.inr inside)
  have needsBuildJob : loaded.config.buildJob ∈ job.needs := by
    obtain ⟨own, listed, same⟩ := wellFormed.buildJobThere
    rw [needs]
    refine Settings.mem_addNeeds.mpr (.inl ?_)
    rw [(wellFormed.endJob endJob last).2, wellFormed.buildJob, ← same,
      ← wellFormed.jobs.named own listed]
    exact List.mem_map_of_mem listed
  refine ⟨rfl, ⟨versionReferences (bindingsFor known member.component) ++
    [ownReference member.component.name loaded.config.buildJob], ?_, ?_⟩, fun _ absent => nomatch absent⟩
  · rw [referenceEntries_append, referenceEntries_versionReferences, referenceEntries_singleton,
      OrderedMap.insertAll_append]
    exact env
  · rw [List.forall_mem_append]
    refine ⟨forall_versionReferences.mpr sees, fun pair inside => ?_⟩
    rw [List.mem_singleton.mp inside]
    exact builds.sees_version needsBuildJob

private theorem memberPlan_planned (loads : member.Loads templates component)
    (sound : member.Sound) (produced : Produced result settings known)
    (placed : ∀ planned ∈ (settings.memberPlan known member).jobs, planned.PlacedIn result) :
    List.Forall₂ (Request.PlannedFor result) (Request.ofMember templates component)
      (settings.memberPlan known member).jobs := by
  obtain ⟨part, isBuildJob, own⟩ := @Settings.buildJob_planned settings member known sound
  obtain ⟨buildJob, made, there⟩ := placed _ own
  cases made
  have builds : Workflow.Builds result settings member.component member.buildJob :=
    ⟨part, isBuildJob, there⟩
  unfold Request.ofMember Settings.memberPlan
  rw [loads.loaded, ← loads.own]
  cases found : member.template with
  | none => exact .cons (default_planned produced) .nil
  | some loaded =>
      unfold Member.buildJob at builds
      rw [found] at builds
      dsimp only at builds ⊢
      refine List.rel_append ?_ ?_
      · rw [List.forall₂_map_left_iff, List.forall₂_map_right_iff, List.forall₂_same]
        exact fun job listed => templateJob_planned produced sound found builds listed
      · rw [List.forall₂_map_left_iff, List.forall₂_map_right_iff, List.forall₂_same]
        intro endJob listed
        refine templateEndJob_planned produced sound found builds ?_
        have last := Option.mem_toList.mp listed
        split at last
        · cases last
        · exact last

private theorem memberJobs_planned
    (all : List.Forall₂ (Member.Loads templates) components members)
    (sound : ∀ member ∈ members, member.Sound) (produced : Produced result settings known)
    (placed : ∀ planned ∈ settings.memberJobs known members, planned.PlacedIn result) :
    List.Forall₂ (Request.PlannedFor result) (components.flatMap (Request.ofMember templates))
      (settings.memberJobs known members) := by
  induction all generalizing known with
  | nil => exact .nil
  | @cons component member _ rest loads _ ih =>
      rw [Settings.memberJobs, List.forall_mem_append] at placed
      rw [List.forall_mem_cons] at sound
      rw [List.flatMap_cons, Settings.memberJobs]
      exact List.rel_append (memberPlan_planned loads sound.1 produced placed.1)
        (ih sound.2 (produced.grown sound.1 placed.1) placed.2)

/-! ### The jobs that end a workflow -/

private theorem endJob_planned {there : List String} {endJob : Config.EndJob}
    (produced : Produced result settings known)
    (needed : ∀ name id, known.get? name = some id → id ∈ there) :
    (Request.ofEndJob endJob).PlannedFor result
      { id := endJobId, job := settings.endJob known there endJob } := by
  intro job made
  obtain ⟨steps, -, needs, env, -⟩ := Settings.endJob_ok made
  refine ⟨rfl, ⟨known.entries.map fun pair => ownReference pair.1 pair.2, ?_, ?_⟩,
    fun _ absent => nomatch absent⟩
  · dsimp only
    rw [env]
    unfold referenceEntries allVersionEntries
    rw [List.map_map]
    rfl
  · rw [List.forall_mem_map]
    rintro ⟨name, id⟩ listed
    have found := OrderedMap.get?_eq_some_iff.mpr listed
    obtain ⟨component, rfl, builds⟩ := produced name id found
    refine builds.sees_version ?_
    rw [needs]
    exact needed _ id found

private theorem reportJob_planned {there : List String} {outcome : Outcome}
    (produced : Produced result settings known)
    (needed : ∀ name id, known.get? name = some id → id ∈ there)
    (status : ∀ job : Job, statusReadJobId ∈ job.needs →
      result.Sees job { job := statusReadJobId, output := statusOutput })
    (statusNeeded : statusReadJobId ∈ there) :
    (Request.plain outcome.jobId).PlannedFor result
      { id := outcome.jobId, job := .ok (settings.reportJob known there outcome) } := by
  intro job made
  cases made
  refine ⟨rfl, ⟨(known.entries.map fun pair => ((CommitVariable.ofJob pair.2).variableName,
    ({ job := pair.2, output := revisionOutput } : Reference))) ++
    [(statusTextVariable, { job := statusReadJobId, output := statusOutput })], ?_, ?_⟩,
    fun _ absent => nomatch absent⟩
  · rw [referenceEntries_append, OrderedMap.insertAll_append]
    change (OrderedMap.insert (OrderedMap.ofList _) _ _) = _
    unfold referenceEntries allCommits
    rw [List.map_map, List.map_map]
    rfl
  · rw [List.forall_mem_append, List.forall_mem_map]
    refine ⟨?_, fun pair own => ?_⟩
    · rintro ⟨name, id⟩ listed
      have found := OrderedMap.get?_eq_some_iff.mpr listed
      obtain ⟨component, -, builds⟩ := produced name id found
      exact builds.sees_revision (needed _ id found)
    · rw [List.mem_singleton.mp own]
      exact status _ statusNeeded

private theorem plain_planned {id : String} {job : Job} (empty : job.env = .empty) :
    (Request.plain id).PlannedFor result { id, job := .ok job } := by
  intro other made
  cases made
  exact ⟨rfl, ⟨[], empty, fun _ absent => nomatch absent⟩, fun _ absent => nomatch absent⟩

private theorem trailingJobs_planned {there : List String}
    (produced : Produced result settings known)
    (needed : ∀ name id, known.get? name = some id → id ∈ there)
    (placed : ∀ planned ∈ settings.trailingJobs known there, planned.PlacedIn result) :
    List.Forall₂ (Request.PlannedFor result)
      (settings.repository.endJob.toList.map Request.ofEndJob ++ [.plain statusReadJobId] ++
        (if settings.repository.issueReporting.isEnabled then
          [Outcome.success, Outcome.failure].map fun outcome => .plain outcome.jobId else []) ++
        [.plain cleanupJobId])
      (settings.trailingJobs known there) := by
  have status : ∀ job : Job, statusReadJobId ∈ job.needs →
      result.Sees job { job := statusReadJobId, output := statusOutput } := by
    intro job needs
    obtain ⟨producer, made, found⟩ := placed
      { id := statusReadJobId
        job := .ok (settings.statusReadJob
          (there ++ (settings.endJobs known there).map PlannedJob.id)) } (by simp [Settings.trailingJobs])
    cases made
    exact ⟨needs, _, found, OrderedMap.mem_keys_insert.mpr (.inr rfl)⟩
  unfold Settings.trailingJobs
  refine List.rel_append (List.rel_append (List.rel_append ?_ ?_) ?_) ?_
  · unfold Settings.endJobs
    rw [List.forall₂_map_left_iff, List.forall₂_map_right_iff, List.forall₂_same]
    exact fun endJob _ => endJob_planned produced needed
  · exact .cons (plain_planned rfl) .nil
  · unfold Settings.reportJobs
    split
    · rw [List.forall₂_map_left_iff, List.forall₂_map_right_iff, List.forall₂_same]
      intro outcome _
      refine reportJob_planned produced (fun name id found => ?_) status ?_
      · exact List.mem_append_left _ (List.mem_append_left _ (needed name id found))
      · exact List.mem_append_right _ (List.mem_singleton.mpr rfl)
    · exact .nil
  · exact .cons (plain_planned rfl) .nil

/-- In a compiled workflow every job is what the configuration asks for, and every reference that the
compilation writes into it is one that the job sees. -/
theorem references_are_seen (reads : templates.ReadsTexts)
    (done : workflow trigger repository templates options = .ok result) :
    List.Forall₂ (Request.MetBy result) (Request.all repository templates trigger.components)
      result.jobs.entries := by
  obtain ⟨members, all, made⟩ := workflow_ok done
  have sound := sound_of_loads reads all
  have placed := placed_of_makes made
  refine forall₂_of_planned ?_ made
  unfold Settings.plannedJobs at placed ⊢
  simp only [List.forall_mem_append] at placed
  obtain ⟨⟨-, jobs⟩, trailing⟩ := placed
  have anchored := Settings.anchored_cancel.grownBy sound
  refine List.rel_append (List.rel_append (.cons (plain_planned rfl) .nil) ?_) ?_
  · exact memberJobs_planned all sound produced_empty jobs
  · refine trailingJobs_planned (produced_empty.grownBy sound jobs) (fun name id found => ?_) trailing
    rw [List.map_append, Settings.ids_memberJobs]
    exact anchored.known name id found

/-- A component with options of its own, and another one that depends on it. -/
def sampleTrigger : Config.Trigger :=
  { name := "nightly"
    env := .empty
    components := [
      { name := "core-api", org := "org", branch := "main", mavenOpts := some "-DskipTests"
        debug := false, javaVersion := none, dependencies := [] },
      { name := "app", org := "org", branch := "main", mavenOpts := none
        debug := false, javaVersion := none
        dependencies := [{ name := "core-api", property := "version.core.api" }] }] }

/-- A template that sets the variable of the dependency itself. -/
def sampleTemplates : MemoryTemplates :=
  .ofList [("app",
    "build-job: jar\njobs:\n  jar:\n    env:\n      version_core_api: none\n" ++
    "    run:\n    - mvn: install\n  test:\n    needs: [jar]\n    run:\n    - shell: ls\n" ++
    "    - mvn: verify\nend-job:\n  steps:\n  - run: ls\n")]

theorem sample_compiles : ∃ result,
    workflow sampleTrigger .default sampleTemplates.load (.ofBranch "side" 1) = .ok result :=
  except_exists_ok (by decide +kernel)

theorem references_of_sample_are_seen : sampleTemplates.load.ReadsTexts ∧
    ∃ result, workflow sampleTrigger .default sampleTemplates.load (.ofBranch "side" 1) = .ok result ∧
      List.Forall₂ (Request.MetBy result)
        (Request.all .default sampleTemplates.load sampleTrigger.components) result.jobs.entries := by
  have reads := MemoryTemplates.readsTexts sampleTemplates
  obtain ⟨result, done⟩ := sample_compiles
  exact ⟨reads, result, done, references_are_seen reads done⟩

end Compile

end CrossBuild
