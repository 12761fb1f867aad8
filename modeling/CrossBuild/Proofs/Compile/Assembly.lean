/-
The list of jobs a workflow is assembled from.

A compilation reads templates on its way, plans the jobs of one component after the other and puts
them into a graph. Here the same jobs are listed at once, as a function of the components with their
templates: compiling comes down to inserting that list. What each job needs comes before it in the
list, so only a repeated identifier or a step that cannot be read stands in the way.
-/

import CrossBuild.Compile.TemplateDirectory
import CrossBuild.Proofs.Config.Templates
import CrossBuild.Proofs.Workflow.Ordering

namespace CrossBuild.Compile

open Config (Component)
open Runs

/-- Every template of the source was read from a text. -/
def TemplateSource.ReadsTexts (templates : TemplateSource) : Prop :=
  ∀ component loaded, templates component = .ok (some loaded) → ∃ document text,
    Config.readText (Config.Template.read component) document text = .ok loaded.config

theorem MemoryTemplates.readsTexts (templates : MemoryTemplates) : templates.load.ReadsTexts := by
  intro component loaded found
  unfold MemoryTemplates.load at found
  split at found
  · cases found
  · rename_i text _
    split at found
    · rename_i config read
      cases found
      exact ⟨_, text, read⟩
    · cases found

theorem TemplateDirectory.readsTexts (directory : TemplateDirectory) (disk : Files.Disk) :
    TemplateSource.ReadsTexts (directory.load disk) := by
  intro component loaded found
  unfold load at found
  split at found
  · cases found
  · split at found
    · rename_i config read
      cases found
      unfold Config.Template.load Config.loadWith at read
      split at read
      · exact ⟨_, _, read⟩
      · cases read
    · cases found

/-- A component with its template, if it has one. -/
structure Member where
  component : Component
  template : Option LoadedTemplate

/-- The identifier of the job that builds the component. -/
def Member.buildJob (member : Member) : String :=
  match member.template with
  | none => Settings.defaultJobId member.component
  | some loaded => loaded.config.buildJob

/-- A member is a component as it is compiled: its template is the one that was loaded, and it has
options of its own only without one. -/
structure Member.Loads (templates : TemplateSource) (component : Component) (member : Member) :
    Prop where
  own : member.component = component
  loaded : templates component.name = .ok member.template
  noOptions : member.template.isSome → component.mavenOpts = none

/-- The template of a member is well formed. -/
def Member.Sound (member : Member) : Prop :=
  ∀ loaded, member.template = some loaded →
    loaded.config.component = member.component.name ∧ ∃ buildKey, loaded.config.WellFormed buildKey

theorem Member.Loads.sound {templates : TemplateSource} {component : Component} {member : Member}
    (reads : templates.ReadsTexts) (loads : member.Loads templates component) : member.Sound := by
  intro loaded found
  have source := loads.loaded
  rw [found] at source
  obtain ⟨document, text, read⟩ := reads _ _ source
  rw [loads.own]
  exact Config.Template.readText_ok read

theorem sound_of_loads {templates : TemplateSource} {components : List Component}
    {members : List Member} (reads : templates.ReadsTexts)
    (all : List.Forall₂ (Member.Loads templates) components members) :
    ∀ member ∈ members, member.Sound := by
  induction all with
  | nil => exact fun _ absent => nomatch absent
  | cons loads _ ih => exact List.forall_mem_cons.mpr ⟨loads.sound reads, ih⟩

/-- The jobs of a template that are planned: without the build job's siblings in debug mode. -/
def Member.templateJobs (member : Member) (loaded : LoadedTemplate) : List Config.TemplateJob :=
  if member.component.debug then loaded.config.jobs.filter Config.TemplateJob.isBuildJob
  else loaded.config.jobs

def Member.templateEndJob? (member : Member) (loaded : LoadedTemplate) :
    Option Config.TemplateEndJob :=
  if member.component.debug then none else loaded.config.endJob

/-- The identifiers of the jobs of a member. -/
def Member.jobIds (member : Member) : List String :=
  match member.template with
  | none => [Settings.defaultJobId member.component]
  | some loaded =>
      (member.templateJobs loaded).map Config.TemplateJob.name ++
        (member.templateEndJob? loaded).toList.map Config.TemplateEndJob.name

/-- Build jobs that are known once members are compiled. -/
def memberEntries (members : List Member) : List (String × String) :=
  members.map fun member => (member.component.name, member.buildJob)

namespace Settings

variable (settings : Settings)

/-- The jobs of a member where some build jobs are known. -/
def memberPlan (known : BuildJobs) (member : Member) : ComponentPlan :=
  let bindings := bindingsFor known member.component
  match member.template with
  | none => settings.defaultPlan member.component bindings
  | some loaded => settings.templatePlan member.component loaded.config bindings

/-- The jobs of members one after the other. -/
def memberJobs (known : BuildJobs) : List Member → List PlannedJob
  | [] => []
  | member :: rest =>
      (settings.memberPlan known member).jobs ++
        memberJobs (known.insert member.component.name member.buildJob) rest

def endJobs (buildJobs : BuildJobs) (before : List String) : List PlannedJob :=
  settings.repository.endJob.toList.map fun endJob =>
    { id := endJobId
      job := settings.endJob buildJobs before endJob }

def reportJobs (buildJobs : BuildJobs) (before : List String) : List PlannedJob :=
  if settings.repository.issueReporting.isEnabled then
    [Outcome.success, Outcome.failure].map fun outcome =>
      { id := outcome.jobId
        job := .ok (settings.reportJob buildJobs before outcome) }
  else []

/-- The jobs that end a workflow, behind the jobs with the given identifiers. -/
def trailingJobs (buildJobs : BuildJobs) (before : List String) : List PlannedJob :=
  let ended := before ++ (settings.endJobs buildJobs before).map PlannedJob.id
  let read := ended ++ [statusReadJobId]
  let reported := read ++ (settings.reportJobs buildJobs read).map PlannedJob.id
  settings.endJobs buildJobs before ++
    [{ id := statusReadJobId, job := .ok (settings.statusReadJob ended) }] ++
    settings.reportJobs buildJobs read ++
    [{ id := cleanupJobId, job := .ok (settings.cleanupJob reported) }]

def cancelJobs : List PlannedJob :=
  [{ id := cancelJobId, job := .ok settings.cancelJob }]

/-- All jobs of a workflow in order. -/
def plannedJobs (members : List Member) : List PlannedJob :=
  let front := settings.cancelJobs ++ settings.memberJobs .empty members
  front ++ settings.trailingJobs (.ofList (memberEntries members)) (front.map PlannedJob.id)

end Settings

/-! ### Adding planned jobs -/

section AddJobs

variable {graph next : JobGraph} {planned front back : List PlannedJob} {id : String}
  {cause : Error}

theorem addJobs_append (graph : JobGraph) (front back : List PlannedJob) :
    addJobs graph (front ++ back) = (do addJobs (← addJobs graph front) back) := by
  induction front generalizing graph with
  | nil => rfl
  | cons first rest ih =>
      simp only [List.cons_append, addJobs, ih, bind_assoc]

theorem addJobs_append_ok_iff : addJobs graph (front ++ back) = .ok next ↔
    ∃ middle, addJobs graph front = .ok middle ∧ addJobs middle back = .ok next := by
  rw [addJobs_append]
  exact except_bind_ok_iff

theorem addJobs_single (graph : JobGraph) (first : PlannedJob) :
    addJobs graph [first] = (do addJob graph first.id (← first.job)) := by
  have last : addJobs graph [first] =
      first.job >>= fun job => addJob graph first.id job >>= pure := rfl
  rw [last]
  simp only [bind_pure]

theorem addJobs_made (graph : JobGraph) (id : String) (job : Job) :
    addJobs graph [{ id, job := .ok job }] = addJob graph id job :=
  addJobs_single graph { id, job := .ok job }

/-- A planned job was made. -/
def PlannedJob.Makes (planned : PlannedJob) (item : String × Job) : Prop :=
  planned.id = item.1 ∧ planned.job = .ok item.2

/-- Added jobs come last, under the identifiers that were planned. -/
theorem addJobs_ok (done : addJobs graph planned = .ok next) :
    ∃ items, List.Forall₂ PlannedJob.Makes planned items ∧
      next.jobs.entries = graph.jobs.entries ++ items := by
  induction planned generalizing graph with
  | nil =>
      cases done
      exact ⟨[], .nil, (List.append_nil _).symm⟩
  | cons first rest ih =>
      simp only [addJobs, except_bind_ok_iff, addJob_eq_ok_iff] at done
      obtain ⟨job, made, middle, inserted, done⟩ := done
      obtain ⟨items, all, whole⟩ := ih done
      refine ⟨(first.id, job) :: items, .cons ⟨rfl, made⟩ all, ?_⟩
      rw [whole, JobGraph.insert_ok inserted, List.append_assoc, List.singleton_append]

theorem ids_of_makes {items : List (String × Job)}
    (made : List.Forall₂ PlannedJob.Makes planned items) :
    items.map Prod.fst = planned.map PlannedJob.id := by
  induction made with
  | nil => rfl
  | cons first _ ih => rw [List.map_cons, List.map_cons, ih, first.1]

theorem jobNames_addJobs (done : addJobs graph planned = .ok next) :
    next.jobNames = graph.jobNames ++ planned.map PlannedJob.id := by
  obtain ⟨items, made, whole⟩ := addJobs_ok done
  unfold JobGraph.jobNames OrderedMap.keys
  rw [whole, List.map_append, ids_of_makes made]

/-- Every planned job needs only jobs that are there already, or planned before it. -/
def NeedsMet (there : List String) : List PlannedJob → Prop
  | [] => True
  | first :: rest =>
      (∀ job, first.job = .ok job → ∀ need ∈ job.needs, need ∈ there) ∧
        NeedsMet (there ++ [first.id]) rest

theorem needsMet_append {there : List String} : NeedsMet there (front ++ back) ↔
    NeedsMet there front ∧ NeedsMet (there ++ front.map PlannedJob.id) back := by
  induction front generalizing there with
  | nil => simp [NeedsMet]
  | cons first rest ih =>
      simp only [List.cons_append, NeedsMet, ih, List.map_cons, List.append_assoc,
        and_assoc, List.cons_append, List.nil_append]

theorem needsMet_single {there : List String} {job : Job}
    (met : ∀ need ∈ job.needs, need ∈ there) : NeedsMet there [{ id, job := .ok job }] := by
  refine ⟨fun other same => ?_, trivial⟩
  cases same
  exact met

/-- Jobs whose needs are met are added when all can be made and no identifier comes twice. -/
theorem addJobs_succeeds_iff (met : NeedsMet graph.jobNames planned) :
    (∃ next, addJobs graph planned = .ok next) ↔
      (∀ first ∈ planned, ∃ job, first.job = .ok job) ∧
        (graph.jobNames ++ planned.map PlannedJob.id).Nodup := by
  induction planned generalizing graph with
  | nil =>
      simp only [addJobs, Except.ok.injEq, exists_eq', List.not_mem_nil, false_implies, implies_true,
        List.map_nil, List.append_nil, true_and, true_iff]
      exact graph.jobs.keys_nodup
  | cons first rest ih =>
      have apart : (graph.jobNames ++ (first :: rest).map PlannedJob.id).Nodup ↔
          first.id ∉ graph.jobNames ∧ (graph.jobNames ++ [first.id] ++ rest.map PlannedJob.id).Nodup := by
        rw [List.map_cons, List.append_cons]
        refine ⟨fun distinct => ⟨fun member => ?_, distinct⟩, And.right⟩
        have start := (List.nodup_append.mp distinct).1
        exact (List.nodup_append.mp start).2.2 _ member _ (List.mem_singleton.mpr rfl) rfl
      have step : ∀ {job : Job} {middle : JobGraph}, graph.insert first.id job = .ok middle →
          middle.jobNames = graph.jobNames ++ [first.id] := by
        intro job middle inserted
        unfold JobGraph.jobNames OrderedMap.keys
        rw [JobGraph.insert_ok inserted, List.map_append, List.map_singleton]
      rw [apart, List.forall_mem_cons]
      simp only [addJobs, except_bind_ok_iff, addJob_eq_ok_iff]
      constructor
      · rintro ⟨next, job, made, middle, inserted, done⟩
        have names := step inserted
        obtain ⟨all, distinct⟩ := (ih (by rw [names]; exact met.2)).mp ⟨next, done⟩
        rw [names] at distinct
        exact ⟨⟨⟨job, made⟩, all⟩, (JobGraph.insert_eq_ok_iff.mp inserted).1, distinct⟩
      · rintro ⟨⟨⟨job, made⟩, all⟩, fresh, distinct⟩
        have inserted : graph.insert first.id job = .ok { jobs := graph.jobs.insert first.id job } :=
          JobGraph.insert_eq_ok_iff.mpr ⟨fresh, met.1 job made, rfl⟩
        have names := step inserted
        obtain ⟨next, done⟩ := (ih (by rw [names]; exact met.2)).mpr
          ⟨all, by rw [names]; exact distinct⟩
        exact ⟨next, job, made, _, inserted, done⟩

theorem addJobs_empty_succeeds_iff (met : NeedsMet [] planned) :
    (∃ next, addJobs .empty planned = .ok next) ↔
      (∀ first ∈ planned, ∃ job, first.job = .ok job) ∧ (planned.map PlannedJob.id).Nodup :=
  @addJobs_succeeds_iff .empty planned met

/-- Where needs are met, adding fails for a repeated identifier or a job that cannot be made. -/
theorem addJobs_error (met : NeedsMet graph.jobNames planned)
    (failed : addJobs graph planned = .error cause) :
    (∃ id, cause = .graph (.duplicateJob id)) ∨ ∃ first ∈ planned, first.job = .error cause := by
  induction planned generalizing graph with
  | nil => cases failed
  | cons first rest ih =>
      unfold addJobs at failed
      cases made : first.job with
      | error own =>
          rw [made] at failed
          cases failed
          exact .inr ⟨first, List.mem_cons_self, made⟩
      | ok job =>
          rw [made] at failed
          change (addJob graph first.id job >>= fun next => addJobs next rest) = _ at failed
          unfold addJob at failed
          cases inserted : graph.insert first.id job with
          | ok middle =>
              rw [inserted] at failed
              have names : middle.jobNames = graph.jobNames ++ [first.id] := by
                unfold JobGraph.jobNames OrderedMap.keys
                rw [JobGraph.insert_ok inserted, List.map_append, List.map_singleton]
              rcases ih (by rw [names]; exact met.2) failed with duplicate | ⟨other, member, own⟩
              · exact .inl duplicate
              · exact .inr ⟨other, List.mem_cons_of_mem _ member, own⟩
          | error refused =>
              rw [inserted] at failed
              cases failed
              left
              rcases JobGraph.insert_error_cases inserted with rfl | ⟨missing, rfl⟩
              · exact ⟨first.id, rfl⟩
              · exfalso
                obtain ⟨-, before, after, whole, absent, -⟩ :=
                  JobGraph.insert_eq_missing_iff.mp inserted
                exact absent (met.1 job made missing (by rw [whole]; simp))

/-- Needs are met when each job needs only what is there or planned before it. -/
theorem needsMet_of_split {there : List String}
    (met : ∀ before first after, planned = before ++ first :: after → ∀ job, first.job = .ok job →
      ∀ need ∈ job.needs, need ∈ there ∨ need ∈ before.map PlannedJob.id) :
    NeedsMet there planned := by
  induction planned generalizing there with
  | nil => trivial
  | cons first rest ih =>
      refine ⟨fun job made need member => ?_, ih fun before other after whole job made need member => ?_⟩
      · exact (met [] first rest rfl job made need member).resolve_right (by simp)
      · have given := met (first :: before) other after (by rw [whole]; rfl) job made need member
        rw [List.map_cons, List.mem_cons] at given
        rw [List.mem_append, List.mem_singleton, or_assoc]
        exact given

end AddJobs

/-! ### What a compilation adds -/

namespace Settings

variable {settings : Settings} {templates : TemplateSource} {component : Component}
  {progress final : Progress} {components : List Component} {members : List Member}
  {member : Member} {graph : JobGraph} {known : BuildJobs} {there : List String} {cause : Error}

theorem buildJob_memberPlan (known : BuildJobs) (member : Member) :
    (settings.memberPlan known member).buildJob = member.buildJob := by
  unfold memberPlan Member.buildJob
  cases member.template <;> rfl

theorem plan_ok_iff {template : Option LoadedTemplate} {plan : ComponentPlan} :
    settings.plan component template (bindingsFor known component) = .ok plan ↔
      (template.isSome → component.mavenOpts = none) ∧
        plan = settings.memberPlan known ⟨component, template⟩ := by
  unfold Settings.plan memberPlan
  cases template with
  | none => simp [eq_comm]
  | some loaded =>
      cases options : component.mavenOpts with
      | none => simp [eq_comm]
      | some text => simp

/-- Compiling a component adds the jobs of a member. -/
theorem addComponent_ok_iff :
    settings.addComponent templates progress component = .ok final ↔
      ∃ member : Member, member.Loads templates component ∧
        addJobs progress.graph (settings.memberPlan progress.buildJobs member).jobs =
          .ok final.graph ∧
        final.buildJobs = progress.buildJobs.insert member.component.name member.buildJob := by
  unfold addComponent
  simp only [except_bind_ok_iff, plan_ok_iff]
  constructor
  · rintro ⟨template, loaded, plan, ⟨noOptions, rfl⟩, graph, added, same⟩
    cases same
    refine ⟨⟨component, template⟩, ⟨rfl, loaded, noOptions⟩, added, ?_⟩
    rw [buildJob_memberPlan]
  · rintro ⟨⟨own, template⟩, ⟨rfl, loaded, noOptions⟩, added, same⟩
    obtain ⟨graph, buildJobs⟩ := final
    refine ⟨template, loaded, _, ⟨noOptions, rfl⟩, graph, added, ?_⟩
    rw [buildJob_memberPlan]
    dsimp only at same
    rw [same]
    rfl

theorem addComponents_ok_iff :
    settings.addComponents templates progress components = .ok final ↔
      ∃ members, List.Forall₂ (Member.Loads templates) components members ∧
        addJobs progress.graph (settings.memberJobs progress.buildJobs members) =
          .ok final.graph ∧
        final.buildJobs = progress.buildJobs.insertAll (memberEntries members) := by
  induction components generalizing progress with
  | nil =>
      unfold addComponents
      constructor
      · intro done
        cases done
        exact ⟨[], .nil, rfl, rfl⟩
      · rintro ⟨members, all, done, same⟩
        cases all
        obtain ⟨graph, buildJobs⟩ := final
        obtain ⟨start, known⟩ := progress
        cases done
        cases same
        rfl
  | cons component rest ih =>
      unfold addComponents
      simp only [except_bind_ok_iff, addComponent_ok_iff, ih]
      constructor
      · rintro ⟨middle, ⟨member, loads, added, same⟩, members, all, done, last⟩
        refine ⟨member :: members, .cons loads all, ?_, ?_⟩
        · rw [memberJobs, addJobs_append_ok_iff]
          rw [same] at done
          exact ⟨_, added, done⟩
        · rw [last, same]
          rfl
      · rintro ⟨members, all, done, last⟩
        cases all with
        | @cons _ member _ members loads all =>
            rw [memberJobs, addJobs_append_ok_iff] at done
            obtain ⟨middle, added, done⟩ := done
            exact ⟨⟨middle, _⟩, ⟨member, loads, added, rfl⟩, members, all, done, last⟩

private theorem addEndJob_eq : settings.addEndJob progress =
    addJobs progress.graph (settings.endJobs progress.buildJobs progress.graph.jobNames) := by
  unfold addEndJob endJobs
  cases settings.repository.endJob with
  | none => rfl
  | some endJob =>
      exact (addJobs_single progress.graph ⟨endJobId, settings.endJob progress.buildJobs
        progress.graph.jobNames endJob⟩).symm

private theorem addReports_eq : settings.addReports known graph =
    addJobs graph (settings.reportJobs known graph.jobNames) := by
  unfold addReports reportJobs
  split
  · rw [List.map_cons, addJobs]
    simp only [List.map_cons, List.map_nil, addJobs_single]
    rfl
  · rfl

/-- The trailing jobs are planned behind the identifiers that are there before. -/
theorem addTrailing_eq : settings.addTrailing progress =
    addJobs progress.graph
      (settings.trailingJobs progress.buildJobs progress.graph.jobNames) := by
  unfold addTrailing trailingJobs
  simp only [addJobs_append, bind_assoc, addEndJob_eq, addReports_eq, addJobs_single]
  cases endJobs : addJobs progress.graph
      (settings.endJobs progress.buildJobs progress.graph.jobNames) with
  | error cause => rfl
  | ok ended =>
      rw [← jobNames_addJobs endJobs]
      change (addJob ended _ _ >>= _) = (addJob ended _ _ >>= _)
      cases statusJob : addJob ended statusReadJobId (settings.statusReadJob ended.jobNames) with
      | error cause => rfl
      | ok read =>
          have names : read.jobNames = ended.jobNames ++ [statusReadJobId] := by
            rw [← addJobs_made] at statusJob
            exact jobNames_addJobs statusJob
          rw [← names]
          change (addJobs read _ >>= _) = (addJobs read _ >>= _)
          cases reports : addJobs read
              (settings.reportJobs progress.buildJobs read.jobNames) with
          | error cause => rfl
          | ok reported =>
              rw [← jobNames_addJobs reports]
              rfl

/-! ### Needs are met -/

/-- Build jobs that are known are there, and so is the job that all build jobs wait for. -/
structure Anchored (there : List String) (known : BuildJobs) : Prop where
  cancel : cancelJobId ∈ there
  known : ∀ name job, known.get? name = some job → job ∈ there

theorem buildJob_of_mem_bindingsFor {binding : Binding}
    (member : binding ∈ bindingsFor known component) :
    ∃ dependency ∈ component.dependencies, known.get? dependency.name = some binding.buildJob ∧
      binding = .ofDependency dependency binding.buildJob := by
  obtain ⟨dependency, listed, found⟩ := List.mem_filterMap.mp member
  obtain ⟨job, there, rfl⟩ := Option.map_eq_some_iff.mp found
  exact ⟨dependency, listed, there, rfl⟩

theorem mem_addNeeds {needs names : List String} {need : String} :
    need ∈ addNeeds needs names ↔ need ∈ needs ∨ need ∈ names := by
  unfold addNeeds
  induction names generalizing needs with
  | nil => simp
  | cons name rest ih =>
      rw [List.foldl_cons, ih, List.mem_cons]
      split
      · rename_i listed
        rw [List.contains_iff_mem] at listed
        constructor
        · exact Or.imp_right .inr
        · rintro (given | rfl | later)
          · exact .inl given
          · exact .inl listed
          · exact .inr later
      · rw [List.mem_append, List.mem_singleton, or_assoc]

theorem templateEndJob_ok {buildJob : String} {bindings : List Binding}
    {endJob : Config.TemplateEndJob} {job : Job}
    (made : settings.templateEndJob component buildJob bindings endJob = .ok job) :
    ∃ steps, userSteps endJob.name endJob.steps = .ok steps ∧
      job.needs = addNeeds endJob.needs (bindings.map Binding.buildJob) ∧
      job.env = (endJob.env.insertAll (versionEntries bindings)).insertAll
        [versionEntry component.name buildJob] ∧
      job.outputs = .empty ∧
      job.steps =
        settings.setupSteps component (settings.javaVersion component endJob.javaVersion) true ++
          steps := by
  unfold templateEndJob at made
  cases read : userSteps endJob.name endJob.steps with
  | error cause =>
      rw [read] at made
      cases made
  | ok steps =>
      rw [read] at made
      cases made
      exact ⟨steps, rfl, rfl, rfl, rfl, rfl⟩

theorem endJob_ok {buildJobs : BuildJobs} {needs : List String} {endJob : Config.EndJob} {job : Job}
    (made : settings.endJob buildJobs needs endJob = .ok job) :
    ∃ steps, userSteps endJobId endJob.steps = .ok steps ∧ job.needs = needs ∧
      job.env = (endJob.env.insertAll (allVersionEntries buildJobs)).insert statusFileVariable
        (expression "github.workspace" ++ "/" ++ statusFile) ∧
      job.outputs = .empty ∧
      ∃ front, job.steps = front ++
        [gitRebase toolsDirectory, settings.overlayStep, makeDirectory statusDirectory] ++ steps ++
        [gitCommitAndPush toolsDirectory "Store the end job status text" .always] := by
  unfold Settings.endJob at made
  cases read : userSteps endJobId endJob.steps with
  | error cause =>
      rw [read] at made
      cases made
  | ok steps =>
      rw [read] at made
      cases made
      exact ⟨steps, rfl, rfl, rfl, rfl, [_, _, _], rfl⟩

theorem ids_endJobs (known : BuildJobs) (before : List String) :
    (settings.endJobs known before).map PlannedJob.id =
      if settings.repository.endJob.isSome then ["end-job"] else [] := by
  unfold endJobs
  cases settings.repository.endJob with
  | none => rfl
  | some endJob => rfl

theorem ids_reportJobs (known : BuildJobs) (before : List String) :
    (settings.reportJobs known before).map PlannedJob.id =
      if settings.repository.issueReporting.isEnabled then
        ["issue-report-success", "issue-report-failure"] else [] := by
  unfold reportJobs
  split <;> rfl

theorem ids_memberPlan (known : BuildJobs) (member : Member) :
    (settings.memberPlan known member).jobs.map PlannedJob.id = member.jobIds := by
  unfold memberPlan Member.jobIds
  cases member.template with
  | none => rfl
  | some loaded =>
      change (_ ++ _ : List PlannedJob).map PlannedJob.id = _
      rw [List.map_append, List.map_map, List.map_map]
      rfl

theorem ids_memberJobs (known : BuildJobs) (members : List Member) :
    (settings.memberJobs known members).map PlannedJob.id = members.flatMap Member.jobIds := by
  induction members generalizing known with
  | nil => rfl
  | cons member rest ih =>
      rw [memberJobs, List.map_append, ids_memberPlan, ih, List.flatMap_cons]

theorem mem_templateJobs {loaded : LoadedTemplate} {job : Config.TemplateJob} :
    job ∈ member.templateJobs loaded ↔
      job ∈ loaded.config.jobs ∧ (member.component.debug = true → job.isBuildJob = true) := by
  unfold Member.templateJobs
  cases member.component.debug with
  | true => simp [List.mem_filter]
  | false => simp

/-- The build job of a member is one of its jobs. -/
theorem buildJob_mem_jobIds (sound : Member.Sound member) : member.buildJob ∈ member.jobIds := by
  unfold Member.buildJob Member.jobIds
  cases found : member.template with
  | none => exact List.mem_singleton.mpr rfl
  | some loaded =>
      obtain ⟨-, buildKey, wellFormed⟩ := sound loaded found
      obtain ⟨job, listed, own⟩ := wellFormed.buildJobThere
      refine List.mem_append_left _ (List.mem_map.mpr ⟨job, mem_templateJobs.mpr ⟨listed, ?_⟩, ?_⟩)
      · intro _
        rw [wellFormed.jobs.builds job listed, decide_eq_true_eq]
        exact own
      · rw [wellFormed.jobs.named job listed, own]
        exact wellFormed.buildJob.symm

theorem needs_templateJob {buildJob need : String} {bindings : List Binding}
    {job : Config.TemplateJob}
    (member : need ∈ (settings.templateJob component buildJob bindings job).needs) :
    need = cancelJobId ∧ job.isBuildJob = true ∨ need ∈ bindings.map Binding.buildJob ∨
      component.debug = false ∧ need ∈ job.needs := by
  change need ∈ (if job.isBuildJob then [cancelJobId] else []) ++ bindings.map Binding.buildJob ++
    (if component.debug then [] else job.needs) at member
  rw [List.mem_append, List.mem_append, or_assoc] at member
  rcases member with cancel | bound | sibling
  · split at cancel
    · rename_i builds
      exact .inl ⟨List.mem_singleton.mp cancel, builds⟩
    · cases cancel
  · exact .inr (.inl bound)
  · split at sibling
    · cases sibling
    · rename_i noDebug
      exact .inr (.inr ⟨Bool.eq_false_iff.mpr noDebug, sibling⟩)

theorem Anchored.bound (anchored : Anchored there known) {need : String}
    (bound : need ∈ (bindingsFor known component).map Binding.buildJob) : need ∈ there := by
  obtain ⟨binding, member, rfl⟩ := List.mem_map.mp bound
  obtain ⟨dependency, -, found, -⟩ := buildJob_of_mem_bindingsFor member
  exact anchored.known _ _ found

/-- The jobs of a member need only jobs that are there, or each other in order. -/
theorem needsMet_memberPlan (sound : Member.Sound member)
    (anchored : Anchored there known) :
    NeedsMet there (settings.memberPlan known member).jobs := by
  unfold memberPlan
  cases found : member.template with
  | none =>
      refine needsMet_single fun need inside => ?_
      rcases List.mem_cons.mp inside with rfl | bound
      · exact anchored.cancel
      · exact anchored.bound bound
  | some loaded =>
      obtain ⟨-, buildKey, wellFormed⟩ := sound loaded found
      change NeedsMet there ((member.templateJobs loaded).map _ ++
        (member.templateEndJob? loaded).toList.map _)
      rw [needsMet_append]
      constructor
      · refine needsMet_of_split fun before first after whole job made need inside => ?_
        obtain ⟨front, back, split, rfl, rest⟩ := List.map_eq_append_iff.mp whole
        obtain ⟨own, later, rfl, rfl, rfl⟩ := List.map_eq_cons_iff.mp rest
        cases made
        rcases needs_templateJob inside with ⟨rfl, -⟩ | bound | ⟨noDebug, sibling⟩
        · exact .inl anchored.cancel
        · exact .inl (anchored.bound bound)
        · right
          unfold Member.templateJobs at split
          rw [noDebug] at split
          rw [List.map_map]
          exact wellFormed.jobs.needsEarlier front own later split need sibling
      · unfold Member.templateEndJob? Member.templateJobs
        cases noDebug : member.component.debug with
        | true => trivial
        | false =>
            cases last : loaded.config.endJob with
            | none => trivial
            | some endJob =>
                refine ⟨fun job made need inside => ?_, trivial⟩
                obtain ⟨-, -, needs, -⟩ := templateEndJob_ok made
                rw [needs, mem_addNeeds] at inside
                rcases inside with own | bound
                · rw [(wellFormed.endJob endJob last).2] at own
                  refine List.mem_append_right _ ?_
                  rw [List.map_map]
                  exact own
                · exact List.mem_append_left _ (anchored.bound bound)

theorem Anchored.grown (anchored : Anchored there known) (sound : Member.Sound member) :
    Anchored (there ++ member.jobIds) (known.insert member.component.name member.buildJob) := by
  refine ⟨List.mem_append_left _ anchored.cancel, fun name job found => ?_⟩
  rw [OrderedMap.get?_insert] at found
  split at found
  · cases found
    exact List.mem_append_right _ (buildJob_mem_jobIds sound)
  · exact List.mem_append_left _ (anchored.known name job found)

theorem Anchored.grownBy (anchored : Anchored there known)
    (sound : ∀ member ∈ members, Member.Sound member) :
    Anchored (there ++ members.flatMap Member.jobIds)
      (known.insertAll (memberEntries members)) := by
  induction members generalizing there known with
  | nil =>
      rw [List.flatMap_nil, List.append_nil]
      exact anchored
  | cons member rest ih =>
      rw [List.forall_mem_cons] at sound
      rw [List.flatMap_cons, ← List.append_assoc]
      exact ih (anchored.grown sound.1) sound.2

theorem anchored_cancel : Anchored [cancelJobId] .empty := by
  refine ⟨List.mem_singleton.mpr rfl, fun name job absent => ?_⟩
  cases absent

private theorem needsMet_memberJobs (sound : ∀ member ∈ members, Member.Sound member)
    (anchored : Anchored there known) : NeedsMet there (settings.memberJobs known members) := by
  induction members generalizing there known with
  | nil => trivial
  | cons member rest ih =>
      have own := sound member List.mem_cons_self
      rw [memberJobs, needsMet_append, ids_memberPlan]
      exact ⟨needsMet_memberPlan own anchored,
        ih (fun other later => sound other (List.mem_cons_of_mem _ later)) (anchored.grown own)⟩

private theorem needsMet_endJobs (known : BuildJobs) (there : List String) :
    NeedsMet there (settings.endJobs known there) := by
  unfold endJobs
  cases settings.repository.endJob with
  | none => trivial
  | some endJob =>
      refine ⟨fun job made need inside => ?_, trivial⟩
      obtain ⟨-, -, needs, -⟩ := endJob_ok made
      rw [needs] at inside
      exact inside

private theorem needsMet_reportJobs (known : BuildJobs) (there : List String) :
    NeedsMet there (settings.reportJobs known there) := by
  unfold reportJobs
  split
  · refine ⟨fun job made need inside => ?_, fun job made need inside => ?_, trivial⟩
    · cases made
      exact inside
    · cases made
      exact List.mem_append_left _ inside
  · trivial

theorem needsMet_trailingJobs (known : BuildJobs) (there : List String) :
    NeedsMet there (settings.trailingJobs known there) := by
  unfold trailingJobs
  simp only [needsMet_append, List.map_append, List.map_cons, List.map_nil, ← List.append_assoc]
  exact ⟨⟨⟨needsMet_endJobs known there, needsMet_single fun _ => id⟩,
    needsMet_reportJobs known _⟩, needsMet_single fun _ => id⟩

/-- What is planned for a workflow needs only what is planned before. -/
theorem needsMet_plannedJobs (sound : ∀ member ∈ members, Member.Sound member) :
    NeedsMet [] (settings.plannedJobs members) := by
  unfold plannedJobs cancelJobs
  rw [needsMet_append, needsMet_append]
  refine ⟨⟨needsMet_single fun _ absent => (nomatch absent), ?_⟩, needsMet_trailingJobs _ _⟩
  exact needsMet_memberJobs sound anchored_cancel

/-- All jobs of a workflow come of inserting the planned jobs of its members. -/
theorem jobGraph_ok_iff : settings.jobGraph templates components = .ok graph ↔
    ∃ members, List.Forall₂ (Member.Loads templates) components members ∧
      addJobs .empty (settings.plannedJobs members) = .ok graph := by
  unfold jobGraph plannedJobs cancelJobs
  simp only [except_bind_ok_iff, addJobs_append_ok_iff, addJobs_made, addComponents_ok_iff,
    addTrailing_eq]
  constructor
  · rintro ⟨start, first, progress, ⟨members, all, added, same⟩, trailing⟩
    refine ⟨members, all, progress.graph, ⟨start, first, added⟩, ?_⟩
    have names := jobNames_addJobs added
    rw [← addJobs_made] at first
    rw [jobNames_addJobs first] at names
    rw [same, names] at trailing
    rw [List.map_append]
    exact trailing
  · rintro ⟨members, all, middle, ⟨start, first, added⟩, trailing⟩
    refine ⟨start, first, ⟨middle, _⟩, ⟨members, all, added, rfl⟩, ?_⟩
    have names := jobNames_addJobs added
    rw [← addJobs_made] at first
    rw [jobNames_addJobs first] at names
    rw [names]
    rw [List.map_append] at trailing
    exact trailing

end Settings

end CrossBuild.Compile
