/-
When a workflow comes of the configuration.

A compilation ends well exactly when the templates can be read, options and templates are not mixed,
the steps that users wrote are steps, and no identifier is generated twice. The identifiers are
listed here from the configuration alone, without compiling. A job that is needed is never missing.
-/

import CrossBuild.Proofs.Compile.Assembly

namespace CrossBuild.Compile

open Config (Component)
open Runs

/-! ### Steps that users wrote -/

section Steps

variable {context : String} {index : Nat} {values : List Yaml.Value}

private theorem userStepsFrom_cons {value : Yaml.Value} {step : Step}
    (accepted : Step.ofValue? value = some step) :
    userStepsFrom context index (value :: values) =
      (userStepsFrom context (index + 1) values).map fun steps => step :: steps := by
  rw [userStepsFrom, accepted]

private theorem userStepsFrom_succeeds_iff :
    (∃ steps, userStepsFrom context index values = .ok steps) ↔
      ∀ value ∈ values, (Step.ofValue? value).isSome := by
  induction values generalizing index with
  | nil => exact iff_of_true ⟨[], rfl⟩ fun _ absent => nomatch absent
  | cons value rest ih =>
      rw [List.forall_mem_cons, ← @ih (index + 1)]
      cases accepted : Step.ofValue? value with
      | none =>
          rw [userStepsFrom, accepted]
          simp
      | some step =>
          simp only [userStepsFrom_cons accepted, except_map_ok_iff, Option.isSome_some, true_and]
          constructor
          · rintro ⟨_, steps, read, -⟩
            exact ⟨steps, read⟩
          · rintro ⟨steps, read⟩
            exact ⟨_, steps, read, rfl⟩

private theorem userStepsFrom_error {cause : Error}
    (failed : userStepsFrom context index values = .error cause) :
    ∃ failing, cause = .invalidStep context failing := by
  induction values generalizing index with
  | nil => cases failed
  | cons value rest ih =>
      cases accepted : Step.ofValue? value with
      | none =>
          rw [userStepsFrom, accepted] at failed
          cases failed
          exact ⟨index, rfl⟩
      | some step =>
          rw [userStepsFrom_cons accepted, except_map_error_iff] at failed
          exact ih failed

theorem userSteps_succeeds_iff : (∃ steps, userSteps context values = .ok steps) ↔
    ∀ value ∈ values, (Step.ofValue? value).isSome :=
  userStepsFrom_succeeds_iff

theorem userSteps_error {cause : Error} (failed : userSteps context values = .error cause) :
    ∃ failing, cause = .invalidStep context failing :=
  userStepsFrom_error failed

theorem made_of_userSteps_iff {make : List Step → Job} :
    (∃ job, (userSteps context values).map make = .ok job) ↔
      ∀ value ∈ values, (Step.ofValue? value).isSome := by
  simp only [← @userSteps_succeeds_iff context values, except_map_ok_iff]
  constructor
  · rintro ⟨_, steps, read, -⟩
    exact ⟨steps, read⟩
  · rintro ⟨steps, read⟩
    exact ⟨_, steps, read, rfl⟩

end Steps

/-! ### Jobs that can be made -/

namespace Settings

variable {settings : Settings} {known : BuildJobs} {member : Member} {members : List Member}
  {there : List String}

private theorem memberPlan_made_iff :
    (∀ first ∈ (settings.memberPlan known member).jobs, ∃ job, first.job = .ok job) ↔
      ∀ loaded, member.template = some loaded → ∀ endJob, member.templateEndJob? loaded = some endJob →
        ∀ value ∈ endJob.steps, (Step.ofValue? value).isSome := by
  unfold memberPlan
  cases found : member.template with
  | none =>
      refine iff_of_true (fun first listed => ?_) fun loaded absent => (nomatch absent)
      rw [List.mem_singleton.mp listed]
      exact ⟨_, rfl⟩
  | some loaded =>
      change (∀ first ∈ (member.templateJobs loaded).map _ ++
        (member.templateEndJob? loaded).toList.map _, _) ↔ _
      constructor
      · intro made other same endJob last
        cases same
        refine made_of_userSteps_iff.mp (made _ (List.mem_append_right _ (List.mem_map.mpr
          ⟨endJob, Option.mem_toList.mpr last, rfl⟩)))
      · intro accepted first listed
        rcases List.mem_append.mp listed with own | last
        · obtain ⟨job, -, rfl⟩ := List.mem_map.mp own
          exact ⟨_, rfl⟩
        · obtain ⟨endJob, isLast, rfl⟩ := List.mem_map.mp last
          exact made_of_userSteps_iff.mpr (accepted loaded rfl endJob (Option.mem_toList.mp isLast))

private theorem memberJobs_made_iff :
    (∀ first ∈ settings.memberJobs known members, ∃ job, first.job = .ok job) ↔
      ∀ member ∈ members, ∀ loaded, member.template = some loaded →
        ∀ endJob, member.templateEndJob? loaded = some endJob →
          ∀ value ∈ endJob.steps, (Step.ofValue? value).isSome := by
  induction members generalizing known with
  | nil => exact iff_of_true (fun _ absent => nomatch absent) fun _ absent => nomatch absent
  | cons member rest ih =>
      rw [memberJobs, List.forall_mem_append, memberPlan_made_iff, ih, List.forall_mem_cons]

private theorem endJobs_made_iff :
    (∀ first ∈ settings.endJobs known there, ∃ job, first.job = .ok job) ↔
      ∀ endJob, settings.repository.endJob = some endJob →
        ∀ value ∈ endJob.steps, (Step.ofValue? value).isSome := by
  unfold endJobs
  cases settings.repository.endJob with
  | none => exact iff_of_true (fun _ absent => nomatch absent) fun _ absent => nomatch absent
  | some endJob =>
      constructor
      · intro made other same
        cases same
        exact made_of_userSteps_iff.mp (made _ (List.mem_singleton.mpr rfl))
      · intro accepted first listed
        rw [List.mem_singleton.mp listed]
        exact made_of_userSteps_iff.mpr (accepted endJob rfl)

private theorem mem_reportJobs {first : PlannedJob}
    (listed : first ∈ settings.reportJobs known there) :
    ∃ outcome, first = { id := Outcome.jobId outcome
                         job := .ok (settings.reportJob known there outcome) } := by
  unfold reportJobs at listed
  split at listed
  · obtain ⟨outcome, -, same⟩ := List.mem_map.mp listed
    exact ⟨outcome, same.symm⟩
  · cases listed

private theorem trailingJobs_made_iff :
    (∀ first ∈ settings.trailingJobs known there, ∃ job, first.job = .ok job) ↔
      ∀ endJob, settings.repository.endJob = some endJob →
        ∀ value ∈ endJob.steps, (Step.ofValue? value).isSome := by
  have reports : ∀ before, ∀ first ∈ settings.reportJobs known before,
      ∃ job, first.job = .ok job := by
    intro before first listed
    obtain ⟨outcome, rfl⟩ := mem_reportJobs listed
    exact ⟨_, rfl⟩
  unfold trailingJobs
  simp only [List.forall_mem_append, List.forall_mem_singleton, endJobs_made_iff, Except.ok.injEq,
    exists_eq', and_true]
  exact and_iff_left (reports _)

theorem plannedJobs_made_iff :
    (∀ first ∈ settings.plannedJobs members, ∃ job, first.job = .ok job) ↔
      (∀ endJob, settings.repository.endJob = some endJob →
        ∀ value ∈ endJob.steps, (Step.ofValue? value).isSome) ∧
      ∀ member ∈ members, ∀ loaded, member.template = some loaded →
        ∀ endJob, member.templateEndJob? loaded = some endJob →
          ∀ value ∈ endJob.steps, (Step.ofValue? value).isSome := by
  have cancel : ∀ first ∈ settings.cancelJobs, ∃ job, first.job = .ok job := by
    intro first listed
    rw [List.mem_singleton.mp listed]
    exact ⟨_, rfl⟩
  unfold plannedJobs
  rw [List.forall_mem_append, List.forall_mem_append, memberJobs_made_iff, trailingJobs_made_iff,
    and_comm]
  exact and_congr_right fun _ => and_iff_right cancel

/-! ### Causes of failure -/

private theorem memberPlan_error {cause : Error} {first : PlannedJob}
    (listed : first ∈ (settings.memberPlan known member).jobs) (failed : first.job = .error cause) :
    ∃ context index, cause = .invalidStep context index := by
  unfold memberPlan at listed
  cases found : member.template with
  | none =>
      rw [found] at listed
      rw [List.mem_singleton.mp listed] at failed
      cases failed
  | some loaded =>
      rw [found] at listed
      rcases List.mem_append.mp listed with own | last
      · obtain ⟨job, -, rfl⟩ := List.mem_map.mp own
        cases failed
      · obtain ⟨endJob, -, rfl⟩ := List.mem_map.mp last
        exact ⟨_, userSteps_error (except_map_error_iff.mp failed)⟩

private theorem trailingJobs_error {cause : Error} {first : PlannedJob}
    (listed : first ∈ settings.trailingJobs known there) (failed : first.job = .error cause) :
    ∃ context index, cause = .invalidStep context index := by
  unfold trailingJobs at listed
  simp only [List.mem_append, List.mem_singleton] at listed
  rcases listed with ((last | rfl) | report) | rfl
  · unfold endJobs at last
    obtain ⟨endJob, -, rfl⟩ := List.mem_map.mp last
    exact ⟨_, userSteps_error (except_map_error_iff.mp failed)⟩
  · cases failed
  · obtain ⟨outcome, rfl⟩ := mem_reportJobs report
    cases failed
  · cases failed

/-- Why a compilation may end: never for a job that is needed and missing. -/
inductive EndsFor (templates : TemplateSource) (components : List Component) : Error → Prop where
  | template {component : Component} {cause : Error} (listed : component ∈ components)
      (failed : templates component.name = .error cause) : EndsFor templates components cause
  | mixedOptions (component origin : String) :
      EndsFor templates components (.mavenOptsWithTemplate component origin)
  | invalidStep (context : String) (index : Nat) :
      EndsFor templates components (.invalidStep context index)
  | duplicateJob (id : String) :
      EndsFor templates components (.graph (.duplicateJob id))

variable {templates : TemplateSource} {components : List Component} {cause : Error}

private theorem EndsFor.later {component : Component} (ends : EndsFor templates components cause) :
    EndsFor templates (component :: components) cause := by
  cases ends with
  | template listed failed => exact .template (List.mem_cons_of_mem _ listed) failed
  | mixedOptions component origin => exact .mixedOptions component origin
  | invalidStep context index => exact .invalidStep context index
  | duplicateJob id => exact .duplicateJob id

private theorem plan_error {component : Component} {template : Option LoadedTemplate}
    {bindings : List Binding} (failed : settings.plan component template bindings = .error cause) :
    ∃ origin, cause = .mavenOptsWithTemplate component.name origin := by
  unfold Settings.plan at failed
  split at failed
  · cases failed
  · split at failed
    · cases failed
      exact ⟨_, rfl⟩
    · cases failed

private theorem addComponent_error {progress : Progress} {component : Component}
    (reads : templates.ReadsTexts) (anchored : Anchored progress.graph.jobNames progress.buildJobs)
    (failed : settings.addComponent templates progress component = .error cause) :
    EndsFor templates (component :: components) cause := by
  unfold addComponent at failed
  rw [except_bind_error_iff] at failed
  rcases failed with unread | ⟨template, loaded, failed⟩
  · exact .template List.mem_cons_self unread
  rw [except_bind_error_iff] at failed
  rcases failed with mixed | ⟨plan, planned, failed⟩
  · obtain ⟨origin, rfl⟩ := plan_error mixed
    exact .mixedOptions component.name origin
  rw [plan_ok_iff] at planned
  obtain ⟨noOptions, rfl⟩ := planned
  have loads : Member.Loads templates component ⟨component, template⟩ := ⟨rfl, loaded, noOptions⟩
  rw [except_bind_error_iff] at failed
  rcases failed with refused | ⟨graph, -, same⟩
  · rcases addJobs_error (needsMet_memberPlan (loads.sound reads) anchored) refused with
      ⟨id, rfl⟩ | ⟨first, listed, unmade⟩
    · exact .duplicateJob id
    · obtain ⟨context, index, rfl⟩ := memberPlan_error listed unmade
      exact .invalidStep context index
  · cases same

private theorem addComponents_error {progress : Progress} (reads : templates.ReadsTexts)
    (anchored : Anchored progress.graph.jobNames progress.buildJobs)
    (failed : settings.addComponents templates progress components = .error cause) :
    EndsFor templates components cause := by
  induction components generalizing progress with
  | nil => cases failed
  | cons component rest ih =>
      unfold addComponents at failed
      rw [except_bind_error_iff] at failed
      rcases failed with refused | ⟨next, added, failed⟩
      · exact addComponent_error reads anchored refused
      · obtain ⟨member, loads, jobs, known⟩ := addComponent_ok_iff.mp added
        refine (ih ?_ failed).later
        rw [jobNames_addJobs jobs, ids_memberPlan, known]
        exact anchored.grown (loads.sound reads)

/-- A compilation that fails does so for one of the reasons that are listed. -/
theorem jobGraph_error (reads : templates.ReadsTexts)
    (failed : settings.jobGraph templates components = .error cause) :
    EndsFor templates components cause := by
  unfold jobGraph at failed
  rw [except_bind_error_iff] at failed
  rcases failed with refused | ⟨start, first, failed⟩
  · cases refused
  have names : start.jobNames = [cancelJobId] := by
    rw [← addJobs_made] at first
    exact jobNames_addJobs first
  rw [except_bind_error_iff] at failed
  rcases failed with refused | ⟨progress, -, failed⟩
  · refine addComponents_error reads ⟨?_, fun name job found => ?_⟩ refused
    · rw [names]
      exact List.mem_singleton.mpr rfl
    · cases found
  · rw [addTrailing_eq] at failed
    rcases addJobs_error (needsMet_trailingJobs _ _) failed with ⟨id, rfl⟩ | ⟨first, listed, unmade⟩
    · exact .duplicateJob id
    · obtain ⟨context, index, rfl⟩ := trailingJobs_error listed unmade
      exact .invalidStep context index

end Settings

/-! ### The identifiers of a workflow -/

/-- The template that the source's text gives for a component. -/
def MemoryTemplates.templateOf? (templates : MemoryTemplates) (component : Component) :
    Option Config.Template :=
  (templates.get? component.name).bind fun text =>
    (Config.Template.ofText component.name text).toOption

/-- The identifiers of the jobs of a component: its build job alone without a template, and in debug
mode. -/
def componentIds (templates : MemoryTemplates) (component : Component) : List String :=
  match templates.templateOf? component with
  | none => [component.name ++ "-build"]
  | some template =>
      if component.debug then [template.buildJob]
      else template.jobs.map Config.TemplateJob.name ++
        template.endJob.toList.map Config.TemplateEndJob.name

/-- The identifiers of all jobs in order. -/
def generatedIds (repository : Config.Repository) (templates : MemoryTemplates)
    (components : List Component) : List String :=
  ["cancel-previous-runs"] ++ components.flatMap (componentIds templates) ++
    (if repository.endJob.isSome then ["end-job"] else []) ++ ["status-read"] ++
    (if repository.issueReporting.isEnabled then
      ["issue-report-success", "issue-report-failure"] else []) ++ ["cleanup"]

section Ids

variable {templates : MemoryTemplates} {component : Component} {components : List Component}
  {member : Member} {members : List Member}

/-- A source in memory gives a template when there is a text and the text can be read. -/
private theorem load_ok_iff {template : Option LoadedTemplate} :
    templates.load component.name = .ok template ↔
      (templates.get? component.name = none ∧ template = none) ∨
      ∃ text config, templates.get? component.name = some text ∧
        Config.Template.ofText component.name text = .ok config ∧
        template = some { origin := "in-memory template for '" ++ component.name ++ "'", config } := by
  unfold MemoryTemplates.load
  cases templates.get? component.name with
  | none => simp [eq_comm]
  | some text =>
      cases read : Config.Template.ofText component.name text with
      | error cause => simp [read]
      | ok config => simp [read, eq_comm]

private theorem load_error {cause : Error} (failed : templates.load component.name = .error cause) :
    ∃ document, cause = .config document := by
  unfold MemoryTemplates.load at failed
  split at failed
  · cases failed
  · split at failed
    · cases failed
    · cases failed
      exact ⟨_, rfl⟩

private theorem templateOf?_of_loads (loads : member.Loads templates.load component) :
    templates.templateOf? component = member.template.map LoadedTemplate.config := by
  unfold MemoryTemplates.templateOf?
  rcases load_ok_iff.mp loads.loaded with ⟨absent, same⟩ | ⟨text, config, found, read, same⟩
  · rw [absent, same]
    rfl
  · rw [found, same, Option.bind_some, read]
    rfl

private theorem jobIds_of_loads (loads : member.Loads templates.load component) :
    member.jobIds = componentIds templates component := by
  unfold Member.jobIds componentIds
  rw [templateOf?_of_loads loads]
  cases found : member.template with
  | none =>
      dsimp only [Option.map_none]
      rw [loads.own]
      rfl
  | some loaded =>
      dsimp only [Option.map_some]
      obtain ⟨-, buildKey, wellFormed⟩ := loads.sound templates.readsTexts loaded found
      unfold Member.templateJobs Member.templateEndJob?
      rw [loads.own]
      split
      · rw [wellFormed.names_buildJobs]
        rfl
      · rfl

private theorem jobIds_of_allLoad
    (all : List.Forall₂ (Member.Loads templates.load)
      components members) :
    members.flatMap Member.jobIds = components.flatMap (componentIds templates) := by
  induction all with
  | nil => rfl
  | cons loads _ ih => rw [List.flatMap_cons, List.flatMap_cons, ih, jobIds_of_loads loads]

theorem ids_plannedJobs {settings : Settings}
    (all : List.Forall₂ (Member.Loads templates.load)
      components members) :
    (settings.plannedJobs members).map PlannedJob.id =
      generatedIds settings.repository templates components := by
  unfold Settings.plannedJobs Settings.trailingJobs generatedIds
  simp only [List.map_append, Settings.ids_memberJobs, Settings.ids_endJobs,
    Settings.ids_reportJobs, jobIds_of_allLoad all, List.append_assoc]
  rfl

end Ids

/-- A configuration of which a workflow can be made. -/
structure Compilable (repository : Config.Repository) (templates : MemoryTemplates)
    (components : List Component) : Prop where
  templatesRead : ∀ component ∈ components, ∀ text, templates.get? component.name = some text →
    ∃ template, Config.Template.ofText component.name text = .ok template
  optionsApart : ∀ component ∈ components, (templates.get? component.name).isSome →
    component.mavenOpts = none
  endJobSteps : ∀ endJob, repository.endJob = some endJob →
    ∀ value ∈ endJob.steps, (Step.ofValue? value).isSome
  templateSteps : ∀ component ∈ components, component.debug = false → ∀ template endJob,
    templates.templateOf? component = some template → template.endJob = some endJob →
      ∀ value ∈ endJob.steps, (Step.ofValue? value).isSome
  idsDistinct : (generatedIds repository templates components).Nodup

section Success

variable {templates : MemoryTemplates} {component : Component} {components : List Component}
  {member : Member} {members : List Member}

private theorem exists_loads_iff :
    (∃ member, Member.Loads templates.load component member) ↔
      (∀ text, templates.get? component.name = some text →
        ∃ template, Config.Template.ofText component.name text = .ok template) ∧
      ((templates.get? component.name).isSome → component.mavenOpts = none) := by
  constructor
  · rintro ⟨member, loads⟩
    rcases load_ok_iff.mp loads.loaded with ⟨absent, -⟩ | ⟨text, config, found, read, same⟩
    · rw [absent]
      exact ⟨fun _ found => (nomatch found), fun there => nomatch there⟩
    · rw [found]
      refine ⟨fun other given => ?_, fun _ => loads.noOptions (by rw [same]; rfl)⟩
      cases given
      exact ⟨config, read⟩
  · rintro ⟨readable, apart⟩
    cases found : templates.get? component.name with
    | none => exact ⟨⟨component, none⟩, rfl, load_ok_iff.mpr (.inl ⟨found, rfl⟩), fun there => nomatch there⟩
    | some text =>
        obtain ⟨config, read⟩ := readable text found
        exact ⟨⟨component, some _⟩, rfl, load_ok_iff.mpr (.inr ⟨text, config, found, read, rfl⟩),
          fun _ => apart (by rw [found]; rfl)⟩

private theorem exists_allLoad_iff :
    (∃ members, List.Forall₂ (Member.Loads templates.load)
      components members) ↔
      ∀ component ∈ components, ∃ member, Member.Loads templates.load component member := by
  induction components with
  | nil => exact iff_of_true ⟨[], .nil⟩ fun _ absent => nomatch absent
  | cons component rest ih =>
      rw [List.forall_mem_cons, ← ih]
      constructor
      · rintro ⟨members, all⟩
        cases all with
        | cons loads all => exact ⟨⟨_, loads⟩, _, all⟩
      · rintro ⟨⟨member, loads⟩, members, all⟩
        exact ⟨member :: members, .cons loads all⟩

/-- The end jobs of the members are those of the templates outside debug mode. -/
private theorem endJobs_of_loads {accepted : Config.TemplateEndJob → Prop}
    (loads : member.Loads templates.load component) :
    (∀ loaded, member.template = some loaded → ∀ endJob, member.templateEndJob? loaded = some endJob →
      accepted endJob) ↔
      (component.debug = false → ∀ template endJob, templates.templateOf? component = some template →
        template.endJob = some endJob → accepted endJob) := by
  rw [templateOf?_of_loads loads]
  unfold Member.templateEndJob?
  rw [loads.own]
  cases member.template with
  | none => simp
  | some loaded =>
      cases component.debug with
      | true => simp
      | false =>
          simp only [Option.some.injEq, Option.map_some, forall_eq']
          constructor
          · rintro each _ _ endJob rfl last
            exact each endJob last
          · intro each endJob last
            exact each trivial _ endJob rfl last

private theorem endJobs_of_allLoad {accepted : Config.TemplateEndJob → Prop}
    (all : List.Forall₂ (Member.Loads templates.load)
      components members) :
    (∀ member ∈ members, ∀ loaded, member.template = some loaded →
      ∀ endJob, member.templateEndJob? loaded = some endJob → accepted endJob) ↔
      ∀ component ∈ components, component.debug = false → ∀ template endJob,
        templates.templateOf? component = some template → template.endJob = some endJob →
          accepted endJob := by
  induction all with
  | nil => exact iff_of_true (fun _ absent => nomatch absent) fun _ absent => nomatch absent
  | cons loads _ ih => rw [List.forall_mem_cons, List.forall_mem_cons, endJobs_of_loads loads, ih]

private theorem jobGraph_exists_iff {settings : Settings} :
    (∃ graph, settings.jobGraph templates.load components = .ok graph) ↔
      Compilable settings.repository templates components := by
  have assembled : (∃ graph, settings.jobGraph templates.load components = .ok graph) ↔
      ∃ members, List.Forall₂ (Member.Loads templates.load) components members ∧
        ∃ graph, addJobs .empty (settings.plannedJobs members) = .ok graph := by
    simp only [Settings.jobGraph_ok_iff]
    constructor
    · rintro ⟨graph, members, all, done⟩
      exact ⟨members, all, graph, done⟩
    · rintro ⟨members, all, graph, done⟩
      exact ⟨graph, members, all, done⟩
  rw [assembled]
  constructor
  · rintro ⟨members, all, added⟩
    obtain ⟨made, distinct⟩ := (addJobs_empty_succeeds_iff (Settings.needsMet_plannedJobs
      (sound_of_loads templates.readsTexts all))).mp added
    obtain ⟨endSteps, templateSteps⟩ := Settings.plannedJobs_made_iff.mp made
    have loads := exists_allLoad_iff.mp ⟨members, all⟩
    refine ⟨fun component listed => (exists_loads_iff.mp (loads component listed)).1,
      fun component listed => (exists_loads_iff.mp (loads component listed)).2, endSteps,
      (endJobs_of_allLoad all).mp templateSteps, ?_⟩
    rw [← ids_plannedJobs all]
    exact distinct
  · intro compilable
    obtain ⟨members, all⟩ := exists_allLoad_iff.mpr fun component listed =>
      exists_loads_iff.mpr ⟨compilable.templatesRead component listed,
        compilable.optionsApart component listed⟩
    refine ⟨members, all, (addJobs_empty_succeeds_iff (Settings.needsMet_plannedJobs
      (sound_of_loads templates.readsTexts all))).mpr ⟨Settings.plannedJobs_made_iff.mpr ⟨compilable.endJobSteps,
        (endJobs_of_allLoad all).mpr compilable.templateSteps⟩, ?_⟩⟩
    have distinct := compilable.idsDistinct
    rw [← ids_plannedJobs all] at distinct
    exact distinct

end Success

/-- A workflow comes of exactly the compilable configurations. Its jobs are then those that the
configuration lists, and otherwise the cause is a document, mixed options, a step or an identifier,
but never a job that is needed and missing. -/
theorem workflow_exists_iff_compilable (trigger : Config.Trigger) (repository : Config.Repository)
    (templates : MemoryTemplates) (options : Options) :
    ((∃ result, workflow trigger repository templates.load options = .ok result) ↔
      Compilable repository templates trigger.components) ∧
    (∀ result, workflow trigger repository templates.load options = .ok result →
      result.jobs.keys = generatedIds repository templates trigger.components) ∧
    ∀ cause, workflow trigger repository templates.load options = .error cause →
      (∃ document, cause = .config document) ∨
      (∃ component origin, cause = .mavenOptsWithTemplate component origin) ∨
      (∃ context index, cause = .invalidStep context index) ∨
      ∃ id, cause = .graph (.duplicateJob id) := by
  unfold workflow
  simp only [except_bind_ok_iff, except_bind_error_iff]
  refine ⟨?_, ?_, ?_⟩
  · rw [← @jobGraph_exists_iff templates trigger.components
      { workflowName := trigger.name, repository, options }]
    constructor
    · rintro ⟨_, graph, done, -⟩
      exact ⟨graph, done⟩
    · rintro ⟨graph, done⟩
      exact ⟨_, graph, done, rfl⟩
  · rintro result ⟨graph, done, same⟩
    cases same
    obtain ⟨members, all, added⟩ := Settings.jobGraph_ok_iff.mp done
    have names := jobNames_addJobs added
    rw [ids_plannedJobs all] at names
    exact names
  · rintro cause (failed | ⟨_, -, impossible⟩)
    · cases Settings.jobGraph_error templates.readsTexts failed with
      | template listed failed =>
          obtain ⟨document, rfl⟩ := load_error failed
          exact .inl ⟨document, rfl⟩
      | mixedOptions component origin => exact .inr (.inl ⟨component, origin, rfl⟩)
      | invalidStep context index => exact .inr (.inr (.inl ⟨context, index, rfl⟩))
      | duplicateJob id => exact .inr (.inr (.inr ⟨id, rfl⟩))
    · cases impossible

end CrossBuild.Compile
