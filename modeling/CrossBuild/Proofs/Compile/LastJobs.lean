/-
The jobs that end a workflow.

Each of them needs what stands before it in the workflow, in the order in which it stands there; the
two reports need the same jobs and so do not wait for each other. Which jobs stand there is said by
identifiers, and these are not reserved: a template may give one of them to a job of its component
where the repository does not use it. What the scripts of the last jobs do is not looked at here.
-/

import CrossBuild.Proofs.Compile.Locality
import CrossBuild.Proofs.Config.Triggers

namespace CrossBuild.Compile

open Config (Component)
open Runs

variable {trigger : Config.Trigger} {repository : Config.Repository} {templates : TemplateSource}
  {options : Options} {result : Workflow} {settings : Settings} {components : List Component}
  {members : List Member} {known : BuildJobs} {before : List String}
  {front ended reported items : List (String × Job)}

/-! ### What is planned last -/

def frontIds (templates : TemplateSource) (components : List Component) : List String :=
  cancelJobId :: components.flatMap (blockIds templates)

/-- The entries of a workflow: the first jobs, the end job if there is one, the job that reads the
status text, the reports if there are any, and the cleanup. -/
structure LaidOut (settings : Settings) (known : BuildJobs)
    (front ended reported : List (String × Job)) (result : Workflow) : Prop where
  entries : result.jobs.entries =
    front ++ ended ++
      (statusReadJobId, settings.statusReadJob ((front ++ ended).map Prod.fst)) :: reported ++
      [(cleanupJobId, settings.cleanupJob
        ((front ++ ended).map Prod.fst ++ statusReadJobId :: reported.map Prod.fst))]
  endJobs : List.Forall₂ PlannedJob.Makes (settings.endJobs known (front.map Prod.fst)) ended
  reports : List.Forall₂ PlannedJob.Makes
    (settings.reportJobs known ((front ++ ended).map Prod.fst ++ [statusReadJobId])) reported

theorem eq_of_makes {id : String} {job : Job}
    (made : List.Forall₂ PlannedJob.Makes [{ id, job := .ok job }] items) : items = [(id, job)] :=
  List.right_unique_forall₂' makes_rightUnique made (.cons ⟨rfl, rfl⟩ .nil)

theorem frontIds_of_loads (all : List.Forall₂ (Member.Loads templates) components members) :
    (settings.cancelJobs ++ settings.memberJobs .empty members).map PlannedJob.id =
      frontIds templates components := by
  have ids : members.flatMap Member.jobIds = components.flatMap (blockIds templates) := by
    induction all with
    | nil => rfl
    | cons loads _ ih => rw [List.flatMap_cons, List.flatMap_cons, ih, blockIds_of_loads loads]
  rw [List.map_append, Settings.ids_memberJobs, ids]
  rfl

/-- A compiled workflow is laid out like this behind the jobs of its components. -/
theorem laidOut_of_workflow (done : workflow trigger repository templates options = .ok result) :
    ∃ front ended reported, front.map Prod.fst = frontIds templates trigger.components ∧
      LaidOut { workflowName := trigger.name, repository, options }
        (knownBuildJobs templates trigger.components) front ended reported result := by
  obtain ⟨members, all, made⟩ := workflow_ok done
  have known := memberEntries_of_loads all
  unfold Settings.plannedJobs at made
  obtain ⟨front, trailing, whole, first, lastMade⟩ := forall₂_append_left made
  -- what follows is planned with the identifiers of what stands before it
  have ids := ids_of_makes first
  rw [← ids] at lastMade
  unfold Settings.trailingJobs at lastMade
  obtain ⟨withReports, cleanup, rfl, withReportsMade, last⟩ := forall₂_append_left lastMade
  obtain ⟨withStatus, reported, rfl, withStatusMade, reports⟩ := forall₂_append_left withReportsMade
  obtain ⟨ended, read, rfl, endJobs, status⟩ := forall₂_append_left withStatusMade
  rw [← ids_of_makes endJobs, ← List.map_append] at status reports last
  rw [← ids_of_makes reports] at last
  have readIs := eq_of_makes status
  have cleanupIs := eq_of_makes last
  subst readIs cleanupIs
  refine ⟨front, ended, reported, ids.trans (frontIds_of_loads all), ?_, ?_, ?_⟩
  · rw [whole]
    simp only [List.append_assoc, List.cons_append, List.nil_append]
  · rw [← known]
    exact endJobs
  · rw [← known]
    exact reports

theorem LaidOut.keys (laid : LaidOut settings known front ended reported result) :
    result.jobs.keys = front.map Prod.fst ++
      (if settings.repository.endJob.isSome then ["end-job"] else []) ++ ["status-read"] ++
      (if settings.repository.issueReporting.isEnabled then
        ["issue-report-success", "issue-report-failure"] else []) ++ ["cleanup"] := by
  have endIds := ids_of_makes laid.endJobs
  have reportIds := ids_of_makes laid.reports
  rw [Settings.ids_endJobs] at endIds
  rw [Settings.ids_reportJobs] at reportIds
  unfold OrderedMap.keys
  rw [laid.entries]
  simp only [List.map_append, List.map_cons, List.map_nil, endIds, reportIds, List.append_assoc,
    List.cons_append, List.nil_append]
  rfl

theorem frontIds_nodup (done : workflow trigger repository templates options = .ok result) :
    (frontIds templates trigger.components).Nodup := by
  have distinct := result.jobs.keys_nodup
  obtain ⟨front, ended, reported, ids, laid⟩ := laidOut_of_workflow done
  rw [laid.keys, ids, List.append_assoc, List.append_assoc, List.append_assoc] at distinct
  exact (List.nodup_append.mp distinct).1

/-! ### What a job awaits -/

/-- The job stands in the workflow and needs all jobs before it, in their order. -/
def Workflow.AwaitsAllBefore (result : Workflow) (id : String) (job : Job) : Prop :=
  ∃ front back, result.jobs.entries = front ++ (id, job) :: back ∧ job.needs = front.map Prod.fst

theorem LaidOut.endJob (laid : LaidOut settings known front ended reported result)
    {configured : Config.EndJob} (given : settings.repository.endJob = some configured) :
    ∃ job, settings.endJob known (front.map Prod.fst) configured = .ok job ∧
      Workflow.AwaitsAllBefore result endJobId job := by
  have made := laid.endJobs
  have whole := laid.entries
  unfold Settings.endJobs at made
  rw [given] at made
  cases made with
  | @cons _ item _ _ first rest =>
      cases rest
      obtain ⟨id, job⟩ := item
      obtain ⟨rfl, own⟩ := first
      obtain ⟨-, -, needs, -⟩ := Settings.endJob_ok own
      rw [List.append_assoc front, List.append_assoc front] at whole
      exact ⟨job, own, front, _, whole, needs⟩

theorem LaidOut.statusRead (laid : LaidOut settings known front ended reported result) :
    ∃ job, Workflow.AwaitsAllBefore result statusReadJobId job ∧
      job.condition = some Condition.always.expression := by
  have whole := laid.entries
  rw [List.append_assoc (front ++ ended)] at whole
  exact ⟨settings.statusReadJob ((front ++ ended).map Prod.fst), ⟨front ++ ended, _, whole, rfl⟩, rfl⟩

theorem LaidOut.reported_eq (laid : LaidOut settings known front ended reported result)
    (enabled : settings.repository.issueReporting.isEnabled = true) :
    reported = [Outcome.success, Outcome.failure].map fun outcome => (outcome.jobId,
      settings.reportJob known ((front ++ ended).map Prod.fst ++ [statusReadJobId]) outcome) := by
  have made := laid.reports
  unfold Settings.reportJobs at made
  rw [if_pos enabled] at made
  apply List.right_unique_forall₂' makes_rightUnique made
  rw [List.forall₂_map_left_iff, List.forall₂_map_right_iff, List.forall₂_same]
  exact fun _ _ => ⟨rfl, rfl⟩

/-- Both reports stand next to each other and need what stands before the first one. -/
theorem LaidOut.reportEntries (laid : LaidOut settings known front ended reported result)
    (enabled : settings.repository.issueReporting.isEnabled = true) :
    ∃ earlier back, result.jobs.entries =
      earlier ++
        (Outcome.success.jobId, settings.reportJob known (earlier.map Prod.fst) .success) ::
        (Outcome.failure.jobId, settings.reportJob known (earlier.map Prod.fst) .failure) :: back := by
  let status : String × Job :=
    (statusReadJobId, settings.statusReadJob ((front ++ ended).map Prod.fst))
  have ids : (front ++ ended ++ [status]).map Prod.fst =
      (front ++ ended).map Prod.fst ++ [statusReadJobId] := by
    simp [status]
  refine ⟨front ++ ended ++ [status], [(cleanupJobId, settings.cleanupJob
    ((front ++ ended).map Prod.fst ++ statusReadJobId :: reported.map Prod.fst))], ?_⟩
  rw [ids, laid.entries, laid.reported_eq enabled]
  simp only [status, List.append_assoc, List.cons_append, List.nil_append, List.map_cons,
    List.map_nil]

theorem LaidOut.cleanup (laid : LaidOut settings known front ended reported result) :
    ∃ earlier job, result.jobs.entries = earlier ++ [(cleanupJobId, job)] ∧
      job.needs = earlier.map Prod.fst ∧ job.condition = some Condition.always.expression := by
  refine ⟨_, _, laid.entries, ?_, rfl⟩
  simp only [Settings.cleanupJob, List.map_append, List.map_cons]

/-- A job that needs only jobs before another one does not wait for that one. -/
theorem not_waitsFor_of_needs_before {graph : JobGraph} (ordered : graph.Ordered) {id other : String}
    {job : Job} (there : graph.get? id = some job)
    (earlier : ∀ need ∈ job.needs, graph.jobNames.idxOf need < graph.jobNames.idxOf other) :
    ¬ graph.WaitsFor id other := by
  intro waits
  have needed : ∃ need ∈ job.needs, need = other ∨ graph.WaitsFor need other := by
    rcases Relation.TransGen.head'_iff.mp waits with ⟨need, ⟨own, found, listed⟩, rest⟩
    rw [there, Option.some.injEq] at found
    subst found
    exact ⟨need, listed, (Relation.reflTransGen_iff_eq_or_transGen.mp rest).imp_left Eq.symm⟩
  obtain ⟨need, listed, same | later⟩ := needed
  · have lower := earlier need listed
    rw [same] at lower
    exact Nat.lt_irrefl _ lower
  · exact Nat.lt_asymm (earlier need listed) (ordered.idxOf_lt_of_waitsFor later)

theorem reports_apart (done : workflow trigger repository templates options = .ok result)
    {earlier back : List (String × Job)} {success failure : Job}
    (entries : result.jobs.entries =
      earlier ++ (Outcome.success.jobId, success) :: (Outcome.failure.jobId, failure) :: back)
    (needs : failure.needs = earlier.map Prod.fst) :
    ¬ JobGraph.WaitsFor { jobs := result.jobs } Outcome.success.jobId Outcome.failure.jobId ∧
      ¬ JobGraph.WaitsFor { jobs := result.jobs } Outcome.failure.jobId Outcome.success.jobId := by
  have ordered : JobGraph.Ordered { jobs := result.jobs } := by
    obtain ⟨items, built⟩ := workflow_reachable done
    rw [← built]
    exact JobGraph.ordered_empty.attemptAll
  have names : JobGraph.jobNames { jobs := result.jobs } =
      earlier.map Prod.fst ++ Outcome.success.jobId :: Outcome.failure.jobId :: back.map Prod.fst := by
    unfold JobGraph.jobNames OrderedMap.keys
    rw [entries, List.map_append, List.map_cons, List.map_cons]
  have distinct := ordered.distinct
  rw [names] at distinct
  constructor
  · intro waits
    have lower := ordered.idxOf_lt_of_waitsFor waits
    rw [names, List.append_cons] at lower
    rw [List.append_cons] at distinct
    have upper := idxOf_lt_of_before distinct (List.mem_append_right _ List.mem_cons_self)
    exact Nat.lt_asymm lower upper
  -- the second report is placed behind the first, so the order says nothing: its needs decide
  · have there : result.jobs.get? Outcome.failure.jobId = some failure := by
      rw [OrderedMap.get?_eq_some_iff, entries]
      simp
    apply not_waitsFor_of_needs_before ordered there
    intro need listed
    rw [needs] at listed
    rw [names]
    exact idxOf_lt_of_before distinct listed

/-! ### The versions of all components -/

/-- Every component has a variable of its own, which holds the version that its build job puts
out. -/
def SeesVersions (templates : TemplateSource) (components : List Component) (env : Env) : Prop :=
  (components.map fun component => versionVariable component.name).Nodup ∧
    ∀ component ∈ components, env.get? (versionVariable component.name) =
      some (expression (neededOutput (buildJobId templates component)
        (versionVariable component.name)))

theorem versionVariables_nodup (order : Config.ComponentsInOrder components) :
    (components.map fun component => versionVariable component.name).Nodup := by
  apply List.Nodup.map_on _ order.distinct.of_map
  intro one listed other alsoListed same
  rw [Config.versionVariable_inj (order.named one listed) (order.named other alsoListed)] at same
  exact List.inj_on_of_nodup_map order.distinct listed alsoListed same

theorem entries_knownBuildJobs (order : Config.ComponentsInOrder components) :
    (knownBuildJobs templates components).entries =
      components.map fun component => (component.name, buildJobId templates component) := by
  apply OrderedMap.entries_ofList
  rw [List.map_map]
  exact order.distinct

/-- The environment of the end job holds the versions of all components, whatever the repository
sets. -/
theorem endJob_seesVersions (order : Config.ComponentsInOrder components) {needs : List String}
    {configured : Config.EndJob} {job : Job}
    (made : settings.endJob (knownBuildJobs templates components) needs configured = .ok job) :
    SeesVersions templates components job.env := by
  obtain ⟨-, -, -, env, -⟩ := Settings.endJob_ok made
  have apart := versionVariables_nodup order
  refine ⟨apart, fun component listed => ?_⟩
  rw [env, OrderedMap.get?_insert, if_neg (versionVariable_ne (by decide))]
  unfold allVersionEntries
  rw [entries_knownBuildJobs order, List.map_map]
  apply OrderedMap.get?_insertAll_of_mem
  · rw [List.forall_mem_map]
    intro other inside same
    have equal : other = component := List.inj_on_of_nodup_map apart inside listed same
    rw [equal]
    rfl
  · exact List.mem_map.mpr ⟨component, listed, rfl⟩

/-! ### Whole workflows -/

/-- How a workflow ends. An identifier of the last jobs that the repository does not use may belong
to a job of a component. -/
structure EndsInOrder (trigger : Config.Trigger) (repository : Config.Repository)
    (templates : TemplateSource) (result : Workflow) : Prop where
  keys : result.jobs.keys = frontIds templates trigger.components ++
    (if repository.endJob.isSome then ["end-job"] else []) ++ ["status-read"] ++
    (if repository.issueReporting.isEnabled then
      ["issue-report-success", "issue-report-failure"] else []) ++ ["cleanup"]
  endJobThere : "end-job" ∈ result.jobs.keys ↔
    repository.endJob.isSome = true ∨ "end-job" ∈ trigger.components.flatMap (blockIds templates)
  reportsThere : ∀ id ∈ ["issue-report-success", "issue-report-failure"],
    id ∈ result.jobs.keys ↔ repository.issueReporting.isEnabled = true ∨
      id ∈ trigger.components.flatMap (blockIds templates)
  endJob : ∀ configured, repository.endJob = some configured →
    ∃ job, Workflow.AwaitsAllBefore result "end-job" job ∧
      ∀ document, Config.Trigger.read document = .ok trigger →
        SeesVersions templates trigger.components job.env
  statusRead : ∃ job, Workflow.AwaitsAllBefore result "status-read" job ∧
    job.condition = some "always()"
  reports : repository.issueReporting.isEnabled = true →
    ∃ earlier success failure back, result.jobs.entries =
        earlier ++ ("issue-report-success", success) :: ("issue-report-failure", failure) :: back ∧
      success.needs = earlier.map Prod.fst ∧ failure.needs = earlier.map Prod.fst ∧
      success.condition = some "success()" ∧ failure.condition = some "failure()" ∧
      ¬ JobGraph.WaitsFor { jobs := result.jobs } "issue-report-success" "issue-report-failure" ∧
      ¬ JobGraph.WaitsFor { jobs := result.jobs } "issue-report-failure" "issue-report-success"
  cleanup : ∃ earlier job, result.jobs.entries = earlier ++ [("cleanup", job)] ∧
    job.needs = earlier.map Prod.fst ∧ job.condition = some "always()"

/-- Whatever the configuration, every job at the end of a workflow awaits all jobs before it, except
that the reports stand side by side. -/
theorem last_jobs_await_all_before
    (done : workflow trigger repository templates options = .ok result) :
    EndsInOrder trigger repository templates result := by
  obtain ⟨front, ended, reported, ids, laid⟩ := laidOut_of_workflow done
  have keys : result.jobs.keys = frontIds templates trigger.components ++
      (if repository.endJob.isSome then ["end-job"] else []) ++ ["status-read"] ++
      (if repository.issueReporting.isEnabled then
        ["issue-report-success", "issue-report-failure"] else []) ++ ["cleanup"] := by
    rw [laid.keys, ids]
  constructor
  case keys => exact keys
  case endJobThere =>
    rw [keys]
    unfold frontIds cancelJobId
    cases repository.endJob with
    | none => cases repository.issueReporting.isEnabled <;> simp
    | some configured => simp
  case reportsThere =>
    intro id listed
    rw [keys]
    unfold frontIds cancelJobId
    simp only [List.mem_cons, List.not_mem_nil, or_false] at listed
    rcases listed with rfl | rfl
    · cases repository.issueReporting.isEnabled <;> cases repository.endJob <;> simp
    · cases repository.issueReporting.isEnabled <;> cases repository.endJob <;> simp
  case endJob =>
    intro configured given
    obtain ⟨job, made, awaits⟩ := laid.endJob given
    refine ⟨job, awaits, fun document accepted => ?_⟩
    exact endJob_seesVersions (Config.Trigger.read_ok accepted) made
  case statusRead => exact laid.statusRead
  case reports =>
    intro enabled
    obtain ⟨earlier, back, entries⟩ := laid.reportEntries enabled
    obtain ⟨successFree, failureFree⟩ := reports_apart done entries rfl
    exact ⟨earlier, _, _, back, entries, rfl, rfl, rfl, rfl, successFree, failureFree⟩
  case cleanup => exact laid.cleanup

/-- A repository with an end job that sets a variable which is a version. -/
def endingRepository : Config.Repository :=
  { Config.Repository.default with
    endJob := some {
      env := .ofList [("version_core_api", "none")]
      condition := none
      steps := [.mapping [(.string "run", .string "ls")]] } }

theorem last_jobs_of_sample_await_all_before : ∃ result,
    workflow sampleTrigger endingRepository sampleTemplates.load (.ofBranch "side" 1) = .ok result ∧
      EndsInOrder sampleTrigger endingRepository sampleTemplates.load result := by
  obtain ⟨result, done⟩ : ∃ result, workflow sampleTrigger endingRepository sampleTemplates.load
      (.ofBranch "side" 1) = .ok result := except_exists_ok (by decide +kernel)
  exact ⟨result, done, last_jobs_await_all_before done⟩

/-- A component whose template gives the identifier of the end job to its build job. -/
def endTrigger : Config.Trigger :=
  { name := "nightly"
    env := .empty
    components := [
      { name := "end", org := "org", branch := "main", mavenOpts := none
        debug := false, javaVersion := none, dependencies := [] }] }

def endTemplates : MemoryTemplates :=
  .ofList [("end", "build-job: job\njobs:\n  job:\n    run:\n    - mvn: install\n")]

/-- The identifier of the end job says nothing about the repository. -/
theorem end_job_of_component : ∃ result,
    workflow endTrigger .default endTemplates.load (.ofBranch "side" 1) = .ok result ∧
      Config.Repository.default.endJob = none ∧ "end-job" ∈ result.jobs.keys := by
  have keys : (workflow endTrigger .default endTemplates.load (.ofBranch "side" 1)).toOption.map
      (fun result => result.jobs.keys) = some ["cancel-previous-runs", "end-job", "status-read",
        "issue-report-success", "issue-report-failure", "cleanup"] := by
    decide +kernel
  obtain ⟨result, done, same⟩ := Option.map_eq_some_iff.mp keys
  refine ⟨result, except_eq_ok done, rfl, ?_⟩
  rw [same]
  decide

end CrossBuild.Compile
