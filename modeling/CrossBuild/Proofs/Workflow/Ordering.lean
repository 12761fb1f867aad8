/-
Job graphs are in order.

Whatever is inserted into a job graph, and however many insertions are refused, its jobs have
different identifiers and each needs only jobs before it. So no job waits for itself, not even
through others, and the order in which jobs are written out is one in which they can run. Every
workflow that is compiled has such a graph. Which jobs a workflow has is not said here.
-/

import CrossBuild.Compile.Workflow
import CrossBuild.Proofs.Maps
import CrossBuild.Proofs.Runs
import Mathlib.Data.List.Basic
import Mathlib.Logic.Relation

namespace CrossBuild.JobGraph

variable {graph next : JobGraph} {id : String} {job : Job} {items : List (String × Job)}

theorem contains_iff_mem : graph.contains id = true ↔ id ∈ graph.jobNames :=
  OrderedMap.contains_iff

private theorem find?_missing_iff {missing : String} :
    (job.needs.find? fun need => !graph.contains need) = some missing ↔
      ∃ before after, job.needs = before ++ missing :: after ∧ missing ∉ graph.jobNames ∧
        ∀ need ∈ before, need ∈ graph.jobNames := by
  simp only [List.find?_eq_some_iff_append, Bool.not_eq_true', Bool.not_not, contains_iff_mem,
    ← Bool.not_eq_true]
  constructor
  · rintro ⟨absent, before, after, whole, present⟩
    exact ⟨before, after, whole, absent, present⟩
  · rintro ⟨before, after, whole, absent, present⟩
    exact ⟨absent, before, after, whole, present⟩

/-- A job is inserted when its identifier is new and all it needs is there; it then comes last. -/
theorem insert_eq_ok_iff : graph.insert id job = .ok next ↔
    id ∉ graph.jobNames ∧ (∀ need ∈ job.needs, need ∈ graph.jobNames) ∧
      next = { jobs := graph.jobs.insert id job } := by
  unfold insert
  by_cases taken : graph.contains id = true
  · rw [if_pos taken]
    simp [contains_iff_mem.mp taken]
  · rw [if_neg taken]
    rw [contains_iff_mem] at taken
    cases found : job.needs.find? fun need => !graph.contains need with
    | some missing =>
        obtain ⟨before, after, whole, absent, -⟩ := find?_missing_iff.mp found
        have inside : missing ∈ job.needs := by rw [whole]; simp
        simp only [reduceCtorEq, false_iff]
        exact fun given => absent (given.2.1 missing inside)
    | none =>
        have all : ∀ need ∈ job.needs, need ∈ graph.jobNames := by
          intro need member
          have there := List.find?_eq_none.mp found need member
          simpa [contains_iff_mem] using there
        rw [Except.ok.injEq, eq_comm]
        exact ⟨fun same => ⟨taken, all, same⟩, fun given => given.2.2⟩

theorem insert_eq_duplicate_iff :
    graph.insert id job = .error (.duplicateJob id) ↔ id ∈ graph.jobNames := by
  unfold insert
  by_cases taken : graph.contains id = true
  · rw [if_pos taken]
    simp [contains_iff_mem.mp taken]
  · rw [if_neg taken]
    rw [contains_iff_mem] at taken
    cases job.needs.find? fun need => !graph.contains need <;> simp [taken]

theorem insert_eq_missing_iff {missing : String} :
    graph.insert id job = .error (.missingDependency id missing) ↔
      id ∉ graph.jobNames ∧ ∃ before after, job.needs = before ++ missing :: after ∧
        missing ∉ graph.jobNames ∧ ∀ need ∈ before, need ∈ graph.jobNames := by
  rw [← find?_missing_iff]
  unfold insert
  by_cases taken : graph.contains id = true
  · rw [if_pos taken]
    simp [contains_iff_mem.mp taken]
  · rw [if_neg taken]
    rw [contains_iff_mem] at taken
    cases job.needs.find? fun need => !graph.contains need <;> simp [taken]

/-- There are no other reasons to refuse a job. -/
theorem insert_error_cases {cause : GraphError} (refused : graph.insert id job = .error cause) :
    cause = .duplicateJob id ∨ ∃ missing, cause = .missingDependency id missing := by
  unfold insert at refused
  split at refused
  · cases refused
    exact .inl rfl
  · split at refused
    · cases refused
      exact .inr ⟨_, rfl⟩
    · cases refused

theorem insert_ok (done : graph.insert id job = .ok next) :
    next.jobs.entries = graph.jobs.entries ++ [(id, job)] := by
  obtain ⟨fresh, -, rfl⟩ := insert_eq_ok_iff.mp done
  exact OrderedMap.entries_insert_of_fresh job fresh

/-! ### Graphs that come of insertions -/

/-- The graph after an insertion was tried. -/
def attempt (graph : JobGraph) (item : String × Job) : JobGraph :=
  match graph.insert item.1 item.2 with
  | .ok next => next
  | .error _ => graph

/-- The graph after insertions were tried one after the other. -/
def attemptAll (graph : JobGraph) (items : List (String × Job)) : JobGraph :=
  items.foldl attempt graph

/-- The jobs that are accepted when insertions are tried. -/
def accepted (graph : JobGraph) : List (String × Job) → List (String × Job)
  | [] => []
  | item :: rest =>
      match graph.insert item.1 item.2 with
      | .ok next => item :: accepted next rest
      | .error _ => accepted graph rest

/-- Identifiers are different, and every job needs only jobs before it. -/
structure Ordered (graph : JobGraph) : Prop where
  distinct : graph.jobNames.Nodup
  needsEarlier : ∀ before id job after, graph.jobs.entries = before ++ (id, job) :: after →
    ∀ need ∈ job.needs, need ∈ before.map Prod.fst

theorem ordered_empty : Ordered empty := by
  refine ⟨List.nodup_nil, fun before id job after whole => ?_⟩
  exact absurd whole.symm (by simp [empty, OrderedMap.empty])

/-- An insertion keeps the jobs in order. -/
theorem Ordered.insert (ordered : Ordered graph) (done : graph.insert id job = .ok next) :
    Ordered next := by
  have grown := insert_ok done
  obtain ⟨-, present, -⟩ := insert_eq_ok_iff.mp done
  refine ⟨next.jobs.keys_nodup, fun before other own after whole need member => ?_⟩
  rw [grown] at whole
  rcases cases_of_concat whole with ⟨rfl, itself⟩ | ⟨front, there⟩
  · cases itself
    exact present need member
  · exact ordered.needsEarlier before other own front there need member

theorem Ordered.attempt (ordered : Ordered graph) (item : String × Job) :
    Ordered (graph.attempt item) := by
  unfold JobGraph.attempt
  cases tried : graph.insert item.1 item.2 with
  | ok next => exact ordered.insert tried
  | error cause => exact ordered

theorem Ordered.attemptAll (ordered : Ordered graph) : Ordered (graph.attemptAll items) := by
  induction items generalizing graph with
  | nil => exact ordered
  | cons item rest ih => exact ih (ordered.attempt item)

theorem entries_attemptAll (graph : JobGraph) (items : List (String × Job)) :
    (graph.attemptAll items).jobs.entries = graph.jobs.entries ++ graph.accepted items := by
  induction items generalizing graph with
  | nil => exact (List.append_nil _).symm
  | cons item rest ih =>
      change ((graph.attempt item).attemptAll rest).jobs.entries = _
      rw [ih, accepted, attempt]
      cases tried : graph.insert item.1 item.2 with
      | ok next =>
          dsimp only
          rw [insert_ok tried, List.append_assoc, List.singleton_append]
      | error cause => rfl

/-! ### Waiting -/

/-- A job needs another one directly. -/
def Needs (graph : JobGraph) (id need : String) : Prop :=
  ∃ job, graph.get? id = some job ∧ need ∈ job.needs

/-- A job waits for another one, directly or through others. -/
abbrev WaitsFor (graph : JobGraph) : String → String → Prop :=
  Relation.TransGen graph.Needs

theorem Ordered.idxOf_lt_of_needs (ordered : Ordered graph) {need : String}
    (direct : graph.Needs id need) : graph.jobNames.idxOf need < graph.jobNames.idxOf id := by
  obtain ⟨job, there, member⟩ := direct
  obtain ⟨before, after, whole⟩ := List.append_of_mem (OrderedMap.get?_eq_some_iff.mp there)
  have earlier := ordered.needsEarlier before id job after whole need member
  have names : graph.jobNames = before.map Prod.fst ++ id :: after.map Prod.fst := by
    unfold jobNames OrderedMap.keys
    rw [whole, List.map_append, List.map_cons]
  have distinct := ordered.distinct
  rw [names] at distinct ⊢
  exact idxOf_lt_of_before distinct earlier

/-- A job waits only for jobs before it. -/
theorem Ordered.idxOf_lt_of_waitsFor (ordered : Ordered graph) {other : String}
    (waits : graph.WaitsFor id other) : graph.jobNames.idxOf other < graph.jobNames.idxOf id := by
  induction waits with
  | single direct => exact ordered.idxOf_lt_of_needs direct
  | tail _ direct ih => exact Nat.lt_trans (ordered.idxOf_lt_of_needs direct) ih

theorem Ordered.not_waitsFor_self (ordered : Ordered graph) : ¬ graph.WaitsFor id id :=
  fun waits => absurd (ordered.idxOf_lt_of_waitsFor waits) (Nat.lt_irrefl _)

/-- The graph comes of insertions, of which some may have been refused. -/
def Reachable (graph : JobGraph) : Prop :=
  ∃ items, empty.attemptAll items = graph

theorem reachable_empty : Reachable empty := ⟨[], rfl⟩

theorem Reachable.insert (reached : Reachable graph) (done : graph.insert id job = .ok next) :
    Reachable next := by
  obtain ⟨items, rfl⟩ := reached
  refine ⟨items ++ [(id, job)], ?_⟩
  unfold attemptAll at done ⊢
  rw [List.foldl_append, List.foldl_cons, List.foldl_nil, attempt, done]

end CrossBuild.JobGraph

namespace CrossBuild.Compile

open Runs

/-! ### Compiled workflows -/

theorem addJob_eq_ok_iff {graph next : JobGraph} {id : String} {job : Job} :
    addJob graph id job = .ok next ↔ graph.insert id job = .ok next := by
  unfold addJob
  cases graph.insert id job <;> simp [Except.mapError]

private theorem addJobs_reachable {graph next : JobGraph} {planned : List PlannedJob}
    (reached : graph.Reachable) (done : addJobs graph planned = .ok next) : next.Reachable := by
  induction planned generalizing graph with
  | nil =>
      cases done
      exact reached
  | cons first rest ih =>
      unfold addJobs at done
      simp only [except_bind_ok_iff, addJob_eq_ok_iff] at done
      obtain ⟨job, -, middle, inserted, done⟩ := done
      exact ih (reached.insert inserted) done

private theorem addComponents_reachable {settings : Settings} {templates : TemplateSource}
    {progress final : Progress} {components : List Config.Component}
    (reached : progress.graph.Reachable)
    (done : settings.addComponents templates progress components = .ok final) :
    final.graph.Reachable := by
  induction components generalizing progress with
  | nil =>
      cases done
      exact reached
  | cons component rest ih =>
      unfold Settings.addComponents Settings.addComponent at done
      simp only [except_bind_ok_iff] at done
      obtain ⟨next, ⟨_, -, _, -, graph, added, same⟩, done⟩ := done
      cases same
      exact ih (addJobs_reachable reached added) done

private theorem addTrailing_reachable {settings : Settings} {progress : Progress}
    {final : JobGraph} (reached : progress.graph.Reachable)
    (done : settings.addTrailing progress = .ok final) : final.Reachable := by
  unfold Settings.addTrailing at done
  simp only [except_bind_ok_iff, addJob_eq_ok_iff] at done
  obtain ⟨ended, endJob, status, statusRead, reported, reports, cleanup⟩ := done
  have afterEnd : ended.Reachable := by
    unfold Settings.addEndJob at endJob
    split at endJob
    · cases endJob
      exact reached
    · simp only [except_bind_ok_iff, addJob_eq_ok_iff] at endJob
      obtain ⟨_, -, inserted⟩ := endJob
      exact reached.insert inserted
  have afterReports : reported.Reachable := by
    unfold Settings.addReports at reports
    split at reports
    · simp only [except_bind_ok_iff, addJob_eq_ok_iff] at reports
      obtain ⟨_, success, failure⟩ := reports
      exact ((afterEnd.insert statusRead).insert success).insert failure
    · cases reports
      exact afterEnd.insert statusRead
  exact afterReports.insert cleanup

/-- The jobs of a compiled workflow come of insertions into the empty graph. -/
theorem workflow_reachable {trigger : Config.Trigger} {repository : Config.Repository}
    {templates : TemplateSource} {options : Options} {result : Workflow}
    (done : workflow trigger repository templates options = .ok result) :
    JobGraph.Reachable { jobs := result.jobs } := by
  unfold workflow Settings.jobGraph at done
  simp only [except_bind_ok_iff, addJob_eq_ok_iff] at done
  obtain ⟨graph, ⟨start, first, progress, components, trailing⟩, same⟩ := done
  cases same
  exact addTrailing_reachable
    (addComponents_reachable (JobGraph.reachable_empty.insert first) components) trailing

end CrossBuild.Compile

namespace CrossBuild.JobGraph

/-- Jobs that come of any insertions are in order and no job waits for itself; the same holds for
every compiled workflow. An insertion is refused for a taken identifier, or else for the first need
that is not there, and for nothing else; a refused one changes nothing. -/
theorem insertions_keep_jobs_in_order :
    (∀ graph : JobGraph, graph.Reachable ∨
        (∃ trigger repository templates options result, graph.jobs = result.jobs ∧
          Compile.workflow trigger repository templates options = .ok result) →
      graph.jobNames.Nodup ∧
      (∀ before id job after, graph.jobs.entries = before ++ (id, job) :: after →
        ∀ need ∈ job.needs, need ∈ before.map Prod.fst) ∧
      (∀ id other, graph.WaitsFor id other →
        graph.jobNames.idxOf other < graph.jobNames.idxOf id) ∧
      (∀ id, ¬ graph.WaitsFor id id) ∧
      ∃ items, graph = empty.attemptAll items ∧ graph.jobs.entries = empty.accepted items) ∧
    ∀ (graph : JobGraph) (id : String) (job : Job),
      (graph.insert id job = .error (.duplicateJob id) ↔ id ∈ graph.jobNames) ∧
      (∀ missing, graph.insert id job = .error (.missingDependency id missing) ↔
        id ∉ graph.jobNames ∧ ∃ before after, job.needs = before ++ missing :: after ∧
          missing ∉ graph.jobNames ∧ ∀ need ∈ before, need ∈ graph.jobNames) ∧
      (∀ cause, graph.insert id job = .error cause →
        (cause = .duplicateJob id ∨ ∃ missing, cause = .missingDependency id missing) ∧
          graph.attempt (id, job) = graph) ∧
      ∀ next, graph.insert id job = .ok next →
        next.jobs.entries = graph.jobs.entries ++ [(id, job)] := by
  constructor
  · intro graph origin
    have reached : graph.Reachable := by
      rcases origin with reached | ⟨trigger, repository, templates, options, result, same, done⟩
      · exact reached
      · have compiled := Compile.workflow_reachable done
        rw [← same] at compiled
        exact compiled
    obtain ⟨items, rfl⟩ := reached
    have ordered : Ordered (empty.attemptAll items) := ordered_empty.attemptAll
    refine ⟨ordered.distinct, ordered.needsEarlier, fun _ _ => ordered.idxOf_lt_of_waitsFor,
      fun _ => ordered.not_waitsFor_self, items, rfl, ?_⟩
    rw [entries_attemptAll]
    exact List.nil_append _
  · intro graph id job
    refine ⟨insert_eq_duplicate_iff, fun _ => insert_eq_missing_iff, fun cause refused => ?_,
      fun _ => insert_ok⟩
    refine ⟨insert_error_cases refused, ?_⟩
    unfold attempt
    rw [refused]

end CrossBuild.JobGraph
