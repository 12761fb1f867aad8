/-
What an accepted job template looks like.

The names of its jobs are made of the component and the key, no key comes twice, each job needs only
jobs before it, the build job is one of them, and the end job needs them all. Nothing is said about
the documents that are refused.
-/

import CrossBuild.Config.Document
import CrossBuild.Proofs.Config.Fields
import Mathlib.Data.List.Count
import Mathlib.Data.List.Nodup

namespace CrossBuild.Config

open Runs
open Yaml (Value)

/-- Jobs that were read behind each other: each is named after its key, and needs only earlier
ones. -/
structure JobsInOrder (component buildKey : String) (jobs : List TemplateJob) : Prop where
  named : ∀ job ∈ jobs, job.name = Template.jobName component job.key
  builds : ∀ job ∈ jobs, job.isBuildJob = decide (job.key = buildKey)
  needsEarlier : ∀ before job after, jobs = before ++ job :: after →
    ∀ need ∈ job.needs, need ∈ before.map TemplateJob.name

/-- What reading a template makes sure of. -/
structure Template.WellFormed (template : Template) (buildKey : String) : Prop where
  jobs : JobsInOrder template.component buildKey template.jobs
  keysDistinct : (template.jobs.map TemplateJob.key).Nodup
  buildJob : template.buildJob = Template.jobName template.component buildKey
  buildJobThere : ∃ job ∈ template.jobs, job.key = buildKey
  endJob : ∀ endJob, template.endJob = some endJob →
    endJob.name = Template.jobName template.component "end-job" ∧
      endJob.needs = template.jobs.map TemplateJob.name

/-! ### Jobs -/

namespace Template

variable {component context buildKey key : String} {defaults : Defaults} {value : Value}
  {earlier jobs : List TemplateJob} {job : TemplateJob}

theorem jobName_inj {left right : String} :
    jobName component left = jobName component right ↔ left = right := by
  unfold jobName
  constructor
  · intro same
    exact String.append_right_inj _ |>.mp same
  · rintro rfl
    rfl

private theorem readNeed_ok {item : Value} {need : String}
    (done : readNeed component key earlier item = .ok need) :
    ∃ other ∈ earlier, need = jobName component other.key := by
  unfold readNeed at done
  split at done
  · split at done
    · rename_i listed
      cases done
      obtain ⟨other, member, same⟩ := List.any_eq_true.mp listed
      rw [decide_eq_true_eq] at same
      exact ⟨other, member, by rw [same]⟩
    · cases done
  · cases done

theorem readJob_ok (done : readJob defaults buildKey key earlier value = .ok job) :
    job.key = key ∧ job.name = jobName defaults.component key ∧
      job.isBuildJob = decide (key = buildKey) ∧
      ∀ need ∈ job.needs, ∃ other ∈ earlier, need = jobName defaults.component other.key := by
  unfold readJob at done
  simp only [except_bind_ok_iff] at done
  obtain ⟨_, -, _, -, _, -, needs, read, _, -, done⟩ := done
  split at done
  · simp only [except_bind_ok_iff] at done
    obtain ⟨_, -, _, -, _, -, _, -, same⟩ := done
    cases same
    refine ⟨rfl, rfl, rfl, fun need member => ?_⟩
    obtain ⟨item, -, found⟩ := exists_of_mem_right (mapM_each read) need member
    exact readNeed_ok found
  · cases done

private theorem jobsInOrder_nil (component buildKey : String) :
    JobsInOrder component buildKey [] := by
  refine ⟨fun _ absent => (nomatch absent), fun _ absent => (nomatch absent), ?_⟩
  intro before job after whole
  exact absurd whole.symm (by simp)

private theorem readJob_inOrder (order : JobsInOrder defaults.component buildKey earlier)
    (done : readJob defaults buildKey key earlier value = .ok job) :
    JobsInOrder defaults.component buildKey (earlier ++ [job]) := by
  obtain ⟨sameKey, named, builds, needs⟩ := readJob_ok done
  refine ⟨fun other member => ?_, fun other member => ?_, fun before other after whole need inside => ?_⟩
  · rcases List.mem_append.mp member with old | own
    · exact order.named other old
    · rw [List.mem_singleton.mp own, named, sameKey]
  · rcases List.mem_append.mp member with old | own
    · exact order.builds other old
    · rw [List.mem_singleton.mp own, builds, sameKey]
  · rcases cases_of_concat whole with ⟨rfl, rfl⟩ | ⟨front, there⟩
    · obtain ⟨another, listed, rfl⟩ := needs need inside
      rw [← order.named another listed]
      exact List.mem_map_of_mem listed
    · exact order.needsEarlier before other front there need inside

private theorem readJobs_ok {entries : List (Value × Value)}
    (order : JobsInOrder defaults.component buildKey earlier)
    (done : readJobs defaults context buildKey earlier entries = .ok jobs) :
    JobsInOrder defaults.component buildKey jobs := by
  induction entries generalizing earlier with
  | nil =>
      cases done
      exact order
  | cons entry rest ih =>
      obtain ⟨entryKey, entryValue⟩ := entry
      unfold readJobs at done
      split at done
      · cases ‹_ :: _ = []›
      · rename_i given
        cases given
        simp only [except_bind_ok_iff] at done
        obtain ⟨job, read, done⟩ := done
        exact ih (readJob_inOrder order read) done
      · cases done

/-- An entry was read as a job, under its key. -/
def ReadsAs (defaults : Defaults) (buildKey : String) (entry : Value × Value) (job : TemplateJob) :
    Prop :=
  ∃ key before, entry.1 = .string key ∧ readJob defaults buildKey key before entry.2 = .ok job

/-- Entries become jobs in their order. -/
theorem readJobs_each {entries : List (Value × Value)}
    (done : readJobs defaults context buildKey earlier entries = .ok jobs) :
    ∃ added, jobs = earlier ++ added ∧ List.Forall₂ (ReadsAs defaults buildKey) entries added := by
  induction entries generalizing earlier with
  | nil =>
      cases done
      exact ⟨[], (List.append_nil _).symm, .nil⟩
  | cons entry rest ih =>
      unfold readJobs at done
      split at done
      · cases ‹_ :: _ = []›
      · rename_i key value _ given
        cases given
        obtain ⟨job, read, done⟩ := except_bind_ok_iff.mp done
        obtain ⟨added, whole, each⟩ := ih done
        refine ⟨job :: added, ?_, .cons ⟨key, earlier, rfl, read⟩ each⟩
        rw [whole, List.append_assoc, List.singleton_append]
      · cases done

theorem keys_of_readsAs {entries : List (Value × Value)}
    (each : List.Forall₂ (ReadsAs defaults buildKey) entries jobs) :
    entries.map Prod.fst = jobs.map fun job => .string job.key := by
  induction each with
  | nil => rfl
  | cons first _ ih =>
      obtain ⟨key, before, own, read⟩ := first
      rw [List.map_cons, List.map_cons, ih, own, (readJob_ok read).1]

private theorem keysDistinct_readJobs {entries : List (Value × Value)}
    (distinct : (Value.mapping entries).KeysDistinct)
    (done : readJobs defaults context buildKey [] entries = .ok jobs) :
    (jobs.map TemplateJob.key).Nodup := by
  cases distinct with
  | mapping apart _ _ =>
      obtain ⟨_, rfl, each⟩ := readJobs_each done
      have distinct : (entries.map Prod.fst).Pairwise fun earlier later => later.sameKey earlier = false :=
        List.pairwise_map.mpr apart
      rw [keys_of_readsAs each, List.pairwise_map] at distinct
      refine List.pairwise_map.mpr (distinct.imp fun {earlier later} different same => ?_)
      rw [same] at different
      unfold Value.sameKey at different
      simp at different

private theorem readEndJob_ok {endJob : TemplateEndJob}
    (done : readEndJob defaults jobs value = .ok endJob) :
    endJob.name = jobName defaults.component "end-job" ∧
      endJob.needs = jobs.map TemplateJob.name := by
  unfold readEndJob at done
  simp only [except_bind_ok_iff] at done
  obtain ⟨_, -, _, -, _, -, _, -, _, -, _, -, _, -, _, -, _, -, same⟩ := done
  cases same
  exact ⟨rfl, rfl⟩

/-! ### Whole templates -/

/-- The top level of a template is well formed: it has settings, the key of the build job, jobs, and
maybe an end job. -/
inductive TopLevel (component : String) (document : Value) :
    Defaults → String → List (Value × Value) → Option Value → Prop where
  | intro {fields : Fields} {buildKey : String} {entries : List (Value × Value)} {env : Option Env}
      {javaVersion : Option String} {runsOn : Option (List String)}
      (level : Fields.ofValue ("component jobs of '" ++ component ++ "'") document = .ok fields)
      (builds : fields.requireString "build-job" = .ok buildKey)
      (listed : fields.require "jobs" = .ok (.mapping entries))
      (environment : fields.env? = .ok env) (java : fields.javaVersion? = .ok javaVersion)
      (machines : fields.runsOn? = .ok runsOn) (finished : fields.finish keys = .ok ())
      (some : entries ≠ []) :
      TopLevel component document { component, env := env.getD .empty, javaVersion, runsOn } buildKey
        entries (fields.get? "end-job")

/-- The template that is made of jobs. -/
def assemble (defaults : Defaults) (context buildKey : String) (last : Option Value)
    (jobs : List TemplateJob) : Except Error Template :=
  match jobs.find? TemplateJob.isBuildJob with
  | none => throw (.invalid (.unknownBuildJob buildKey context))
  | some buildJob => do
      let endJob ← last.mapM (readEndJob defaults jobs)
      return { component := defaults.component, buildJob := buildJob.name, jobs, endJob }

theorem TopLevel.read_eq {entries : List (Value × Value)} {last : Option Value}
    (top : TopLevel component value defaults buildKey entries last) :
    read component value =
      readJobs defaults ("component jobs of '" ++ component ++ "'") buildKey [] entries >>=
        assemble defaults ("component jobs of '" ++ component ++ "'") buildKey last := by
  cases top with
  | intro level builds listed environment java machines finished some =>
      unfold read
      simp only [level, builds, listed, environment, java, machines, finished, bind, Except.bind]
      cases entries with
      | nil => exact absurd rfl some
      | cons entry rest => rfl

theorem topLevel_of_read {template : Template} (done : read component value = .ok template) :
    ∃ defaults buildKey entries last, TopLevel component value defaults buildKey entries last := by
  unfold read at done
  simp only [except_bind_ok_iff] at done
  obtain ⟨fields, level, buildKey, builds, _, listed, env, environment, version, java, labels,
    machines, _, finished, done⟩ := done
  split at done
  case h_1 => cases done
  case h_2 entries some =>
    exact ⟨_, buildKey, entries, _,
      .intro level builds listed environment java machines finished fun none => some none⟩
  case h_3 => cases done

theorem TopLevel.component_eq {entries : List (Value × Value)} {last : Option Value}
    (top : TopLevel component value defaults buildKey entries last) :
    defaults.component = component := by
  cases top
  rfl

theorem TopLevel.keysDistinct {entries : List (Value × Value)} {last : Option Value}
    (top : TopLevel component value defaults buildKey entries last) (distinct : value.KeysDistinct) :
    (Value.mapping entries).KeysDistinct := by
  cases top with
  | intro level _ listed => exact keysDistinct_require distinct level listed

theorem TopLevel.valueUnder?_jobs {entries : List (Value × Value)} {last : Option Value}
    (top : TopLevel component value defaults buildKey entries last) :
    valueUnder? "jobs" value = some (.mapping entries) := by
  cases top with
  | intro level _ listed => exact Fields.valueUnder?_of_get? level (Fields.get?_of_require listed)

theorem TopLevel.valueUnder?_buildJob {entries : List (Value × Value)} {last : Option Value}
    (top : TopLevel component value defaults buildKey entries last) :
    valueUnder? "build-job" value = some (.string buildKey) := by
  cases top with
  | intro level builds => exact Fields.valueUnder?_of_get? level (Fields.get?_of_requireString builds)

theorem last_of_assemble {last : Option Value} {template : Template}
    (done : assemble defaults context buildKey last jobs = .ok template) :
    ∃ endJob, last.mapM (readEndJob defaults jobs) = .ok endJob := by
  unfold assemble at done
  split at done
  · cases done
  · obtain ⟨endJob, ended, -⟩ := except_bind_ok_iff.mp done
    exact ⟨endJob, ended⟩

theorem assemble_ok {last : Option Value} {template : Template}
    (done : assemble defaults context buildKey last jobs = .ok template) :
    template.component = defaults.component ∧ template.jobs = jobs ∧
      (∃ job ∈ jobs, job.isBuildJob = true ∧ template.buildJob = job.name) ∧
      ∀ endJob, template.endJob = some endJob →
        endJob.name = jobName defaults.component "end-job" ∧
          endJob.needs = jobs.map TemplateJob.name := by
  unfold assemble at done
  split at done
  · cases done
  · rename_i buildJob found
    obtain ⟨endJob, ended, same⟩ := except_bind_ok_iff.mp done
    cases same
    constructor
    · rfl
    constructor
    · rfl
    constructor
    · exact ⟨buildJob, List.mem_of_find?_eq_some found, List.find?_some found, rfl⟩
    · intro given isLast
      cases last with
      | none =>
          cases ended
          cases isLast
      | some lastValue =>
          obtain ⟨own, accepted, same⟩ := option_mapM_ok ended
          cases isLast.symm.trans same
          exact readEndJob_ok accepted

theorem wellFormed_of_assemble {entries : List (Value × Value)} {last : Option Value}
    {template : Template} (distinct : (Value.mapping entries).KeysDistinct)
    (read : readJobs defaults context buildKey [] entries = .ok jobs)
    (done : assemble defaults context buildKey last jobs = .ok template) :
    template.WellFormed buildKey := by
  obtain ⟨named, rfl, ⟨job, member, builds, buildJob⟩, endJob⟩ := assemble_ok done
  have order := readJobs_ok (jobsInOrder_nil _ _) read
  rw [order.builds job member, decide_eq_true_eq] at builds
  constructor
  case jobs =>
    rw [named]
    exact order
  case keysDistinct => exact keysDistinct_readJobs distinct read
  case buildJob => rw [buildJob, named, ← builds, order.named job member]
  case buildJobThere => exact ⟨job, member, builds⟩
  case endJob =>
    rw [named]
    exact endJob

theorem read_ok {template : Template} (distinct : value.KeysDistinct)
    (done : read component value = .ok template) :
    template.component = component ∧ ∃ buildKey, template.WellFormed buildKey := by
  obtain ⟨defaults, buildKey, entries, last, top⟩ := topLevel_of_read done
  rw [top.read_eq] at done
  obtain ⟨jobs, read, assembled⟩ := except_bind_ok_iff.mp done
  constructor
  · rw [(assemble_ok assembled).1, top.component_eq]
  · exact ⟨buildKey, wellFormed_of_assemble (top.keysDistinct distinct) read assembled⟩

/-- A job does not need itself. -/
theorem WellFormed.name_notMem_needs {template : Template} (wellFormed : template.WellFormed buildKey)
    (member : job ∈ template.jobs) : job.name ∉ job.needs := by
  intro inside
  obtain ⟨before, after, whole⟩ := List.append_of_mem member
  obtain ⟨other, earlier, same⟩ :=
    List.mem_map.mp (wellFormed.jobs.needsEarlier before job after whole _ inside)
  have listed : other ∈ template.jobs := by
    rw [whole]
    exact List.mem_append_left _ earlier
  rw [wellFormed.jobs.named other listed, wellFormed.jobs.named job member, jobName_inj] at same
  have distinct := wellFormed.keysDistinct
  rw [whole, List.map_append, List.map_cons] at distinct
  exact (List.nodup_append.mp distinct).2.2 _ (List.mem_map_of_mem earlier) _ List.mem_cons_self same

/-- Only one job of a template builds the component. -/
theorem WellFormed.names_buildJobs {template : Template} (wellFormed : template.WellFormed buildKey) :
    (template.jobs.filter TemplateJob.isBuildJob).map TemplateJob.name = [template.buildJob] := by
  have builds : template.jobs.filter TemplateJob.isBuildJob =
      template.jobs.filter fun job => decide (job.key = buildKey) :=
    List.filter_congr wellFormed.jobs.builds
  have named : (template.jobs.filter TemplateJob.isBuildJob).map TemplateJob.name =
      ((template.jobs.filter TemplateJob.isBuildJob).map TemplateJob.key).map
        (jobName template.component) := by
    rw [List.map_map]
    exact List.map_congr_left fun job member => wellFormed.jobs.named job (List.mem_of_mem_filter member)
  have key : (template.jobs.map TemplateJob.key).filter (fun key => decide (key = buildKey)) =
      [buildKey] := by
    obtain ⟨job, member, own⟩ := wellFormed.buildJobThere
    have once : (template.jobs.map TemplateJob.key).count buildKey = 1 :=
      List.count_eq_one_of_mem wellFormed.keysDistinct (List.mem_map.mpr ⟨job, member, own⟩)
    rw [List.filter_eq, once]
    rfl
  rw [List.filter_map] at key
  rw [named, builds, wellFormed.buildJob]
  exact congrArg (List.map (jobName template.component)) key

theorem WellFormed.namesDistinct {template : Template} (wellFormed : template.WellFormed buildKey) :
    (template.jobs.map TemplateJob.name).Nodup := by
  have named : template.jobs.map TemplateJob.name =
      (template.jobs.map TemplateJob.key).map (jobName template.component) := by
    rw [List.map_map]
    exact List.map_congr_left wellFormed.jobs.named
  rw [named]
  exact wellFormed.keysDistinct.map fun _ _ => jobName_inj.mp

/-- A single job builds the component, the one with the designated key. -/
theorem WellFormed.filter_buildJobs {template : Template} (wellFormed : template.WellFormed buildKey) :
    ∃ job, template.jobs.filter TemplateJob.isBuildJob = [job] ∧ job.key = buildKey ∧
      template.buildJob = job.name := by
  obtain ⟨job, single, named⟩ := List.map_eq_singleton_iff.mp wellFormed.names_buildJobs
  have listed : job ∈ template.jobs.filter TemplateJob.isBuildJob := by
    rw [single]
    exact List.mem_singleton_self job
  obtain ⟨member, builds⟩ := List.mem_filter.mp listed
  rw [wellFormed.jobs.builds job member, decide_eq_true_eq] at builds
  exact ⟨job, single, builds, named.symm⟩

/-- A template that was read from a text is well formed. -/
theorem readText_ok {template : Template} {document text : String}
    (done : readText (read component) document text = .ok template) :
    template.component = component ∧ ∃ buildKey, template.WellFormed buildKey := by
  unfold readText at done
  split at done
  · rename_i value found
    exact read_ok (Yaml.keysDistinct_read found) done
  · cases done

end Template

end CrossBuild.Config
