/-
Settings that a level leaves to the level above it.

A level may set a version of the tool chain, machines and an environment. What it sets is read here
from the document itself: null sets nothing, and an empty list of machines sets none. A job inherits
what it does not set from its template. What a component or the repository sets comes in later, and is
only read off its own document.
-/

import CrossBuild.Config.Repository
import CrossBuild.Proofs.Config.Siblings
import CrossBuild.Proofs.Maps

namespace CrossBuild.Config

open Runs
open Yaml (Value)

variable {context name : String} {fields : Fields} {level document : Value}

/-! ### What a level sets -/

def setVersion? (level : Value) : Option String :=
  (valueUnder? "java-version" level).bind scalarText?

/-- One label or a list of labels; an empty list sets nothing. -/
def setMachines? (level : Value) : Option (List String) :=
  match valueUnder? "runs-on" level with
  | some (.string label) => some [label]
  | some (.sequence items) => (Fields.allStrings? items).filter fun labels => !labels.isEmpty
  | _ => none

def envPair? : Value × Value → Option (String × String)
  | (.string key, value) => (scalarText? value).map fun text => (key, text)
  | _ => none

def setEnv (level : Value) : Env :=
  match valueUnder? "env" level with
  | some (.mapping entries) => .ofList (entries.filterMap envPair?)
  | _ => .empty

theorem readEnvEntries_ok {env final : Env} {entries : List (Value × Value)}
    (done : readEnvEntries context env entries = .ok final) :
    final = env.insertAll (entries.filterMap envPair?) := by
  induction entries generalizing env with
  | nil =>
      cases done
      rfl
  | cons entry rest ih =>
      unfold readEnvEntries at done
      split at done
      · cases ‹_ :: _ = []›
      · rename_i key value _ given
        cases given
        split at done
        · rename_i text isText
          have pair : envPair? (.string key, value) = some (key, text) := by
            simp only [envPair?, isText, Option.map_some]
          rw [List.filterMap_cons_some pair, OrderedMap.insertAll_cons]
          exact ih done
        · cases done
      · cases done

namespace Fields

variable (read : Fields.ofValue context level = .ok fields)
include read

theorem javaVersion?_ok {version : Option String} (done : fields.javaVersion? = .ok version) :
    version = setVersion? level := by
  unfold setVersion?
  rw [Fields.valueUnder?_of_ofValue read]
  unfold javaVersion? get? at done
  cases found : fields.entries.lookup "java-version" with
  | none =>
      rw [found] at done
      cases done
      rfl
  | some value =>
      rw [found] at done
      cases value <;> cases done <;> rfl

theorem runsOn?_ok {machines : Option (List String)} (done : fields.runsOn? = .ok machines) :
    machines = setMachines? level := by
  unfold setMachines?
  rw [Fields.valueUnder?_of_ofValue read]
  unfold runsOn? get? at done
  cases found : fields.entries.lookup "runs-on" with
  | none =>
      rw [found] at done
      cases done
      rfl
  | some value =>
      rw [found] at done
      cases value with
      | null =>
          cases done
          rfl
      | string label =>
          cases done
          rfl
      | sequence items =>
          dsimp only at done ⊢
          cases strings : allStrings? items with
          | none =>
              rw [strings] at done
              cases done
          | some labels =>
              rw [strings] at done
              cases labels with
              | nil =>
                  cases done
                  rfl
              | cons label rest =>
                  cases done
                  rfl
      | _ => cases done

theorem env?_ok {env : Option Env} (done : fields.env? = .ok env) :
    env.getD .empty = setEnv level := by
  unfold setEnv
  rw [Fields.valueUnder?_of_ofValue read]
  unfold env? get? at done
  cases found : fields.entries.lookup "env" with
  | none =>
      rw [found] at done
      cases done
      rfl
  | some value =>
      rw [found] at done
      cases value with
      | null =>
          cases done
          rfl
      | mapping entries =>
          obtain ⟨own, accepted, rfl⟩ := except_map_ok_iff.mp done
          rw [Option.getD_some]
          exact readEnvEntries_ok accepted
      | _ => cases done

end Fields

/-! ### Components and the repository -/

theorem version_of_readComponent {component : Component}
    (done : Trigger.readComponent level = .ok component) :
    component.javaVersion = setVersion? level ∧
      valueUnder? "name" level = some (.string component.name) := by
  unfold Trigger.readComponent at done
  simp only [except_bind_ok_iff] at done
  obtain ⟨fields, read, name, named, done⟩ := done
  split at done
  · simp only [except_bind_ok_iff] at done
    obtain ⟨_, -, _, -, _, -, _, -, version, java, _, -, _, -, _, -, same⟩ := done
    cases same
    constructor
    · exact Fields.javaVersion?_ok read java
    · exact Fields.valueUnder?_of_get? read (Fields.get?_of_requireString named)
  · simp only [except_bind_ok_iff] at done
    obtain ⟨_, impossible, -⟩ := done
    cases impossible

theorem settings_of_null (null : level.isNull = true) :
    setVersion? level = none ∧ setMachines? level = none := by
  have under : ∀ name, valueUnder? name level = none := by
    intro name
    cases level with
    | mapping entries => cases null
    | _ => rfl
  unfold setVersion? setMachines?
  rw [under, under]
  exact ⟨rfl, rfl⟩

theorem settings_of_readRepository {repository : Repository}
    (done : Repository.read document = .ok repository) :
    repository.javaVersion = setVersion? document ∧
      repository.runsOn = (setMachines? document).getD defaultRunsOn := by
  unfold Repository.read at done
  split at done
  · rename_i null
    obtain ⟨version, machines⟩ := settings_of_null null
    cases done
    rw [version, machines]
    exact ⟨rfl, rfl⟩
  · obtain ⟨fields, read, done⟩ := except_bind_ok_iff.mp done
    unfold Repository.readFields at done
    simp only [except_bind_ok_iff] at done
    obtain ⟨_, -, version, java, machines, runsOn, _, -, _, -, _, -, same⟩ := done
    cases same
    constructor
    · exact Fields.javaVersion?_ok read java
    · rw [← Fields.runsOn?_ok read runsOn]

/-! ### Templates -/

namespace Template

variable {component buildKey key : String} {defaults : Defaults} {value : Value}
  {earlier jobs : List TemplateJob} {job : TemplateJob} {template : Template}

theorem TopLevel.settings {entries : List (Value × Value)} {last : Option Value}
    (top : TopLevel component document defaults buildKey entries last) :
    defaults.env = setEnv document ∧ defaults.javaVersion = setVersion? document ∧
      defaults.runsOn = setMachines? document := by
  cases top with
  | intro level _ _ environment java machines =>
      exact ⟨Fields.env?_ok level environment, Fields.javaVersion?_ok level java,
        Fields.runsOn?_ok level machines⟩

theorem TopLevel.last_iff {entries : List (Value × Value)} {found : Option Value} {last : Value}
    (top : TopLevel component document defaults buildKey entries found) :
    found = some last ↔ valueUnder? "end-job" document = some last ∧ last ≠ .null := by
  cases top with
  | intro level =>
      constructor
      · intro given
        exact ⟨Fields.valueUnder?_of_get? level given, Fields.ne_null_of_get? given⟩
      · intro ⟨given, present⟩
        exact Fields.get?_of_valueUnder? level given present

/-- What a job says itself comes first, then what its template says; variables of the job are laid
over those of the template. -/
structure Inherits (document level : Value) (env : Env) (javaVersion : Option String)
    (runsOn : Option (List String)) : Prop where
  env : env = (setEnv document).merge (setEnv level)
  javaVersion : javaVersion = (setVersion? level).or (setVersion? document)
  runsOn : runsOn = (setMachines? level).or (setMachines? document)

/-- A job as it stems from an entry of its template's document. -/
structure StemsFrom (component buildKey : String) (document : Value) (entry : Value × Value)
    (job : TemplateJob) : Prop where
  key : entry.1 = .string job.key
  name : job.name = jobName component job.key
  builds : job.isBuildJob = decide (job.key = buildKey)
  inherits : Inherits document entry.2 job.env job.javaVersion job.runsOn
  needs : ∃ names, NeedNames entry.2 names ∧ job.needs = names.map (jobName component)

theorem needs_of_readJob (done : readJob defaults buildKey key earlier value = .ok job) :
    ∃ names, NeedNames value names ∧ job.needs = names.map (jobName defaults.component) := by
  obtain ⟨names, given, again⟩ := readJob_renamed (.same value) done
  rw [again earlier] at done
  obtain ⟨needs, read, same⟩ := except_map_ok_iff.mp done
  refine ⟨names, given, ?_⟩
  rw [← (readNeeds_ok read).1, ← same]
  rfl

theorem inherits_of_readJob {entries : List (Value × Value)} {last : Option Value}
    (top : TopLevel component document defaults buildKey entries last)
    (done : readJob defaults buildKey key earlier value = .ok job) :
    Inherits document value job.env job.javaVersion job.runsOn := by
  obtain ⟨env, version, machines⟩ := top.settings
  unfold readJob at done
  simp only [except_bind_ok_iff] at done
  obtain ⟨fields, read, ownEnv, environment, _, -, _, -, _, -, done⟩ := done
  split at done
  · simp only [except_bind_ok_iff] at done
    obtain ⟨_, -, ownVersion, java, ownMachines, runsOn, _, -, same⟩ := done
    cases same
    constructor
    · rw [env, Fields.env?_ok read environment]
    · rw [version, Fields.javaVersion?_ok read java]
    · rw [machines, Fields.runsOn?_ok read runsOn]
  · cases done

theorem inherits_of_readEndJob {entries : List (Value × Value)} {last : Option Value}
    {endJob : TemplateEndJob} (top : TopLevel component document defaults buildKey entries last)
    (done : readEndJob defaults jobs value = .ok endJob) :
    Inherits document value endJob.env endJob.javaVersion endJob.runsOn := by
  obtain ⟨env, version, machines⟩ := top.settings
  unfold readEndJob at done
  simp only [except_bind_ok_iff] at done
  obtain ⟨fields, read, _, -, _, -, ownEnv, environment, _, -, ownVersion, java, ownMachines,
    runsOn, _, -, _, -, same⟩ := done
  cases same
  constructor
  · rw [env, Fields.env?_ok read environment]
  · rw [version, Fields.javaVersion?_ok read java]
  · rw [machines, Fields.runsOn?_ok read runsOn]

/-- Every job of an accepted template stems from an entry of its document. -/
theorem jobs_of_read (done : read component document = .ok template) :
    ∃ buildKey entries, valueUnder? "build-job" document = some (.string buildKey) ∧
      valueUnder? "jobs" document = some (.mapping entries) ∧
      template.buildJob = jobName component buildKey ∧
      List.Forall₂ (StemsFrom component buildKey document) entries template.jobs := by
  obtain ⟨defaults, buildKey, entries, last, top⟩ := topLevel_of_read done
  rw [top.read_eq] at done
  obtain ⟨jobs, read, assembled⟩ := except_bind_ok_iff.mp done
  obtain ⟨-, rfl, ⟨builder, listed, builds, buildJob⟩, -⟩ := assemble_ok assembled
  obtain ⟨added, whole, each⟩ := readJobs_each read
  rw [List.nil_append] at whole
  subst whole
  have stems : ∀ entry job, ReadsAs defaults buildKey entry job →
      StemsFrom component buildKey document entry job := by
    intro entry job ⟨key, before, own, accepted⟩
    obtain ⟨rfl, named, builds, -⟩ := readJob_ok accepted
    rw [top.component_eq] at named
    have needs := needs_of_readJob accepted
    rw [top.component_eq] at needs
    exact ⟨own, named, builds, inherits_of_readJob top accepted, needs⟩
  have all := each.imp stems
  refine ⟨buildKey, entries, top.valueUnder?_buildJob, top.valueUnder?_jobs, ?_, all⟩
  obtain ⟨entry, -, stem⟩ := exists_of_mem_right all builder listed
  rw [stem.builds, decide_eq_true_eq] at builds
  rw [buildJob, stem.name, builds]

/-- The end job of an accepted template stems from its own level, if that is given. -/
theorem endJob_of_read (done : read component document = .ok template) {last : Value}
    (given : valueUnder? "end-job" document = some last) (present : last ≠ .null) :
    ∃ endJob, template.endJob = some endJob ∧ endJob.name = jobName component "end-job" ∧
      Inherits document last endJob.env endJob.javaVersion endJob.runsOn := by
  obtain ⟨defaults, buildKey, entries, found, top⟩ := topLevel_of_read done
  rw [top.read_eq] at done
  obtain ⟨jobs, -, assembled⟩ := except_bind_ok_iff.mp done
  have isLast : found = some last := top.last_iff.mpr ⟨given, present⟩
  subst isLast
  obtain ⟨-, -, -, named⟩ := assemble_ok assembled
  unfold assemble at assembled
  split at assembled
  · cases assembled
  · obtain ⟨made, ended, same⟩ := except_bind_ok_iff.mp assembled
    obtain ⟨endJob, accepted, rfl⟩ := option_mapM_ok ended
    cases same
    rw [top.component_eq] at named
    exact ⟨endJob, rfl, (named endJob rfl).1, inherits_of_readEndJob top accepted⟩

/-- A template has an end job only if its document gives one. -/
theorem level_of_endJob (done : read component document = .ok template) {endJob : TemplateEndJob}
    (ended : template.endJob = some endJob) :
    endJob.name = jobName component "end-job" ∧
      ∃ last, valueUnder? "end-job" document = some last ∧ last ≠ .null := by
  obtain ⟨defaults, buildKey, entries, found, top⟩ := topLevel_of_read done
  rw [top.read_eq] at done
  obtain ⟨jobs, -, assembled⟩ := except_bind_ok_iff.mp done
  obtain ⟨-, -, -, named⟩ := assemble_ok assembled
  rw [top.component_eq] at named
  refine ⟨(named endJob ended).1, ?_⟩
  cases found with
  | none =>
      unfold assemble at assembled
      split at assembled
      · cases assembled
      · cases assembled
        cases ended
  | some last => exact ⟨last, top.last_iff.mp rfl⟩

end Template

end CrossBuild.Config
