/-
The levels of configuration documents.

A level is a mapping with a fixed set of keys: a document itself, an entry of one of its lists, or
the value of one of its keys. Which levels there are and where they stand is said once, as data. An
accepted document has no key that its level does not know, so a key that is misspelt is noticed at
whatever depth it stands. What the values mean is not looked at here.
-/

import CrossBuild.Proofs.Config.Templates
import CrossBuild.Proofs.Config.Triggers

namespace CrossBuild.Config

open Runs
open Yaml (Value)

/-! ### Where the levels stand -/

inductive Level where
  | trigger
  | component
  | dependency
  | repository
  | reporting
  | labels
  | endJob
  | template
  | job
  | runElement
  | templateEndJob
  deriving DecidableEq

/-- How values of a level stand under their key. -/
inductive Placing where
  | whole
  | items
  | entries
  deriving DecidableEq

namespace Level

def keys : Level → List String
  | .trigger => ["name", "env", "components"]
  | .component =>
      ["name", "org", "branch", "mavenOpts", "debug", "java-version", "dependencies"]
  | .dependency => ["name", "property"]
  | .repository => ["env", "java-version", "runs-on", "issue-reporting", "end-job"]
  | .reporting => ["comments", "labels"]
  | .labels => ["success", "failure"]
  | .endJob => ["name", "needs", "runs-on", "env", "if", "steps"]
  | .template => ["build-job", "jobs", "env", "java-version", "runs-on", "end-job"]
  | .job => ["env", "needs", "run", "java-version", "runs-on"]
  | .runElement => ["mvn", "shell"]
  | .templateEndJob => ["name", "needs", "env", "if", "java-version", "runs-on", "steps"]

/-- The keys whose value is assigned when jobs are generated. -/
def assignedKeys : Level → List String
  | .endJob => ["name", "needs", "runs-on"]
  | .templateEndJob => ["name", "needs"]
  | _ => []

def inside : Level → List (String × Placing × Level)
  | .trigger => [("components", .items, .component)]
  | .component => [("dependencies", .items, .dependency)]
  | .repository => [("issue-reporting", .whole, .reporting), ("end-job", .whole, .endJob)]
  | .reporting => [("labels", .whole, .labels)]
  | .template => [("jobs", .entries, .job), ("end-job", .whole, .templateEndJob)]
  | .job => [("run", .items, .runElement)]
  | _ => []

end Level

/-- The inner value stands in the outer one. A null stands for no value. -/
inductive Placing.Holds (inner : Value) : Placing → Value → Prop where
  | whole (present : inner ≠ .null) : Holds inner .whole inner
  | item {values : List Value} (listed : inner ∈ values) : Holds inner .items (.sequence values)
  | entry {key : Value} {pairs : List (Value × Value)} (listed : (key, inner) ∈ pairs) :
      Holds inner .entries (.mapping pairs)

/-- A value of one level stands within a value of another. -/
inductive Within : Level → Value → Level → Value → Prop where
  | here (level : Level) (value : Value) : Within level value level value
  | inside {level between target : Level} {outer middle inner value : Value} {key : String}
      {placing : Placing} (listed : (key, placing, between) ∈ level.inside)
      (under : valueUnder? key outer = some value) (holds : placing.Holds middle value)
      (rest : Within between middle target inner) : Within level outer target inner

/-! ### What acceptance makes sure of -/

/-- A reader of documents accepts the value. -/
inductive Accepted : Level → Value → Prop where
  | trigger {value : Value} {trigger : Trigger} (read : Trigger.read value = .ok trigger) :
      Accepted .trigger value
  | repository {value : Value} {repository : Repository}
      (read : Repository.read value = .ok repository) : Accepted .repository value
  | template {component : String} {value : Value} {template : Template}
      (read : Template.read component value = .ok template) : Accepted .template value

/-- A key of a level has this name. The key of a run element may carry tags. -/
def Level.Names (level : Level) (key : Value) (name : String) : Prop :=
  match level with
  | .runElement => key.untagged = .string name
  | _ => key = .string name

/-- All entries of a mapping have keys of the level, and all keys of the level are looked at: no
reader takes a value with a tag. -/
structure Level.Keeps (level : Level) (entries : List (Value × Value)) : Prop where
  known : ∀ entry ∈ entries, ∃ name ∈ level.keys, level.Names entry.1 name
  lookedAt : ∀ name ∈ level.keys, ∀ tag value,
    valueUnder? name (.mapping entries) ≠ some (.tagged tag value)
  assigned : ∀ name ∈ level.assignedKeys, ∀ value,
    valueUnder? name (.mapping entries) = some value → value = .null
  single : level = .runElement → ∃ key command, entries = [(key, .string command)]

def Level.KeepsAll (level : Level) (document : Value) : Prop :=
  ∀ target inner, Within level document target inner →
    ∃ entries, inner = .mapping entries ∧ target.Keeps entries

inductive Placing.Replaces (before after : Value) : Placing → Value → Value → Prop where
  | whole : Replaces before after .whole before after
  | item (left right : List Value) :
      Replaces before after .items (.sequence (left ++ before :: right))
        (.sequence (left ++ after :: right))
  | entry (key : Value) (left right : List (Value × Value)) :
      Replaces before after .entries (.mapping (left ++ (key, before) :: right))
        (.mapping (left ++ (key, after) :: right))

/-- The second document is the first with one more entry, at one of its levels, under a key that the
level does not know. -/
inductive GainsKey : Level → Value → Value → Prop where
  | here {level : Level} {key : Value} (value : Value) (front back : List (Value × Value))
      (unknown : ∀ name ∈ level.keys, key ≠ .string name) :
      GainsKey level (.mapping (front ++ back)) (.mapping (front ++ (key, value) :: back))
  | inside {level between : Level} {key : String} {placing : Placing}
      {before after outer changed : Value} {front : List (Value × Value)}
      (back : List (Value × Value)) (listed : (key, placing, between) ∈ level.inside)
      (first : ∀ entry ∈ front, isKey key entry.1 = false)
      (replaces : placing.Replaces before after outer changed)
      (gains : GainsKey between before after) :
      GainsKey level (.mapping (front ++ (.string key, outer) :: back))
        (.mapping (front ++ (.string key, changed) :: back))

variable {context name key : String} {fields : Fields} {level between : Level}
  {value outer inner : Value} {placing : Placing} {known : List String}

/-! ### Reading a level -/

namespace Fields

def Untagged (fields : Fields) (key : String) : Prop :=
  ∀ tag value, fields.get? key ≠ some (.tagged tag value)

theorem get?_of_holds_whole (level : Fields.ofValue context value = .ok fields)
    (under : valueUnder? key value = some outer) (holds : Placing.whole.Holds inner outer) :
    fields.get? key = some inner := by
  cases holds with
  | whole present => exact get?_of_valueUnder? level under present

theorem mem_of_holds_items {found : Option (List Value)}
    (level : Fields.ofValue context value = .ok fields) (done : fields.list? key = .ok found)
    (under : valueUnder? key value = some outer) (holds : Placing.items.Holds inner outer) :
    inner ∈ found.getD [] := by
  cases holds with
  | item listed =>
      have given := get?_of_valueUnder? level under (fun same => nomatch same)
      unfold list? at done
      rw [given] at done
      cases done
      exact listed

/-! Each way of reading a key refuses a tag. -/

theorem untagged_of_get? (given : fields.get? key = some value)
    (plain : ∀ tag inner, value ≠ .tagged tag inner) : fields.Untagged key := by
  intro tag inner same
  cases given.symm.trans same
  exact plain tag inner rfl

theorem untagged_of_requireString {text : String} (done : fields.requireString key = .ok text) :
    fields.Untagged key :=
  untagged_of_get? (get?_of_requireString done) fun _ _ same => nomatch same

theorem untagged_of_string? {text : Option String} (done : fields.string? key = .ok text) :
    fields.Untagged key := by
  intro tag inner given
  unfold string? at done
  rw [given] at done
  cases done

theorem untagged_of_bool? {flag : Option Bool} (done : fields.bool? key = .ok flag) :
    fields.Untagged key := by
  intro tag inner given
  unfold bool? at done
  rw [given] at done
  cases done

theorem untagged_of_list? {items : Option (List Value)} (done : fields.list? key = .ok items) :
    fields.Untagged key := by
  intro tag inner given
  unfold list? at done
  rw [given] at done
  cases done

theorem untagged_of_env? {env : Option Env} (done : fields.env? = .ok env) :
    fields.Untagged "env" := by
  intro tag inner given
  unfold env? at done
  rw [given] at done
  cases done

theorem untagged_of_javaVersion? {version : Option String}
    (done : fields.javaVersion? = .ok version) : fields.Untagged "java-version" := by
  intro tag inner given
  unfold javaVersion? at done
  rw [given] at done
  cases done

theorem untagged_of_runsOn? {labels : Option (List String)} (done : fields.runsOn? = .ok labels) :
    fields.Untagged "runs-on" := by
  intro tag inner given
  unfold runsOn? at done
  rw [given] at done
  cases done

theorem untagged_of_steps {steps : List Value} (done : fields.steps = .ok steps) :
    fields.Untagged "steps" := by
  unfold Fields.steps at done
  obtain ⟨found, listed, -⟩ := except_bind_ok_iff.mp done
  exact untagged_of_list? listed

theorem get?_of_forbid {answer : Unit} (done : fields.forbid key = .ok answer) :
    fields.get? key = none := by
  unfold forbid at done
  split at done
  · assumption
  · cases done

theorem untagged_of_forbid {answer : Unit} (done : fields.forbid key = .ok answer) :
    fields.Untagged key := by
  intro tag inner given
  rw [get?_of_forbid done] at given
  cases given

theorem untagged_of_mapM {α : Type} {read : Value → Except Error α} {found : Option α}
    (done : (fields.get? key).mapM read = .ok found)
    (levels : ∀ {inner result}, read inner = .ok result → ∃ entries, inner = .mapping entries) :
    fields.Untagged key := by
  intro tag inner given
  rw [given] at done
  obtain ⟨result, accepted, -⟩ := option_mapM_ok done
  obtain ⟨entries, impossible⟩ := levels accepted
  cases impossible

theorem finish_ok {answer : Unit} (done : fields.finish known = .ok answer) :
    ∀ pair ∈ fields.entries, pair.1 ∈ known := by
  unfold finish at done
  split at done
  · rename_i none
    intro pair member
    have kept := List.filter_eq_nil_iff.mp none pair.1 (List.mem_map_of_mem member)
    rw [Bool.not_eq_true, Bool.not_eq_false', List.contains_iff_mem] at kept
    exact kept
  · cases done

theorem keeps (level : Level) {answer : Unit} (read : Fields.ofValue context value = .ok fields)
    (finished : fields.finish level.keys = .ok answer) (plain : level ≠ .runElement)
    (lookedAt : ∀ name ∈ level.keys, fields.Untagged name)
    (assigned : ∀ name ∈ level.assignedKeys, fields.get? name = none) :
    ∃ entries, value = .mapping entries ∧ level.Keeps entries := by
  have whole := Fields.ofValue_ok read
  apply Exists.intro _
  apply And.intro whole
  constructor
  case known =>
    intro entry member
    obtain ⟨pair, inside, rfl⟩ := List.mem_map.mp member
    have named : level.Names (.string pair.1) pair.1 := by
      unfold Level.Names
      split
      · rfl
      · rfl
    exact ⟨pair.1, finish_ok finished pair inside, named⟩
  case lookedAt =>
    intro name listed tag inner under
    rw [← whole] at under
    exact lookedAt name listed tag inner (get?_of_valueUnder? read under (fun same => nomatch same))
  case assigned =>
    intro name listed inner under
    rw [← whole] at under
    by_contra present
    have given := get?_of_valueUnder? read under present
    rw [assigned name listed] at given
    cases given
  case single =>
    intro same
    exact absurd same plain

end Fields

/-! ### From a level to those below -/

theorem Level.KeepsAll.mapping (all : level.KeepsAll value) :
    ∃ entries, value = .mapping entries := by
  obtain ⟨entries, whole, -⟩ := all level value (.here level value)
  exact ⟨entries, whole⟩

theorem Level.KeepsAll.of_inside (own : ∃ entries, value = .mapping entries ∧ level.Keeps entries)
    (inside : ∀ key placing between, (key, placing, between) ∈ level.inside →
      ∀ outer, valueUnder? key value = some outer → ∀ middle, placing.Holds middle outer →
        between.KeepsAll middle) : level.KeepsAll value := by
  intro target inner within
  cases within with
  | here => exact own
  | inside listed under holds rest => exact inside _ _ _ listed _ under _ holds target inner rest

/-! ### One level after the other -/

theorem keepsAll_dependency {dependency : Dependency}
    (done : Trigger.readDependency value = .ok dependency) : Level.dependency.KeepsAll value := by
  unfold Trigger.readDependency at done
  simp only [except_bind_ok_iff] at done
  obtain ⟨fields, read, _, named, _, property, _, finished, -⟩ := done
  apply Level.KeepsAll.of_inside
  · apply Fields.keeps .dependency read finished (by decide)
    · simp only [Level.keys, List.forall_mem_cons]
      exact ⟨Fields.untagged_of_requireString named, Fields.untagged_of_requireString property,
        fun _ absent => nomatch absent⟩
    · intro name absent
      cases absent
  · intro key placing between absent
    cases absent

theorem keepsAll_component {component : Component}
    (done : Trigger.readComponent value = .ok component) : Level.component.KeepsAll value := by
  unfold Trigger.readComponent at done
  simp only [except_bind_ok_iff] at done
  obtain ⟨fields, read, name, named, done⟩ := done
  split at done
  case isFalse =>
    obtain ⟨_, impossible, -⟩ := except_bind_ok_iff.mp done
    cases impossible
  case isTrue =>
    simp only [except_bind_ok_iff] at done
    obtain ⟨_, org, _, branch, _, opts, _, debug, _, java, _, listed, _, each, _, finished, -⟩ :=
      done
    apply Level.KeepsAll.of_inside
    · apply Fields.keeps .component read finished (by decide)
      · simp only [Level.keys, List.forall_mem_cons]
        exact ⟨Fields.untagged_of_requireString named, Fields.untagged_of_requireString org,
          Fields.untagged_of_requireString branch, Fields.untagged_of_string? opts,
          Fields.untagged_of_bool? debug, Fields.untagged_of_javaVersion? java,
          Fields.untagged_of_list? listed, fun _ absent => nomatch absent⟩
      · intro name absent
        cases absent
    · intro key placing between inside outer under middle holds
      cases List.mem_singleton.mp inside
      have inside := Fields.mem_of_holds_items read listed under holds
      obtain ⟨dependency, -, accepted⟩ := exists_of_mem_left (mapM_each each) middle inside
      exact keepsAll_dependency accepted

theorem keepsAll_trigger {trigger : Trigger} (done : Trigger.read value = .ok trigger) :
    Level.trigger.KeepsAll value := by
  obtain ⟨items, lists, each⟩ := Trigger.lists_of_read done
  obtain ⟨read, named, env, required, finished⟩ := lists
  have given := Fields.get?_of_require required
  apply Level.KeepsAll.of_inside
  · apply Fields.keeps .trigger read finished (by decide)
    · simp only [Level.keys, List.forall_mem_cons]
      refine ⟨Fields.untagged_of_requireString named, Fields.untagged_of_env? env, ?_,
        fun _ absent => nomatch absent⟩
      exact Fields.untagged_of_get? given fun _ _ same => nomatch same
    · intro name absent
      cases absent
  · intro key placing between inside outer under middle holds
    cases List.mem_singleton.mp inside
    cases holds with
    | item member =>
        have same := Fields.get?_of_valueUnder? read under (fun same => nomatch same)
        cases given.symm.trans same
        obtain ⟨_, -, reads⟩ := Trigger.readComponents_each each
        obtain ⟨_, -, accepted⟩ := exists_of_mem_left reads _ member
        exact keepsAll_component accepted

theorem keepsAll_labels {labels : StatusLabels} (done : Repository.readLabels value = .ok labels) :
    Level.labels.KeepsAll value := by
  unfold Repository.readLabels at done
  simp only [except_bind_ok_iff] at done
  obtain ⟨fields, read, _, success, _, failure, _, finished, -⟩ := done
  apply Level.KeepsAll.of_inside
  · apply Fields.keeps .labels read finished (by decide)
    · simp only [Level.keys, List.forall_mem_cons]
      exact ⟨Fields.untagged_of_requireString success, Fields.untagged_of_requireString failure,
        fun _ absent => nomatch absent⟩
    · intro name absent
      cases absent
  · intro key placing between absent
    cases absent

theorem keepsAll_reporting {reporting : IssueReporting}
    (done : Repository.readReporting value = .ok reporting) : Level.reporting.KeepsAll value := by
  unfold Repository.readReporting at done
  simp only [except_bind_ok_iff] at done
  obtain ⟨fields, read, _, comments, _, labels, _, finished, -⟩ := done
  apply Level.KeepsAll.of_inside
  · apply Fields.keeps .reporting read finished (by decide)
    · simp only [Level.keys, List.forall_mem_cons]
      exact ⟨Fields.untagged_of_bool? comments,
        Fields.untagged_of_mapM labels fun accepted => (keepsAll_labels accepted).mapping,
        fun _ absent => nomatch absent⟩
    · intro name absent
      cases absent
  · intro key placing between inside outer under middle holds
    cases List.mem_singleton.mp inside
    rw [Fields.get?_of_holds_whole read under holds] at labels
    obtain ⟨_, accepted, -⟩ := option_mapM_ok labels
    exact keepsAll_labels accepted

theorem keepsAll_endJob {endJob : EndJob} (done : Repository.readEndJob value = .ok endJob) :
    Level.endJob.KeepsAll value := by
  unfold Repository.readEndJob at done
  simp only [except_bind_ok_iff] at done
  obtain ⟨fields, read, _, name, _, needs, _, runsOn, _, env, _, condition, _, steps, _, finished,
    -⟩ := done
  apply Level.KeepsAll.of_inside
  · apply Fields.keeps .endJob read finished (by decide)
    · simp only [Level.keys, List.forall_mem_cons]
      exact ⟨Fields.untagged_of_forbid name, Fields.untagged_of_forbid needs,
        Fields.untagged_of_forbid runsOn, Fields.untagged_of_env? env,
        Fields.untagged_of_string? condition, Fields.untagged_of_steps steps,
        fun _ absent => nomatch absent⟩
    · simp only [Level.assignedKeys, List.forall_mem_cons]
      exact ⟨Fields.get?_of_forbid name, Fields.get?_of_forbid needs, Fields.get?_of_forbid runsOn,
        fun _ absent => nomatch absent⟩
  · intro key placing between absent
    cases absent

theorem keepsAll_repository {repository : Repository} (present : value.isNull = false)
    (done : Repository.read value = .ok repository) : Level.repository.KeepsAll value := by
  unfold Repository.read at done
  rw [present] at done
  obtain ⟨fields, read, done⟩ := except_bind_ok_iff.mp done
  unfold Repository.readFields at done
  simp only [except_bind_ok_iff] at done
  obtain ⟨_, env, _, java, _, runsOn, _, reporting, _, endJob, _, finished, -⟩ := done
  apply Level.KeepsAll.of_inside
  · apply Fields.keeps .repository read finished (by decide)
    · simp only [Level.keys, List.forall_mem_cons]
      exact ⟨Fields.untagged_of_env? env, Fields.untagged_of_javaVersion? java,
        Fields.untagged_of_runsOn? runsOn,
        Fields.untagged_of_mapM reporting fun accepted => (keepsAll_reporting accepted).mapping,
        Fields.untagged_of_mapM endJob fun accepted => (keepsAll_endJob accepted).mapping,
        fun _ absent => nomatch absent⟩
    · intro name absent
      cases absent
  · intro key placing between inside outer under middle holds
    rcases List.mem_cons.mp inside with first | second
    · cases first
      rw [Fields.get?_of_holds_whole read under holds] at reporting
      obtain ⟨_, accepted, -⟩ := option_mapM_ok reporting
      exact keepsAll_reporting accepted
    · cases List.mem_singleton.mp second
      rw [Fields.get?_of_holds_whole read under holds] at endJob
      obtain ⟨_, accepted, -⟩ := option_mapM_ok endJob
      exact keepsAll_endJob accepted

theorem untagged_of_string? {text : String} (named : value.string? = some text) :
    value.untagged = .string text := by
  unfold Value.string? at named
  split at named
  · rename_i same
    cases named
    exact same
  · cases named

theorem names_of_readCommand {keyValue : Value} {command : String} {element : RunElement}
    (done : Template.readCommand keyValue command = .ok element) :
    ∃ name ∈ Level.runElement.keys, keyValue.untagged = .string name := by
  unfold Template.readCommand at done
  split at done
  case h_1 named => exact ⟨_, List.mem_cons_self, untagged_of_string? named⟩
  case h_2 named => exact ⟨_, List.mem_cons_of_mem _ List.mem_cons_self, untagged_of_string? named⟩
  case h_3 => cases done

theorem keepsAll_runElement {element : RunElement}
    (done : Template.readRunElement value = .ok element) : Level.runElement.KeepsAll value := by
  unfold Template.readRunElement at done
  split at done
  case h_1 keyValue command =>
    apply Level.KeepsAll.of_inside
    · apply Exists.intro _
      apply And.intro rfl
      constructor
      case known =>
        intro entry member
        rw [List.mem_singleton.mp member]
        exact names_of_readCommand done
      case lookedAt =>
        intro name listed tag inner under
        rw [valueUnder?_cons] at under
        split at under
        · cases under
        · cases under
      case assigned =>
        intro name absent
        cases absent
      case single =>
        intro _
        exact ⟨_, _, rfl⟩
    · intro key placing between absent
      cases absent
  all_goals cases done

theorem keepsAll_job {defaults : Template.Defaults} {buildKey : String} {earlier : List TemplateJob}
    {job : TemplateJob} (done : Template.readJob defaults buildKey key earlier value = .ok job) :
    Level.job.KeepsAll value := by
  unfold Template.readJob at done
  simp only [except_bind_ok_iff] at done
  obtain ⟨fields, read, _, env, _, needs, _, -, items, run, done⟩ := done
  split at done
  case h_2 => cases done
  case h_1 items =>
    simp only [except_bind_ok_iff] at done
    obtain ⟨_, each, _, java, _, runsOn, _, finished, -⟩ := done
    apply Level.KeepsAll.of_inside
    · apply Fields.keeps .job read finished (by decide)
      · simp only [Level.keys, List.forall_mem_cons]
        exact ⟨Fields.untagged_of_env? env, Fields.untagged_of_list? needs,
          Fields.untagged_of_list? run, Fields.untagged_of_javaVersion? java,
          Fields.untagged_of_runsOn? runsOn, fun _ absent => nomatch absent⟩
      · intro name absent
        cases absent
    · intro key placing between inside outer under middle holds
      cases List.mem_singleton.mp inside
      have inside := Fields.mem_of_holds_items read run under holds
      obtain ⟨element, -, accepted⟩ := exists_of_mem_left (mapM_each each) middle inside
      exact keepsAll_runElement accepted

theorem keepsAll_templateEndJob {defaults : Template.Defaults} {jobs : List TemplateJob}
    {endJob : TemplateEndJob} (done : Template.readEndJob defaults jobs value = .ok endJob) :
    Level.templateEndJob.KeepsAll value := by
  unfold Template.readEndJob at done
  simp only [except_bind_ok_iff] at done
  obtain ⟨fields, read, _, name, _, needs, _, env, _, condition, _, java, _, runsOn, _, steps, _,
    finished, -⟩ := done
  apply Level.KeepsAll.of_inside
  · apply Fields.keeps .templateEndJob read finished (by decide)
    · simp only [Level.keys, List.forall_mem_cons]
      exact ⟨Fields.untagged_of_forbid name, Fields.untagged_of_forbid needs,
        Fields.untagged_of_env? env, Fields.untagged_of_string? condition,
        Fields.untagged_of_javaVersion? java, Fields.untagged_of_runsOn? runsOn,
        Fields.untagged_of_steps steps, fun _ absent => nomatch absent⟩
    · simp only [Level.assignedKeys, List.forall_mem_cons]
      exact ⟨Fields.get?_of_forbid name, Fields.get?_of_forbid needs,
        fun _ absent => nomatch absent⟩
  · intro key placing between absent
    cases absent

theorem keepsAll_template {component : String} {template : Template}
    (done : Template.read component value = .ok template) : Level.template.KeepsAll value := by
  obtain ⟨defaults, buildKey, entries, last, top⟩ := Template.topLevel_of_read done
  rw [top.read_eq] at done
  obtain ⟨jobs, each, done⟩ := except_bind_ok_iff.mp done
  obtain ⟨_, endJob⟩ := Template.last_of_assemble done
  cases top with
  | intro read buildJob required env java runsOn finished _ =>
      have given := Fields.get?_of_require required
      apply Level.KeepsAll.of_inside
      · apply Fields.keeps .template read finished (by decide)
        · simp only [Level.keys, List.forall_mem_cons]
          refine ⟨Fields.untagged_of_requireString buildJob, ?_, Fields.untagged_of_env? env,
            Fields.untagged_of_javaVersion? java, Fields.untagged_of_runsOn? runsOn,
            Fields.untagged_of_mapM endJob fun accepted =>
              (keepsAll_templateEndJob accepted).mapping,
            fun _ absent => nomatch absent⟩
          exact Fields.untagged_of_get? given fun _ _ same => nomatch same
        · intro name absent
          cases absent
      · intro key placing between inside outer under middle holds
        rcases List.mem_cons.mp inside with first | second
        · cases first
          cases holds with
          | entry member =>
              have same := Fields.get?_of_valueUnder? read under (fun same => nomatch same)
              cases given.symm.trans same
              obtain ⟨_, -, reads⟩ := Template.readJobs_each each
              obtain ⟨_, -, _, _, -, accepted⟩ := exists_of_mem_left reads _ member
              exact keepsAll_job accepted
        · cases List.mem_singleton.mp second
          rw [Fields.get?_of_holds_whole read under holds] at endJob
          obtain ⟨_, accepted, -⟩ := option_mapM_ok endJob
          exact keepsAll_templateEndJob accepted

/-- Only a repository document may be empty, and then it has no level. -/
theorem Accepted.keepsAll (accepted : Accepted level value) :
    level = .repository ∧ value.isNull = true ∨ level.KeepsAll value := by
  cases accepted with
  | trigger read => exact .inr (keepsAll_trigger read)
  | template read => exact .inr (keepsAll_template read)
  | repository read =>
      cases empty : value.isNull with
      | true => exact .inl ⟨rfl, rfl⟩
      | false => exact .inr (keepsAll_repository empty read)

theorem Accepted.keepsAll_of_mapping {entries : List (Value × Value)}
    (accepted : Accepted level (.mapping entries)) : level.KeepsAll (.mapping entries) := by
  rcases accepted.keepsAll with ⟨-, empty⟩ | all
  · cases empty
  · exact all

/-! ### One key more -/

theorem GainsKey.mapping {before after : Value} (gains : GainsKey level before after) :
    (∃ entries, before = .mapping entries) ∧ ∃ entries, after = .mapping entries := by
  cases gains with
  | here value front back unknown => exact ⟨⟨_, rfl⟩, ⟨_, rfl⟩⟩
  | inside back listed first replaces gains => exact ⟨⟨_, rfl⟩, ⟨_, rfl⟩⟩

theorem Placing.Replaces.holds {before after changed : Value}
    (replaces : placing.Replaces before after outer changed) (present : before ≠ .null)
    (still : after ≠ .null) : placing.Holds before outer ∧ placing.Holds after changed := by
  cases replaces with
  | whole => exact ⟨.whole present, .whole still⟩
  | item left right =>
      constructor
      · exact .item (List.mem_append_right _ List.mem_cons_self)
      · exact .item (List.mem_append_right _ List.mem_cons_self)
  | entry key left right =>
      constructor
      · exact .entry (List.mem_append_right _ List.mem_cons_self)
      · exact .entry (List.mem_append_right _ List.mem_cons_self)

theorem GainsKey.exists_level {before after : Value} (gains : GainsKey level before after) :
    ∃ target front back key value, (∀ name ∈ Level.keys target, key ≠ .string name) ∧
      Within level before target (.mapping (front ++ back)) ∧
      Within level after target (.mapping (front ++ (key, value) :: back)) := by
  induction gains with
  | here value front back unknown =>
      exact ⟨_, front, back, _, value, unknown, .here _ _, .here _ _⟩
  | @inside level between key placing before after outer changed front back listed first replaces
      gains ih =>
      obtain ⟨target, left, right, added, value, unknown, old, new⟩ := ih
      obtain ⟨⟨_, wasMapping⟩, ⟨_, isMapping⟩⟩ := gains.mapping
      obtain ⟨held, holds⟩ := replaces.holds (by rw [wasMapping]; exact fun same => nomatch same)
        (by rw [isMapping]; exact fun same => nomatch same)
      apply Exists.intro target
      refine ⟨left, right, added, value, unknown, ?_, ?_⟩
      · exact .inside listed (valueUnder?_append first) held old
      · exact .inside listed (valueUnder?_append first) holds new

theorem Level.not_keeps_of_unknown {front back : List (Value × Value)} {added : Value × Value}
    (keeps : level.Keeps (front ++ back)) (unknown : ∀ name ∈ level.keys, added.1 ≠ .string name) :
    ¬ level.Keeps (front ++ added :: back) := by
  intro more
  by_cases element : level = .runElement
  · obtain ⟨_, _, one⟩ := keeps.single element
    obtain ⟨_, _, still⟩ := more.single element
    have before := congrArg List.length one
    have after := congrArg List.length still
    simp only [List.length_append, List.length_cons, List.length_nil] at before after
    omega
  · obtain ⟨name, listed, named⟩ :=
      more.known added (List.mem_append_right _ List.mem_cons_self)
    unfold Level.Names at named
    split at named
    · exact element rfl
    · exact unknown name listed named

/-- An accepted document has only keys that its levels know, and none can be added. -/
theorem accepted_keys_are_known {document : Value} (accepted : Accepted level document) :
    (level = .repository ∧ document.isNull = true ∨ level.KeepsAll document) ∧
      ∀ changed, GainsKey level document changed → ¬ Accepted level changed := by
  constructor
  · exact accepted.keepsAll
  · intro changed gains still
    obtain ⟨⟨_, rfl⟩, ⟨_, rfl⟩⟩ := gains.mapping
    obtain ⟨target, front, back, key, value, unknown, old, new⟩ := gains.exists_level
    obtain ⟨_, same, keeps⟩ := accepted.keepsAll_of_mapping target _ old
    cases same
    obtain ⟨_, same, more⟩ := still.keepsAll_of_mapping target _ new
    cases same
    exact Level.not_keeps_of_unknown keeps unknown more

/-- A template document with the given jobs, of which the first builds. -/
def layeredDocument (jobs : List (Value × Value)) : Value :=
  .mapping [
    (.string "jobs", .mapping jobs),
    (.string "build-job", .string "jar"),
    (.string "end-job", .mapping [
      (.string "needs", .null),
      (.string "steps", .sequence [.mapping [(.string "run", .string "ls")]])]),
    (.string "java-version", .number (.int 17))]

def layeredJobs (second : List (Value × Value)) : List (Value × Value) :=
  [(.string "jar", .mapping [
      (.string "run", .sequence [.mapping [(.string "mvn", .string "install")]])]),
    (.string "test", .mapping second)]

def layeredJob : List (Value × Value) :=
  [(.string "needs", .sequence [.string "jar"]),
    (.string "run", .sequence [.mapping [(.string "shell", .string "ls")]])]

theorem keys_of_layered_are_known :
    Accepted .template (layeredDocument (layeredJobs layeredJob)) ∧
    GainsKey .template (layeredDocument (layeredJobs layeredJob))
      (layeredDocument (layeredJobs (layeredJob ++ [(.string "if", .null)]))) ∧
    Level.template.KeepsAll (layeredDocument (layeredJobs layeredJob)) ∧
    ¬ Accepted .template
      (layeredDocument (layeredJobs (layeredJob ++ [(.string "if", .null)]))) := by
  have accepted : Accepted .template (layeredDocument (layeredJobs layeredJob)) := by
    obtain ⟨template, read⟩ : ∃ template,
        Template.read "app" (layeredDocument (layeredJobs layeredJob)) = .ok template :=
      except_exists_ok (by decide +kernel)
    exact .template read
  have gains : GainsKey .template (layeredDocument (layeredJobs layeredJob))
      (layeredDocument (layeredJobs (layeredJob ++ [(.string "if", .null)]))) := by
    apply @GainsKey.inside _ _ _ _ _ _ _ _ [] _ List.mem_cons_self (fun _ absent => nomatch absent)
      (.entry (.string "test") [_] [])
    apply @GainsKey.here _ _ .null layeredJob []
    intro name listed same
    cases same
    exact absurd listed (by decide)
  obtain ⟨kept, refused⟩ := accepted_keys_are_known accepted
  exact ⟨accepted, gains, kept.resolve_left (fun impossible => nomatch impossible.1),
    refused _ gains⟩

/-- Each key of each level is a string that the level knows. -/
def Level.KeysPlain (level : Level) (document : Value) : Prop :=
  ∀ target inner, Within level document target inner →
    ∃ entries, inner = .mapping entries ∧
      ∀ entry ∈ entries, ∃ name ∈ target.keys, entry.1 = .string name

def taggedRunDocument : Value :=
  .mapping [
    (.string "build-job", .string "b"),
    (.string "jobs", .mapping [
      (.string "b", .mapping [
        (.string "run", .sequence [
          .mapping [(.tagged "x" (.string "mvn"), .string "install")]])])])]

/-- A run element passes with a key that is no string. -/
theorem tagged_run_key_is_accepted :
    Accepted .template taggedRunDocument ∧ ¬ Level.template.KeysPlain taggedRunDocument := by
  constructor
  · obtain ⟨template, read⟩ : ∃ template, Template.read "a" taggedRunDocument = .ok template :=
      except_exists_ok (by decide +kernel)
    exact .template read
  · intro plain
    have within : Within .template taggedRunDocument .runElement
        (.mapping [(.tagged "x" (.string "mvn"), .string "install")]) := by
      apply @Within.inside _ .job _ _ _ _ _ "jobs" .entries (by decide) rfl
        (.entry List.mem_cons_self)
      apply @Within.inside _ .runElement _ _ _ _ _ "run" .items (by decide) rfl
        (.item List.mem_cons_self)
      exact .here _ _
    obtain ⟨entries, same, known⟩ := plain _ _ within
    cases same
    obtain ⟨name, -, impossible⟩ := known _ List.mem_cons_self
    cases impossible

end CrossBuild.Config
