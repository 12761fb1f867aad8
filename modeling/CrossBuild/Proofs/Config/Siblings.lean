/-
Jobs of a template and the siblings they need.

Every job of an accepted template stems from an entry of its document and needs only jobs before it.
Which names a job needs has no influence on anything else that is read, so a document that would be
accepted with other names is refused for nothing but the first name that is not that of an earlier
sibling. Why else a document may be refused is not looked at here.
-/

import CrossBuild.Proofs.Config.Resolution
import CrossBuild.Proofs.Config.Templates

namespace CrossBuild.Config

open Runs
open Yaml (Value)

/-! ### What a document says of its jobs -/

structure Sibling where
  key : String
  needs : List String
  deriving DecidableEq

/-- The names that a job lists as its needs. -/
inductive NeedNames (job : Value) : List String → Prop where
  | none (absent : ∀ value, valueUnder? "needs" job = some value → value = .null) : NeedNames job []
  | listed {names : List String}
      (given : valueUnder? "needs" job = some (.sequence (names.map .string))) : NeedNames job names

def Sibling.StandsIn (sibling : Sibling) (entry : Value × Value) : Prop :=
  entry.1 = .string sibling.key ∧ NeedNames entry.2 sibling.needs

/-- The jobs of a document in their order. -/
def ListsJobs (document : Value) (siblings : List Sibling) : Prop :=
  ∃ entries, valueUnder? "jobs" document = some (.mapping entries) ∧
    List.Forall₂ (fun entry sibling => Sibling.StandsIn sibling entry) entries siblings

/-- A job is made of what a document says of it. -/
structure Sibling.Becomes (component : String) (sibling : Sibling) (job : TemplateJob) : Prop where
  key : job.key = sibling.key
  name : job.name = component ++ "-" ++ sibling.key
  needs : job.needs = sibling.needs.map fun need => component ++ "-" ++ need

def RunElement.command : RunElement → String
  | .maven goals => goals
  | .shell command => command

/-- What an accepted template takes from its document, and what is made sure of beyond that. -/
structure Template.Reflects (template : Template) (component : String) (document : Value)
    (buildKey : String) (siblings : List Sibling) : Prop where
  builds : valueUnder? "build-job" document = some (.string buildKey)
  listed : ListsJobs document siblings
  jobs : List.Forall₂ (Sibling.Becomes component) siblings template.jobs
  keysDistinct : (template.jobs.map TemplateJob.key).Nodup
  namesDistinct : (template.jobs.map TemplateJob.name).Nodup
  buildJob : ∃ job, template.jobs.filter TemplateJob.isBuildJob = [job] ∧ job.key = buildKey ∧
    template.buildJob = job.name
  needsEarlier : ∀ before job after, template.jobs = before ++ job :: after →
    ∀ need ∈ job.needs, ∃ other ∈ before, other.name = need
  endJob : ∀ endJob, template.endJob = some endJob → endJob.name = component ++ "-end-job" ∧
    endJob.needs = template.jobs.map TemplateJob.name
  commands : ∀ job ∈ template.jobs, ∀ element ∈ job.run, ∀ blank rest,
    element.command = blank ++ "mvn " ++ rest → ∃ char ∈ blank.toList, Text.isBlank char = false

/-- A job may not stand behind the earlier ones, because of the first name it needs that is none of
theirs. -/
inductive Sibling.Fault (earlier : List Sibling) (sibling : Sibling) : Error → Prop where
  | unresolved {front back : List String} {need : String}
      (listed : sibling.needs = front ++ need :: back)
      (declared : ∀ other ∈ front, other ∈ earlier.map Sibling.key)
      (unknown : need ∉ earlier.map Sibling.key) :
      Fault earlier sibling (.unresolved ("'needs' of job '" ++ sibling.key ++ "'") .job need)

inductive Renamed : Value → Value → Prop where
  | names (names others : List String) :
      Renamed (.sequence (names.map .string)) (.sequence (others.map .string))

inductive JobsRenamed : Value → Value → Prop where
  | jobs {entries others : List (Value × Value)}
      (each : List.Forall₂ (fun entry other => entry.1 = other.1 ∧
        SameBut "needs" Renamed entry.2 other.2) entries others) :
      JobsRenamed (.mapping entries) (.mapping others)

/-- Documents that differ at most in the names that jobs need. -/
def NeedsRenamed : Value → Value → Prop :=
  SameBut "jobs" JobsRenamed

namespace Template

variable {component context buildKey key : String} {defaults : Defaults} {value other : Value}
  {earlier jobs : List TemplateJob} {job : TemplateJob} {names needs : List String}
  {before siblings : List Sibling} {cause : Error}

/-! ### The names of one job -/

theorem readNeed_string (component key : String) (earlier : List TemplateJob) (need : String) :
    readNeed component key earlier (.string need) =
      if need ∈ earlier.map TemplateJob.key then .ok (jobName component need)
      else .error (.unresolved ("'needs' of job '" ++ key ++ "'") .job need) := by
  have listed_iff : (earlier.any fun job => job.key = need) = true ↔
      need ∈ earlier.map TemplateJob.key := by
    rw [List.any_eq_true, List.mem_map]
    simp only [decide_eq_true_eq]
  unfold readNeed
  simp only [listed_iff]

def readNeeds (component key : String) (earlier : List TemplateJob) (names : List String) :
    Except Error (List String) :=
  (names.map Value.string).mapM (readNeed component key earlier)

theorem readNeeds_cons (need : String) (names : List String) :
    readNeeds component key earlier (need :: names) =
      if need ∈ earlier.map TemplateJob.key then
        (readNeeds component key earlier names).map (jobName component need :: ·)
      else .error (.unresolved ("'needs' of job '" ++ key ++ "'") .job need) := by
  unfold readNeeds
  rw [List.map_cons, List.mapM_cons, readNeed_string]
  split
  · cases (names.map Value.string).mapM (readNeed component key earlier) <;> rfl
  · rfl

theorem readNeeds_ok (done : readNeeds component key earlier names = .ok needs) :
    needs = names.map (jobName component) ∧ ∀ need ∈ names, need ∈ earlier.map TemplateJob.key := by
  induction names generalizing needs with
  | nil =>
      cases done
      exact ⟨rfl, fun _ absent => nomatch absent⟩
  | cons need rest ih =>
      rw [readNeeds_cons] at done
      split at done
      · rename_i listed
        obtain ⟨others, read, same⟩ := except_map_ok_iff.mp done
        obtain ⟨whole, declared⟩ := ih read
        cases same
        exact ⟨by rw [whole, List.map_cons], List.forall_mem_cons.mpr ⟨listed, declared⟩⟩
      · cases done

theorem readNeeds_error_iff (keys : before.map Sibling.key = earlier.map TemplateJob.key) :
    readNeeds component key earlier names = .error cause ↔
      Sibling.Fault before ⟨key, names⟩ cause := by
  induction names with
  | nil =>
      constructor
      · intro failed
        cases failed
      · intro fault
        obtain ⟨listed, -, -⟩ := fault
        exact absurd listed.symm (by simp)
  | cons need rest ih =>
      rw [readNeeds_cons, ← keys]
      split
      · rename_i known
        rw [except_map_error_iff, ih]
        constructor
        · intro fault
          obtain ⟨listed, declared, unknown⟩ := fault
          exact .unresolved (congrArg (need :: ·) listed)
            (List.forall_mem_cons.mpr ⟨known, declared⟩) unknown
        · intro fault
          obtain @⟨front, back, missing, listed, declared, unknown⟩ := fault
          cases front with
          | nil =>
              cases listed
              exact absurd known unknown
          | cons first front =>
              cases listed
              exact .unresolved rfl (List.forall_mem_cons.mp declared).2 unknown
      · rename_i unknown
        constructor
        · intro failed
          cases failed
          exact @Sibling.Fault.unresolved _ _ [] rest need rfl (fun _ absent => nomatch absent)
            unknown
        · intro fault
          obtain @⟨front, back, missing, listed, declared, -⟩ := fault
          cases front with
          | nil =>
              cases listed
              rfl
          | cons first front =>
              cases listed
              exact absurd (List.forall_mem_cons.mp declared).1 unknown

theorem strings_of_mapM_readNeed {items : List Value}
    (done : items.mapM (readNeed component key earlier) = .ok needs) :
    ∃ names : List String, items = names.map .string := by
  induction items generalizing needs with
  | nil => exact ⟨[], rfl⟩
  | cons item rest ih =>
      rw [List.mapM_cons] at done
      simp only [except_bind_ok_iff] at done
      obtain ⟨need, first, others, further, -⟩ := done
      obtain ⟨names, rfl⟩ := ih further
      unfold readNeed at first
      split at first
      · exact ⟨_ :: names, rfl⟩
      · cases first

/-! ### One job -/

theorem names_of_like {fields others : Fields} {found : Option (List Value)}
    (like : fields.Like "needs" Renamed others) (level : Fields.ofValue context value = .ok fields)
    (listed : others.list? "needs" = .ok found)
    (read : (found.getD []).mapM (readNeed component key earlier) = .ok needs) :
    ∃ own names, fields.list? "needs" = .ok own ∧ own.getD [] = names.map Value.string ∧
      NeedNames value names := by
  have present : ∀ value other, Renamed value other → value ≠ .null ∧ other ≠ .null := by
    intro value other renamed
    cases renamed
    exact ⟨(fun same => nomatch same), fun same => nomatch same⟩
  rcases like.get?_cases present with same | ⟨mine, theirs, renamed, given, -⟩
  · have listed : fields.list? "needs" = .ok found := by
      unfold Fields.list? at listed ⊢
      rw [same, like.context]
      exact listed
    obtain ⟨names, whole⟩ := strings_of_mapM_readNeed read
    refine ⟨found, names, listed, whole, ?_⟩
    cases found with
    | none =>
        cases names with
        | nil =>
            apply NeedNames.none
            intro inner under
            by_contra there
            have given := Fields.get?_of_valueUnder? level under there
            rw [Fields.get?_of_list?_none listed] at given
            cases given
        | cons name rest => cases whole
    | some items =>
        apply NeedNames.listed
        rw [← whole]
        exact Fields.valueUnder?_of_get? level (Fields.get?_of_list? listed)
  · cases renamed with
    | names names others =>
        refine ⟨some (names.map .string), names, ?_, rfl, ?_⟩
        · unfold Fields.list?
          rw [given]
        · exact .listed (Fields.valueUnder?_of_get? level given)

def withNeeds (job : TemplateJob) (needs : List String) : TemplateJob :=
  { job with needs }

/-- With other names a job that could be read becomes the same, apart from what it needs. -/
theorem readJob_renamed (renamed : SameBut "needs" Renamed value other)
    (done : readJob defaults buildKey key earlier other = .ok job) :
    ∃ names, NeedNames value names ∧ ∀ earlier, readJob defaults buildKey key earlier value =
      (readNeeds defaults.component key earlier names).map (withNeeds job) := by
  unfold readJob at done
  simp only [except_bind_ok_iff] at done
  obtain ⟨others, theirs, env, environment, found, listed, needs, read, items, commands, done⟩ :=
    done
  obtain ⟨fields, level, like⟩ := Fields.like_of_ofValue renamed theirs
  obtain ⟨own, names, given, strings, needNames⟩ := names_of_like like level listed read
  refine ⟨names, needNames, fun earlier => ?_⟩
  split at done
  case h_2 => cases done
  case h_1 items =>
    simp only [except_bind_ok_iff] at done
    obtain ⟨run, each, version, java, labels, machines, _, finished, same⟩ := done
    cases same
    rw [← like.env?_eq (by decide)] at environment
    rw [← like.list?_eq (by decide)] at commands
    rw [← like.javaVersion?_eq (by decide)] at java
    rw [← like.runsOn?_eq (by decide)] at machines
    rw [← like.finish_eq] at finished
    unfold readJob readNeeds
    rw [← strings]
    simp only [level, environment, given, commands, each, java, machines, finished, bind,
      Except.bind]
    cases (own.getD []).mapM (readNeed defaults.component key earlier) <;> rfl

/-! ### All jobs -/

/-- Reading these entries behind other jobs fails exactly for the first sibling at fault, and adds
jobs that differ from the given ones at most in their needs. -/
structure ReadBehind (defaults : Defaults) (context buildKey : String)
    (entries : List (Value × Value)) (siblings : List Sibling) (added : List TemplateJob) :
    Prop where
  failed : ∀ before earlier, before.map Sibling.key = earlier.map TemplateJob.key →
    ∀ cause, readJobs defaults context buildKey earlier entries = .error cause ↔
      FirstFault (fun before sibling => sibling.Fault before) before siblings cause
  succeeded : ∀ earlier jobs, readJobs defaults context buildKey earlier entries = .ok jobs →
    ∃ more, jobs = earlier ++ more ∧ more.map (withNeeds · []) = added.map (withNeeds · []) ∧
      List.Forall₂ (Sibling.Becomes defaults.component) siblings more

theorem ReadBehind.nil : ReadBehind defaults context buildKey [] [] [] := by
  constructor
  case failed =>
    intro before earlier _ cause
    constructor
    · intro failed
      cases failed
    · intro fault
      exact absurd fault not_firstFault_nil
  case succeeded =>
    intro earlier jobs same
    cases same
    exact ⟨[], (List.append_nil _).symm, rfl, .nil⟩

theorem readJobs_cons_of_needs {entries : List (Value × Value)}
    (reads : ∀ earlier, readJob defaults buildKey key earlier value =
      (readNeeds defaults.component key earlier names).map (withNeeds job)) :
    readJobs defaults context buildKey earlier ((.string key, value) :: entries) =
      (readNeeds defaults.component key earlier names) >>= fun needs =>
        readJobs defaults context buildKey (earlier ++ [withNeeds job needs]) entries := by
  rw [readJobs, reads earlier]
  cases readNeeds defaults.component key earlier names <;> rfl

theorem ReadBehind.cons {entries : List (Value × Value)} {added : List TemplateJob}
    (sameKey : job.key = key) (named : job.name = jobName defaults.component key)
    (reads : ∀ earlier, readJob defaults buildKey key earlier value =
      (readNeeds defaults.component key earlier names).map (withNeeds job))
    (behind : ReadBehind defaults context buildKey entries siblings added) :
    ReadBehind defaults context buildKey ((.string key, value) :: entries)
      (⟨key, names⟩ :: siblings) (job :: added) := by
  constructor
  case failed =>
    intro before earlier keys cause
    have keysAfter : ∀ needs : List String, (before ++ [Sibling.mk key names]).map Sibling.key =
        (earlier ++ [withNeeds job needs]).map TemplateJob.key := by
      intro needs
      rw [List.map_append, List.map_append, keys, List.map_singleton, List.map_singleton, ← sameKey]
      rfl
    rw [readJobs_cons_of_needs reads, except_bind_error_iff, firstFault_cons_iff,
      readNeeds_error_iff keys]
    constructor
    · intro either
      rcases either with own | ⟨needs, read, later⟩
      · exact .inl own
      · rw [behind.failed _ _ (keysAfter needs)] at later
        refine .inr ⟨fun another fault => ?_, later⟩
        rw [← readNeeds_error_iff keys, read] at fault
        cases fault
    · intro either
      rcases either with own | ⟨fine, later⟩
      · exact .inl own
      · cases needed : readNeeds defaults.component key earlier names with
        | error another => exact absurd ((readNeeds_error_iff keys).mp needed) (fine another)
        | ok needs => exact .inr ⟨needs, rfl, (behind.failed _ _ (keysAfter needs) cause).mpr later⟩
  case succeeded =>
    intro earlier jobs done
    rw [readJobs_cons_of_needs reads] at done
    obtain ⟨needs, needed, read⟩ := except_bind_ok_iff.mp done
    obtain ⟨more, rfl, same, become⟩ := behind.succeeded _ _ read
    refine ⟨withNeeds job needs :: more, by simp, congrArg (_ :: ·) same, .cons ?_ become⟩
    exact ⟨sameKey, named, (readNeeds_ok needed).1⟩

theorem readJobs_renamed {entries others : List (Value × Value)}
    (each : List.Forall₂ (fun entry other => entry.1 = other.1 ∧
      SameBut "needs" Renamed entry.2 other.2) entries others)
    (done : readJobs defaults context buildKey earlier others = .ok jobs) :
    ∃ siblings added, jobs = earlier ++ added ∧
      List.Forall₂ (fun entry sibling => Sibling.StandsIn sibling entry) entries siblings ∧
      ReadBehind defaults context buildKey entries siblings added := by
  induction each generalizing earlier with
  | nil =>
      cases done
      exact ⟨[], [], (List.append_nil _).symm, .nil, .nil⟩
  | @cons entry other entries others first each ih =>
      obtain ⟨entryKey, entryValue⟩ := entry
      obtain ⟨otherKey, otherValue⟩ := other
      obtain ⟨rfl, renamed⟩ := first
      unfold readJobs at done
      split at done
      · cases ‹_ :: _ = []›
      · rename_i key value rest given
        cases given
        obtain ⟨job, read, done⟩ := except_bind_ok_iff.mp done
        obtain ⟨siblings, added, rfl, stand, behind⟩ := ih done
        obtain ⟨names, needNames, reads⟩ := readJob_renamed renamed read
        obtain ⟨sameKey, named, -, -⟩ := readJob_ok read
        exact ⟨⟨key, names⟩ :: siblings, job :: added, by simp, .cons ⟨rfl, needNames⟩ stand,
          .cons sameKey named reads behind⟩
      · cases done

theorem exists_fault_iff {sibling : Sibling} :
    (∃ cause, sibling.Fault before cause) ↔
      ∃ need ∈ sibling.needs, need ∉ before.map Sibling.key := by
  constructor
  · intro ⟨cause, fault⟩
    obtain @⟨front, back, need, listed, -, unknown⟩ := fault
    refine ⟨need, ?_, unknown⟩
    rw [listed]
    exact List.mem_append_right _ List.mem_cons_self
  · intro ⟨need, inside, unknown⟩
    cases found : sibling.needs.find? fun need => decide (need ∉ before.map Sibling.key) with
    | none => exact absurd (decide_eq_true unknown) (List.find?_eq_none.mp found need inside)
    | some first =>
        obtain ⟨missing, front, back, listed, declared⟩ := List.find?_eq_some_iff_append.mp found
        refine ⟨_, .unresolved listed (fun other member => ?_) (of_decide_eq_true missing)⟩
        have known := declared other member
        rw [Bool.not_eq_true', decide_eq_false_iff_not, Classical.not_not] at known
        exact known

/-! ### Commands -/

theorem startsWithMaven_of_append {blank rest : String}
    (allBlank : ∀ char ∈ blank.toList, Text.isBlank char = true) :
    startsWithMaven (blank ++ "mvn " ++ rest) = true := by
  unfold startsWithMaven Text.trimStart
  have letter : Text.isBlank 'm' = false := by decide
  have chars : "mvn ".toList = ['m', 'v', 'n', ' '] := rfl
  rw [String.startsWith_string_iff, String.toList_ofList, String.toList_append,
    String.toList_append, List.append_assoc, List.dropWhile_append_of_pos allBlank, chars,
    List.cons_append, List.dropWhile_cons, letter, String.toList_ofList]
  exact List.prefix_append ['m', 'v', 'n', ' '] _

theorem startsWithMaven_of_readRunElement {element : RunElement}
    (done : readRunElement value = .ok element) : startsWithMaven element.command = false := by
  unfold readRunElement at done
  split at done
  case h_1 command =>
    unfold readCommand at done
    split at done
    · split at done
      · cases done
      · rename_i plain
        cases done
        exact Bool.eq_false_iff.mpr plain
    · split at done
      · cases done
      · rename_i plain
        cases done
        exact Bool.eq_false_iff.mpr plain
    · cases done
  all_goals cases done

theorem commands_of_readJob (done : readJob defaults buildKey key earlier value = .ok job) :
    ∀ element ∈ job.run, startsWithMaven element.command = false := by
  unfold readJob at done
  simp only [except_bind_ok_iff] at done
  obtain ⟨_, -, _, -, _, -, _, -, _, -, done⟩ := done
  split at done
  case h_2 => cases done
  case h_1 =>
    simp only [except_bind_ok_iff] at done
    obtain ⟨_, each, _, -, _, -, _, -, same⟩ := done
    cases same
    intro element member
    obtain ⟨_, -, read⟩ := exists_of_mem_right (mapM_each each) element member
    exact startsWithMaven_of_readRunElement read

/-! ### Whole templates -/

theorem readEndJob_congr {others : List TemplateJob}
    (same : jobs.map TemplateJob.name = others.map TemplateJob.name) :
    readEndJob defaults jobs value = readEndJob defaults others value := by
  unfold readEndJob
  rw [same]

/-- What jobs need has no influence on the template that is made of them. -/
theorem assemble_of_renamed {others : List TemplateJob} {last : Option Value} {template : Template}
    (same : jobs.map (withNeeds · []) = others.map (withNeeds · []))
    (done : assemble defaults context buildKey last others = .ok template) :
    ∃ template, assemble defaults context buildKey last jobs = .ok template := by
  have found_eq : ∀ list : List TemplateJob,
      (list.map (withNeeds · [])).find? TemplateJob.isBuildJob =
        (list.find? TemplateJob.isBuildJob).map (withNeeds · []) :=
    fun list => List.find?_map
  have names : jobs.map TemplateJob.name = others.map TemplateJob.name := by
    have same := congrArg (List.map TemplateJob.name) same
    rw [List.map_map, List.map_map] at same
    exact same
  have found := congrArg (List.find? TemplateJob.isBuildJob) same
  rw [found_eq, found_eq] at found
  unfold assemble at done ⊢
  rw [show readEndJob defaults jobs = readEndJob defaults others from
    funext fun value => readEndJob_congr names]
  cases theirs : others.find? TemplateJob.isBuildJob with
  | none =>
      rw [theirs] at done
      cases done
  | some other =>
      rw [theirs] at done found
      obtain ⟨job, mine, -⟩ := Option.map_eq_some_iff.mp found
      obtain ⟨endJob, ended, -⟩ := except_bind_ok_iff.mp done
      rw [mine]
      exact ⟨_, except_bind_ok_iff.mpr ⟨endJob, ended, rfl⟩⟩

theorem TopLevel.of_renamed {document : Value} {others : List (Value × Value)} {last : Option Value}
    (renamed : NeedsRenamed document other)
    (top : TopLevel component other defaults buildKey others last) :
    ∃ entries, TopLevel component document defaults buildKey entries last ∧
      List.Forall₂ (fun entry other => entry.1 = other.1 ∧
        SameBut "needs" Renamed entry.2 other.2) entries others := by
  have present : ∀ value other, JobsRenamed value other → value ≠ .null ∧ other ≠ .null := by
    intro value other renamed
    cases renamed
    exact ⟨(fun same => nomatch same), fun same => nomatch same⟩
  obtain ⟨theirs, builds, listed, environment, java, machines, finished, some⟩ := top
  obtain ⟨fields, level, like⟩ := Fields.like_of_ofValue renamed theirs
  rw [← like.requireString_eq (by decide)] at builds
  rw [← like.env?_eq (by decide)] at environment
  rw [← like.javaVersion?_eq (by decide)] at java
  rw [← like.runsOn?_eq (by decide)] at machines
  rw [← like.finish_eq] at finished
  rw [← like.get?_eq (by decide)]
  have theirJobs := Fields.get?_of_require listed
  rcases like.get?_cases present with same | ⟨mine, _, related, given, there⟩
  · have given : fields.require "jobs" = .ok (.mapping others) :=
      Fields.require_of_get? (same.trans theirJobs)
    refine ⟨others, .intro level builds given environment java machines finished some, ?_⟩
    exact List.forall₂_same.mpr fun entry _ => ⟨rfl, .same _⟩
  · cases theirJobs.symm.trans there
    obtain ⟨each⟩ := related
    refine ⟨_, .intro level builds (Fields.require_of_get? given) environment java machines finished
      ?_, each⟩
    intro none
    rw [none, List.forall₂_nil_left_iff] at each
    exact some each

/-- The jobs of a document that would be accepted with other needs, and what reading them gives. -/
theorem read_of_renamed {document : Value} {template : Template}
    (renamed : NeedsRenamed document other) (done : read component other = .ok template) :
    ∃ siblings, ListsJobs document siblings ∧
      (∀ cause, read component document = .error cause ↔
        FirstFault (fun before sibling => sibling.Fault before) [] siblings cause) ∧
      ∀ own, read component document = .ok own →
        List.Forall₂ (Sibling.Becomes component) siblings own.jobs := by
  obtain ⟨defaults, buildKey, others, last, theirTop⟩ := topLevel_of_read done
  obtain ⟨entries, top, each⟩ := theirTop.of_renamed renamed
  rw [theirTop.read_eq] at done
  obtain ⟨theirs, theirRead, assembled⟩ := except_bind_ok_iff.mp done
  obtain ⟨siblings, added, rfl, stand, behind⟩ := readJobs_renamed each theirRead
  refine ⟨siblings, ⟨entries, top.valueUnder?_jobs, stand⟩, fun cause => ?_, fun own read => ?_⟩
  · rw [top.read_eq, ← behind.failed [] [] rfl, except_bind_error_iff]
    constructor
    · intro either
      -- What is made of the jobs does not look at their needs, so only reading them can fail.
      rcases either with own | ⟨jobs, read, refused⟩
      · exact own
      · obtain ⟨more, rfl, same, -⟩ := behind.succeeded [] jobs read
        obtain ⟨template, made⟩ := assemble_of_renamed same assembled
        rw [made] at refused
        cases refused
    · exact fun own => .inl own
  · rw [top.read_eq] at read
    obtain ⟨jobs, read, made⟩ := except_bind_ok_iff.mp read
    obtain ⟨more, rfl, -, become⟩ := behind.succeeded [] jobs read
    rw [(assemble_ok made).2.1, ← top.component_eq]
    exact become

theorem jobName_endJob (component : String) :
    jobName component "end-job" = component ++ "-end-job" := by
  unfold jobName
  rw [String.append_assoc]
  rfl

theorem reflects_of_read {document : Value} {template : Template} (distinct : document.KeysDistinct)
    (done : read component document = .ok template) :
    ∃ buildKey siblings, template.Reflects component document buildKey siblings := by
  obtain ⟨siblings, listed, -, become⟩ := read_of_renamed (.same document) done
  have become := become template done
  obtain ⟨defaults, buildKey, entries, last, top⟩ := topLevel_of_read done
  rw [top.read_eq] at done
  obtain ⟨jobs, read, assembled⟩ := except_bind_ok_iff.mp done
  obtain ⟨named, rfl, -, endJob⟩ := assemble_ok assembled
  obtain ⟨added, whole, reads⟩ := readJobs_each read
  have wellFormed := wellFormed_of_assemble (top.keysDistinct distinct) read assembled
  have component_eq := top.component_eq
  refine ⟨buildKey, siblings, ?_⟩
  constructor
  case builds => exact top.valueUnder?_buildJob
  case listed => exact listed
  case jobs => exact become
  case keysDistinct => exact wellFormed.keysDistinct
  case namesDistinct => exact wellFormed.namesDistinct
  case buildJob => exact wellFormed.filter_buildJobs
  case needsEarlier =>
    intro before job after whole need inside
    exact List.mem_map.mp (wellFormed.jobs.needsEarlier before job after whole need inside)
  case endJob =>
    rw [component_eq, jobName_endJob] at endJob
    exact endJob
  case commands =>
    intro job listed element inside blank rest same
    by_contra none
    have allBlank : ∀ char ∈ blank.toList, Text.isBlank char = true := by
      intro char member
      by_contra letter
      exact none ⟨char, member, Bool.eq_false_iff.mpr letter⟩
    rw [whole, List.nil_append] at listed
    obtain ⟨_, -, _, _, -, own⟩ := exists_of_mem_right reads job listed
    have plain := commands_of_readJob own element inside
    rw [same, startsWithMaven_of_append allBlank] at plain
    cases plain

/-- Jobs of an accepted template need earlier siblings only. A document that would be accepted with
other needs is refused for the first one that is no earlier sibling. -/
theorem needs_lead_backwards (component : String) (document : Value) :
    (document.KeysDistinct → ∀ template, read component document = .ok template →
      ∃ buildKey siblings, template.Reflects component document buildKey siblings) ∧
    ∀ other accepted, NeedsRenamed document other → read component other = .ok accepted →
      ∃ siblings, ListsJobs document siblings ∧
        ((∃ cause, read component document = .error cause) ↔
          ∃ before sibling after, siblings = before ++ sibling :: after ∧
            ∃ need ∈ sibling.needs, need ∉ before.map Sibling.key) ∧
        ∀ cause, read component document = .error cause ↔
          FirstFault (fun before sibling => sibling.Fault before) [] siblings cause := by
  constructor
  · exact fun distinct template done => reflects_of_read distinct done
  · intro other accepted renamed done
    obtain ⟨siblings, listed, reported, -⟩ := read_of_renamed renamed done
    refine ⟨siblings, listed, ?_, reported⟩
    simp only [reported, exists_firstFault_iff, List.nil_append, exists_fault_iff]

def levelOf (pairs : List (String × Value)) : Value :=
  .mapping (pairs.map fun pair => (.string pair.1, pair.2))

def runsOne (tool command : String) : Value :=
  .sequence [levelOf [(tool, .string command)]]

def pairJobs (needs : List String) : Value :=
  levelOf [
    ("jar", levelOf [("run", runsOne "mvn" "install")]),
    ("test", levelOf [("needs", .sequence (needs.map .string)), ("run", runsOne "shell" "ls")])]

def pairDocument (needs : List String) : Value :=
  levelOf [("build-job", .string "jar"), ("jobs", pairJobs needs)]

theorem runsOne_keysDistinct (tool command : String) : (runsOne tool command).KeysDistinct := by
  apply Value.KeysDistinct.sequence
  rw [List.forall_mem_singleton]
  apply Value.KeysDistinct.ofStrings (by simp)
  rw [List.forall_mem_singleton]
  exact .string command

theorem pairDocument_keysDistinct (needs : List String) : (pairDocument needs).KeysDistinct := by
  have names : (Value.sequence (needs.map .string)).KeysDistinct := by
    apply Value.KeysDistinct.sequence
    intro item listed
    obtain ⟨need, -, rfl⟩ := List.mem_map.mp listed
    exact .string need
  have jobs : (pairJobs needs).KeysDistinct := by
    apply Value.KeysDistinct.ofStrings (by simp)
    rw [List.forall_mem_cons, List.forall_mem_singleton]
    constructor
    · apply Value.KeysDistinct.ofStrings (by simp)
      rw [List.forall_mem_singleton]
      exact runsOne_keysDistinct "mvn" "install"
    · apply Value.KeysDistinct.ofStrings (by simp)
      rw [List.forall_mem_cons, List.forall_mem_singleton]
      exact ⟨names, runsOne_keysDistinct "shell" "ls"⟩
  apply Value.KeysDistinct.ofStrings (by simp)
  rw [List.forall_mem_cons, List.forall_mem_singleton]
  exact ⟨.string "jar", jobs⟩

theorem pairDocument_renamed (needs others : List String) :
    NeedsRenamed (pairDocument needs) (pairDocument others) := by
  have jobs : JobsRenamed (pairJobs needs) (pairJobs others) := by
    constructor
    constructor
    · exact ⟨rfl, .same _⟩
    constructor
    · have test := Renamed.names needs others
      exact ⟨rfl, .mapping (.cons ⟨rfl, .inr ⟨rfl, test⟩⟩ (.cons ⟨rfl, .inl rfl⟩ .nil))⟩
    · exact .nil
  exact .mapping (.cons ⟨rfl, .inl rfl⟩ (.cons ⟨rfl, .inr ⟨rfl, jobs⟩⟩ .nil))

theorem needs_of_pair_lead_backwards :
    (∃ template buildKey siblings, (pairDocument ["jar"]).KeysDistinct ∧
      read "app" (pairDocument ["jar"]) = .ok template ∧
      template.Reflects "app" (pairDocument ["jar"]) buildKey siblings) ∧
    NeedsRenamed (pairDocument ["jar", "test", "doc"]) (pairDocument ["jar"]) ∧
    read "app" (pairDocument ["jar", "test", "doc"]) =
      .error (.unresolved "'needs' of job 'test'" .job "test") ∧
    ∃ siblings, ListsJobs (pairDocument ["jar", "test", "doc"]) siblings ∧
      FirstFault (fun before sibling => sibling.Fault before) [] siblings
        (.unresolved "'needs' of job 'test'" .job "test") := by
  obtain ⟨template, accepted⟩ : ∃ template, read "app" (pairDocument ["jar"]) = .ok template :=
    except_exists_ok (by decide +kernel)
  have refused : read "app" (pairDocument ["jar", "test", "doc"]) =
      .error (.unresolved "'needs' of job 'test'" .job "test") := by with_unfolding_all rfl
  have distinct := pairDocument_keysDistinct ["jar"]
  have renamed := pairDocument_renamed ["jar", "test", "doc"] ["jar"]
  obtain ⟨buildKey, siblings, reflects⟩ :=
    (needs_lead_backwards "app" (pairDocument ["jar"])).1 distinct template accepted
  obtain ⟨others, listed, -, reported⟩ :=
    (needs_lead_backwards "app" (pairDocument ["jar", "test", "doc"])).2 _ template renamed accepted
  exact ⟨⟨template, buildKey, siblings, distinct, accepted, reflects⟩, renamed, refused, others,
    listed, (reported _).mp refused⟩

end Template

end CrossBuild.Config
