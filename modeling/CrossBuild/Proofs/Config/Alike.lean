/-
Levels that are read alike.

A reader looks at the values under the keys that its level knows, and at nothing else: a null is as
good as no entry, and the order of the entries is not seen. Two mappings that show the same to the
reader are therefore read alike, with the same result or not at all, and what stands inside a level
may again be such a pair. They need not be refused for the same cause, since the first problem that a
reader meets may be another one. How documents come to show the same is not looked at here.
-/

import CrossBuild.Proofs.Config.Levels

namespace CrossBuild.Config

open Runs
open Yaml (Value)

/-! ### Reading alike -/

/-- Both are accepted, with the same result, or both are refused. -/
abbrev Alike {α : Type} (one other : Except Error α) : Prop :=
  Agree Eq (fun _ _ => True) one other

/-- Two values of a level are read alike, whatever else their reader is given. -/
def Level.ReadsAlike : Level → Value → Value → Prop
  | .trigger, left, right => Alike (Trigger.read left) (Trigger.read right)
  | .component, left, right => Alike (Trigger.readComponent left) (Trigger.readComponent right)
  | .dependency, left, right => Alike (Trigger.readDependency left) (Trigger.readDependency right)
  | .repository, left, right => Alike (Repository.read left) (Repository.read right)
  | .reporting, left, right => Alike (Repository.readReporting left) (Repository.readReporting right)
  | .labels, left, right => Alike (Repository.readLabels left) (Repository.readLabels right)
  | .endJob, left, right => Alike (Repository.readEndJob left) (Repository.readEndJob right)
  | .template, left, right =>
      ∀ component, Alike (Template.read component left) (Template.read component right)
  | .job, left, right => ∀ defaults buildKey key earlier,
      Alike (Template.readJob defaults buildKey key earlier left)
        (Template.readJob defaults buildKey key earlier right)
  | .runElement, left, right =>
      Alike (Template.readRunElement left) (Template.readRunElement right)
  | .templateEndJob, left, right => ∀ defaults jobs,
      Alike (Template.readEndJob defaults jobs left) (Template.readEndJob defaults jobs right)

variable {α : Type} {context name key : String} {fields others : Fields} {level between : Level}
  {value other inner outer left right : Value} {placing : Placing} {known : List String}
  {entries otherEntries : List (Value × Value)} {related : Value → Value → Prop}

theorem alike_iff {one other : Except Error α} : Alike one other ↔ one.toOption = other.toOption := by
  constructor
  · intro alike
    cases alike with
    | ok same => exact congrArg some same
    | error _ => rfl
  · intro same
    cases one with
    | ok value =>
        cases other with
        | ok another => exact .ok (Option.some.inj same)
        | error cause => cases same
    | error cause =>
        cases other with
        | ok another => cases same
        | error another => exact .error trivial

theorem alike_self (run : Except Error α) : Alike run run :=
  agree_self (fun _ => trivial) run

theorem Level.ReadsAlike.refl (level : Level) (value : Value) : level.ReadsAlike value value := by
  cases level with
  | template => exact fun _ => alike_self _
  | job => exact fun _ _ _ _ => alike_self _
  | templateEndJob => exact fun _ _ => alike_self _
  | _ => exact alike_self _

theorem Level.ReadsAlike.symm (alike : level.ReadsAlike left right) : level.ReadsAlike right left := by
  have back : ∀ {α : Type} {one other : Except Error α}, Alike one other → Alike other one :=
    fun alike => alike_iff.mpr (alike_iff.mp alike).symm
  cases level with
  | template => exact fun component => back (alike component)
  | job => exact fun defaults buildKey key earlier => back (alike defaults buildKey key earlier)
  | templateEndJob => exact fun defaults jobs => back (alike defaults jobs)
  | _ => exact back alike

theorem Level.ReadsAlike.trans {middle : Value} (alike : level.ReadsAlike left middle)
    (further : level.ReadsAlike middle right) : level.ReadsAlike left right := by
  have chain : ∀ {α : Type} {one between other : Except Error α},
      Alike one between → Alike between other → Alike one other :=
    fun alike further => alike_iff.mpr ((alike_iff.mp alike).trans (alike_iff.mp further))
  cases level with
  | template => exact fun component => chain (alike component) (further component)
  | job =>
      exact fun defaults buildKey key earlier =>
        chain (alike defaults buildKey key earlier) (further defaults buildKey key earlier)
  | templateEndJob => exact fun defaults jobs => chain (alike defaults jobs) (further defaults jobs)
  | _ => exact chain alike further

/-! ### What a reader sees -/

def isPresent : Value → Bool
  | .null => false
  | _ => true

/-- The value of a key, unless it is absent or null. -/
def seen? (key : String) (entries : List (Value × Value)) : Option Value :=
  (valueUnder? key (.mapping entries)).filter isPresent

theorem isPresent_iff : isPresent value = true ↔ value ≠ .null := by
  cases value <;> simp [isPresent]

theorem isKey_iff : isKey name value = true ↔ value = .string name := by
  cases value <;> simp [isKey]

theorem get?_eq_seen? (read : Fields.ofValue context (.mapping entries) = .ok fields) :
    fields.get? key = seen? key entries := by
  unfold Fields.get? seen?
  rw [Fields.valueUnder?_of_ofValue read]
  cases fields.entries.lookup key with
  | none => rfl
  | some value => cases value <;> rfl

private theorem valueUnder?_of_apart
    (apart : entries.Pairwise fun earlier later => later.1.sameKey earlier.1 = false) :
    valueUnder? key (.mapping entries) = some value ↔ (.string key, value) ∈ entries := by
  induction entries with
  | nil => simp [valueUnder?]
  | cons entry rest ih =>
      obtain ⟨entryKey, entryValue⟩ := entry
      rw [List.pairwise_cons] at apart
      rw [valueUnder?_cons, List.mem_cons, Prod.mk.injEq]
      by_cases own : entryKey = .string key
      · rw [if_pos (isKey_iff.mpr own), Option.some.injEq]
        constructor
        · intro same
          exact .inl ⟨own.symm, same.symm⟩
        · rintro (⟨-, same⟩ | later)
          · exact same.symm
          · have different := apart.1 _ later
            rw [own] at different
            simp [Value.sameKey] at different
      · rw [if_neg fun named => own (isKey_iff.mp named), ih apart.2]
        constructor
        · exact .inr
        · rintro (⟨same, -⟩ | later)
          · exact absurd same.symm own
          · exact later

/-- Where no key comes twice, a value is seen exactly where it stands. -/
theorem seen?_eq_some_iff (distinct : (Value.mapping entries).KeysDistinct) :
    seen? key entries = some value ↔ (.string key, value) ∈ entries ∧ value ≠ .null := by
  unfold seen?
  cases distinct with
  | mapping apart _ _ =>
      rw [Option.filter_eq_some_iff, valueUnder?_of_apart apart, isPresent_iff]

/-- The same values stand at the same places, up to those that are related. -/
inductive Placing.Relates (related : Value → Value → Prop) : Placing → Value → Value → Prop where
  | same {placing : Placing} (value : Value) : Relates related placing value value
  | whole {left right : Value} (fits : related left right) : Relates related .whole left right
  | items {items others : List Value} (each : List.Forall₂ related items others) :
      Relates related .items (.sequence items) (.sequence others)
  | entries {entries others : List (Value × Value)}
      (each : List.Forall₂ (fun entry other => entry.1 = other.1 ∧ related entry.2 other.2)
        entries others) : Relates related .entries (.mapping entries) (.mapping others)

/-- Two mappings show the same to a reader of the level: the keys that it knows stand in both or are
not looked at, and their values are the same up to levels that are read alike. -/
structure Level.ShowsAlike (level : Level) (entries others : List (Value × Value)) : Prop where
  keys : ∀ fits : Value → Prop, (∀ name ∈ level.keys, fits (.string name)) →
    ((∀ entry ∈ entries, fits entry.1) ↔ ∀ entry ∈ others, fits entry.1)
  plain : ∀ key, (∀ entry ∈ level.inside, entry.1 ≠ key) → seen? key entries = seen? key others
  inside : ∀ key placing between, (key, placing, between) ∈ level.inside →
    Option.Rel (placing.Relates between.ReadsAlike) (seen? key entries) (seen? key others)

/-- The same of entries that were read. -/
structure Level.SeesAlike (level : Level) (fields others : Fields) : Prop where
  context : fields.context = others.context
  plain : ∀ key, (∀ entry ∈ level.inside, entry.1 ≠ key) → fields.get? key = others.get? key
  inside : ∀ key placing between, (key, placing, between) ∈ level.inside →
    Option.Rel (placing.Relates between.ReadsAlike) (fields.get? key) (others.get? key)
  finish : Alike (fields.finish level.keys) (others.finish level.keys)

theorem context_of_ofValue (read : Fields.ofValue context value = .ok fields) :
    fields.context = context := by
  unfold Fields.ofValue at read
  split at read
  · obtain ⟨pairs, -, same⟩ := except_bind_ok_iff.mp read
    cases same
    rfl
  · cases read

theorem alike_of_unit {one other : Except Error Unit} (same : one = .ok () ↔ other = .ok ()) :
    Alike one other := by
  cases one with
  | ok =>
      rw [same.mp rfl]
      exact .ok rfl
  | error cause =>
      cases other with
      | ok => cases same.mpr rfl
      | error another => exact .error trivial

theorem exists_stringEntries (strings : ∀ entry ∈ entries, ∃ name, entry.1 = .string name) :
    ∃ pairs, stringEntries context entries = .ok pairs := by
  induction entries with
  | nil => exact ⟨[], rfl⟩
  | cons entry rest ih =>
      obtain ⟨entryKey, entryValue⟩ := entry
      rw [List.forall_mem_cons] at strings
      obtain ⟨⟨name, rfl⟩, later⟩ := strings
      obtain ⟨pairs, read⟩ := ih later
      apply Exists.intro ((name, entryValue) :: pairs)
      unfold stringEntries
      rw [read]
      rfl

theorem ofValue_exists_iff : (∃ fields, Fields.ofValue context (.mapping entries) = .ok fields) ↔
    ∀ entry ∈ entries, ∃ name, entry.1 = .string name := by
  constructor
  · intro ⟨fields, read⟩ entry listed
    rw [Value.mapping.inj (Fields.ofValue_ok read)] at listed
    obtain ⟨pair, -, rfl⟩ := List.mem_map.mp listed
    exact ⟨pair.1, rfl⟩
  · intro strings
    obtain ⟨pairs, read⟩ := @exists_stringEntries context _ strings
    exact ⟨⟨context, pairs⟩, except_bind_ok_iff.mpr ⟨pairs, read, rfl⟩⟩

theorem finish_ok_iff (read : Fields.ofValue context (.mapping entries) = .ok fields) :
    fields.finish known = .ok () ↔ ∀ entry ∈ entries, ∃ name ∈ known, entry.1 = .string name := by
  have whole := Value.mapping.inj (Fields.ofValue_ok read)
  have listed : (∀ entry ∈ entries, ∃ name ∈ known, entry.1 = .string name) ↔
      ∀ pair ∈ fields.entries, pair.1 ∈ known := by
    rw [whole, List.forall_mem_map]
    simp
  rw [listed]
  constructor
  · exact Fields.finish_ok
  · intro all
    unfold Fields.finish
    have none : (fields.entries.map Prod.fst).filter (fun key => !known.contains key) = [] := by
      simpa using fun key value inside => all (key, value) inside
    rw [none]

/-- Mappings that show the same are both levels, and then their entries are seen alike. -/
theorem ofValue_agree (shows : level.ShowsAlike entries otherEntries) (context : String) :
    Agree level.SeesAlike (fun _ _ => True) (Fields.ofValue context (.mapping entries))
      (Fields.ofValue context (.mapping otherEntries)) := by
  have strings := shows.keys (fun key => ∃ name, key = .string name) fun name _ => ⟨name, rfl⟩
  rw [← @ofValue_exists_iff context entries, ← @ofValue_exists_iff context otherEntries] at strings
  have named := shows.keys (fun key => ∃ name ∈ level.keys, key = .string name)
    fun name listed => ⟨name, listed, rfl⟩
  cases read : Fields.ofValue context (.mapping entries) with
  | error cause =>
      cases otherRead : Fields.ofValue context (.mapping otherEntries) with
      | error another => exact .error trivial
      | ok others =>
          obtain ⟨_, impossible⟩ := strings.mpr ⟨others, otherRead⟩
          cases read.symm.trans impossible
  | ok fields =>
      obtain ⟨others, otherRead⟩ := strings.mp ⟨fields, read⟩
      rw [otherRead]
      apply Agree.ok
      constructor
      case context => rw [context_of_ofValue read, context_of_ofValue otherRead]
      case plain =>
        intro key plain
        rw [get?_eq_seen? read, get?_eq_seen? otherRead, shows.plain key plain]
      case inside =>
        intro key placing between listed
        rw [get?_eq_seen? read, get?_eq_seen? otherRead]
        exact shows.inside key placing between listed
      case finish =>
        rw [← finish_ok_iff read, ← finish_ok_iff otherRead] at named
        exact alike_of_unit named

/-! ### Reading what stands inside -/

theorem alike_after {β : Type} {first second : Except Error α} {next after : α → Except Error β}
    (same : first = second) (on : ∀ value, Alike (next value) (after value)) :
    Alike (first >>= next) (second >>= after) :=
  agree_after (fun _ => trivial) same on

theorem related_getD {left right : Option (List Value)}
    (each : Option.Rel (List.Forall₂ related) left right) :
    List.Forall₂ related (left.getD []) (right.getD []) := by
  cases each with
  | none => exact .nil
  | some each => exact each

theorem related_all (items : List Value) : List.Forall₂ between.ReadsAlike items items :=
  List.forall₂_same.mpr fun item _ => .refl between item

namespace Level.SeesAlike

variable (sees : level.SeesAlike fields others)
include sees

theorem list? (listed : (key, .items, between) ∈ level.inside) :
    Agree (Option.Rel (List.Forall₂ between.ReadsAlike)) (fun _ _ => True) (fields.list? key)
      (others.list? key) := by
  have related := sees.inside key _ between listed
  unfold Fields.list?
  generalize fields.get? key = found at related ⊢
  generalize others.get? key = other at related ⊢
  cases related with
  | none => exact .ok .none
  | @some value _ relates =>
      cases relates with
      | items each => exact .ok (.some each)
      | same =>
          cases value with
          | sequence items => exact .ok (.some (related_all items))
          | _ => exact .error trivial

theorem require (listed : (key, placing, between) ∈ level.inside) :
    Agree (placing.Relates between.ReadsAlike) (fun _ _ => True) (fields.require key)
      (others.require key) := by
  have related := sees.inside key _ between listed
  unfold Fields.require
  generalize fields.get? key = found at related ⊢
  generalize others.get? key = other at related ⊢
  cases related with
  | none => exact .error trivial
  | some relates => exact .ok relates

theorem mapM (listed : (key, .whole, between) ∈ level.inside) {read : Value → Except Error α}
    (each : ∀ left right, between.ReadsAlike left right → Alike (read left) (read right)) :
    Alike ((fields.get? key).mapM read) ((others.get? key).mapM read) := by
  have related := sees.inside key _ between listed
  generalize fields.get? key = found at related ⊢
  generalize others.get? key = other at related ⊢
  cases related with
  | none => exact alike_self _
  | @some left right relates =>
      cases relates with
      | same => exact alike_self _
      | whole fits =>
          change Alike (some <$> read left) (some <$> read right)
          have alike := each left right fits
          generalize read left = one at alike ⊢
          generalize read right = another at alike ⊢
          cases alike with
          | ok same => exact .ok (congrArg some same)
          | error _ => exact .error trivial

end Level.SeesAlike

/-! ### One level after the other -/

theorem dependency_alike (shows : Level.dependency.ShowsAlike entries otherEntries) :
    Level.dependency.ReadsAlike (.mapping entries) (.mapping otherEntries) := by
  change Alike (Trigger.readDependency _) (Trigger.readDependency _)
  unfold Trigger.readDependency
  apply agree_bind (ofValue_agree shows _)
  intro fields others sees
  apply alike_after (Fields.requireString_congr sees.context (sees.plain "name" (by decide)))
  intro name
  apply alike_after (Fields.requireString_congr sees.context (sees.plain "property" (by decide)))
  intro property
  apply agree_bind sees.finish
  intro _ _ _
  exact .ok rfl

theorem component_alike (shows : Level.component.ShowsAlike entries otherEntries) :
    Level.component.ReadsAlike (.mapping entries) (.mapping otherEntries) := by
  change Alike (Trigger.readComponent _) (Trigger.readComponent _)
  unfold Trigger.readComponent
  apply agree_bind (ofValue_agree shows _)
  intro fields others sees
  apply alike_after (Fields.requireString_congr sees.context (sees.plain "name" (by decide)))
  intro name
  split
  case isFalse => exact .error trivial
  case isTrue =>
    apply alike_after (Fields.requireString_congr sees.context (sees.plain "org" (by decide)))
    intro org
    apply alike_after (Fields.requireString_congr sees.context (sees.plain "branch" (by decide)))
    intro branch
    apply alike_after (Fields.string?_congr sees.context (sees.plain "mavenOpts" (by decide)))
    intro mavenOpts
    apply alike_after (Fields.bool?_congr sees.context (sees.plain "debug" (by decide)))
    intro debug
    apply alike_after (Fields.javaVersion?_congr sees.context (sees.plain "java-version" (by decide)))
    intro javaVersion
    apply agree_bind (sees.list? (List.mem_singleton_self _))
    intro items otherItems related
    apply agree_bind (agree_mapM (fun _ => trivial) (related_getD related))
    intro dependencies _ same
    apply agree_bind sees.finish
    intro _ _ _
    exact .ok (by rw [same])

theorem readComponents_alike {items others : List Value} (earlier : List Component)
    (each : List.Forall₂ Level.component.ReadsAlike items others) :
    Alike (Trigger.readComponents earlier items) (Trigger.readComponents earlier others) := by
  induction each generalizing earlier with
  | nil => exact .ok rfl
  | cons first _ ih =>
      unfold Trigger.readComponents
      apply agree_bind first
      intro component _ same
      subst same
      apply alike_after rfl
      intro _
      exact ih _

theorem trigger_alike (shows : Level.trigger.ShowsAlike entries otherEntries) :
    Level.trigger.ReadsAlike (.mapping entries) (.mapping otherEntries) := by
  change Alike (Trigger.read _) (Trigger.read _)
  unfold Trigger.read
  apply agree_bind (ofValue_agree shows _)
  intro fields others sees
  apply alike_after (Fields.requireString_congr sees.context (sees.plain "name" (by decide)))
  intro name
  apply alike_after (Fields.env?_congr sees.context (sees.plain "env" (by decide)))
  intro env
  apply agree_bind (sees.require (List.mem_singleton_self _))
  intro components otherComponents related
  apply agree_bind sees.finish
  intro _ _ _
  cases related with
  | same => exact alike_self _
  | items each =>
      apply agree_bind (readComponents_alike [] each)
      intro components _ same
      exact .ok (by rw [same])

theorem labels_alike (shows : Level.labels.ShowsAlike entries otherEntries) :
    Level.labels.ReadsAlike (.mapping entries) (.mapping otherEntries) := by
  change Alike (Repository.readLabels _) (Repository.readLabels _)
  unfold Repository.readLabels
  apply agree_bind (ofValue_agree shows _)
  intro fields others sees
  apply alike_after (Fields.requireString_congr sees.context (sees.plain "success" (by decide)))
  intro success
  apply alike_after (Fields.requireString_congr sees.context (sees.plain "failure" (by decide)))
  intro failure
  apply agree_bind sees.finish
  intro _ _ _
  exact .ok rfl

theorem reporting_alike (shows : Level.reporting.ShowsAlike entries otherEntries) :
    Level.reporting.ReadsAlike (.mapping entries) (.mapping otherEntries) := by
  change Alike (Repository.readReporting _) (Repository.readReporting _)
  unfold Repository.readReporting
  apply agree_bind (ofValue_agree shows _)
  intro fields others sees
  apply alike_after (Fields.bool?_congr sees.context (sees.plain "comments" (by decide)))
  intro comments
  apply agree_bind (sees.mapM (List.mem_singleton_self _) fun _ _ alike => alike)
  intro labels _ same
  apply agree_bind sees.finish
  intro _ _ _
  exact .ok (by rw [same])

theorem endJob_alike (shows : Level.endJob.ShowsAlike entries otherEntries) :
    Level.endJob.ReadsAlike (.mapping entries) (.mapping otherEntries) := by
  change Alike (Repository.readEndJob _) (Repository.readEndJob _)
  unfold Repository.readEndJob
  apply agree_bind (ofValue_agree shows _)
  intro fields others sees
  apply alike_after (Fields.forbid_congr sees.context (sees.plain "name" (by decide)))
  intro _
  apply alike_after (Fields.forbid_congr sees.context (sees.plain "needs" (by decide)))
  intro _
  apply alike_after (Fields.forbid_congr sees.context (sees.plain "runs-on" (by decide)))
  intro _
  apply alike_after (Fields.env?_congr sees.context (sees.plain "env" (by decide)))
  intro env
  apply alike_after (Fields.string?_congr sees.context (sees.plain "if" (by decide)))
  intro condition
  apply alike_after (Fields.steps_congr sees.context (sees.plain "steps" (by decide)))
  intro steps
  apply agree_bind sees.finish
  intro _ _ _
  exact .ok rfl

theorem repository_alike (shows : Level.repository.ShowsAlike entries otherEntries) :
    Level.repository.ReadsAlike (.mapping entries) (.mapping otherEntries) := by
  change Alike (Fields.ofValue _ (.mapping entries) >>= Repository.readFields)
    (Fields.ofValue _ (.mapping otherEntries) >>= Repository.readFields)
  apply agree_bind (ofValue_agree shows _)
  intro fields others sees
  unfold Repository.readFields
  apply alike_after (Fields.env?_congr sees.context (sees.plain "env" (by decide)))
  intro env
  apply alike_after (Fields.javaVersion?_congr sees.context (sees.plain "java-version" (by decide)))
  intro javaVersion
  apply alike_after (Fields.runsOn?_congr sees.context (sees.plain "runs-on" (by decide)))
  intro runsOn
  apply agree_bind (sees.mapM List.mem_cons_self fun _ _ alike => alike)
  intro reporting _ same
  subst same
  apply agree_bind (sees.mapM (List.mem_cons_of_mem _ List.mem_cons_self) fun _ _ alike => alike)
  intro endJob _ same
  apply agree_bind sees.finish
  intro _ _ _
  exact .ok (by rw [same])

theorem job_alike (shows : Level.job.ShowsAlike entries otherEntries) :
    Level.job.ReadsAlike (.mapping entries) (.mapping otherEntries) := by
  intro defaults buildKey key earlier
  unfold Template.readJob
  apply agree_bind (ofValue_agree shows _)
  intro fields others sees
  apply alike_after (Fields.env?_congr sees.context (sees.plain "env" (by decide)))
  intro env
  apply alike_after (Fields.list?_congr sees.context (sees.plain "needs" (by decide)))
  intro siblings
  apply alike_after rfl
  intro needs
  apply agree_bind (sees.list? (List.mem_singleton_self _))
  intro items otherItems related
  cases related with
  | none => exact .error trivial
  | some each =>
      apply agree_bind (agree_mapM (fun _ => trivial) each)
      intro run _ same
      subst same
      apply alike_after
        (Fields.javaVersion?_congr sees.context (sees.plain "java-version" (by decide)))
      intro javaVersion
      apply alike_after (Fields.runsOn?_congr sees.context (sees.plain "runs-on" (by decide)))
      intro runsOn
      apply agree_bind sees.finish
      intro _ _ _
      exact .ok rfl

theorem templateEndJob_alike (shows : Level.templateEndJob.ShowsAlike entries otherEntries) :
    Level.templateEndJob.ReadsAlike (.mapping entries) (.mapping otherEntries) := by
  intro defaults jobs
  unfold Template.readEndJob
  apply agree_bind (ofValue_agree shows _)
  intro fields others sees
  apply alike_after (Fields.forbid_congr sees.context (sees.plain "name" (by decide)))
  intro _
  apply alike_after (Fields.forbid_congr sees.context (sees.plain "needs" (by decide)))
  intro _
  apply alike_after (Fields.env?_congr sees.context (sees.plain "env" (by decide)))
  intro env
  apply alike_after (Fields.string?_congr sees.context (sees.plain "if" (by decide)))
  intro condition
  apply alike_after (Fields.javaVersion?_congr sees.context (sees.plain "java-version" (by decide)))
  intro javaVersion
  apply alike_after (Fields.runsOn?_congr sees.context (sees.plain "runs-on" (by decide)))
  intro runsOn
  apply alike_after (Fields.steps_congr sees.context (sees.plain "steps" (by decide)))
  intro steps
  apply agree_bind sees.finish
  intro _ _ _
  exact .ok rfl

theorem readJobs_alike {defaults : Template.Defaults} {buildKey : String}
    (earlier : List TemplateJob)
    (each : List.Forall₂ (fun entry other => entry.1 = other.1 ∧
      Level.job.ReadsAlike entry.2 other.2) entries otherEntries) :
    Alike (Template.readJobs defaults context buildKey earlier entries)
      (Template.readJobs defaults context buildKey earlier otherEntries) := by
  induction each generalizing earlier with
  | nil => exact .ok rfl
  | @cons entry other _ _ first _ ih =>
      obtain ⟨jobKey, job⟩ := entry
      obtain ⟨otherKey, otherJob⟩ := other
      obtain ⟨same, alike⟩ := first
      dsimp only at same
      subst same
      cases jobKey with
      | string key =>
          unfold Template.readJobs
          apply agree_bind (alike _ _ _ _)
          intro job _ same
          subst same
          exact ih _
      | _ => exact .error trivial

theorem assemble_alike (sees : Level.template.SeesAlike fields others)
    (defaults : Template.Defaults) (buildKey : String) (jobs : List TemplateJob) :
    Alike (Template.assemble defaults context buildKey (fields.get? "end-job") jobs)
      (Template.assemble defaults context buildKey (others.get? "end-job") jobs) := by
  unfold Template.assemble
  split
  · exact .error trivial
  · apply agree_bind (sees.mapM (List.mem_cons_of_mem _ List.mem_cons_self)
      fun _ _ alike => alike _ _)
    intro endJob _ same
    exact .ok (by rw [same])

theorem template_alike (shows : Level.template.ShowsAlike entries otherEntries) :
    Level.template.ReadsAlike (.mapping entries) (.mapping otherEntries) := by
  intro component
  unfold Template.read
  apply agree_bind (ofValue_agree shows _)
  intro fields others sees
  apply alike_after (Fields.requireString_congr sees.context (sees.plain "build-job" (by decide)))
  intro buildKey
  apply agree_bind (sees.require List.mem_cons_self)
  intro jobsValue otherJobs related
  apply alike_after (Fields.env?_congr sees.context (sees.plain "env" (by decide)))
  intro env
  apply alike_after (Fields.javaVersion?_congr sees.context (sees.plain "java-version" (by decide)))
  intro javaVersion
  apply alike_after (Fields.runsOn?_congr sees.context (sees.plain "runs-on" (by decide)))
  intro runsOn
  apply agree_bind sees.finish
  intro _ _ _
  cases related with
  | same =>
      split
      · exact .error trivial
      · apply alike_after rfl
        intro jobs
        exact assemble_alike sees _ _ _
      · exact .error trivial
  | entries each =>
      cases each with
      | nil => exact .error trivial
      | cons first rest =>
          apply agree_bind (readJobs_alike [] (.cons first rest))
          intro jobs _ same
          subst same
          exact assemble_alike sees _ _ _

/-- Each level depends on what is shown of it only. A run element has a reader of its own. -/
theorem readsAlike_of_showsAlike (plain : level ≠ .runElement)
    (shows : level.ShowsAlike entries otherEntries) :
    level.ReadsAlike (.mapping entries) (.mapping otherEntries) := by
  cases level with
  | trigger => exact trigger_alike shows
  | component => exact component_alike shows
  | dependency => exact dependency_alike shows
  | repository => exact repository_alike shows
  | reporting => exact reporting_alike shows
  | labels => exact labels_alike shows
  | endJob => exact endJob_alike shows
  | template => exact template_alike shows
  | job => exact job_alike shows
  | templateEndJob => exact templateEndJob_alike shows
  | runElement => exact absurd rfl plain

end CrossBuild.Config
