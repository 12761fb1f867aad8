/-
Documents that say the same.

The keys of a level may be listed in any order, and a key that the level knows may be left out or
given as null. Two documents that differ in nothing else are read alike. Environments, steps and the
jobs of a template are not levels, and their order stands; a run element has a single key.
-/

import CrossBuild.Proofs.Config.Alike
import CrossBuild.Proofs.Config.Siblings
import Mathlib.Data.List.Perm.Basic
import Mathlib.Logic.Relation

namespace CrossBuild.Config

open Runs
open Yaml (Value)

/-! ### Saying the same -/

/-- At some level the second value says what the first one says: its keys in another order, or a null
for a key that is missing. -/
inductive Restates : Level → Value → Value → Prop where
  | permuted {level : Level} {entries others : List (Value × Value)} (plain : level ≠ .runElement)
      (same : entries.Perm others) : Restates level (.mapping entries) (.mapping others)
  | null {level : Level} {key : String} (plain : level ≠ .runElement) (known : key ∈ level.keys)
      (front back : List (Value × Value)) :
      Restates level (.mapping (front ++ back)) (.mapping (front ++ (.string key, .null) :: back))
  | inside {level between : Level} {key : String} {placing : Placing}
      {before after outer changed : Value} (front back : List (Value × Value))
      (listed : (key, placing, between) ∈ level.inside)
      (replaces : placing.Replaces before after outer changed)
      (restates : Restates between before after) :
      Restates level (.mapping (front ++ (.string key, outer) :: back))
        (.mapping (front ++ (.string key, changed) :: back))

/-- A tree as loading gives it: no mapping has a key twice. -/
abbrev Document := { value : Value // value.KeysDistinct }

/-- One document comes of the other by any number of restatements, forth or back. -/
def Level.SaysTheSame (level : Level) : Document → Document → Prop :=
  Relation.EqvGen fun left right => Restates level left.1 right.1

variable {key : String} {level between : Level} {inner outer left right : Value} {placing : Placing}
  {entries otherEntries : List (Value × Value)} {related : Value → Value → Prop}

/-! ### What restated levels show -/

theorem relates_of_eq {one other : Option Value} (same : one = other) :
    Option.Rel (placing.Relates related) one other := by
  subst same
  cases one with
  | none => exact .none
  | some value => exact .some (.same value)

/-- Levels show the same when the same is seen under each of their keys. -/
theorem Level.ShowsAlike.of_seen
    (keys : ∀ fits : Value → Prop, (∀ name ∈ level.keys, fits (.string name)) →
      ((∀ entry ∈ entries, fits entry.1) ↔ ∀ entry ∈ otherEntries, fits entry.1))
    (seen : ∀ key, seen? key entries = seen? key otherEntries) :
    level.ShowsAlike entries otherEntries where
  keys := keys
  plain key _ := seen key
  inside key _ _ _ := relates_of_eq (seen key)

theorem seen?_eq_of_mem_iff (distinct : (Value.mapping entries).KeysDistinct)
    (otherDistinct : (Value.mapping otherEntries).KeysDistinct)
    (same : ∀ value, value ≠ .null →
      ((.string key, value) ∈ entries ↔ (.string key, value) ∈ otherEntries)) :
    seen? key entries = seen? key otherEntries := by
  apply Option.ext
  intro value
  rw [seen?_eq_some_iff distinct, seen?_eq_some_iff otherDistinct]
  constructor
  · intro ⟨listed, present⟩
    exact ⟨(same value present).mp listed, present⟩
  · intro ⟨listed, present⟩
    exact ⟨(same value present).mpr listed, present⟩

theorem showsAlike_of_perm (same : entries.Perm otherEntries)
    (distinct : (Value.mapping entries).KeysDistinct)
    (otherDistinct : (Value.mapping otherEntries).KeysDistinct) :
    level.ShowsAlike entries otherEntries := by
  apply Level.ShowsAlike.of_seen
  · intro fits _
    simp only [same.mem_iff]
  · intro key
    exact seen?_eq_of_mem_iff distinct otherDistinct fun _ _ => same.mem_iff

theorem showsAlike_of_null {front back : List (Value × Value)} (known : key ∈ level.keys)
    (distinct : (Value.mapping (front ++ back)).KeysDistinct)
    (otherDistinct : (Value.mapping (front ++ (.string key, .null) :: back)).KeysDistinct) :
    level.ShowsAlike (front ++ back) (front ++ (.string key, .null) :: back) := by
  apply Level.ShowsAlike.of_seen
  · intro fits all
    simp only [List.forall_mem_append, List.forall_mem_cons, all key known, true_and]
  · intro name
    apply seen?_eq_of_mem_iff distinct otherDistinct
    intro value present
    have apart : (Value.string name, value) ≠ (.string key, .null) :=
      fun same => present (Prod.mk.inj same).2
    simp only [List.mem_append, List.mem_cons, apart, false_or]

/-- A key stands for one kind of level at most. -/
theorem Level.inside_unique {one another : String × Placing × Level} (listed : one ∈ level.inside)
    (alsoListed : another ∈ level.inside) (same : one.1 = another.1) : one = another := by
  have unique : ∀ one ∈ level.inside, ∀ another ∈ level.inside, one.1 = another.1 → one = another := by
    cases level <;> decide
  exact unique one listed another alsoListed same

theorem Placing.Replaces.relates {before after outer changed : Value}
    (replaces : placing.Replaces before after outer changed)
    (alike : between.ReadsAlike before after) :
    placing.Relates between.ReadsAlike outer changed := by
  cases replaces with
  | whole => exact .whole alike
  | item left right =>
      exact .items (List.rel_append (related_all left) (.cons alike (related_all right)))
  | entry key left right =>
      have unchanged : ∀ entries : List (Value × Value),
          List.Forall₂ (fun entry other => entry.1 = other.1 ∧
            between.ReadsAlike entry.2 other.2) entries entries :=
        fun entries => List.forall₂_same.mpr fun _ _ => ⟨rfl, .refl between _⟩
      exact .entries (List.rel_append (unchanged left) (.cons ⟨rfl, alike⟩ (unchanged right)))

theorem Placing.Holds.keysDistinct (holds : placing.Holds inner outer) (distinct : outer.KeysDistinct) :
    inner.KeysDistinct := by
  cases holds with
  | whole => exact distinct
  | item listed =>
      cases distinct with
      | sequence inside => exact inside _ listed
  | entry listed =>
      cases distinct with
      | mapping _ _ inside => exact inside _ listed

theorem Placing.Holds.ne_null (holds : placing.Holds inner outer) : outer ≠ .null := by
  cases holds with
  | whole present => exact present
  | item => exact fun same => nomatch same
  | entry => exact fun same => nomatch same

theorem showsAlike_of_inside {before after changed : Value} {front back : List (Value × Value)}
    (listed : (key, placing, between) ∈ level.inside)
    (replaces : placing.Replaces before after outer changed)
    (alike : between.ReadsAlike before after) (present : outer ≠ .null) (still : changed ≠ .null)
    (distinct : (Value.mapping (front ++ (.string key, outer) :: back)).KeysDistinct)
    (otherDistinct : (Value.mapping (front ++ (.string key, changed) :: back)).KeysDistinct) :
    level.ShowsAlike (front ++ (.string key, outer) :: back)
      (front ++ (.string key, changed) :: back) := by
  have elsewhere : ∀ name, name ≠ key → seen? name (front ++ (.string key, outer) :: back) =
      seen? name (front ++ (.string key, changed) :: back) := by
    intro name apart
    apply seen?_eq_of_mem_iff distinct otherDistinct
    intro value _
    have different : ∀ inner, (Value.string name, value) ≠ (.string key, inner) :=
      fun _ same => apart (Value.string.inj (Prod.mk.inj same).1)
    simp only [List.mem_append, List.mem_cons, different, false_or]
  constructor
  case keys =>
    intro fits _
    simp only [List.forall_mem_append, List.forall_mem_cons]
  case plain =>
    intro name apart
    exact elsewhere name (apart _ listed).symm
  case inside =>
    intro name kind target member
    by_cases own : name = key
    · subst own
      cases Level.inside_unique listed member rfl
      rw [(seen?_eq_some_iff distinct).mpr ⟨List.mem_append_right _ List.mem_cons_self, present⟩,
        (seen?_eq_some_iff otherDistinct).mpr ⟨List.mem_append_right _ List.mem_cons_self, still⟩]
      exact .some (replaces.relates alike)
    · exact relates_of_eq (elsewhere name own)

/-! ### Documents -/

theorem Restates.mapping (restates : Restates level left right) :
    (∃ entries, left = .mapping entries) ∧ ∃ entries, right = .mapping entries := by
  cases restates with
  | permuted => exact ⟨⟨_, rfl⟩, ⟨_, rfl⟩⟩
  | null => exact ⟨⟨_, rfl⟩, ⟨_, rfl⟩⟩
  | inside => exact ⟨⟨_, rfl⟩, ⟨_, rfl⟩⟩

/-- The induction follows the levels inwards, and the keys of inner levels are distinct with those of
the outer ones. -/
theorem readsAlike_of_restates (restates : Restates level left right) (distinct : left.KeysDistinct)
    (otherDistinct : right.KeysDistinct) : level.ReadsAlike left right := by
  induction restates with
  | permuted plain same =>
      exact readsAlike_of_showsAlike plain (showsAlike_of_perm same distinct otherDistinct)
  | null plain known front back =>
      exact readsAlike_of_showsAlike plain (showsAlike_of_null known distinct otherDistinct)
  | @inside level between key placing before after outer changed front back listed replaces restates
      ih =>
      obtain ⟨⟨_, wasMapping⟩, ⟨_, isMapping⟩⟩ := restates.mapping
      obtain ⟨held, holds⟩ := replaces.holds (by rw [wasMapping]; exact fun same => nomatch same)
        (by rw [isMapping]; exact fun same => nomatch same)
      have outerDistinct : outer.KeysDistinct ∧ changed.KeysDistinct := by
        cases distinct with
        | mapping _ _ inside =>
            cases otherDistinct with
            | mapping _ _ alsoInside =>
                constructor
                · exact inside (_, outer) (List.mem_append_right _ List.mem_cons_self)
                · exact alsoInside (_, changed) (List.mem_append_right _ List.mem_cons_self)
      have alike := ih (held.keysDistinct outerDistinct.1) (holds.keysDistinct outerDistinct.2)
      have plain : level ≠ .runElement := by
        intro same
        subst same
        cases listed
      exact readsAlike_of_showsAlike plain
        (showsAlike_of_inside listed replaces alike held.ne_null holds.ne_null distinct otherDistinct)

theorem Level.SaysTheSame.readsAlike {one another : Document} (restated : level.SaysTheSame one another) :
    level.ReadsAlike one.1 another.1 := by
  induction restated with
  | rel one another restates => exact readsAlike_of_restates restates one.2 another.2
  | refl one => exact .refl level one.1
  | symm _ _ _ ih => exact ih.symm
  | trans _ _ _ _ _ ih further => exact ih.trans further

/-- What is read depends only on what a document says: if one document comes of another by keys in
another order and nulls that are added or left out, at whatever levels, then both are accepted, with
the same result, or both are refused. -/
theorem restated_documents_read_alike :
    (∀ one another : Document, Level.trigger.SaysTheSame one another →
      (Trigger.read one.1).toOption = (Trigger.read another.1).toOption) ∧
    (∀ one another : Document, Level.repository.SaysTheSame one another →
      (Repository.read one.1).toOption = (Repository.read another.1).toOption) ∧
    ∀ component, ∀ one another : Document, Level.template.SaysTheSame one another →
      (Template.read component one.1).toOption = (Template.read component another.1).toOption := by
  constructor
  · intro one another restated
    exact alike_iff.mp restated.readsAlike
  constructor
  · intro one another restated
    exact alike_iff.mp restated.readsAlike
  · intro component one another restated
    exact alike_iff.mp (restated.readsAlike component)

theorem keysDistinct_levelOf_nil : (Template.levelOf []).KeysDistinct :=
  .mapping .nil (fun _ absent => nomatch absent) (fun _ absent => nomatch absent)

theorem keysDistinct_levelOf_cons {pair : String × Value} {pairs : List (String × Value)}
    (rest : (Template.levelOf pairs).KeysDistinct) (fresh : pair.1 ∉ pairs.map Prod.fst)
    (inside : pair.2.KeysDistinct) : (Template.levelOf (pair :: pairs)).KeysDistinct := by
  apply Value.KeysDistinct.ofStrings
  · exact List.nodup_cons.mpr ⟨fresh, rest.nodup_strings⟩
  · rw [List.forall_mem_cons]
    apply And.intro inside
    intro other listed
    cases rest with
    | mapping _ _ values => exact values (.string other.1, other.2) (List.mem_map_of_mem listed)

def coreEntries : List (String × Value) :=
  [("name", .string "core"), ("org", .string "org"), ("branch", .string "main")]

/-- A trigger with one component, whose entries are given. -/
def singleTrigger (component : List (String × Value)) : Value :=
  Template.levelOf [
    ("name", .string "nightly"), ("components", .sequence [Template.levelOf component])]

theorem singleTrigger_keysDistinct {component : List (String × Value)}
    (inside : (Template.levelOf component).KeysDistinct) : (singleTrigger component).KeysDistinct := by
  apply keysDistinct_levelOf_cons _ (by simp) (.string _)
  apply keysDistinct_levelOf_cons keysDistinct_levelOf_nil (by simp)
  apply Value.KeysDistinct.sequence
  rw [List.forall_mem_singleton]
  exact inside

theorem triggers_restated : ∃ one another : Document,
    one.1 = singleTrigger coreEntries ∧ another.1 = singleTrigger coreEntries.reverse ∧
      Level.trigger.SaysTheSame one another := by
  have distinct : (Template.levelOf coreEntries).KeysDistinct := by
    apply keysDistinct_levelOf_cons _ (by decide) (.string _)
    apply keysDistinct_levelOf_cons _ (by decide) (.string _)
    exact keysDistinct_levelOf_cons keysDistinct_levelOf_nil (by decide) (.string _)
  have turned : (Template.levelOf coreEntries.reverse).KeysDistinct := by
    apply keysDistinct_levelOf_cons _ (by decide) (.string _)
    apply keysDistinct_levelOf_cons _ (by decide) (.string _)
    exact keysDistinct_levelOf_cons keysDistinct_levelOf_nil (by decide) (.string _)
  refine ⟨⟨_, singleTrigger_keysDistinct distinct⟩, ⟨_, singleTrigger_keysDistinct turned⟩, rfl, rfl,
    ?_⟩
  apply Relation.EqvGen.rel
  apply @Restates.inside _ .component "components" .items _ _ _ _ [_] [] (by decide) (.item [] [])
  apply Restates.permuted (by decide)
  exact coreEntries.reverse_perm.symm.map _

def javaEntries : List (String × Value) :=
  [("java-version", .string "17")]

theorem repositories_restated : ∃ one another : Document,
    one.1 = Template.levelOf (("end-job", .null) :: javaEntries) ∧
      another.1 = Template.levelOf javaEntries ∧ Level.repository.SaysTheSame one another := by
  have distinct : (Template.levelOf javaEntries).KeysDistinct :=
    keysDistinct_levelOf_cons keysDistinct_levelOf_nil (by decide) (.string _)
  have more : (Template.levelOf (("end-job", .null) :: javaEntries)).KeysDistinct :=
    keysDistinct_levelOf_cons distinct (by decide) .null
  refine ⟨⟨_, more⟩, ⟨_, distinct⟩, rfl, rfl, ?_⟩
  apply Relation.EqvGen.symm
  apply Relation.EqvGen.rel
  exact .null (by decide) (by decide) [] _

def runEntries : List (String × Value) :=
  [("run", Template.runsOne "mvn" "install")]

/-- The entries of a template with one job, whose entries are given. -/
def singleTemplate (job : List (String × Value)) : List (String × Value) :=
  [("jobs", Template.levelOf [("jar", Template.levelOf job)]), ("build-job", .string "jar")]

theorem singleTemplate_keysDistinct {job : List (String × Value)}
    (inside : (Template.levelOf job).KeysDistinct) :
    (Template.levelOf (singleTemplate job)).KeysDistinct ∧
      (Template.levelOf (singleTemplate job).reverse).KeysDistinct := by
  have jobs : (Template.levelOf [("jar", Template.levelOf job)]).KeysDistinct :=
    keysDistinct_levelOf_cons keysDistinct_levelOf_nil (by simp) inside
  constructor
  · apply keysDistinct_levelOf_cons _ (by simp) jobs
    exact keysDistinct_levelOf_cons keysDistinct_levelOf_nil (by decide) (.string _)
  · apply keysDistinct_levelOf_cons _ (by simp) (.string _)
    exact keysDistinct_levelOf_cons keysDistinct_levelOf_nil (by simp) jobs

theorem templates_restated : ∃ one another : Document,
    one.1 = Template.levelOf (singleTemplate (("needs", .null) :: runEntries)) ∧
      another.1 = Template.levelOf (singleTemplate runEntries).reverse ∧
      Level.template.SaysTheSame one another := by
  have distinct : (Template.levelOf runEntries).KeysDistinct :=
    keysDistinct_levelOf_cons keysDistinct_levelOf_nil (by decide)
      (Template.runsOne_keysDistinct "mvn" "install")
  have more : (Template.levelOf (("needs", .null) :: runEntries)).KeysDistinct :=
    keysDistinct_levelOf_cons distinct (by decide) .null
  refine ⟨⟨_, (singleTemplate_keysDistinct more).1⟩, ⟨_, (singleTemplate_keysDistinct distinct).2⟩,
    rfl, rfl, ?_⟩
  apply Relation.EqvGen.trans _ ⟨_, (singleTemplate_keysDistinct distinct).1⟩
  · apply Relation.EqvGen.symm
    apply Relation.EqvGen.rel
    apply @Restates.inside _ .job "jobs" .entries _ _ _ _ [] [_] (by decide) (.entry _ [] [])
    exact .null (by decide) (by decide) [] _
  · apply Relation.EqvGen.rel
    apply Restates.permuted (by decide)
    exact (singleTemplate runEntries).reverse_perm.symm.map _

/-- The component with its keys turned round, the repository without its null, and the template with
neither the null nor the old order are accepted, and so are the documents that they come of. -/
theorem restated_samples_read_alike :
    (∃ trigger, Trigger.read (singleTrigger coreEntries) = .ok trigger ∧
      Trigger.read (singleTrigger coreEntries.reverse) = .ok trigger) ∧
    (∃ repository,
      Repository.read (Template.levelOf (("end-job", .null) :: javaEntries)) = .ok repository ∧
      Repository.read (Template.levelOf javaEntries) = .ok repository) ∧
    ∃ template, Template.read "app"
        (Template.levelOf (singleTemplate (("needs", .null) :: runEntries))) = .ok template ∧
      Template.read "app" (Template.levelOf (singleTemplate runEntries).reverse) = .ok template := by
  have both : ∀ {α : Type} {one another : Except Error α}, one.toOption = another.toOption →
      (∃ result, another = .ok result) → ∃ result, one = .ok result ∧ another = .ok result := by
    intro α one another same ⟨result, done⟩
    refine ⟨result, except_eq_ok ?_, done⟩
    rw [same, done]
    rfl
  obtain ⟨triggers, repositories, templates⟩ := restated_documents_read_alike
  constructor
  · obtain ⟨one, another, whole, alsoWhole, restated⟩ := triggers_restated
    rw [← whole, ← alsoWhole]
    apply both (triggers one another restated)
    rw [alsoWhole]
    exact except_exists_ok (by decide +kernel)
  constructor
  · obtain ⟨one, another, whole, alsoWhole, restated⟩ := repositories_restated
    rw [← whole, ← alsoWhole]
    apply both (repositories one another restated)
    rw [alsoWhole]
    exact except_exists_ok (by decide +kernel)
  · obtain ⟨one, another, whole, alsoWhole, restated⟩ := templates_restated
    rw [← whole, ← alsoWhole]
    apply both (templates "app" one another restated)
    rw [alsoWhole]
    exact except_exists_ok (by decide +kernel)

end CrossBuild.Config
