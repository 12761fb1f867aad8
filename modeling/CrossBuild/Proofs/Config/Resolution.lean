/-
References between the components of a trigger.

Components are read one after the other, and each may use only those before it. Whether a trigger is
accepted, and what is said when it is not, depends on the names alone once every entry can be read
by itself: the first component that uses a later one, itself or none at all, or that repeats a name,
is the one that is reported. What makes an entry readable by itself is not looked at here.
-/

import CrossBuild.Proofs.Config.Triggers
import Mathlib.Logic.Relation

namespace CrossBuild.Config

open Runs
open Yaml (Value)

/-! ### One component behind the others -/

/-- Why a component may not stand behind the earlier ones. What it uses is looked at before its
name. -/
inductive Component.Fault (earlier : List Component) (component : Component) : Error → Prop where
  | unresolved {front back : List Dependency} {dependency : Dependency}
      (listed : component.dependencies = front ++ dependency :: back)
      (declared : ∀ other ∈ front, other.name ∈ earlier.map Component.name)
      (unknown : dependency.name ∉ earlier.map Component.name) :
      Fault earlier component
        (.unresolved ("Component '" ++ component.name ++ "'") .component dependency.name)
  | repeated
      (declared : ∀ dependency ∈ component.dependencies,
        dependency.name ∈ earlier.map Component.name)
      (again : component.name ∈ earlier.map Component.name) :
      Fault earlier component (.invalid (.repeatedComponent component.name))

namespace Trigger

variable {document : Value} {items : List Value} {component : Component}
  {earlier components : List Component} {cause : Error}

theorem checkComponent_error_iff :
    checkComponent earlier component = .error cause ↔ component.Fault earlier cause := by
  have declared_false_iff : ∀ {name}, (!earlier.any fun other => other.name = name) = true ↔
      name ∉ earlier.map Component.name := by
    intro name
    rw [Bool.not_eq_true', ← Bool.not_eq_true, declared_iff]
  unfold checkComponent
  dsimp only
  constructor
  · intro failed
    split at failed
    · rename_i dependency found
      cases failed
      obtain ⟨unknown, front, back, listed, declared⟩ := List.find?_eq_some_iff_append.mp found
      apply Component.Fault.unresolved listed
      · intro other inside
        have known := declared other inside
        rw [Bool.not_not] at known
        exact declared_iff.mp known
      · exact declared_false_iff.mp unknown
    · rename_i known
      split at failed
      · rename_i again
        cases failed
        apply Component.Fault.repeated
        · intro dependency listed
          have declared := List.find?_eq_none.mp known dependency listed
          rw [declared_false_iff, Classical.not_not] at declared
          exact declared
        · exact declared_iff.mp again
      · cases failed
  · intro fault
    cases fault with
    | @unresolved front back dependency listed declared unknown =>
        have found : component.dependencies.find?
            (fun dependency => !earlier.any fun other => other.name = dependency.name) =
              some dependency := by
          rw [List.find?_eq_some_iff_append]
          refine ⟨declared_false_iff.mpr unknown, front, back, listed, fun other inside => ?_⟩
          rw [Bool.not_not]
          exact declared_iff.mpr (declared other inside)
        rw [found]
    | repeated declared again =>
        have known : component.dependencies.find?
            (fun dependency => !earlier.any fun other => other.name = dependency.name) = none := by
          rw [List.find?_eq_none]
          intro dependency listed
          rw [declared_false_iff, Classical.not_not]
          exact declared dependency listed
        rw [known]
        dsimp only
        rw [if_pos (declared_iff.mpr again)]

theorem exists_fault_iff :
    (∃ cause, component.Fault earlier cause) ↔ ¬ component.Follows earlier := by
  simp only [← checkComponent_error_iff, ← checkComponent_ok_iff]
  cases checkComponent earlier component with
  | ok done => simp
  | error cause => simp

/-! ### All components -/

theorem readComponents_error_iff (each : EachReads items components) :
    readComponents earlier items = .error cause ↔
      FirstFault (fun before component => component.Fault before) earlier components cause := by
  induction each generalizing earlier with
  | nil =>
      constructor
      · intro failed
        cases failed
      · intro fault
        exact absurd fault not_firstFault_nil
  | @cons item component items components read each ih =>
      have fine_iff : checkComponent earlier component = .ok () ↔
          ∀ cause, ¬ component.Fault earlier cause := by
        rw [checkComponent_ok_iff, ← not_exists, exists_fault_iff, Classical.not_not]
      unfold readComponents
      rw [firstFault_cons_iff, read, except_bind_error_iff]
      simp only [except_bind_error_iff, checkComponent_error_iff, ih, ← fine_iff]
      constructor
      · intro failed
        rcases failed with impossible | ⟨_, same, failed⟩
        · cases impossible
        · cases same
          rcases failed with own | ⟨_, fine, later⟩
          · exact .inl own
          · exact .inr ⟨fine, later⟩
      · intro failed
        refine .inr ⟨component, rfl, ?_⟩
        rcases failed with own | ⟨fine, later⟩
        · exact .inl own
        · exact .inr ⟨(), fine, later⟩

/-- Behind a well-formed top level only the components can be at fault. -/
theorem read_error_iff (lists : Lists document items) :
    read document = .error cause ↔ readComponents [] items = .error cause := by
  obtain ⟨level, named, environment, listed, finished⟩ := lists
  unfold read
  rw [level]
  simp only [bind, Except.bind, named, environment, listed, finished]
  cases readComponents [] items with
  | ok components => simp [pure, Except.pure]
  | error other => simp

/-! ### No cycles -/

/-- One component uses another one directly. -/
def Uses (trigger : Trigger) (user used : String) : Prop :=
  ∃ component ∈ trigger.components, component.name = user ∧
    ∃ dependency ∈ component.dependencies, dependency.name = used

theorem idxOf_lt_of_uses {trigger : Trigger} (order : ComponentsInOrder trigger.components)
    {user used : String} (direct : trigger.Uses user used) :
    (trigger.components.map Component.name).idxOf used <
      (trigger.components.map Component.name).idxOf user := by
  obtain ⟨component, member, rfl, dependency, inside, rfl⟩ := direct
  obtain ⟨before, after, whole⟩ := List.append_of_mem member
  have earlier := order.dependsEarlier before component after whole dependency inside
  have distinct := order.distinct
  rw [whole, List.map_append, List.map_cons] at distinct ⊢
  exact idxOf_lt_of_before distinct earlier

/-- No component uses itself, however many others stand between. -/
theorem not_uses_self {trigger : Trigger} (order : ComponentsInOrder trigger.components)
    (name : String) : ¬ Relation.TransGen trigger.Uses name name := by
  -- Along a path the place among all components gets smaller, so it never returns.
  have descends : ∀ {other}, Relation.TransGen trigger.Uses name other →
      (trigger.components.map Component.name).idxOf other <
        (trigger.components.map Component.name).idxOf name := by
    intro other path
    induction path with
    | single direct => exact idxOf_lt_of_uses order direct
    | tail _ direct ih => exact Nat.lt_trans (idxOf_lt_of_uses order direct) ih
  exact fun path => Nat.lt_irrefl _ (descends path)

/-- References of an accepted trigger lead backwards. A trigger whose entries can be read by
themselves is refused for the first reference that does not, or the first name that is repeated. -/
theorem references_lead_backwards (document : Value) :
    (∀ trigger, read document = .ok trigger →
      (∃ items, Lists document items ∧ EachReads items trigger.components) ∧
      (trigger.components.map Component.name).Nodup ∧
      (∀ component ∈ trigger.components, component.name ≠ "" ∧
        ∀ char ∈ component.name.toList, Text.isAlphabetic char = true ∨ char = '-') ∧
      (∀ before component after, trigger.components = before ++ component :: after →
        ∀ dependency ∈ component.dependencies, ∃ other ∈ before, other.name = dependency.name) ∧
      ∀ name, ¬ Relation.TransGen trigger.Uses name name) ∧
    ∀ items components, Lists document items → EachReads items components →
      ((∃ cause, read document = .error cause) ↔
        ∃ before component after, components = before ++ component :: after ∧
          (component.name ∈ before.map Component.name ∨
            ∃ dependency ∈ component.dependencies,
              dependency.name ∉ before.map Component.name)) ∧
      ∀ cause, read document = .error cause ↔
        FirstFault (fun before component => component.Fault before) [] components cause := by
  constructor
  · intro trigger done
    have order := read_ok done
    constructor
    · obtain ⟨items, lists, each⟩ := lists_of_read done
      obtain ⟨added, whole, reads⟩ := readComponents_each each
      rw [whole, List.nil_append]
      exact ⟨items, lists, reads⟩
    constructor
    · exact order.distinct
    constructor
    · exact fun component listed => isComponentName_iff.mp (order.named component listed)
    constructor
    · intro before component after whole dependency inside
      exact List.mem_map.mp (order.dependsEarlier before component after whole dependency inside)
    · exact not_uses_self order
  · intro items components lists each
    have reported : ∀ cause, read document = .error cause ↔
        FirstFault (fun before component => component.Fault before) [] components cause := by
      intro cause
      rw [read_error_iff lists, readComponents_error_iff each]
    constructor
    · simp only [reported, exists_firstFault_iff, List.nil_append, exists_fault_iff,
        Component.Follows, not_and_or, Classical.not_not, not_forall, exists_prop]
    · exact reported

def plainComponent (name : String) (used : List String) : Component where
  name
  org := "org"
  branch := "main"
  mavenOpts := none
  debug := false
  javaVersion := none
  dependencies := used.map fun name => { name, property := "version" }

def plainEntry (name : String) (used : List String) : Value :=
  .mapping [
    (.string "name", .string name),
    (.string "org", .string "org"),
    (.string "branch", .string "main"),
    (.string "dependencies", .sequence (used.map fun name =>
      .mapping [(.string "name", .string name), (.string "property", .string "version")]))]

def plainDocument (entries : List Value) : Value :=
  .mapping [(.string "name", .string "nightly"), (.string "components", .sequence entries)]

/-- Using an earlier component is fine, using one that comes later is reported. -/
theorem references_of_plain_lead_backwards :
    (∃ trigger,
      read (plainDocument [plainEntry "core" [], plainEntry "app" ["core"]]) = .ok trigger ∧
      ∀ name, ¬ Relation.TransGen trigger.Uses name name) ∧
    read (plainDocument [plainEntry "core" [], plainEntry "app" ["core", "gui"],
      plainEntry "gui" ["gui"]]) = .error (.unresolved "Component 'app'" .component "gui") := by
  constructor
  · obtain ⟨trigger, done⟩ := except_exists_ok
      (show (read (plainDocument [plainEntry "core" [], plainEntry "app" ["core"]])).isOk = true by
        decide +kernel)
    exact ⟨trigger, done, ((references_lead_backwards _).1 trigger done).2.2.2.2⟩
  · have lists : Lists (plainDocument [plainEntry "core" [], plainEntry "app" ["core", "gui"],
        plainEntry "gui" ["gui"]])
        [plainEntry "core" [], plainEntry "app" ["core", "gui"], plainEntry "gui" ["gui"]] :=
      .intro rfl rfl rfl rfl rfl
    have each : EachReads
        [plainEntry "core" [], plainEntry "app" ["core", "gui"], plainEntry "gui" ["gui"]]
        [plainComponent "core" [], plainComponent "app" ["core", "gui"],
          plainComponent "gui" ["gui"]] := by
      constructor
      · exact except_eq_ok (by decide +kernel)
      constructor
      · exact except_eq_ok (by decide +kernel)
      constructor
      · exact except_eq_ok (by decide +kernel)
      · exact .nil
    have reported := ((references_lead_backwards _).2 _ _ lists each).2
      (.unresolved ("Component '" ++ "app" ++ "'") .component "gui")
    rw [show "Component 'app'" = "Component '" ++ "app" ++ "'" by decide, reported]
    refine ⟨[plainComponent "core" []], plainComponent "app" ["core", "gui"], _, rfl, ?_, ?_⟩
    · exact @Component.Fault.unresolved _ _ [⟨"core", "version"⟩] [] ⟨"gui", "version"⟩ rfl
        (by decide) (by decide)
    · intro front other back whole another fault
      obtain ⟨rfl, rfl, -⟩ : front = [] ∧ other = plainComponent "core" [] ∧ back = [] := by
        cases front with
        | nil =>
            cases whole
            exact ⟨rfl, rfl, rfl⟩
        | cons first front => exact absurd (congrArg List.length whole) (by simp)
      exact exists_fault_iff.mp ⟨another, fault⟩ ⟨by decide, by decide⟩

end Trigger

end CrossBuild.Config
