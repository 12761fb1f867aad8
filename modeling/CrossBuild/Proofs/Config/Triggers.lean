/-
What an accepted trigger looks like.

Its components have names of letters and dashes, no name comes twice, and a component depends only
on components listed before it. Such names stay apart when dashes become underscores, because an
underscore is no letter. Nothing is said about the documents that are refused.
-/

import CrossBuild.Compile.Steps
import CrossBuild.Config.Trigger
import CrossBuild.Proofs.Config.Fields
import Mathlib.Data.List.Forall2
import Mathlib.Data.List.Nodup

namespace CrossBuild.Config

open Runs
open Yaml (Value)

/-- The name of a component is not empty and made of letters and dashes. -/
theorem isComponentName_iff {name : String} :
    isComponentName name = true ↔
      name ≠ "" ∧ ∀ char ∈ name.toList, Text.isAlphabetic char = true ∨ char = '-' := by
  unfold isComponentName
  rw [Bool.and_eq_true, Bool.not_eq_true', List.all_eq_true]
  apply and_congr
  · rw [← Bool.not_eq_true, String.isEmpty_iff]
  · apply forall₂_congr
    intro char _
    rw [Bool.or_eq_true, decide_eq_true_eq]

/-- A component uses only earlier ones, and has a name of its own. -/
def Component.Follows (earlier : List Component) (component : Component) : Prop :=
  component.name ∉ earlier.map Component.name ∧
    ∀ dependency ∈ component.dependencies, dependency.name ∈ earlier.map Component.name

/-- Components that were read behind each other. -/
structure ComponentsInOrder (components : List Component) : Prop where
  named : ∀ component ∈ components, isComponentName component.name = true
  distinct : (components.map Component.name).Nodup
  dependsEarlier : ∀ before component after, components = before ++ component :: after →
    ∀ dependency ∈ component.dependencies, dependency.name ∈ before.map Component.name

namespace Trigger

variable {value : Value} {items : List Value} {component : Component}
  {earlier components : List Component}

private theorem readComponent_ok (done : readComponent value = .ok component) :
    isComponentName component.name = true := by
  unfold readComponent at done
  simp only [except_bind_ok_iff] at done
  obtain ⟨fields, -, name, -, done⟩ := done
  split at done
  · rename_i accepted
    simp only [except_bind_ok_iff] at done
    obtain ⟨_, -, _, -, _, -, _, -, _, -, _, -, _, -, _, -, same⟩ := done
    cases same
    exact accepted
  · simp only [except_bind_ok_iff] at done
    obtain ⟨_, impossible, -⟩ := done
    cases impossible

theorem declared_iff {name : String} :
    (earlier.any fun other => other.name = name) = true ↔ name ∈ earlier.map Component.name := by
  rw [List.any_eq_true, List.mem_map]
  simp only [decide_eq_true_eq]

theorem checkComponent_ok_iff :
    checkComponent earlier component = .ok () ↔ component.Follows earlier := by
  unfold checkComponent Component.Follows
  dsimp only
  constructor
  · intro done
    split at done
    · cases done
    · rename_i known
      split at done
      · cases done
      · rename_i fresh
        constructor
        · exact fun listed => fresh (declared_iff.mpr listed)
        · intro dependency listed
          have declared := List.find?_eq_none.mp known dependency listed
          rw [Bool.not_eq_true, Bool.not_eq_false'] at declared
          exact declared_iff.mp declared
  · intro ⟨fresh, known⟩
    split
    · rename_i dependency found
      have unknown := List.find?_some found
      rw [Bool.not_eq_true'] at unknown
      have declared := declared_iff.mpr (known dependency (List.mem_of_find?_eq_some found))
      rw [unknown] at declared
      cases declared
    · rw [if_neg fun listed => fresh (declared_iff.mp listed)]

private theorem componentsInOrder_nil : ComponentsInOrder [] := by
  refine ⟨fun _ absent => (nomatch absent), .nil, fun before component after whole => ?_⟩
  exact absurd whole.symm (by simp)

private theorem readComponent_inOrder (order : ComponentsInOrder earlier)
    (read : readComponent value = .ok component)
    (checked : checkComponent earlier component = .ok ()) :
    ComponentsInOrder (earlier ++ [component]) := by
  obtain ⟨fresh, known⟩ := checkComponent_ok_iff.mp checked
  refine ⟨fun other member => ?_, ?_, fun before other after whole dependency inside => ?_⟩
  · rcases List.mem_append.mp member with old | own
    · exact order.named other old
    · rw [List.mem_singleton.mp own]
      exact readComponent_ok read
  · rw [List.map_append, List.map_singleton]
    exact order.distinct.append (List.nodup_singleton _) (List.disjoint_singleton.mpr fresh)
  · rcases cases_of_concat whole with ⟨rfl, rfl⟩ | ⟨front, there⟩
    · exact known dependency inside
    · exact order.dependsEarlier before other front there dependency inside

private theorem readComponents_ok {values : List Value} (order : ComponentsInOrder earlier)
    (done : readComponents earlier values = .ok components) : ComponentsInOrder components := by
  induction values generalizing earlier with
  | nil =>
      cases done
      exact order
  | cons value rest ih =>
      unfold readComponents at done
      simp only [except_bind_ok_iff] at done
      obtain ⟨component, read, _, checked, done⟩ := done
      exact ih (readComponent_inOrder order read checked) done

/-- Every entry is a component by itself. -/
abbrev EachReads : List Value → List Component → Prop :=
  List.Forall₂ fun item component => readComponent item = .ok component

/-- Entries become components in their order. -/
theorem readComponents_each (done : readComponents earlier items = .ok components) :
    ∃ added, components = earlier ++ added ∧ EachReads items added := by
  induction items generalizing earlier with
  | nil =>
      cases done
      exact ⟨[], (List.append_nil _).symm, .nil⟩
  | cons item rest ih =>
      unfold readComponents at done
      simp only [except_bind_ok_iff] at done
      obtain ⟨component, read, _, -, done⟩ := done
      obtain ⟨added, whole, each⟩ := ih done
      refine ⟨component :: added, ?_, .cons read each⟩
      rw [whole, List.append_assoc, List.singleton_append]

/-- The top level of a trigger is well formed and lists these entries. -/
inductive Lists (value : Value) (items : List Value) : Prop where
  | intro {fields : Fields} {name : String} {env : Option Env}
      (level : Fields.ofValue "workflow trigger" value = .ok fields)
      (named : fields.requireString "name" = .ok name) (environment : fields.env? = .ok env)
      (listed : fields.require "components" = .ok (.sequence items))
      (finished : fields.finish keys = .ok ()) : Lists value items

theorem lists_of_read {trigger : Trigger} (done : read value = .ok trigger) :
    ∃ items, Lists value items ∧ readComponents [] items = .ok trigger.components := by
  unfold read at done
  simp only [except_bind_ok_iff] at done
  obtain ⟨fields, level, name, named, env, environment, value, listed, _, finished, done⟩ := done
  split at done
  case h_1 items =>
    obtain ⟨components, each, same⟩ := except_bind_ok_iff.mp done
    cases same
    exact ⟨items, .intro level named environment listed finished, each⟩
  case h_2 => cases done

theorem read_ok {trigger : Trigger} (done : read value = .ok trigger) :
    ComponentsInOrder trigger.components := by
  obtain ⟨items, -, read⟩ := lists_of_read done
  exact readComponents_ok componentsInOrder_nil read

end Trigger

/-! ### Names of variables -/

private theorem underscore_not_letter : Text.isAlphabetic '_' = false := by decide +kernel

/-- What becomes of a character of a name in the name of a variable. -/
private def variableChar (char : Char) : Char :=
  if char = '-' then '_' else char

private theorem variableChar_inj {left right : Char}
    (leftAllowed : Text.isAlphabetic left = true ∨ left = '-')
    (rightAllowed : Text.isAlphabetic right = true ∨ right = '-')
    (same : variableChar left = variableChar right) : left = right := by
  unfold variableChar at same
  split at same <;> split at same
  · rename_i leftDash rightDash
    rw [leftDash, rightDash]
  · rename_i rightOther
    have letter := rightAllowed.resolve_right rightOther
    rw [← same, underscore_not_letter] at letter
    cases letter
  · rename_i leftOther _
    have letter := leftAllowed.resolve_right leftOther
    rw [same, underscore_not_letter] at letter
    cases letter
  · exact same

private theorem map_variableChar_inj {left right : List Char}
    (leftAllowed : ∀ char ∈ left, Text.isAlphabetic char = true ∨ char = '-')
    (rightAllowed : ∀ char ∈ right, Text.isAlphabetic char = true ∨ char = '-')
    (same : left.map variableChar = right.map variableChar) : left = right := by
  induction left generalizing right with
  | nil => exact (List.map_eq_nil_iff.mp same.symm).symm
  | cons first rest ih =>
      obtain ⟨other, others, rfl, sameFirst, sameRest⟩ := List.map_eq_cons_iff.mp same.symm
      rw [List.forall_mem_cons] at leftAllowed rightAllowed
      rw [variableChar_inj leftAllowed.1 rightAllowed.1 sameFirst.symm,
        ih leftAllowed.2 rightAllowed.2 sameRest.symm]

/-- Different components have different variables for their versions. -/
theorem versionVariable_inj {left right : String} (leftName : isComponentName left = true)
    (rightName : isComponentName right = true) :
    Compile.versionVariable left = Compile.versionVariable right ↔ left = right := by
  constructor
  · intro same
    unfold Compile.versionVariable Compile.underscored at same
    have chars := congrArg String.toList ((String.append_right_inj _).mp same)
    rw [String.toList_map, String.toList_map] at chars
    exact String.toList_inj.mp (map_variableChar_inj (isComponentName_iff.mp leftName).2
      (isComponentName_iff.mp rightName).2 chars)
  · rintro rfl
    rfl

end CrossBuild.Config
