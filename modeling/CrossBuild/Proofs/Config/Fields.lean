/-
What a reader sees of a level.

A level is a mapping with string keys. Here is what its entries say about the mapping itself, and
how far a reader can tell two levels apart that differ under a single key. Which keys a level should
have is not said here.
-/

import CrossBuild.Config.Fields
import CrossBuild.Proofs.Runs
import CrossBuild.Proofs.Yaml.Keys

namespace CrossBuild.Config

open Runs
open Yaml (Value)

variable {context name key : String} {fields others : Fields} {value other inner : Value}

theorem stringEntries_ok {entries : List (Value × Value)} {pairs : List (String × Value)}
    (done : stringEntries context entries = .ok pairs) :
    entries = pairs.map fun pair => (.string pair.1, pair.2) := by
  induction entries generalizing pairs with
  | nil =>
      cases done
      rfl
  | cons entry rest ih =>
      unfold stringEntries at done
      split at done
      · cases ‹_ :: _ = []›
      · rename_i given
        cases given
        obtain ⟨others, read, same⟩ := except_bind_ok_iff.mp done
        cases same
        rw [List.map_cons, ih read]
      · cases done

namespace Fields

theorem ofValue_ok (done : Fields.ofValue context value = .ok fields) :
    value = .mapping (fields.entries.map fun pair => (.string pair.1, pair.2)) := by
  unfold Fields.ofValue at done
  split at done
  · obtain ⟨pairs, read, same⟩ := except_bind_ok_iff.mp done
    cases same
    rw [stringEntries_ok read]
  · cases done

theorem lookup_of_get? (given : fields.get? key = some value) :
    fields.entries.lookup key = some value := by
  unfold get? at given
  split at given
  · cases given
  · exact given

theorem ne_null_of_get? (given : fields.get? key = some value) : value ≠ .null := by
  unfold get? at given
  split at given
  · cases given
  · rename_i notNull
    intro null
    exact notNull (null ▸ given)

theorem get?_of_lookup (found : fields.entries.lookup key = some value) (present : value ≠ .null) :
    fields.get? key = some value := by
  unfold get?
  rw [found]
  split
  · rename_i null
    cases null
    exact absurd rfl present
  · rfl

theorem get?_of_require (done : fields.require key = .ok value) : fields.get? key = some value := by
  unfold require at done
  split at done
  · cases done
    assumption
  · cases done

theorem require_of_get? (given : fields.get? key = some value) :
    fields.require key = .ok value := by
  unfold require
  rw [given]

theorem get?_of_requireString {text : String} (done : fields.requireString key = .ok text) :
    fields.get? key = some (.string text) := by
  unfold requireString at done
  obtain ⟨value, required, done⟩ := except_bind_ok_iff.mp done
  rw [get?_of_require required]
  unfold asString at done
  split at done
  · cases done
    rfl
  · cases done

theorem get?_of_list? {items : List Value} (done : fields.list? key = .ok (some items)) :
    fields.get? key = some (.sequence items) := by
  unfold list? at done
  split at done
  · cases done
  · cases done
    assumption
  · cases done

theorem get?_of_list?_none (done : fields.list? key = .ok none) : fields.get? key = none := by
  unfold list? at done
  split at done
  · assumption
  · cases done
  · cases done

/-! Each way of reading a key depends on its value and the context only. -/

section Congruence

variable (named : fields.context = others.context)
include named

theorem requireString_congr (same : fields.get? key = others.get? key) :
    fields.requireString key = others.requireString key := by
  unfold requireString require asString
  rw [same, named]

theorem string?_congr (same : fields.get? key = others.get? key) :
    fields.string? key = others.string? key := by
  unfold string? asString
  rw [same, named]

theorem bool?_congr (same : fields.get? key = others.get? key) :
    fields.bool? key = others.bool? key := by
  unfold bool?
  rw [same, named]

theorem list?_congr (same : fields.get? key = others.get? key) :
    fields.list? key = others.list? key := by
  unfold list?
  rw [same, named]

theorem env?_congr (same : fields.get? "env" = others.get? "env") : fields.env? = others.env? := by
  unfold env?
  rw [same, named]

theorem javaVersion?_congr (same : fields.get? "java-version" = others.get? "java-version") :
    fields.javaVersion? = others.javaVersion? := by
  unfold javaVersion?
  rw [same, named]

theorem runsOn?_congr (same : fields.get? "runs-on" = others.get? "runs-on") :
    fields.runsOn? = others.runsOn? := by
  unfold runsOn?
  rw [same, named]

theorem forbid_congr (same : fields.get? key = others.get? key) :
    fields.forbid key = others.forbid key := by
  unfold forbid
  rw [same, named]

theorem steps_congr (same : fields.get? "steps" = others.get? "steps") :
    fields.steps = others.steps := by
  unfold steps
  rw [list?_congr named same, named]

end Congruence

end Fields

/-- A value of a level has no key twice when the level has none at any depth. -/
theorem keysDistinct_require {level : Value} (distinct : level.KeysDistinct)
    (read : Fields.ofValue context level = .ok fields) (done : fields.require key = .ok value) :
    value.KeysDistinct := by
  have found := Fields.lookup_of_get? (Fields.get?_of_require done)
  obtain ⟨front, back, whole, -⟩ := List.lookup_eq_some_iff.mp found
  have member : (key, value) ∈ fields.entries := by
    rw [whole]
    exact List.mem_append_right _ List.mem_cons_self
  rw [Fields.ofValue_ok read] at distinct
  cases distinct with
  | mapping _ _ inside => exact inside (.string key, value) (List.mem_map_of_mem member)

/-! ### The mapping that is read -/

def isKey (name : String) : Value → Bool
  | .string text => text = name
  | _ => false

/-- The value of a key in a mapping. -/
def valueUnder? (name : String) : Value → Option Value
  | .mapping entries => (entries.find? fun entry => isKey name entry.1).map Prod.snd
  | _ => none

theorem valueUnder?_cons (name : String) (entry : Value × Value) (rest : List (Value × Value)) :
    valueUnder? name (.mapping (entry :: rest)) =
      if isKey name entry.1 = true then some entry.2 else valueUnder? name (.mapping rest) := by
  unfold valueUnder?
  dsimp only
  rw [List.find?_cons]
  cases isKey name entry.1 <;> rfl

/-- The first entry with a key has its value. -/
theorem valueUnder?_append {front back : List (Value × Value)}
    (first : ∀ entry ∈ front, isKey name entry.1 = false) :
    valueUnder? name (.mapping (front ++ (.string name, value) :: back)) = some value := by
  induction front with
  | nil => rw [List.nil_append, valueUnder?_cons, if_pos (by simp [isKey])]
  | cons entry rest ih =>
      rw [List.forall_mem_cons] at first
      rw [List.cons_append, valueUnder?_cons, first.1, if_neg (by decide), ih first.2]

theorem valueUnder?_stringKeys (name : String) (pairs : List (String × Value)) :
    valueUnder? name (.mapping (pairs.map fun pair => (.string pair.1, pair.2))) =
      pairs.lookup name := by
  induction pairs with
  | nil => rfl
  | cons pair rest ih =>
      rw [List.map_cons, valueUnder?_cons, ih, List.lookup_cons]
      by_cases same : pair.1 = name
      · simp [isKey, same]
      · have different : (name == pair.1) = false := by simpa using fun equal => same equal.symm
        simp [isKey, same, different]

namespace Fields

theorem valueUnder?_of_ofValue (level : Fields.ofValue context value = .ok fields) :
    valueUnder? name value = fields.entries.lookup name := by
  rw [Fields.ofValue_ok level]
  exact valueUnder?_stringKeys name fields.entries

theorem get?_of_valueUnder? (level : Fields.ofValue context value = .ok fields)
    (under : valueUnder? name value = some inner) (present : inner ≠ .null) :
    fields.get? name = some inner := by
  rw [valueUnder?_of_ofValue level] at under
  exact get?_of_lookup under present

theorem valueUnder?_of_get? (level : Fields.ofValue context value = .ok fields)
    (given : fields.get? name = some inner) : valueUnder? name value = some inner := by
  rw [valueUnder?_of_ofValue level]
  exact lookup_of_get? given

end Fields

/-! ### Levels that differ under one key -/

/-- Two values are the same, or two mappings with the same keys that differ at most under one of
them, where the values are related. -/
inductive SameBut (key : String) (related : Value → Value → Prop) : Value → Value → Prop where
  | same (value : Value) : SameBut key related value value
  | mapping {entries otherEntries : List (Value × Value)}
      (each : List.Forall₂ (fun entry otherEntry => entry.1 = otherEntry.1 ∧
        (entry.2 = otherEntry.2 ∨ entry.1 = .string key ∧ related entry.2 otherEntry.2))
        entries otherEntries) : SameBut key related (.mapping entries) (.mapping otherEntries)

/-- The same of entries that were read. -/
structure Fields.Like (key : String) (related : Value → Value → Prop) (fields others : Fields) :
    Prop where
  context : fields.context = others.context
  keys : fields.entries.map Prod.fst = others.entries.map Prod.fst
  elsewhere : ∀ name, name ≠ key → fields.entries.lookup name = others.entries.lookup name
  there : fields.entries.lookup key = others.entries.lookup key ∨
    ∃ value other, related value other ∧ fields.entries.lookup key = some value ∧
      others.entries.lookup key = some other

namespace Fields

variable {related : Value → Value → Prop}

theorem Like.refl (fields : Fields) : fields.Like key related fields where
  context := rfl
  keys := rfl
  elsewhere _ _ := rfl
  there := .inl rfl

theorem Like.cons {pairs otherPairs : List (String × Value)}
    (like : Fields.Like key related ⟨context, pairs⟩ ⟨context, otherPairs⟩)
    (first : value = other ∨ name = key ∧ related value other) :
    Fields.Like key related ⟨context, (name, value) :: pairs⟩
      ⟨context, (name, other) :: otherPairs⟩ := by
  constructor
  case context => rfl
  case keys => exact congrArg (name :: ·) like.keys
  case elsewhere =>
    intro another different
    rw [List.lookup_cons, List.lookup_cons, like.elsewhere another different]
    split
    · rename_i found
      have own : name ≠ key := (beq_iff_eq.mp found) ▸ different
      rw [first.resolve_right fun impossible => own impossible.1]
    · rfl
  case there =>
    rw [List.lookup_cons, List.lookup_cons]
    split
    · rcases first with same | ⟨-, fits⟩
      · exact .inl (congrArg some same)
      · exact .inr ⟨value, other, fits, rfl, rfl⟩
    · exact like.there

theorem like_of_stringEntries {entries otherEntries : List (Value × Value)}
    {otherPairs : List (String × Value)}
    (each : List.Forall₂ (fun entry otherEntry => entry.1 = otherEntry.1 ∧
      (entry.2 = otherEntry.2 ∨ entry.1 = .string key ∧ related entry.2 otherEntry.2))
      entries otherEntries) (done : stringEntries context otherEntries = .ok otherPairs) :
    ∃ pairs, stringEntries context entries = .ok pairs ∧
      Fields.Like key related ⟨context, pairs⟩ ⟨context, otherPairs⟩ := by
  induction each generalizing otherPairs with
  | nil =>
      cases done
      exact ⟨[], rfl, .refl _⟩
  | @cons entry otherEntry entries otherEntries first each ih =>
      obtain ⟨entryKey, entryValue⟩ := entry
      obtain ⟨otherKey, otherValue⟩ := otherEntry
      obtain ⟨rfl, fits⟩ := first
      unfold stringEntries at done
      split at done
      · cases ‹_ :: _ = []›
      · rename_i given
        cases given
        obtain ⟨others, read, same⟩ := except_bind_ok_iff.mp done
        cases same
        obtain ⟨pairs, accepted, like⟩ := ih read
        have own : ∀ {name : String}, Value.string name = .string key ↔ name = key := by simp
        refine ⟨(_, entryValue) :: pairs, ?_, like.cons (fits.imp_right fun fits => ?_)⟩
        · unfold stringEntries
          rw [accepted]
          rfl
        · exact ⟨own.mp fits.1, fits.2⟩
      · cases done

theorem like_of_ofValue (same : SameBut key related value other)
    (done : Fields.ofValue context other = .ok others) :
    ∃ fields, Fields.ofValue context value = .ok fields ∧ fields.Like key related others := by
  cases same with
  | same => exact ⟨others, done, .refl others⟩
  | mapping each =>
      unfold Fields.ofValue at done
      obtain ⟨pairs, read, made⟩ := except_bind_ok_iff.mp done
      cases made
      obtain ⟨own, accepted, like⟩ := like_of_stringEntries each read
      refine ⟨⟨context, own⟩, ?_, like⟩
      exact except_bind_ok_iff.mpr ⟨own, accepted, rfl⟩

/-! A reader that does not look under the key sees no difference. -/

section Like

variable (like : fields.Like key related others)
include like

theorem Like.get?_eq (apart : name ≠ key) : fields.get? name = others.get? name := by
  unfold get?
  rw [like.elsewhere name apart]

theorem Like.get?_cases
    (present : ∀ value other, related value other → value ≠ .null ∧ other ≠ .null) :
    fields.get? key = others.get? key ∨
      ∃ value other, related value other ∧ fields.get? key = some value ∧
        others.get? key = some other := by
  rcases like.there with same | ⟨value, other, fits, own, theirs⟩
  · apply Or.inl
    unfold get?
    rw [same]
  · obtain ⟨here, there⟩ := present value other fits
    exact .inr ⟨value, other, fits, get?_of_lookup own here, get?_of_lookup theirs there⟩

theorem Like.requireString_eq (apart : name ≠ key) :
    fields.requireString name = others.requireString name :=
  requireString_congr like.context (like.get?_eq apart)

theorem Like.list?_eq (apart : name ≠ key) : fields.list? name = others.list? name :=
  list?_congr like.context (like.get?_eq apart)

theorem Like.env?_eq (apart : "env" ≠ key) : fields.env? = others.env? :=
  env?_congr like.context (like.get?_eq apart)

theorem Like.javaVersion?_eq (apart : "java-version" ≠ key) :
    fields.javaVersion? = others.javaVersion? :=
  javaVersion?_congr like.context (like.get?_eq apart)

theorem Like.runsOn?_eq (apart : "runs-on" ≠ key) : fields.runsOn? = others.runsOn? :=
  runsOn?_congr like.context (like.get?_eq apart)

theorem Like.finish_eq (known : List String) : fields.finish known = others.finish known := by
  unfold finish
  rw [like.keys, like.context]

end Like

end Fields

end CrossBuild.Config
