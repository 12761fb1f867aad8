/-
The keys of the mappings of a document.

Loading refuses a mapping with a key that is there already, so no mapping of a tree that was read
has a key twice, at whatever depth it stands. Texts are not looked at here, only nodes and the tree
they are loaded to.
-/

import CrossBuild.Yaml.Load
import Mathlib.Data.List.Basic

namespace CrossBuild.Yaml

/-- No mapping of the tree has a key twice. -/
inductive Value.KeysDistinct : Value → Prop where
  | null : KeysDistinct .null
  | bool (value : Bool) : KeysDistinct (.bool value)
  | number (value : Number) : KeysDistinct (.number value)
  | string (text : String) : KeysDistinct (.string text)
  | sequence {items : List Value} (inside : ∀ item ∈ items, KeysDistinct item) :
      KeysDistinct (.sequence items)
  | mapping {entries : List (Value × Value)}
      (apart : entries.Pairwise fun earlier later => later.1.sameKey earlier.1 = false)
      (keys : ∀ entry ∈ entries, KeysDistinct entry.1)
      (inside : ∀ entry ∈ entries, KeysDistinct entry.2) : KeysDistinct (.mapping entries)
  | tagged (tag : String) {value : Value} (inside : KeysDistinct value) :
      KeysDistinct (.tagged tag value)

/-- A mapping with different strings as keys has no key twice. -/
theorem Value.KeysDistinct.ofStrings {pairs : List (String × Value)}
    (distinct : (pairs.map Prod.fst).Nodup) (inside : ∀ pair ∈ pairs, pair.2.KeysDistinct) :
    (Value.mapping (pairs.map fun pair => (.string pair.1, pair.2))).KeysDistinct := by
  constructor
  case apart =>
    rw [List.pairwise_map]
    apply (List.pairwise_map.mp distinct).imp
    intro earlier later different
    unfold Value.sameKey
    exact beq_false_of_ne different.symm
  case keys =>
    intro entry member
    obtain ⟨pair, -, rfl⟩ := List.mem_map.mp member
    exact .string pair.1
  case inside =>
    intro entry member
    obtain ⟨pair, listed, rfl⟩ := List.mem_map.mp member
    exact inside pair listed

/-- In a mapping without a key twice, strings as keys are different. -/
theorem Value.KeysDistinct.nodup_strings {pairs : List (String × Value)}
    (distinct : (Value.mapping (pairs.map fun pair => (.string pair.1, pair.2))).KeysDistinct) :
    (pairs.map Prod.fst).Nodup := by
  cases distinct with
  | mapping apart _ _ =>
      rw [List.pairwise_map] at apart
      apply List.pairwise_map.mpr
      apply apart.imp
      intro earlier later different same
      unfold Value.sameKey at different
      exact ne_of_beq_false different same.symm

/-! ### Scalars -/

section Scalars

variable {text : String} {value : Value}

theorem keysDistinct_plainValue (read : plainValue? text = some value) : value.KeysDistinct := by
  unfold plainValue? at read
  split at read
  · cases read
    exact .null
  · split at read
    · cases read
      exact .bool _
    · split at read
      · split at read
        · cases read
          exact .number _
        · cases read
      · split at read
        · cases read
          exact .string _
        · split at read
          · cases read
            exact .number _
          · cases read
            exact .string _

theorem keysDistinct_untaggedScalar {plain : Bool}
    (read : untaggedScalar? text plain = some value) : value.KeysDistinct := by
  unfold untaggedScalar? at read
  split at read
  · exact keysDistinct_plainValue read
  · cases read
    exact .string _

theorem keysDistinct_coreValue {tag : String} (read : coreValue? tag text = some value) :
    value.KeysDistinct := by
  unfold coreValue? at read
  split at read
  · obtain ⟨truth, -, rfl⟩ := Option.map_eq_some_iff.mp read
    exact .bool truth
  · split at read
    · obtain ⟨whole, -, inRange⟩ := Option.bind_eq_some_iff.mp read
      split at inRange
      · cases inRange
        exact .number _
      · cases inRange
    · split at read
      · obtain ⟨double, -, rfl⟩ := Option.map_eq_some_iff.mp read
        exact .number _
      · split at read
        · split at read
          · cases read
            exact .null
          · cases read
        · cases read
          exact .string _

end Scalars

/-! ### Nodes -/

namespace Document

variable {α β : Type} {count later : Nat} {document : Document}

private theorem bind_some_iff {first : LoadM α} {next : α → LoadM β} {result : β × Nat} :
    (first >>= next) count = some result ↔
      ∃ value middle, first count = some (value, middle) ∧ next value middle = some result := by
  change (first count).bind (fun pair => next pair.1 pair.2) = some result ↔ _
  rw [Option.bind_eq_some_iff]
  exact Prod.exists

private theorem pure_some_iff {value result : α} :
    (pure value : LoadM α) count = some (result, later) ↔ value = result ∧ count = later := by
  change some (value, count) = some (result, later) ↔ _
  rw [Option.some.injEq, Prod.mk.injEq]

private theorem keysDistinct_scalarValue {tagged plain : Bool} {tag : Option String} {text : String}
    {value : Value} (read : scalarValue tagged tag text plain count = some (value, later)) :
    value.KeysDistinct := by
  cases own : tagHere? tagged tag with
  | some name =>
      cases scalar : untaggedScalar? text plain with
      | none =>
          simp only [scalarValue, own, scalar, Option.map_none] at read
          cases read
      | some untagged =>
          simp only [scalarValue, own, scalar, Option.map_some, pure_some_iff] at read
          rw [← read.1]
          exact .tagged _ (keysDistinct_untaggedScalar scalar)
  | none =>
      cases tag with
      | none =>
          cases scalar : untaggedScalar? text plain with
          | none =>
              simp only [scalarValue, own, scalar] at read
              cases read
          | some untagged =>
              simp only [scalarValue, own, scalar, pure_some_iff] at read
              rw [← read.1]
              exact keysDistinct_untaggedScalar scalar
      | some core =>
          cases scalar : if tagged then untaggedScalar? text plain else coreValue? core text with
          | none =>
              simp only [scalarValue, own, scalar] at read
              cases read
          | some found =>
              simp only [scalarValue, own, scalar, pure_some_iff] at read
              rw [← read.1]
              split at scalar
              · exact keysDistinct_untaggedScalar scalar
              · exact keysDistinct_coreValue scalar

private theorem keysDistinct_withTag {own : Option String} {value : Value}
    (distinct : value.KeysDistinct) : (withTag own value).KeysDistinct := by
  unfold withTag
  split
  · exact .tagged _ distinct
  · exact distinct

private theorem keysDistinct_loadItems {load : Node → LoadM Value}
    (each : ∀ {node count value later}, load node count = some (value, later) → value.KeysDistinct)
    {nodes : List Node} {items : List Value}
    (read : loadItems load nodes count = some (items, later)) : ∀ item ∈ items, item.KeysDistinct := by
  induction nodes generalizing count later items with
  | nil =>
      obtain ⟨rfl, -⟩ := pure_some_iff.mp read
      exact fun _ absent => nomatch absent
  | cons node rest ih =>
      unfold loadItems at read
      simp only [bind_some_iff, pure_some_iff] at read
      obtain ⟨item, _, first, others, _, next, rfl, -⟩ := read
      exact List.forall_mem_cons.mpr ⟨each first, ih next⟩

/-- Entries that were loaded, the last one first. -/
private structure EntriesApart (loaded : List (Value × Value)) : Prop where
  apart : loaded.Pairwise fun later earlier => later.1.sameKey earlier.1 = false
  keys : ∀ entry ∈ loaded, entry.1.KeysDistinct
  inside : ∀ entry ∈ loaded, entry.2.KeysDistinct

private theorem keysDistinct_loadEntries {loadKey loadValue : Node → LoadM Value}
    (eachKey : ∀ {node count value later}, loadKey node count = some (value, later) →
      value.KeysDistinct)
    (eachValue : ∀ {node count value later}, loadValue node count = some (value, later) →
      value.KeysDistinct)
    {nodes : List (Node × Node)} {loaded entries : List (Value × Value)}
    (before : EntriesApart loaded)
    (read : loadEntries loadKey loadValue loaded nodes count = some (entries, later)) :
    (Value.mapping entries).KeysDistinct := by
  induction nodes generalizing count loaded with
  | nil =>
      obtain ⟨rfl, -⟩ := pure_some_iff.mp read
      refine .mapping (List.pairwise_reverse.mpr before.apart) (fun entry member => ?_)
        fun entry member => ?_
      · exact before.keys entry (List.mem_reverse.mp member)
      · exact before.inside entry (List.mem_reverse.mp member)
  | cons pair rest ih =>
      unfold loadEntries at read
      simp only [bind_some_iff] at read
      obtain ⟨key, _, keyRead, read⟩ := read
      split at read
      · simp only [bind_some_iff] at read
        obtain ⟨_, _, refused, -⟩ := read
        cases refused
      · rename_i fresh
        simp only [bind_some_iff] at read
        obtain ⟨value, _, valueRead, read⟩ := read
        refine ih ⟨List.pairwise_cons.mpr ⟨fun entry member => ?_, before.apart⟩,
          List.forall_mem_cons.mpr ⟨eachKey keyRead, before.keys⟩,
          List.forall_mem_cons.mpr ⟨eachValue valueRead, before.inside⟩⟩ read
        rw [Bool.eq_false_iff]
        exact fun same => fresh (List.any_eq_true.mpr ⟨entry, member, same⟩)

theorem keysDistinct_load {depth : Nat} {tagged : Bool} {node : Node} {value : Value}
    (read : document.load depth tagged node count = some (value, later)) : value.KeysDistinct := by
  induction depth generalizing tagged node count value later with
  | zero =>
      unfold load at read
      simp only [bind_some_iff] at read
      obtain ⟨target, _, -, read⟩ := read
      split at read
      · exact keysDistinct_scalarValue read
      · cases read
  | succ depth ih =>
      unfold load at read
      simp only [bind_some_iff] at read
      obtain ⟨target, _, -, read⟩ := read
      split at read
      · cases read
      · exact keysDistinct_scalarValue read
      · simp only [bind_some_iff, pure_some_iff] at read
        obtain ⟨items, _, each, rfl, -⟩ := read
        exact keysDistinct_withTag (.sequence (keysDistinct_loadItems ih each))
      · simp only [bind_some_iff, pure_some_iff] at read
        obtain ⟨entries, _, each, rfl, -⟩ := read
        refine keysDistinct_withTag (keysDistinct_loadEntries ih ih ?_ each)
        exact ⟨.nil, fun _ absent => (nomatch absent), fun _ absent => (nomatch absent)⟩

end Document

/-- No mapping of a tree that was read has a key twice. -/
theorem keysDistinct_read {text : String} {value : Value} (read : read? text = some value) :
    value.KeysDistinct := by
  unfold read? at read
  obtain ⟨events, -, read⟩ := Option.bind_eq_some_iff.mp read
  obtain ⟨built, -, read⟩ := Option.bind_eq_some_iff.mp read
  split at read
  · cases read
    exact .null
  · obtain ⟨⟨_, _⟩, loaded, rfl⟩ := Option.map_eq_some_iff.mp read
    exact Document.keysDistinct_load loaded

end CrossBuild.Yaml
