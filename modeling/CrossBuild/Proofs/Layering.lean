/-
Laying ordered maps over each other.

An ordered map is told by its keys in their order and by what is found under each of them. Of two
layers, the upper one decides what is found under its keys and the lower one which keys come first,
and the laws of layering come from these two answers. Which layers a configuration has is not the
subject here.
-/

import CrossBuild.Proofs.Maps

namespace CrossBuild.OrderedMap

variable {β : Type}

/-! ### Keys and look-ups -/

/-- The entries are the keys in their order, each with what is found under it. -/
theorem entries_eq_filterMap (map : OrderedMap β) :
    map.entries = map.keys.filterMap fun key => (map.get? key).map fun value => (key, value) := by
  have own : ∀ entry ∈ map.entries,
      ((map.get? entry.1).map fun value => (entry.1, value)) = some entry := by
    intro entry member
    rw [get?_eq_some_iff.mpr member, Option.map_some]
  unfold keys
  rw [List.filterMap_map]
  exact ((List.filterMap_congr own).trans List.filterMap_some).symm

theorem eq_of_keys_of_get? {left right : OrderedMap β} (keys : left.keys = right.keys)
    (found : ∀ key, left.get? key = right.get? key) : left = right := by
  apply eq_of_entries
  rw [entries_eq_filterMap left, entries_eq_filterMap right, keys]
  simp only [found]

theorem get?_insertAll (map : OrderedMap β) {pairs : List (String × β)}
    (distinct : (pairs.map Prod.fst).Nodup) (key : String) :
    (map.insertAll pairs).get? key = (pairs.lookup key).or (map.get? key) := by
  by_cases listed : ∃ value, (key, value) ∈ pairs
  · obtain ⟨value, member⟩ := listed
    have agree : ∀ pair ∈ pairs, pair.1 = key → pair.2 = value := by
      rintro ⟨_, other⟩ inside rfl
      have same := (lookup_eq_some_iff distinct).mpr inside
      rw [(lookup_eq_some_iff distinct).mpr member, Option.some.injEq] at same
      exact same.symm
    rw [get?_insertAll_of_mem agree member, (lookup_eq_some_iff distinct).mpr member, Option.some_or]
  · have absent : ∀ pair ∈ pairs, pair.1 ≠ key := by
      rintro ⟨_, value⟩ inside rfl
      exact listed ⟨value, inside⟩
    have nothing : pairs.lookup key = none := by
      rw [Option.eq_none_iff_forall_ne_some]
      exact fun value found => listed ⟨value, (lookup_eq_some_iff distinct).mp found⟩
    rw [get?_insertAll_of_notMem absent, nothing, Option.none_or]

/-- Known keys keep their place, and the new ones follow in the order in which they are listed. -/
theorem keys_insertAll (map : OrderedMap β) {pairs : List (String × β)}
    (distinct : (pairs.map Prod.fst).Nodup) :
    (map.insertAll pairs).keys =
      map.keys ++ (pairs.map Prod.fst).filter fun key => key ∉ map.keys := by
  induction pairs generalizing map with
  | nil => exact (List.append_nil map.keys).symm
  | cons pair rest ih =>
      obtain ⟨apart, later⟩ := List.nodup_cons.mp distinct
      rw [insertAll_cons, ih _ later, keys_insert, List.map_cons]
      by_cases known : pair.1 ∈ map.keys
      · rw [if_pos known, List.filter_cons_of_neg (by simpa using known)]
      · have others : ((rest.map Prod.fst).filter fun key => key ∉ map.keys ++ [pair.1]) =
            (rest.map Prod.fst).filter fun key => key ∉ map.keys := by
          apply List.filter_congr
          intro key member
          have different : key ≠ pair.1 := fun same => apart (same ▸ member)
          simp [different]
        rw [if_neg known, List.filter_cons_of_pos (by simpa using known), others,
          List.append_assoc, List.singleton_append]

/-! ### Two layers -/

section Layers

variable (base overrides : OrderedMap β)

theorem get?_merge (key : String) :
    (base.merge overrides).get? key = (overrides.get? key).or (base.get? key) :=
  base.get?_insertAll overrides.keysDistinct key

theorem keys_merge : (base.merge overrides).keys =
    base.keys ++ overrides.keys.filter fun key => key ∉ base.keys :=
  base.keys_insertAll overrides.keysDistinct

theorem mem_keys_merge {key : String} :
    key ∈ (base.merge overrides).keys ↔ key ∈ base.keys ∨ key ∈ overrides.keys :=
  mem_keys_insertAll

theorem empty_merge : empty.merge overrides = overrides :=
  ofList_entries overrides

theorem merge_empty : base.merge empty = base := rfl

theorem merge_self : base.merge base = base := by
  apply eq_of_keys_of_get?
  · have none : (base.keys.filter fun key => key ∉ base.keys) = [] := by
      rw [List.filter_eq_nil_iff]
      intro key member
      simpa using member
    rw [keys_merge, none, List.append_nil]
  · intro key
    rw [get?_merge, Option.or_self]

end Layers

/-- Both sides list the keys of the lowest layer that has them, and find what the highest one says. -/
theorem merge_assoc (first second third : OrderedMap β) :
    (first.merge second).merge third = first.merge (second.merge third) := by
  apply eq_of_keys_of_get?
  · -- what is new to the two lower layers together is new to each of them
    have last : (third.keys.filter fun key => key ∉ (first.merge second).keys) =
        (third.keys.filter fun key => key ∉ second.keys).filter fun key => key ∉ first.keys := by
      rw [List.filter_filter]
      apply List.filter_congr
      intro key _
      simp [mem_keys_merge]
    rw [keys_merge (first.merge second), last, keys_merge first, keys_merge first,
      keys_merge second, List.filter_append, List.append_assoc]
  · intro key
    rw [get?_merge, get?_merge first, get?_merge, get?_merge second, Option.or_assoc]

/-! ### Keys that get another value -/

section Overridden

variable [DecidableEq β] (base overrides : OrderedMap β)

theorem overriddenKeys_sublist : (base.overriddenKeys overrides).Sublist overrides.keys :=
  List.Sublist.map Prod.fst List.filter_sublist

theorem mem_overriddenKeys {key : String} : key ∈ base.overriddenKeys overrides ↔
    ∃ old new, base.get? key = some old ∧ overrides.get? key = some new ∧ old ≠ new := by
  unfold overriddenKeys
  simp only [List.mem_map, List.mem_filter]
  constructor
  · rintro ⟨⟨_, new⟩, ⟨member, differs⟩, rfl⟩
    split at differs
    · rename_i old found
      exact ⟨old, new, found, get?_eq_some_iff.mpr member, of_decide_eq_true differs⟩
    · cases differs
  · rintro ⟨old, new, found, given, differs⟩
    refine ⟨(key, new), ⟨get?_eq_some_iff.mp given, ?_⟩, rfl⟩
    rw [found]
    exact decide_eq_true differs

/-- A key is overridden when it was there and laying the layer over it changes what is found. -/
theorem mem_overriddenKeys_iff_merge {key : String} : key ∈ base.overriddenKeys overrides ↔
    key ∈ base.keys ∧ (base.merge overrides).get? key ≠ base.get? key := by
  rw [mem_overriddenKeys, mem_keys_iff, get?_merge]
  cases base.get? key with
  | none => simp
  | some old =>
      cases overrides.get? key with
      | none => simp
      | some new => simp [eq_comm]

end Overridden

/-- Layers of variables can be laid over each other in any grouping, a layer of none or the same
layer again changes nothing, and the order of the variables and the overridden ones are told by the
two layers. -/
theorem env_layers (first second third : Env) :
    (first.merge second).merge third = first.merge (second.merge third) ∧
      empty.merge first = first ∧ first.merge empty = first ∧ first.merge first = first ∧
      (first.merge second).keys = first.keys ++ second.keys.filter (fun key => key ∉ first.keys) ∧
      (first.overriddenKeys second).Sublist second.keys ∧ (first.overriddenKeys second).Nodup ∧
      ∀ key, key ∈ first.overriddenKeys second ↔
        key ∈ first.keys ∧ (first.merge second).get? key ≠ first.get? key :=
  ⟨merge_assoc first second third, empty_merge first, merge_empty first, merge_self first,
    keys_merge first second, overriddenKeys_sublist first second,
    (overriddenKeys_sublist first second).nodup second.keys_nodup,
    fun _ => mem_overriddenKeys_iff_merge first second⟩

end CrossBuild.OrderedMap
