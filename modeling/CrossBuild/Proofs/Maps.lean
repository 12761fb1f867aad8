/-
Looking up what was inserted into an ordered map.

The order of the keys is described beside the type. Here is what a look-up gives after insertions,
and where a new entry goes.
-/

import CrossBuild.OrderedMap
import Mathlib.Data.List.Nodup

namespace CrossBuild

/-- In a list without repeated keys, looking up a key gives the value of its entry. -/
theorem lookup_eq_some_iff {α β : Type} [BEq α] [LawfulBEq α] {entries : List (α × β)}
    (distinct : (entries.map Prod.fst).Nodup) {key : α} {value : β} :
    entries.lookup key = some value ↔ (key, value) ∈ entries := by
  induction entries with
  | nil => simp
  | cons entry rest ih =>
      obtain ⟨first, content⟩ := entry
      simp only [List.map_cons, List.nodup_cons] at distinct
      by_cases same : key = first
      · subst same
        rw [List.lookup_cons_self]
        constructor
        · intro found
          cases found
          exact List.mem_cons_self
        · intro member
          rcases List.mem_cons.mp member with own | later
          · cases own
            rfl
          · exact absurd (List.mem_map_of_mem later) distinct.1
      · have different : (key == first) = false := by simpa using same
        rw [List.lookup_cons, different]
        simp only [ih distinct.2, List.mem_cons, Prod.mk.injEq, same, false_and, false_or]

namespace OrderedMap

variable {β : Type}

theorem contains_iff {map : OrderedMap β} {key : String} :
    map.contains key = true ↔ key ∈ map.keys := by
  unfold contains
  exact List.contains_iff_mem

theorem mem_keys_of_entry {map : OrderedMap β} {entry : String × β} (member : entry ∈ map.entries) :
    entry.1 ∈ map.keys :=
  List.mem_map_of_mem member

/-- Looking up a key gives the value of its entry. -/
theorem get?_eq_some_iff {map : OrderedMap β} {key : String} {value : β} :
    map.get? key = some value ↔ (key, value) ∈ map.entries :=
  lookup_eq_some_iff map.keysDistinct

theorem mem_keys_iff {map : OrderedMap β} {key : String} :
    key ∈ map.keys ↔ ∃ value, map.get? key = some value := by
  simp only [get?_eq_some_iff]
  constructor
  · intro member
    obtain ⟨entry, inside, rfl⟩ := List.mem_map.mp member
    exact ⟨entry.2, inside⟩
  · rintro ⟨value, inside⟩
    exact mem_keys_of_entry inside

private theorem putEntry_of_fresh {key : String} (value : β) {entries : List (String × β)}
    (fresh : key ∉ entries.map Prod.fst) : putEntry key value entries = entries ++ [(key, value)] := by
  induction entries with
  | nil => rfl
  | cons entry rest ih =>
      rw [List.map_cons, List.mem_cons, not_or] at fresh
      rw [putEntry, if_neg fun same => fresh.1 same.symm, ih fresh.2]
      rfl

private theorem lookup_putEntry (key other : String) (value : β) (entries : List (String × β)) :
    (putEntry key value entries).lookup other =
      if other = key then some value else entries.lookup other := by
  induction entries with
  | nil =>
      by_cases same : other = key
      · simp [putEntry, same]
      · have different : (other == key) = false := by simpa using same
        simp [putEntry, List.lookup_cons, same, different]
  | cons entry rest ih =>
      obtain ⟨first, content⟩ := entry
      unfold putEntry
      by_cases known : first = key
      · subst known
        by_cases same : other = first
        · simp [same]
        · have different : (other == first) = false := by simpa using same
          simp [List.lookup_cons, same, different]
      · rw [if_neg known, List.lookup_cons, List.lookup_cons, ih]
        by_cases own : other = first
        · have apart : ¬ other = key := fun same => known (own.symm.trans same)
          simp [own, known]
        · have different : (other == first) = false := by simpa using own
          rw [different]

/-- A new key goes to the end. -/
theorem entries_insert_of_fresh {map : OrderedMap β} {key : String} (value : β)
    (fresh : key ∉ map.keys) : (map.insert key value).entries = map.entries ++ [(key, value)] :=
  putEntry_of_fresh value fresh

theorem get?_insert (map : OrderedMap β) (key other : String) (value : β) :
    (map.insert key value).get? other = if other = key then some value else map.get? other :=
  lookup_putEntry key other value map.entries

theorem mem_keys_insert {map : OrderedMap β} {key other : String} {value : β} :
    other ∈ (map.insert key value).keys ↔ other ∈ map.keys ∨ other = key := by
  simp only [mem_keys_iff, get?_insert]
  by_cases same : other = key
  · simp [same]
  · simp [same]

theorem insertAll_cons (map : OrderedMap β) (pair : String × β) (rest : List (String × β)) :
    map.insertAll (pair :: rest) = (map.insert pair.1 pair.2).insertAll rest := rfl

theorem get?_insertAll_of_notMem {map : OrderedMap β} {key : String} {pairs : List (String × β)}
    (absent : ∀ pair ∈ pairs, pair.1 ≠ key) : (map.insertAll pairs).get? key = map.get? key := by
  induction pairs generalizing map with
  | nil => rfl
  | cons pair rest ih =>
      rw [List.forall_mem_cons] at absent
      rw [insertAll_cons, ih absent.2, get?_insert, if_neg fun same => absent.1 same.symm]

/-- Whatever was there before, a key takes the value that all insertions under it agree on. -/
theorem get?_insertAll_of_mem {map : OrderedMap β} {key : String} {value : β}
    {pairs : List (String × β)} (agree : ∀ pair ∈ pairs, pair.1 = key → pair.2 = value)
    (listed : (key, value) ∈ pairs) : (map.insertAll pairs).get? key = some value := by
  induction pairs generalizing map with
  | nil => cases listed
  | cons pair rest ih =>
      rw [List.forall_mem_cons] at agree
      rw [insertAll_cons]
      by_cases later : (key, value) ∈ rest
      · exact ih agree.2 later
      · have own : pair = (key, value) := ((List.mem_cons.mp listed).resolve_right later).symm
        have absent : ∀ other ∈ rest, other.1 ≠ key := by
          intro other inside same
          have equal : other = (key, value) := Prod.ext same (agree.2 other inside same)
          exact later (equal ▸ inside)
        rw [get?_insertAll_of_notMem absent, get?_insert, own, if_pos rfl]

/-- A key that was inserted has a value, which comes from the insertions or was there before. -/
theorem mem_of_get?_insertAll {map : OrderedMap β} {key : String} {value : β}
    {pairs : List (String × β)} (found : (map.insertAll pairs).get? key = some value) :
    (key, value) ∈ pairs ∨ map.get? key = some value := by
  induction pairs generalizing map with
  | nil => exact .inr found
  | cons pair rest ih =>
      rcases ih found with later | before
      · exact .inl (List.mem_cons_of_mem _ later)
      · rw [get?_insert] at before
        split at before
        · rename_i same
          cases before
          rw [same]
          exact .inl List.mem_cons_self
        · exact .inr before

theorem mem_keys_insertAll {map : OrderedMap β} {key : String} {pairs : List (String × β)} :
    key ∈ (map.insertAll pairs).keys ↔ key ∈ map.keys ∨ key ∈ pairs.map Prod.fst := by
  induction pairs generalizing map with
  | nil => simp [insertAll]
  | cons pair rest ih =>
      rw [insertAll_cons, ih, mem_keys_insert, List.map_cons, List.mem_cons, or_assoc]

/-- New keys go to the end one behind the other. -/
theorem entries_insertAll_of_fresh {map : OrderedMap β} {pairs : List (String × β)}
    (fresh : (map.keys ++ pairs.map Prod.fst).Nodup) :
    (map.insertAll pairs).entries = map.entries ++ pairs := by
  induction pairs generalizing map with
  | nil => exact (List.append_nil map.entries).symm
  | cons pair rest ih =>
      have apart : pair.1 ∉ map.keys := fun inside =>
        (List.nodup_append.mp fresh).2.2 pair.1 inside pair.1 List.mem_cons_self rfl
      have later : ((map.insert pair.1 pair.2).keys ++ rest.map Prod.fst).Nodup := by
        rw [keys_insert, if_neg apart, List.append_assoc]
        exact fresh
      rw [insertAll_cons, ih later, entries_insert_of_fresh pair.2 apart, List.append_assoc]
      rfl

theorem entries_ofList {pairs : List (String × β)} (distinct : (pairs.map Prod.fst).Nodup) :
    (ofList pairs).entries = pairs :=
  entries_insertAll_of_fresh distinct

theorem eq_of_entries {left right : OrderedMap β} (same : left.entries = right.entries) :
    left = right := by
  cases left
  cases right
  cases same
  rfl

/-- A map is made of its entries. -/
theorem ofList_entries (map : OrderedMap β) : ofList map.entries = map :=
  eq_of_entries (entries_ofList map.keysDistinct)

theorem insertAll_append (map : OrderedMap β) (front back : List (String × β)) :
    map.insertAll (front ++ back) = (map.insertAll front).insertAll back := by
  unfold insertAll
  exact List.foldl_append

/-- The last insertion under a key counts. -/
theorem get?_insertAll_of_last {map : OrderedMap β} {key : String} {value : β}
    {front back : List (String × β)} (last : ∀ pair ∈ back, pair.1 ≠ key) :
    (map.insertAll (front ++ (key, value) :: back)).get? key = some value := by
  rw [insertAll_append, insertAll_cons, get?_insertAll_of_notMem last, get?_insert, if_pos rfl]

end OrderedMap

end CrossBuild
