/-
String-keyed maps that remember the order in which their keys arrived.

A new key goes to the end and a known key keeps its place, so the position of an
entry says when its key was first seen. The lists have no repeated key, and the
type carries that. These are not sorted maps, and no operation looks at the order
of the keys themselves.
-/

namespace CrossBuild

/-- Give `key` the value in its place, or at the end when it is new. -/
def putEntry {β : Type} (key : String) (value : β) :
    List (String × β) → List (String × β)
  | [] => [(key, value)]
  | entry :: rest =>
      if entry.1 = key then (key, value) :: rest else entry :: putEntry key value rest

/-- The keys after `putEntry`: unchanged for a known key, one more for a new one. -/
theorem keys_putEntry {β : Type} (key : String) (value : β) (entries : List (String × β)) :
    (putEntry key value entries).map Prod.fst =
      if key ∈ entries.map Prod.fst then entries.map Prod.fst
      else entries.map Prod.fst ++ [key] := by
  induction entries with
  | nil => simp [putEntry]
  | cons entry rest ih =>
      unfold putEntry
      by_cases same : entry.1 = key
      · simp [same]
      · have different : ¬ key = entry.1 := fun equal => same equal.symm
        simp only [if_neg same, List.map_cons, ih, List.mem_cons, different, false_or]
        split <;> simp

theorem nodup_keys_putEntry {β : Type} (key : String) (value : β)
    (entries : List (String × β)) (distinct : (entries.map Prod.fst).Nodup) :
    ((putEntry key value entries).map Prod.fst).Nodup := by
  rw [keys_putEntry]
  split
  · exact distinct
  · rename_i absent
    refine List.nodup_append.mpr ⟨distinct, by simp, ?_⟩
    intro left present right single
    rw [List.mem_singleton.mp single]
    intro equal
    exact absent (equal ▸ present)

/-- Entries in order of arrival, no key twice. -/
structure OrderedMap (β : Type) where
  entries : List (String × β)
  keysDistinct : (entries.map Prod.fst).Nodup

namespace OrderedMap

variable {β : Type}

instance [DecidableEq β] : DecidableEq (OrderedMap β) := fun left right =>
  if same : left.entries = right.entries then
    isTrue (by cases left; cases right; cases same; rfl)
  else
    isFalse fun equal => same (congrArg entries equal)

def empty : OrderedMap β :=
  { entries := []
    keysDistinct := List.nodup_nil }

instance : Inhabited (OrderedMap β) := ⟨empty⟩

def isEmpty (map : OrderedMap β) : Bool :=
  map.entries.isEmpty

def size (map : OrderedMap β) : Nat :=
  map.entries.length

def keys (map : OrderedMap β) : List String :=
  map.entries.map Prod.fst

def get? (map : OrderedMap β) (key : String) : Option β :=
  map.entries.lookup key

def contains (map : OrderedMap β) (key : String) : Bool :=
  map.keys.contains key

def insert (map : OrderedMap β) (key : String) (value : β) : OrderedMap β :=
  { entries := putEntry key value map.entries
    keysDistinct := nodup_keys_putEntry key value map.entries map.keysDistinct }

/-- Insert the pairs one after the other: of a repeated key the last value stays,
at the place of the first. -/
def insertAll (map : OrderedMap β) (pairs : List (String × β)) : OrderedMap β :=
  pairs.foldl (fun result pair => result.insert pair.1 pair.2) map

def ofList (pairs : List (String × β)) : OrderedMap β :=
  empty.insertAll pairs

/-- Lay `overrides` over `base`: common keys keep their place in `base` and take the
value of `overrides`, the others follow in their own order. -/
def merge (base overrides : OrderedMap β) : OrderedMap β :=
  base.insertAll overrides.entries

/-- The keys of `base` that `overrides` gives another value, in the order of
`overrides`. -/
def overriddenKeys [DecidableEq β] (base overrides : OrderedMap β) : List String :=
  (overrides.entries.filter fun entry =>
    match base.get? entry.1 with
    | some old => decide (old ≠ entry.2)
    | none => false).map Prod.fst

@[simp] theorem keys_empty : (empty : OrderedMap β).keys = [] := rfl

theorem keys_insert (map : OrderedMap β) (key : String) (value : β) :
    (map.insert key value).keys =
      if key ∈ map.keys then map.keys else map.keys ++ [key] :=
  keys_putEntry key value map.entries

theorem keys_nodup (map : OrderedMap β) : map.keys.Nodup :=
  map.keysDistinct

end OrderedMap

/-- Environment variables in the order in which they are written out. -/
abbrev Env := OrderedMap String

end CrossBuild
