/-
The steps that users write.

A step is read from a mapping and written back as one. Known keys come back in their fixed order,
without those that say nothing, and all other entries follow as they stand in the document. What is
written back is read as the same step. The text of a step is not looked at here.
-/

import CrossBuild.Proofs.Config.Fields
import CrossBuild.Proofs.Maps
import CrossBuild.Workflow.Tree

namespace CrossBuild.Step

open Yaml (Value)
open Config (isKey)

variable {step next before final : Step} {key : Key} {value : Value} {text : String}
variable {pairs : List (String × Value)} {entries : List (Value × Value)}

/-! ### The entries of a step -/

theorem Key.ofText?_eq_some_iff : Key.ofText? text = some key ↔ key.text = text := by
  constructor
  · intro found
    simpa using List.find?_some found
  · intro same
    subst same
    cases key <;> rfl

theorem Key.text_injective {key other : Key} (same : key.text = other.text) : key = other := by
  rw [← Key.ofText?_eq_some_iff] at same
  rw [Key.ofText?_eq_some_iff.mpr rfl] at same
  cases same
  rfl

theorem Key.mem_all (key : Key) : key ∈ Key.all := by
  cases key <;> decide

def Key.isMap : Key → Bool
  | .inputs => true
  | .env => true
  | _ => false

def mapValue (map : OrderedMap Value) : Value :=
  .mapping (map.entries.map fun pair => entry pair.1 pair.2)

def mapField? (map : OrderedMap Value) : Option Value :=
  if map.isEmpty then none else some (mapValue map)

/-- What a step says under a known key. -/
def field? (step : Step) : Key → Option Value
  | .name => step.name.map .string
  | .id => step.id.map .string
  | .condition => step.condition.map .string
  | .uses => step.uses.map .string
  | .run => step.run.map .string
  | .workingDirectory => step.workingDirectory.map .string
  | .inputs => mapField? step.inputs
  | .env => mapField? step.env

def knownPairs (step : Step) : List (String × Value) :=
  Key.all.flatMap fun key => ((step.field? key).map fun value => (key.text, value)).toList

def allPairs (step : Step) : List (String × Value) :=
  step.knownPairs ++ step.extra.entries

theorem textEntry_eq (key : String) (text : Option String) :
    textEntry key text =
      (((text.map Value.string).map fun value => (key, value)).toList).map
        fun pair => entry pair.1 pair.2 := by
  cases text <;> rfl

theorem mapEntry_eq (key : String) (map : OrderedMap Value) :
    mapEntry (fun value => value) key map =
      (((mapField? map).map fun value => (key, value)).toList).map
        fun pair => entry pair.1 pair.2 := by
  unfold mapEntry mapField?
  split <;> rfl

theorem toValue_eq (step : Step) :
    step.toValue = .mapping (step.allPairs.map fun pair => entry pair.1 pair.2) := by
  unfold toValue allPairs knownPairs Key.all
  simp only [textEntry_eq, mapEntry_eq, List.flatMap_cons, List.flatMap_nil, List.map_append,
    List.append_assoc, List.append_nil]
  rfl

theorem mem_knownPairs_iff :
    (text, value) ∈ step.knownPairs ↔ ∃ key, key.text = text ∧ step.field? key = some value := by
  unfold knownPairs
  simp only [List.mem_flatMap, Option.mem_toList, Option.map_eq_some_iff, Prod.mk.injEq]
  constructor
  · intro ⟨key, _, value, said, same, equal⟩
    exact ⟨key, same, equal ▸ said⟩
  · intro ⟨key, same, said⟩
    exact ⟨key, Key.mem_all key, value, said, same, rfl⟩

theorem readEntries?_entries (pairs : List (String × Value)) :
    readEntries? (pairs.map fun pair => entry pair.1 pair.2) = some pairs := by
  induction pairs with
  | nil => rfl
  | cons pair rest ih =>
      rw [List.map_cons, entry, readEntries?, ih]
      rfl

theorem readMap?_mapValue (map : OrderedMap Value) : readMap? (mapValue map) = some map := by
  unfold readMap? mapValue
  simp only [Value.untagged, readEntries?_entries, Option.map_some, OrderedMap.ofList_entries]

theorem mapField?_injective {left right : OrderedMap Value}
    (same : mapField? left = mapField? right) : left = right := by
  have again : ∀ map, ((mapField? map).bind readMap?).getD .empty = map := by
    intro map
    unfold mapField?
    split
    · rename_i isEmpty
      exact OrderedMap.eq_of_entries (List.isEmpty_iff.mp isEmpty).symm
    · rw [Option.bind_some, readMap?_mapValue, Option.getD_some]
  rw [← again left, ← again right, same]

/-- A step is what it says under its known keys together with its other entries. -/
theorem eq_of_fields {left right : Step} (same : ∀ key, left.field? key = right.field? key)
    (others : left.extra = right.extra) : left = right := by
  have texts : ∀ {one two : Option String}, one.map Value.string = two.map .string → one = two :=
    fun equal => Option.map_injective (fun _ _ => Value.string.inj) equal
  have name := texts (same .name)
  have id := texts (same .id)
  have condition := texts (same .condition)
  have uses := texts (same .uses)
  have run := texts (same .run)
  have workingDirectory := texts (same .workingDirectory)
  have inputs := mapField?_injective (same .inputs)
  have env := mapField?_injective (same .env)
  cases left
  cases right
  simp_all

/-! ### What a key accepts -/

/-- The values that a known key has in a step, and null, which it also accepts. -/
inductive Fits : Key → Value → Prop where
  | nothing (key : Key) : Fits key .null
  | text {key : Key} (single : key.isMap = false) (text : String) : Fits key (.string text)
  | map {key : Key} (several : key.isMap = true) (map : OrderedMap Value) : Fits key (mapValue map)

/-- Nothing is said by null, nor by an empty mapping where a key holds a map. -/
def saysNothing (key : Key) : Value → Bool
  | .null => true
  | .mapping [] => key.isMap
  | _ => false

def said? (key : Key) (value : Value) : Option Value :=
  if saysNothing key value then none else some value

theorem said?_mapValue (several : key.isMap = true) (map : OrderedMap Value) :
    said? key (mapValue map) = mapField? map := by
  obtain ⟨entries, distinct⟩ := map
  unfold said? mapField? mapValue OrderedMap.isEmpty
  cases entries with
  | nil => simp [saysNothing, several]
  | cons pair rest => simp [saysNothing]

/-- What a step says is accepted by its key, and is something. -/
theorem fits_of_field? (said : step.field? key = some value) :
    Fits key value ∧ said? key value = some value := by
  have ofText : ∀ {held : Option String}, key.isMap = false → held.map .string = some value →
      Fits key value ∧ said? key value = some value := by
    intro held single said
    obtain ⟨text, -, rfl⟩ := Option.map_eq_some_iff.mp said
    exact ⟨.text single text, rfl⟩
  have ofMap : ∀ {held : OrderedMap Value}, key.isMap = true → mapField? held = some value →
      Fits key value ∧ said? key value = some value := by
    intro held several said
    have same : value = mapValue held := by
      unfold mapField? at said
      split at said
      · cases said
      · exact (Option.some.inj said).symm
    subst same
    exact ⟨.map several held, by rw [said?_mapValue several, said]⟩
  cases key
  case inputs => exact ofMap rfl said
  case env => exact ofMap rfl said
  all_goals exact ofText rfl said

/-- Storing a value under one key leaves all else as it was. -/
theorem field?_setKey?_of_ne (done : step.setKey? key value = some next) :
    next.extra = step.extra ∧ ∀ other, other ≠ key → next.field? other = step.field? other := by
  cases key <;>
  · obtain ⟨_, -, rfl⟩ := Option.map_eq_some_iff.mp done
    constructor
    · rfl
    · intro other different
      cases other <;> first | rfl | exact absurd rfl different

theorem setKey?_of_fits (fits : Fits key value) (step : Step) :
    ∃ next, step.setKey? key value = some next ∧ next.field? key = said? key value := by
  cases fits with
  | nothing => cases key <;> exact ⟨_, rfl, rfl⟩
  | text single text =>
      cases key
      case inputs => cases single
      case env => cases single
      all_goals exact ⟨_, rfl, rfl⟩
  | map several map =>
      rw [said?_mapValue several]
      cases key
      case inputs => exact ⟨{ step with inputs := map }, by simp [setKey?, readMap?_mapValue], rfl⟩
      case env => exact ⟨{ step with env := map }, by simp [setKey?, readMap?_mapValue], rfl⟩
      all_goals cases several

/-! ### Reading entries -/

def isOther (pair : String × Value) : Bool :=
  (Key.ofText? pair.1).isNone

theorem isOther_iff {pair : String × Value} :
    isOther pair = true ↔ ∀ key : Key, key.text ≠ pair.1 := by
  unfold isOther
  rw [Option.isNone_iff_eq_none, Option.eq_none_iff_forall_ne_some]
  exact forall_congr' fun key => not_congr Key.ofText?_eq_some_iff

/-- The entries of a step that is accepted and keeps all they say. -/
structure WellFormed (pairs : List (String × Value)) : Prop where
  distinct : (pairs.map Prod.fst).Nodup
  fits : ∀ key value, (Key.text key, value) ∈ pairs → Fits key value
  bare : ∀ pair ∈ pairs, isOther pair = true → pair.2.hasTag = false

/-- The last step says what the entries say, and elsewhere what the first step says. -/
structure Holds (pairs : List (String × Value)) (before final : Step) : Prop where
  known : ∀ key value, (Key.text key, value) ∈ pairs → final.field? key = said? key value
  elsewhere : ∀ key, Key.text key ∉ pairs.map Prod.fst → final.field? key = before.field? key
  others : final.extra = before.extra.insertAll (pairs.filter isOther)

/-- Entries say all there is to say about a step. -/
theorem Holds.unique {left right : Step} (one : Holds pairs before left)
    (two : Holds pairs before right) : left = right := by
  apply eq_of_fields
  · intro key
    by_cases given : key.text ∈ pairs.map Prod.fst
    · obtain ⟨⟨name, value⟩, listed, rfl⟩ := List.mem_map.mp given
      rw [one.known key value listed, two.known key value listed]
    · rw [one.elsewhere key given, two.elsewhere key given]
  · rw [one.others, two.others]

theorem WellFormed.tail {pair : String × Value} (fine : WellFormed (pair :: pairs)) :
    WellFormed pairs where
  distinct := (List.nodup_cons.mp fine.distinct).2
  fits key value listed := fine.fits key value (List.mem_cons_of_mem _ listed)
  bare other listed := fine.bare other (List.mem_cons_of_mem _ listed)

theorem Holds.cons_known (fits : Fits key value) (done : before.setKey? key value = some next)
    (own : next.field? key = said? key value) (distinct : key.text ∉ pairs.map Prod.fst)
    (rest : Holds pairs next final) : Holds ((key.text, value) :: pairs) before final := by
  obtain ⟨sameExtra, sameFields⟩ := field?_setKey?_of_ne done
  constructor
  case known =>
    intro other content listed
    rcases List.mem_cons.mp listed with first | later
    · obtain ⟨same, rfl⟩ := Prod.mk.inj first
      cases Key.text_injective same
      rw [rest.elsewhere key distinct, own]
    · exact rest.known other content later
  case elsewhere =>
    intro other absent
    rw [List.map_cons, List.mem_cons, not_or] at absent
    have different : other ≠ key := fun same => absent.1 (congrArg Key.text same)
    rw [rest.elsewhere other absent.2, sameFields other different]
  case others =>
    have known : ¬ isOther (key.text, value) = true := fun other => isOther_iff.mp other key rfl
    rw [List.filter_cons_of_neg known, rest.others, sameExtra]

theorem Holds.cons_other (unknown : isOther (text, value) = true)
    (rest : Holds pairs { before with extra := before.extra.insert text value } final) :
    Holds ((text, value) :: pairs) before final := by
  constructor
  case known =>
    intro key content listed
    rcases List.mem_cons.mp listed with first | later
    · exact absurd (congrArg Prod.fst first) (isOther_iff.mp unknown key)
    · exact rest.known key content later
  case elsewhere =>
    intro key absent
    rw [List.map_cons, List.mem_cons, not_or] at absent
    rw [rest.elsewhere key absent.2]
    cases key <;> rfl
  case others =>
    rw [List.filter_cons_of_pos unknown, rest.others]
    rfl

/-- Well-formed entries are accepted behind others that have different known keys. -/
theorem readStep?_ok (fine : WellFormed pairs) (step : Step) (seen : List Key)
    (unseen : ∀ key ∈ seen, key.text ∉ pairs.map Prod.fst) :
    ∃ final, readStep? step seen pairs = some final ∧ Holds pairs step final := by
  -- `seen` are the known keys of the entries before, and none of them may come again
  induction pairs generalizing step seen with
  | nil => exact ⟨step, rfl, fun _ _ absent => (nomatch absent), fun _ _ => rfl, rfl⟩
  | cons pair rest ih =>
      obtain ⟨text, value⟩ := pair
      have fresh : text ∉ rest.map Prod.fst := (List.nodup_cons.mp fine.distinct).1
      have unseenLater : ∀ key ∈ seen, key.text ∉ rest.map Prod.fst := by
        intro key listed inside
        exact unseen key listed (List.mem_cons_of_mem _ inside)
      unfold readStep?
      split
      · rename_i key found
        obtain rfl := Key.ofText?_eq_some_iff.mp found
        have new : seen.contains key = false := by
          rw [← Bool.not_eq_true, List.contains_iff_mem]
          exact fun listed => unseen key listed List.mem_cons_self
        have fits := fine.fits key value List.mem_cons_self
        obtain ⟨next, done, own⟩ := setKey?_of_fits fits step
        have unseenNext : ∀ other ∈ key :: seen, other.text ∉ rest.map Prod.fst :=
          List.forall_mem_cons.mpr ⟨fresh, unseenLater⟩
        obtain ⟨final, read, holds⟩ := ih fine.tail next (key :: seen) unseenNext
        rw [new, done]
        exact ⟨final, read, holds.cons_known fits done own fresh⟩
      · rename_i unknown
        have other : isOther (text, value) = true := Option.isNone_iff_eq_none.mpr unknown
        rw [fine.bare (text, value) List.mem_cons_self other]
        obtain ⟨final, read, holds⟩ := ih fine.tail
          { step with extra := step.extra.insert text value } seen unseenLater
        exact ⟨final, read, holds.cons_other other⟩

/-- What is read from well-formed entries says what they say. -/
theorem holds_of_ofValue? (fine : WellFormed pairs)
    (read : ofValue? (.mapping (pairs.map fun pair => entry pair.1 pair.2)) = some step) :
    Holds pairs empty step := by
  unfold ofValue? at read
  simp only [Value.untagged, readEntries?_entries] at read
  obtain ⟨final, accepted, holds⟩ := readStep?_ok fine empty [] fun _ absent => nomatch absent
  rw [accepted] at read
  cases read
  exact holds

private theorem keys_knownPairs_sublist (step : Step) :
    (step.knownPairs.map Prod.fst).Sublist (Key.all.map Key.text) := by
  have general : ∀ keys : List Key, ((keys.flatMap fun key =>
      ((step.field? key).map fun value => (key.text, value)).toList).map Prod.fst).Sublist
        (keys.map Key.text) := by
    intro keys
    induction keys with
    | nil => exact .slnil
    | cons key rest ih =>
        rw [List.flatMap_cons, List.map_append, List.map_cons]
        cases step.field? key with
        | none => exact ih.cons key.text
        | some value => exact ih.cons_cons key.text
  exact general Key.all

theorem isOther_of_mem_knownPairs {pair : String × Value} (listed : pair ∈ step.knownPairs) :
    isOther pair = false := by
  obtain ⟨key, same, -⟩ := mem_knownPairs_iff.mp listed
  rw [← Bool.not_eq_true, isOther_iff]
  exact fun unknown => unknown key same

section Others

variable (others : ∀ pair ∈ step.extra.entries, isOther pair = true)
include others

theorem mem_allPairs_iff : (key.text, value) ∈ step.allPairs ↔ step.field? key = some value := by
  unfold allPairs
  rw [List.mem_append, mem_knownPairs_iff]
  constructor
  · intro listed
    rcases listed with ⟨another, same, said⟩ | extra
    · rw [← Key.text_injective same]
      exact said
    · exact absurd rfl (isOther_iff.mp (others _ extra) key)
  · intro said
    exact .inl ⟨key, rfl, said⟩

/-- The entries of a step are well-formed when its other entries have no known key and no tag. -/
theorem wellFormed_allPairs (bare : ∀ pair ∈ step.extra.entries, pair.2.hasTag = false) :
    WellFormed step.allPairs := by
  constructor
  case distinct =>
    unfold allPairs
    rw [List.map_append, List.nodup_append]
    refine ⟨(keys_knownPairs_sublist step).nodup (by decide), step.extra.keysDistinct, ?_⟩
    intro left known right extra same
    obtain ⟨pair, inKnown, rfl⟩ := List.mem_map.mp known
    obtain ⟨other, inExtra, rfl⟩ := List.mem_map.mp extra
    obtain ⟨key, own, -⟩ := mem_knownPairs_iff.mp inKnown
    exact isOther_iff.mp (others other inExtra) key (own.trans same)
  case fits =>
    intro key value listed
    exact (fits_of_field? ((mem_allPairs_iff others).mp listed)).1
  case bare =>
    intro pair listed unknown
    rcases List.mem_append.mp listed with known | extra
    · rw [isOther_of_mem_knownPairs known] at unknown
      cases unknown
    · exact bare pair extra

theorem holds_allPairs : Holds step.allPairs empty step := by
  constructor
  case known =>
    intro key value listed
    have said := (mem_allPairs_iff others).mp listed
    rw [said, (fits_of_field? said).2]
  case elsewhere =>
    intro key absent
    have silent : step.field? key = none := by
      rw [Option.eq_none_iff_forall_ne_some]
      intro value said
      exact absent (List.mem_map_of_mem ((mem_allPairs_iff others).mpr said))
    rw [silent]
    cases key <;> rfl
  case others =>
    have known : step.knownPairs.filter isOther = [] := by
      rw [List.filter_eq_nil_iff]
      intro pair listed
      rw [isOther_of_mem_knownPairs listed]
      decide
    unfold allPairs
    rw [List.filter_append, known, List.nil_append, List.filter_eq_self.mpr others]
    exact (OrderedMap.ofList_entries step.extra).symm

theorem ofValue?_toValue (bare : ∀ pair ∈ step.extra.entries, pair.2.hasTag = false) :
    ofValue? step.toValue = some step := by
  obtain ⟨final, read, holds⟩ := readStep?_ok (wellFormed_allPairs others bare) empty []
    fun _ absent => nomatch absent
  rw [toValue_eq]
  unfold ofValue?
  simp only [Value.untagged, readEntries?_entries]
  rw [read, holds.unique (holds_allPairs others)]

end Others

/-! ### Steps of a document -/

theorem hasTag_eq_false_of_entries (bare : (Value.mapping entries).hasTag = false) :
    ∀ entry ∈ entries, entry.1.hasTag = false ∧ entry.2.hasTag = false := by
  unfold Value.hasTag at bare
  induction entries with
  | nil => exact fun _ absent => nomatch absent
  | cons entry rest ih =>
      unfold Value.entriesHaveTag at bare
      simp only [Bool.or_eq_false_iff] at bare
      exact List.forall_mem_cons.mpr ⟨bare.1, ih bare.2⟩

theorem eq_of_untagged (bare : value.hasTag = false) : value.untagged = value := by
  cases value with
  | tagged tag inside => simp [Value.hasTag] at bare
  | _ => rfl

theorem entries_of_readEntries? (bare : (Value.mapping entries).hasTag = false)
    (read : readEntries? entries = some pairs) :
    entries = pairs.map fun pair => entry pair.1 pair.2 := by
  have untagged := hasTag_eq_false_of_entries bare
  clear bare
  induction entries generalizing pairs with
  | nil =>
      cases read
      rfl
  | cons first rest ih =>
      obtain ⟨name, value⟩ := first
      rw [List.forall_mem_cons] at untagged
      unfold readEntries? at read
      split at read
      · rename_i text others isText readRest
        cases read
        unfold Value.string? at isText
        rw [eq_of_untagged untagged.1.1] at isText
        split at isText
        · rename_i isString
          cases isText
          rw [List.map_cons, ← ih readRest untagged.2]
          exact congrArg (fun key => (key, value) :: rest) isString
        · cases isText
      · cases read

/-- Without tags, a known key accepts only what it can hold. -/
theorem fits_of_setKey? (bare : value.hasTag = false) (distinct : value.KeysDistinct)
    (done : step.setKey? key value = some next) : Fits key value := by
  have ofText : key.isMap = false → (∃ text, readText? value = some text) → Fits key value := by
    intro single ⟨text, read⟩
    unfold readText? at read
    split at read
    · exact .nothing key
    · obtain ⟨text, isText, -⟩ := Option.map_eq_some_iff.mp read
      unfold Value.string? at isText
      rw [eq_of_untagged bare] at isText
      split at isText
      · exact .text single _
      · cases isText
  have ofMap : key.isMap = true → (∃ map, readMap? value = some map) → Fits key value := by
    intro several ⟨map, read⟩
    unfold readMap? at read
    rw [eq_of_untagged bare] at read
    split at read
    · exact .nothing key
    · obtain ⟨pairs, readAll, rfl⟩ := Option.map_eq_some_iff.mp read
      have same := entries_of_readEntries? bare readAll
      rw [same] at distinct ⊢
      have fits := Fits.map several (.ofList pairs)
      rw [mapValue, OrderedMap.entries_ofList distinct.nodup_strings] at fits
      exact fits
    · cases read
  cases key
  case inputs =>
    obtain ⟨map, read, -⟩ := Option.map_eq_some_iff.mp done
    exact ofMap rfl ⟨map, read⟩
  case env =>
    obtain ⟨map, read, -⟩ := Option.map_eq_some_iff.mp done
    exact ofMap rfl ⟨map, read⟩
  all_goals
    obtain ⟨text, read, -⟩ := Option.map_eq_some_iff.mp done
    exact ofText rfl ⟨text, read⟩

/-- The value of a known key was stored at some point of the reading. -/
theorem setKey?_of_readStep? {seen : List Key} (read : readStep? step seen pairs = some final)
    (listed : (key.text, value) ∈ pairs) :
    ∃ earlier later, setKey? earlier key value = some later := by
  induction pairs generalizing step seen with
  | nil => cases listed
  | cons pair rest ih =>
      obtain ⟨text, content⟩ := pair
      unfold readStep? at read
      rcases List.mem_cons.mp listed with first | later
      · cases first
        rw [Key.ofText?_eq_some_iff.mpr rfl] at read
        simp only at read
        split at read
        · cases read
        · split at read
          · exact ⟨step, _, ‹_›⟩
          · cases read
      · split at read
        · split at read
          · cases read
          · split at read
            · exact ih read later
            · cases read
        · split at read
          · cases read
          · exact ih read later

/-- An accepted mapping without tags has string keys, and its entries are well-formed. -/
theorem wellFormed_of_ofValue? (distinct : (Value.mapping entries).KeysDistinct)
    (bare : (Value.mapping entries).hasTag = false)
    (read : ofValue? (.mapping entries) = some step) :
    ∃ pairs, entries = pairs.map (fun pair => entry pair.1 pair.2) ∧ WellFormed pairs := by
  unfold ofValue? at read
  simp only [Value.untagged] at read
  split at read
  · rename_i pairs readAll
    have untagged := hasTag_eq_false_of_entries bare
    have same := entries_of_readEntries? bare readAll
    subst same
    refine ⟨pairs, rfl, distinct.nodup_strings, ?_, ?_⟩
    · intro key value listed
      have there : entry key.text value ∈ pairs.map fun pair => entry pair.1 pair.2 :=
        List.mem_map_of_mem listed
      obtain ⟨earlier, later, stored⟩ := setKey?_of_readStep? read listed
      cases distinct with
      | mapping _ _ inside => exact fits_of_setKey? (untagged _ there).2 (inside _ there) stored
    · intro pair listed _
      exact (untagged _ (List.mem_map_of_mem listed)).2
  · cases read

/-! ### What is written back -/

def isKnown (entry : Value × Value) : Bool :=
  Key.all.any fun key => isKey key.text entry.1

/-- An entry that is not written back: its key is known and holds nothing. -/
def isIdle (entry : Value × Value) : Bool :=
  Key.all.any fun key => isKey key.text entry.1 && saysNothing key entry.2

/-- The entries with known keys in the order of these keys, and the others behind them. -/
def arranged (entries : List (Value × Value)) : List (Value × Value) :=
  (Key.all.flatMap fun key => entries.filter fun entry => isKey key.text entry.1) ++
    entries.filter fun entry => !isKnown entry

theorem eq_of_isKey {one other : Key} (first : isKey one.text value = true)
    (second : isKey other.text value = true) : one = other := by
  unfold isKey at first second
  cases value with
  | string text =>
      simp only [decide_eq_true_eq] at first second
      exact Key.text_injective (first.symm.trans second)
  | _ => cases first

theorem arranged_perm (entries : List (Value × Value)) : (arranged entries).Perm entries := by
  have general : ∀ keys : List Key, keys.Nodup → ∀ entries : List (Value × Value),
      ((keys.flatMap fun key => entries.filter fun entry => isKey key.text entry.1) ++
        entries.filter fun entry => !keys.any fun key => isKey key.text entry.1).Perm entries := by
    intro keys distinct
    induction keys with
    | nil =>
        intro entries
        simp
    | cons key rest ih =>
        intro entries
        obtain ⟨fresh, distinct⟩ := List.nodup_cons.mp distinct
        -- the entries left for the later keys are those that the first key does not take
        have later := ih distinct (entries.filter fun entry => !isKey key.text entry.1)
        have taken : ∀ other ∈ rest, (entries.filter fun entry => !isKey key.text entry.1).filter
            (fun entry => isKey other.text entry.1) =
              entries.filter fun entry => isKey other.text entry.1 := by
          intro other listed
          rw [List.filter_filter]
          apply List.filter_congr
          intro entry _
          by_cases own : isKey other.text entry.1 = true
          · have apart : ¬ isKey key.text entry.1 = true :=
              fun first => fresh (eq_of_isKey first own ▸ listed)
            simp [own, apart]
          · simp [own]
        rw [List.flatMap_congr taken, List.filter_filter] at later
        rw [List.flatMap_cons, List.append_assoc]
        have whole := later.append_left (entries.filter fun entry => isKey key.text entry.1)
        have split := List.filter_append_perm (fun entry => isKey key.text entry.1) entries
        refine List.Perm.trans ?_ (whole.trans split)
        simp only [List.any_cons, Bool.not_or, Bool.and_comm]
        exact List.Perm.refl _
  exact general Key.all (by decide) entries

theorem isIdle_known (key : Key) (value : Value) :
    isIdle (entry key.text value) = saysNothing key value := by
  unfold isIdle
  rw [Bool.eq_iff_iff, List.any_eq_true]
  constructor
  · intro ⟨other, _, idle⟩
    rw [Bool.and_eq_true] at idle
    have own : isKey key.text (entry key.text value).1 = true := decide_eq_true rfl
    rw [eq_of_isKey own idle.1]
    exact idle.2
  · intro nothing
    refine ⟨key, Key.mem_all key, ?_⟩
    rw [Bool.and_eq_true]
    exact ⟨decide_eq_true rfl, nothing⟩

theorem isKnown_eq (pair : String × Value) : isKnown (entry pair.1 pair.2) = !isOther pair := by
  unfold isKnown
  rw [Bool.eq_iff_iff, List.any_eq_true, Bool.not_eq_true', ← Bool.not_eq_true, isOther_iff]
  push Not
  constructor
  · intro ⟨key, _, own⟩
    exact ⟨key, (of_decide_eq_true own).symm⟩
  · intro ⟨key, own⟩
    exact ⟨key, Key.mem_all key, decide_eq_true own.symm⟩

theorem isIdle_other {pair : String × Value} (unknown : isOther pair = true) :
    isIdle (entry pair.1 pair.2) = false := by
  have notKnown := isKnown_eq pair
  rw [unknown] at notKnown
  unfold isKnown at notKnown
  unfold isIdle
  rw [Bool.not_true, List.any_eq_false] at notKnown
  rw [List.any_eq_false]
  intro key listed idle
  rw [Bool.and_eq_true] at idle
  exact notKnown key listed idle.1

private theorem filter_name_of_notMem {name : String} (absent : name ∉ pairs.map Prod.fst) :
    (pairs.filter fun pair => pair.1 = name) = [] := by
  rw [List.filter_eq_nil_iff]
  intro pair listed same
  have own : pair.1 = name := of_decide_eq_true same
  exact absent (own ▸ List.mem_map_of_mem listed)

private theorem filter_name_of_mem {name : String} (distinct : (pairs.map Prod.fst).Nodup)
    (listed : (name, value) ∈ pairs) :
    (pairs.filter fun pair => pair.1 = name) = [(name, value)] := by
  induction pairs with
  | nil => cases listed
  | cons pair rest ih =>
      obtain ⟨fresh, distinct⟩ := List.nodup_cons.mp distinct
      rw [List.filter_cons]
      rcases List.mem_cons.mp listed with rfl | later
      · rw [if_pos (by simp), filter_name_of_notMem fresh]
      · have apart : pair.1 ≠ name := by
          intro same
          have inside : (name, value).1 ∈ rest.map Prod.fst := List.mem_map_of_mem later
          exact fresh (same ▸ inside)
        rw [if_neg (by simp [apart]), ih distinct later]

/-- Under a known key, the entry that is written back is the one that was given, if it says
anything. -/
theorem Holds.written (holds : Holds pairs empty step) (distinct : (pairs.map Prod.fst).Nodup)
    (key : Key) :
    ((step.field? key).map fun value => (key.text, value)).toList =
      (pairs.filter fun pair => !isIdle (entry pair.1 pair.2)).filter
        fun pair => pair.1 = key.text := by
  rw [List.filter_comm]
  by_cases given : key.text ∈ pairs.map Prod.fst
  · obtain ⟨⟨name, value⟩, listed, rfl⟩ := List.mem_map.mp given
    rw [filter_name_of_mem distinct listed, holds.known key value listed, said?]
    cases nothing : saysNothing key value <;> simp [isIdle_known, nothing]
  · rw [filter_name_of_notMem given, holds.elsewhere key given]
    cases key <;> rfl

theorem Holds.others_eq (holds : Holds pairs empty step) (distinct : (pairs.map Prod.fst).Nodup) :
    step.extra.entries = pairs.filter isOther := by
  have sub : ((pairs.filter isOther).map Prod.fst).Sublist (pairs.map Prod.fst) :=
    List.filter_sublist.map Prod.fst
  rw [holds.others]
  exact OrderedMap.entries_ofList (sub.nodup distinct)

/-- A step that holds what entries say is written as these entries, arranged and without the idle
ones. -/
theorem Holds.toValue_eq (holds : Holds pairs empty step) (distinct : (pairs.map Prod.fst).Nodup) :
    step.toValue = .mapping (arranged
      ((pairs.map fun pair => entry pair.1 pair.2).filter fun entry => !isIdle entry)) := by
  have others : ((pairs.filter fun pair => !isIdle (entry pair.1 pair.2)).filter
      fun pair => !isKnown (entry pair.1 pair.2)) = pairs.filter isOther := by
    rw [List.filter_filter]
    apply List.filter_congr
    intro pair _
    rw [isKnown_eq, Bool.not_not]
    cases unknown : isOther pair with
    | false => rfl
    | true => rw [isIdle_other unknown]; rfl
  rw [Step.toValue_eq, List.filter_map]
  unfold arranged
  simp only [List.filter_map]
  rw [← List.map_flatMap, ← List.map_append]
  unfold allPairs knownPairs
  rw [holds.others_eq distinct, ← others]
  refine congrArg Value.mapping (congrArg _ (congrArg (· ++ _) ?_))
  apply List.flatMap_congr
  intro key _
  exact holds.written distinct key

/-! ### Both ways -/

/-- The steps that are put together and not read. -/
inductive Built : Step → Prop where
  | empty : Built empty
  | action (uses : String) : Built (action uses)
  | script (run : String) : Built (script run)
  | withName {step : Step} (name : String) (built : Built step) : Built (step.withName name)
  | withId {step : Step} (id : String) (built : Built step) : Built (step.withId id)
  | withCondition {step : Step} (condition : String) (built : Built step) :
      Built (step.withCondition condition)
  | withWorkingDirectory {step : Step} (directory : String) (built : Built step) :
      Built (step.withWorkingDirectory directory)
  | withInput {step : Step} (key : String) (value : Value) (built : Built step) :
      Built (step.withInput key value)
  | withEnv {step : Step} (key text : String) (built : Built step) : Built (step.withEnv key text)

theorem Built.extra_eq (built : Built step) : step.extra = .empty := by
  induction built with
  | empty => rfl
  | action uses => rfl
  | script run => rfl
  | withName _ _ ih => exact ih
  | withId _ _ ih => exact ih
  | withCondition _ _ ih => exact ih
  | withWorkingDirectory _ _ ih => exact ih
  | withInput _ _ _ ih => exact ih
  | withEnv _ _ _ ih => exact ih

/-- A step of a document without tags is written back as its entries: those under known keys first,
in their fixed order, except for the idle ones, and the others as they come. It is read again as the
same step, and so is every step that was built. -/
theorem user_steps_pass_through :
    (∀ entries step, (Value.mapping entries).KeysDistinct → (Value.mapping entries).hasTag = false →
      ofValue? (.mapping entries) = some step →
        step.toValue = .mapping (arranged (entries.filter fun entry => !isIdle entry)) ∧
          (arranged (entries.filter fun entry => !isIdle entry)).Perm
            (entries.filter fun entry => !isIdle entry) ∧
          ofValue? step.toValue = some step) ∧
    ∀ step, Built step → ofValue? step.toValue = some step := by
  constructor
  · intro entries step distinct bare read
    obtain ⟨pairs, rfl, fine⟩ := wellFormed_of_ofValue? distinct bare read
    have holds := holds_of_ofValue? fine read
    have whole := holds.others_eq fine.distinct
    refine ⟨holds.toValue_eq fine.distinct, arranged_perm _, ?_⟩
    apply ofValue?_toValue
    · intro pair extra
      rw [whole] at extra
      exact (List.mem_filter.mp extra).2
    · intro pair extra
      rw [whole] at extra
      obtain ⟨listed, unknown⟩ := List.mem_filter.mp extra
      exact fine.bare pair listed unknown
  · intro step built
    have none : ∀ pair, pair ∉ step.extra.entries := by
      rw [built.extra_eq]
      exact fun _ absent => nomatch absent
    exact ofValue?_toValue (fun pair extra => absurd extra (none pair))
      fun pair extra => absurd extra (none pair)

/-- A step as a user may write it: an empty `with`, a null and two keys that are not known. -/
def notification : List (String × Value) :=
  [("timeout-minutes", .number (.int 5)), ("run", .string "./notify.sh"), ("id", .null),
    ("shell", .string "bash"), ("name", .string "Notify"), ("with", .mapping []),
    ("env", .mapping [entry "RETRIES" (.number (.int 3))])]

theorem notification_passes_through :
    (∃ step, ofValue? (.mapping (notification.map fun pair => entry pair.1 pair.2)) = some step ∧
      step.toValue = .mapping [entry "name" (.string "Notify"), entry "run" (.string "./notify.sh"),
        entry "env" (.mapping [entry "RETRIES" (.number (.int 3))]),
        entry "timeout-minutes" (.number (.int 5)), entry "shell" (.string "bash")] ∧
      ofValue? step.toValue = some step) ∧
    ofValue? ((action "actions/checkout@v4").withTextInput "ref" "main").toValue =
      some ((action "actions/checkout@v4").withTextInput "ref" "main") := by
  have inside : ∀ pair ∈ notification, pair.2.KeysDistinct := by
    unfold notification
    simp only [List.forall_mem_cons]
    refine ⟨.number _, .string _, .null, .string _, .string _, ?_, ?_, fun _ absent => nomatch absent⟩
    · exact .mapping .nil (fun _ absent => nomatch absent) fun _ absent => nomatch absent
    · apply @Value.KeysDistinct.ofStrings [("RETRIES", .number (.int 3))] (by decide)
      exact List.forall_mem_singleton.mpr (.number _)
  have distinct := Value.KeysDistinct.ofStrings (by decide) inside
  constructor
  · have read : ∃ step, ofValue? (.mapping (notification.map fun pair => entry pair.1 pair.2)) =
        some step := ⟨_, rfl⟩
    obtain ⟨step, read⟩ := read
    obtain ⟨written, -, again⟩ := user_steps_pass_through.1 _ step distinct (by decide) read
    exact ⟨step, read, written, again⟩
  · exact user_steps_pass_through.2 _ (.withInput _ _ (.action _))

end CrossBuild.Step
