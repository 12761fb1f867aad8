/-
Items of a list and what stands before them.

Components, jobs and entries are read one behind the other, and what is allowed for one depends on
those before it. Here are the facts about lists that such readings share: where an item of a longer
list stands, what two lists have in common whose items are related one by one, and which item is the
first one at fault. What the items are does not matter here.
-/

import Mathlib.Data.List.Forall2
import Mathlib.Data.List.Nodup

namespace CrossBuild

variable {α β ε : Type}

/-! ### Where an item stands -/

/-- What stands before an item that is listed once has a smaller index. -/
theorem idxOf_lt_of_before {before after : List String} {earlier item : String}
    (distinct : (before ++ item :: after).Nodup) (listed : earlier ∈ before) :
    (before ++ item :: after).idxOf earlier < (before ++ item :: after).idxOf item := by
  have fresh : item ∉ before :=
    fun inside => (List.nodup_append.mp distinct).2.2 item inside item List.mem_cons_self rfl
  rw [List.idxOf_append_of_mem listed, List.idxOf_append_of_notMem fresh, List.idxOf_cons_self]
  exact List.idxOf_lt_length_of_mem listed

/-- With one item added at the end, an item is that one, or it stands where it stood. -/
theorem cases_of_concat {items before after : List α} {last item : α}
    (whole : items ++ [last] = before ++ item :: after) :
    (items = before ∧ last = item) ∨ ∃ front, items = before ++ item :: front := by
  rcases List.eq_nil_or_concat after with rfl | ⟨front, another, rfl⟩
  · obtain ⟨same, own⟩ := List.append_inj' whole rfl
    cases own
    exact .inl ⟨same, rfl⟩
  · rw [List.concat_eq_append, ← List.cons_append, ← List.append_assoc] at whole
    exact .inr ⟨front, (List.append_inj' whole rfl).1⟩

/-- Among the items with a property there is a last one. -/
theorem exists_last {fits : α → Prop} {items : List α} (some : ∃ item ∈ items, fits item) :
    ∃ front item back, items = front ++ item :: back ∧ fits item ∧ ∀ other ∈ back, ¬ fits other := by
  induction items with
  | nil =>
      obtain ⟨item, absent, -⟩ := some
      cases absent
  | cons first rest ih =>
      by_cases later : ∃ item ∈ rest, fits item
      · obtain ⟨front, item, back, whole, own, last⟩ := ih later
        exact ⟨first :: front, item, back, by rw [whole, List.cons_append], own, last⟩
      · obtain ⟨item, listed, own⟩ := some
        have isFirst : item = first :=
          (List.mem_cons.mp listed).resolve_right fun inside => later ⟨item, inside, own⟩
        exact ⟨[], first, rest, rfl, isFirst ▸ own, fun other inside fitting =>
          later ⟨other, inside, fitting⟩⟩

/-- Items of different, disjoint lists are different. -/
theorem nodup_map_of_flatMap {pick : α → β} {group : α → List β} {items : List α}
    (inside : ∀ item ∈ items, pick item ∈ group item) (distinct : (items.flatMap group).Nodup) :
    (items.map pick).Nodup := by
  induction items with
  | nil => exact .nil
  | cons first rest ih =>
      rw [List.forall_mem_cons] at inside
      rw [List.flatMap_cons, List.nodup_append] at distinct
      obtain ⟨-, later, apart⟩ := distinct
      rw [List.map_cons, List.nodup_cons]
      refine ⟨fun again => ?_, ih inside.2 later⟩
      obtain ⟨other, listed, same⟩ := List.mem_map.mp again
      have elsewhere : pick first ∈ rest.flatMap group :=
        List.mem_flatMap.mpr ⟨other, listed, same ▸ inside.2 other listed⟩
      exact apart _ inside.1 _ elsewhere rfl

/-! ### Items related one by one -/

section Related

variable {related : α → β → Prop} {items : List α} {others : List β}

theorem exists_of_mem_left (all : List.Forall₂ related items others) :
    ∀ item ∈ items, ∃ other ∈ others, related item other := by
  induction all with
  | nil => exact fun _ absent => nomatch absent
  | cons first _ ih =>
      rw [List.forall_mem_cons]
      constructor
      · exact ⟨_, List.mem_cons_self, first⟩
      · intro item listed
        obtain ⟨other, inside, fits⟩ := ih item listed
        exact ⟨other, List.mem_cons_of_mem _ inside, fits⟩

theorem exists_of_mem_right (all : List.Forall₂ related items others) :
    ∀ other ∈ others, ∃ item ∈ items, related item other :=
  exists_of_mem_left all.flip

theorem forall₂_imp_of_mem {also : α → β → Prop} (all : List.Forall₂ related items others)
    (step : ∀ item ∈ items, ∀ other ∈ others, related item other → also item other) :
    List.Forall₂ also items others := by
  induction all with
  | nil => exact .nil
  | cons first _ ih =>
      constructor
      · exact step _ List.mem_cons_self _ List.mem_cons_self first
      · apply ih
        intro item listed other alsoListed
        exact step item (List.mem_cons_of_mem _ listed) other (List.mem_cons_of_mem _ alsoListed)

theorem forall₂_append_left {front back : List α}
    (all : List.Forall₂ related (front ++ back) others) :
    ∃ left right, others = left ++ right ∧ List.Forall₂ related front left ∧
      List.Forall₂ related back right := by
  induction front generalizing others with
  | nil => exact ⟨[], others, rfl, .nil, all⟩
  | cons item front ih =>
      cases all with
      | @cons _ other _ others first all =>
          obtain ⟨left, right, rfl, inFront, inBack⟩ := ih all
          exact ⟨other :: left, right, rfl, .cons first inFront, inBack⟩

end Related

/-! ### The first fault -/

section FirstFault

variable {fault : List α → α → ε → Prop} {earlier items rest : List α} {item : α} {cause : ε}

/-- The first item that is at fault behind those before it is at fault for this cause. -/
def FirstFault (fault : List α → α → ε → Prop) (earlier items : List α) (cause : ε) : Prop :=
  ∃ before item after, items = before ++ item :: after ∧ fault (earlier ++ before) item cause ∧
    ∀ front other back, before = front ++ other :: back →
      ∀ another, ¬ fault (earlier ++ front) other another

theorem not_firstFault_nil : ¬ FirstFault fault earlier [] cause := by
  intro ⟨before, item, after, whole, _⟩
  exact absurd whole.symm (by simp)

theorem firstFault_cons_iff :
    FirstFault fault earlier (item :: rest) cause ↔
      fault earlier item cause ∨
        (∀ another, ¬ fault earlier item another) ∧
          FirstFault fault (earlier ++ [item]) rest cause := by
  constructor
  · intro ⟨before, other, after, whole, found, fine⟩
    cases before with
    | nil =>
        cases whole
        rw [List.append_nil] at found
        exact .inl found
    | cons first before =>
        cases whole
        apply Or.inr
        constructor
        · have own := fine [] item before rfl
          rwa [List.append_nil] at own
        · refine ⟨before, other, after, rfl, by simpa using found, ?_⟩
          intro front another back same
          simpa using fine (item :: front) another back (congrArg (item :: ·) same)
  · intro either
    rcases either with found | ⟨own, before, other, after, rfl, found, fine⟩
    · refine ⟨[], item, rest, rfl, by simpa using found, ?_⟩
      intro front other back whole
      exact absurd whole.symm (by simp)
    · refine ⟨item :: before, other, after, rfl, by simpa using found, ?_⟩
      intro front another back whole
      cases front with
      | nil =>
          cases whole
          simpa using own
      | cons first front =>
          cases whole
          simpa using fine front another back rfl

/-- There is a first fault exactly when there is one at all. -/
theorem exists_firstFault_iff :
    (∃ cause, FirstFault fault earlier items cause) ↔
      ∃ before item after, items = before ++ item :: after ∧
        ∃ cause, fault (earlier ++ before) item cause := by
  constructor
  · intro ⟨cause, before, item, after, whole, found, _⟩
    exact ⟨before, item, after, whole, cause, found⟩
  · intro ⟨before, item, after, whole, found⟩
    subst whole
    induction before generalizing earlier with
    | nil =>
        rw [List.append_nil] at found
        obtain ⟨cause, found⟩ := found
        exact ⟨cause, firstFault_cons_iff.mpr (.inl found)⟩
    | cons first before ih =>
        by_cases own : ∃ cause, fault earlier first cause
        · obtain ⟨cause, found⟩ := own
          exact ⟨cause, firstFault_cons_iff.mpr (.inl found)⟩
        · rw [List.append_cons] at found
          obtain ⟨cause, later⟩ := ih found
          exact ⟨cause, firstFault_cons_iff.mpr (.inr ⟨not_exists.mp own, later⟩)⟩

end FirstFault

end CrossBuild
