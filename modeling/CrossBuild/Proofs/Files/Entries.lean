/-
What stands where after a change of a disk.

Every operation on disks is described by what `entryAt?` answers afterwards. The two facts that the
type carries are restated in that view: the directories above an entry are there, and every entry
has names that a path can spell. Nothing here knows about paths.
-/

import CrossBuild.Files.Disk
import CrossBuild.Proofs.Files.Spelling
import CrossBuild.Proofs.Maps
import Mathlib.Data.List.Induction
import Mathlib.Data.String.Basic

namespace CrossBuild.Files

/-- Two disks on which paths start at the same place and are held to the same limits. -/
structure Disk.SameSetting (before after : Disk) : Prop where
  workingDirectory : after.workingDirectory = before.workingDirectory
  limits : after.limits = before.limits

namespace Disk

theorem SameSetting.refl (disk : Disk) : disk.SameSetting disk := ⟨rfl, rfl⟩

theorem SameSetting.trans {first second third : Disk} (left : first.SameSetting second)
    (right : second.SameSetting third) : first.SameSetting third :=
  ⟨right.workingDirectory.trans left.workingDirectory, right.limits.trans left.limits⟩

theorem SameSetting.symm {before after : Disk} (same : before.SameSetting after) :
    after.SameSetting before :=
  ⟨same.workingDirectory.symm, same.limits.symm⟩

@[simp] theorem entryAt?_root (disk : Disk) : disk.entryAt? [] = some .directory := rfl

theorem entryAt?_eq_some_iff {disk : Disk} {location : Location} {entry : Entry}
    (inside : location ≠ []) :
    disk.entryAt? location = some entry ↔ (location, entry) ∈ disk.entries := by
  unfold entryAt? entryIn?
  rw [if_neg inside]
  exact lookup_eq_some_iff disk.keysDistinct

theorem namesValid_of_entryAt? {disk : Disk} {location : Location} {entry : Entry}
    (there : disk.entryAt? location = some entry) : location.all isEntryName = true := by
  by_cases inside : location = []
  · rw [inside]
    rfl
  · exact disk.namesValid _ ((entryAt?_eq_some_iff inside).mp there)

theorem isEntryName_of_entryAt? {disk : Disk} {top : Location} {name : String} {entry : Entry}
    (there : disk.entryAt? (top ++ [name]) = some entry) : isEntryName name = true := by
  exact (all_isEntryName_concat.mp (namesValid_of_entryAt? there)).2

theorem namesValid_below {disk : Disk} {top place : Location}
    (there : disk.entryAt? (top ++ place) ≠ none) : place.all isEntryName = true := by
  obtain ⟨entry, found⟩ := Option.ne_none_iff_exists'.mp there
  exact (all_isEntryName_append.mp (namesValid_of_entryAt? found)).2

theorem entryAt?_dropLast {disk : Disk} {location : Location} {entry : Entry}
    (there : disk.entryAt? location = some entry) :
    disk.entryAt? location.dropLast = some .directory := by
  by_cases inside : location = []
  · rw [inside]
    rfl
  · exact disk.parentsThere _ ((entryAt?_eq_some_iff inside).mp there)

/-- Whatever stands above an entry is a directory. -/
theorem entryAt?_above {disk : Disk} {top below : Location} {entry : Entry}
    (there : disk.entryAt? (top ++ below) = some entry) (strict : below ≠ []) :
    disk.entryAt? top = some .directory := by
  induction below using List.reverseRecOn generalizing entry with
  | nil => exact absurd rfl strict
  | append_singleton rest name ih =>
      have parent : disk.entryAt? (top ++ rest) = some .directory := by
        have found := entryAt?_dropLast there
        rwa [← List.append_assoc, List.dropLast_concat] at found
      by_cases done : rest = []
      · rwa [done, List.append_nil] at parent
      · exact ih parent done

/-- Below a file, or where nothing stands, there is nothing. -/
theorem entryAt?_below {disk : Disk} {top : Location} (below : Location) (strict : below ≠ [])
    (closed : disk.entryAt? top ≠ some .directory) : disk.entryAt? (top ++ below) = none := by
  cases found : disk.entryAt? (top ++ below) with
  | none => rfl
  | some entry => exact absurd (entryAt?_above found strict) closed

theorem length_le_height {disk : Disk} {location : Location}
    (there : disk.entryAt? location ≠ none) : location.length ≤ disk.height := by
  have kept : ∀ (items : List (Location × Entry)) (least : Nat),
      least ≤ items.foldl (fun height item => max height item.1.length) least ∧
        ∀ item ∈ items, item.1.length ≤
          items.foldl (fun height item => max height item.1.length) least := by
    intro items
    induction items with
    | nil => exact fun least => ⟨Nat.le_refl least, fun _ absent => absurd absent List.not_mem_nil⟩
    | cons first rest ih =>
        intro least
        obtain ⟨grown, others⟩ := ih (max least first.1.length)
        refine ⟨(Nat.le_max_left _ _).trans grown, fun item member => ?_⟩
        rcases List.mem_cons.mp member with rfl | later
        · exact (Nat.le_max_right _ _).trans grown
        · exact others item later
  by_cases inside : location = []
  · rw [inside]
    exact Nat.zero_le _
  · obtain ⟨entry, found⟩ := Option.ne_none_iff_exists'.mp there
    exact (kept disk.entries 0).2 _ ((entryAt?_eq_some_iff inside).mp found)

/-- The names at and below a place are among some, when those of the entries are. -/
theorem mem_of_entries {disk : Disk} {top place : Location} {names : List String}
    (listed : ∀ item ∈ disk.entries, top <+: item.1 → ∀ name ∈ item.1, name ∈ names)
    (there : disk.entryAt? (top ++ place) ≠ none) : ∀ name ∈ place, name ∈ names := by
  intro name member
  obtain ⟨entry, found⟩ := Option.ne_none_iff_exists'.mp there
  have inside : top ++ place ≠ [] := by
    intro empty
    rw [(List.append_eq_nil_iff.mp empty).2] at member
    cases member
  exact listed _ ((entryAt?_eq_some_iff inside).mp found) (List.prefix_append top place) name
    (List.mem_append_right top member)

theorem not_concat_prefix_self (place : Location) (name : String) : ¬ place ++ [name] <+: place := by
  intro within
  have lengths := within.length_le
  rw [List.length_append, List.length_singleton] at lengths
  omega

theorem concat_prefix_iff {place rest : Location} {name first : String} :
    place ++ [name] <+: place ++ first :: rest ↔ name = first := by
  rw [List.prefix_append_right_inj, List.cons_prefix_cons]
  exact ⟨And.left, fun same => ⟨same, List.nil_prefix⟩⟩

theorem drop_concat (place rest : Location) (name : String) :
    (place ++ name :: rest).drop (place.length + 1) = rest := by
  rw [List.append_cons, List.drop_left' (by rw [List.length_append, List.length_singleton])]

theorem isDirectoryAt_iff {disk : Disk} {location : Location} :
    disk.isDirectoryAt location = true ↔ disk.entryAt? location = some .directory := by
  simp [isDirectoryAt]

/-! ### The operations -/

theorem place_sameSetting (disk : Disk) (location : Location) (entry : Entry) :
    disk.SameSetting (disk.place location entry) := by
  unfold place
  split
  · exact ⟨rfl, rfl⟩
  · exact .refl disk

theorem entryAt?_place {disk : Disk} {location : Location} {entry : Entry}
    (room : disk.hasRoom location entry) (other : Location) :
    (disk.place location entry).entryAt? other =
      if other = location then some entry else disk.entryAt? other := by
  unfold place
  rw [dif_pos room]
  by_cases isRoot : other = []
  · subst isRoot
    by_cases same : [] = location
    · subst same
      have isDirectory : entry = .directory := room.2.2 rfl
      subst isDirectory
      rw [if_pos rfl]
      rfl
    · rw [if_neg same]
      rfl
  · by_cases same : other = location
    · subst same
      simp [entryAt?, entryIn?, isRoot, List.lookup_cons_self]
    · have different : (other == location) = false := by simpa using same
      have stays : decide (other ≠ location) = true := by simpa using same
      have filtered :=
        @lookup_filter disk.entries (fun item => decide (item ≠ location)) other stays
      simp only [entryAt?, entryIn?, if_neg isRoot, if_neg same, List.lookup_cons, different]
      exact filtered

theorem entryAt?_keepOnly (disk : Disk) (stays : Location → Bool)
    (closed : ∀ location, stays location = true → stays location.dropLast = true)
    (other : Location) (inside : other ≠ []) :
    (disk.keepOnly stays closed).entryAt? other =
      if stays other = true then disk.entryAt? other else none := by
  have view : (disk.keepOnly stays closed).entryAt? other =
      (disk.entries.filter fun item => stays item.1).lookup other := by
    unfold entryAt? entryIn?
    rw [if_neg inside]
    rfl
  rw [view]
  by_cases kept : stays other = true
  · rw [if_pos kept, lookup_filter kept]
    unfold entryAt? entryIn?
    rw [if_neg inside]
  · rw [if_neg kept]
    refine List.lookup_eq_none_iff.mpr ?_
    intro item member
    have stayed := (List.mem_filter.mp member).2
    have different : other ≠ item.1 := by
      intro same
      rw [same] at kept
      exact kept stayed
    simpa using different

theorem erase_sameSetting (disk : Disk) (top : Location) :
    disk.SameSetting (disk.erase top) := ⟨rfl, rfl⟩

theorem clear_sameSetting (disk : Disk) (top : Location) :
    disk.SameSetting (disk.clear top) := ⟨rfl, rfl⟩

theorem entryAt?_erase (disk : Disk) {top : Location} (inside : top ≠ []) (other : Location) :
    (disk.erase top).entryAt? other = if top <+: other then none else disk.entryAt? other := by
  by_cases isRoot : other = []
  · subst isRoot
    have outside : ¬ top <+: [] := fun within => inside (List.prefix_nil.mp within)
    rw [if_neg outside]
    rfl
  · unfold erase
    rw [entryAt?_keepOnly _ _ _ other isRoot]
    by_cases within : top <+: other
    · have above : top.isPrefixOf other = true := List.isPrefixOf_iff_prefix.mpr within
      simp [within, above]
    · have apart : top.isPrefixOf other = false :=
        Bool.eq_false_iff.mpr fun above => within (List.isPrefixOf_iff_prefix.mp above)
      simp [within, apart]

theorem isBelow_iff {top location : Location} :
    isBelow top location = true ↔ top <+: location ∧ location ≠ top := by
  unfold isBelow
  rw [Bool.and_eq_true, List.isPrefixOf_iff_prefix, decide_eq_true_iff]

theorem entryAt?_clear (disk : Disk) (top other : Location) :
    (disk.clear top).entryAt? other =
      if top <+: other ∧ other ≠ top then none else disk.entryAt? other := by
  by_cases isRoot : other = []
  · subst isRoot
    have outside : ¬ (top <+: [] ∧ [] ≠ top) :=
      fun within => within.2 (List.prefix_nil.mp within.1).symm
    rw [if_neg outside]
    rfl
  · unfold clear
    rw [entryAt?_keepOnly _ _ _ other isRoot]
    by_cases within : top <+: other ∧ other ≠ top
    · rw [if_pos within, (isBelow_iff).mpr within]
      rfl
    · have stays : isBelow top other = false :=
        Bool.eq_false_iff.mpr fun below => within (isBelow_iff.mp below)
      rw [if_neg within, stays]
      rfl

/-! ### The names in a directory -/

theorem mem_insertName {name other : String} {names : List String} :
    other ∈ insertName name names ↔ other = name ∨ other ∈ names := by
  induction names with
  | nil => simp [insertName]
  | cons first rest ih =>
      unfold insertName
      split
      · simp
      · simp only [List.mem_cons, ih]
        constructor
        · rintro (isFirst | isName | later)
          · exact .inr (.inl isFirst)
          · exact .inl isName
          · exact .inr (.inr later)
        · rintro (isName | isFirst | later)
          · exact .inr (.inl isName)
          · exact .inl isFirst
          · exact .inr (.inr later)

theorem nodup_insertName {name : String} {names : List String} (distinct : names.Nodup)
    (fresh : name ∉ names) : (insertName name names).Nodup := by
  induction names with
  | nil => simp [insertName]
  | cons first rest ih =>
      rw [List.nodup_cons] at distinct
      rw [List.mem_cons, not_or] at fresh
      unfold insertName
      split
      · refine List.nodup_cons.mpr ⟨?_, List.nodup_cons.mpr distinct⟩
        rw [List.mem_cons, not_or]
        exact fresh
      · refine List.nodup_cons.mpr ⟨?_, ih distinct.2 fresh.2⟩
        rw [mem_insertName, not_or]
        exact ⟨fun same => fresh.1 same.symm, distinct.1⟩

private theorem sorted_insertName (name : String) {names : List String}
    (sorted : names.Pairwise (· ≤ ·)) : (insertName name names).Pairwise (· ≤ ·) := by
  induction names with
  | nil => simp [insertName]
  | cons first rest ih =>
      rw [List.pairwise_cons] at sorted
      unfold insertName
      split
      · rename_i before
        refine List.pairwise_cons.mpr ⟨fun other member => ?_, List.pairwise_cons.mpr sorted⟩
        rcases List.mem_cons.mp member with rfl | later
        · exact before
        · exact before.trans (sorted.1 other later)
      · rename_i behind
        refine List.pairwise_cons.mpr ⟨fun other member => ?_, ih sorted.2⟩
        rcases mem_insertName.mp member with rfl | later
        · exact (le_total first other).resolve_right behind
        · exact sorted.1 other later

private theorem mem_foldr_insertName {other : String} {names : List String} :
    other ∈ names.foldr insertName [] ↔ other ∈ names := by
  induction names with
  | nil => rfl
  | cons name rest ih => rw [List.foldr_cons, mem_insertName, ih, List.mem_cons]

private theorem nodup_foldr_insertName {names : List String} (distinct : names.Nodup) :
    (names.foldr insertName []).Nodup := by
  induction names with
  | nil => exact List.nodup_nil
  | cons name rest ih =>
      rw [List.nodup_cons] at distinct
      refine nodup_insertName (ih distinct.2) ?_
      rw [mem_foldr_insertName]
      exact distinct.1

private theorem dropLast_getLast?_eq_iff {location top : Location} {name : String} :
    location.dropLast = top ∧ location.getLast? = some name ↔ location = top ++ [name] := by
  constructor
  · rintro ⟨parent, last⟩
    obtain ⟨start, whole⟩ := List.getLast?_eq_some_iff.mp last
    rw [whole, List.dropLast_concat] at parent
    rw [whole, parent]
  · rintro rfl
    exact ⟨List.dropLast_concat, List.getLast?_concat⟩

theorem mem_childNames {disk : Disk} {top : Location} {name : String} :
    name ∈ disk.childNames top ↔ ∃ entry, disk.entryAt? (top ++ [name]) = some entry := by
  have inside : top ++ [name] ≠ [] := by simp
  unfold childNames
  rw [mem_foldr_insertName, List.mem_filterMap]
  constructor
  · rintro ⟨item, member, found⟩
    split at found
    · rename_i parent
      have location := dropLast_getLast?_eq_iff.mp ⟨parent, found⟩
      refine ⟨item.2, (entryAt?_eq_some_iff inside).mpr ?_⟩
      rw [← location]
      exact member
    · cases found
  · rintro ⟨entry, there⟩
    refine ⟨(top ++ [name], entry), (entryAt?_eq_some_iff inside).mp there, ?_⟩
    simp

theorem sorted_childNames (disk : Disk) (top : Location) :
    (disk.childNames top).Pairwise (· ≤ ·) := by
  unfold childNames
  generalize (disk.entries.filterMap fun item =>
    if item.1.dropLast = top then item.1.getLast? else none) = names
  induction names with
  | nil => exact List.Pairwise.nil
  | cons name rest ih => exact sorted_insertName name ih

theorem nodup_childNames (disk : Disk) (top : Location) : (disk.childNames top).Nodup := by
  unfold childNames
  apply nodup_foldr_insertName
  have distinct : disk.entries.Pairwise fun left right => left.1 ≠ right.1 :=
    List.pairwise_map.mp disk.keysDistinct
  refine List.Pairwise.filterMap _ ?_ distinct
  intro left right different leftName fromLeft rightName fromRight same
  subst same
  split at fromLeft
  · split at fromRight
    · rename_i leftParent rightParent
      have leftIs := dropLast_getLast?_eq_iff.mp ⟨leftParent, fromLeft⟩
      have rightIs := dropLast_getLast?_eq_iff.mp ⟨rightParent, fromRight⟩
      exact different (leftIs.trans rightIs.symm)
    · cases fromRight
  · cases fromLeft

/-- A directory lists its names in strict order. -/
theorem ordered_childNames (disk : Disk) (top : Location) : (disk.childNames top).Pairwise (· < ·) :=
  ((sorted_childNames disk top).and (nodup_childNames disk top)).imp
    fun order => lt_of_le_of_ne order.1 order.2

section Turn

variable {disk : Disk} {top : Location} {visited rest : List String} {name other : String}
  (whole : disk.childNames top = visited ++ name :: rest)

include whole

theorem mem_childNames_of_turn : name ∈ disk.childNames top := by
  rw [whole]
  exact List.mem_append_right _ List.mem_cons_self

/-- When the turn of a name comes, those before it in the order have been gone through, and no others. -/
theorem mem_visited_iff : other ∈ visited ↔ other ∈ disk.childNames top ∧ other < name := by
  have ordered := ordered_childNames disk top
  rw [whole] at ordered ⊢
  obtain ⟨-, later, before⟩ := List.pairwise_append.mp ordered
  constructor
  · intro earlier
    exact ⟨List.mem_append_left _ earlier, before other earlier name List.mem_cons_self⟩
  · rintro ⟨listed, less⟩
    rcases List.mem_append.mp listed with earlier | behind
    · exact earlier
    · rcases List.mem_cons.mp behind with rfl | further
      · exact absurd less (lt_irrefl _)
      · exact absurd less ((List.pairwise_cons.mp later).1 other further).asymm

theorem notMem_visited : name ∉ visited := fun earlier =>
  lt_irrefl name ((mem_visited_iff whole).mp earlier).2

end Turn

/-- Directories with the same names list them in the same order. -/
theorem childNames_eq {before after : Disk} {top other : Location}
    (same : ∀ name, name ∈ after.childNames other ↔ name ∈ before.childNames top) :
    after.childNames other = before.childNames top := by
  have alike : (after.childNames other).Perm (before.childNames top) :=
    (List.perm_ext_iff_of_nodup (nodup_childNames after other) (nodup_childNames before top)).mpr same
  exact alike.eq_of_pairwise (fun _ _ _ _ => le_antisymm) (sorted_childNames after other)
    (sorted_childNames before top)

/-- What stands directly in a directory says which names it has, in which order. -/
theorem childNames_congr {before after : Disk} {top : Location}
    (same : ∀ name, after.entryAt? (top ++ [name]) = before.entryAt? (top ++ [name])) :
    after.childNames top = before.childNames top :=
  childNames_eq fun name => by rw [mem_childNames, mem_childNames, same]

end Disk

end CrossBuild.Files
