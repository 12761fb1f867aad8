/-
What merging one directory of parts changes.

Which parts are there decides what happens: with one missing before another nothing is changed, and
otherwise those that are there are put together, whether or not there were more once. The directory
is then taken away, unless its path ends in a dot or passes something in it. Any other path is left
alone.
-/

import CrossBuild.Proofs.Artifacts.Splitting
import Mathlib.Order.Bounds.Basic
import Mathlib.Order.Interval.Set.Basic

namespace CrossBuild.Artifacts

open Files Files.Disk Runs

/-! ### Gaps -/

section Gaps

/-- How many are there before the first that is not. -/
def frontCount (present : List Bool) : Nat :=
  (present.takeWhile fun there => there).length

variable {present : List Bool}

theorem isLeast_frontCount (present : List Bool) :
    IsLeast {index | present[index]? ≠ some true} (frontCount present) := by
  unfold frontCount
  constructor
  · intro there
    have behind : present.drop (present.takeWhile fun there => there).length =
        present.dropWhile fun there => there := by
      conv_lhs => arg 2; rw [← @List.takeWhile_append_dropWhile _ (fun there => there) present]
      exact List.drop_left
    have start := List.head?_dropWhile_not (fun there => there) present
    rw [← behind, List.head?_drop, there] at start
    cases start
  · intro index absent
    apply Nat.le_of_not_lt
    intro within
    have there := List.all_eq_true.mp List.all_takeWhile _ (List.getElem_mem within)
    have inside := within.trans_le (List.takeWhile_prefix _).length_le
    rw [(List.takeWhile_prefix _).getElem within] at there
    exact absent (List.getElem?_eq_some_iff.mpr ⟨inside, there⟩)

/-- What is there is there in the front or behind the first gap. -/
private theorem there_iff {index : Nat} : present[index]? = some true ↔
    index < frontCount present ∨
      frontCount present < index ∧ (present.drop (frontCount present))[index - frontCount present]? =
        some true := by
  obtain ⟨absent, first⟩ := isLeast_frontCount present
  rw [List.getElem?_drop]
  constructor
  · intro there
    rcases Nat.lt_trichotomy index (frontCount present) with before | same | behind
    · exact .inl before
    · rw [same] at there
      exact absurd there absent
    · exact .inr ⟨behind, by rw [Nat.add_sub_cancel' behind.le, there]⟩
  · rintro (before | ⟨behind, there⟩)
    · by_contra missing
      exact absurd (first missing) (Nat.not_le.mpr before)
    · rw [Nat.add_sub_cancel' behind.le] at there
      exact there

theorem gapIn?_eq_none_iff : gapIn? present = none ↔
    ∀ index, present[index]? = some true → index < frontCount present := by
  have whole : gapIn? present = none ↔
      (present.drop (frontCount present)).findIdx? (fun there => there) = none := by
    unfold gapIn? frontCount
    dsimp only
    split <;> simp_all
  rw [whole, List.findIdx?_eq_none_iff]
  constructor
  · intro none index there
    rcases there_iff.mp there with before | ⟨-, behind⟩
    · exact before
    · cases none _ (List.mem_of_getElem? behind)
  · intro front there member
    obtain ⟨offset, found⟩ := List.getElem?_of_mem member
    cases there with
    | false => rfl
    | true =>
        rw [List.getElem?_drop] at found
        have before := front _ found
        omega

theorem gapIn?_eq_some {missing found : Nat} (gap : gapIn? present = some (missing, found)) :
    IsLeast {index | present[index]? ≠ some true} missing ∧
      IsLeast {index | present[index]? = some true ∧ missing < index} found := by
  have least := isLeast_frontCount present
  unfold gapIn? at gap
  dsimp only at gap
  split at gap
  · rename_i offset place
    obtain ⟨within, there, first⟩ := List.findIdx?_eq_some_iff_getElem.mp place
    cases gap
    have isThere : present[frontCount present + offset]? = some true := by
      rw [← List.getElem?_drop]
      exact List.getElem?_eq_some_iff.mpr ⟨within, there⟩
    have later : frontCount present < frontCount present + offset := by
      apply Nat.lt_of_le_of_ne (Nat.le_add_right _ _)
      intro same
      rw [← same] at isThere
      exact least.1 isThere
    refine ⟨least, ⟨isThere, later⟩, ?_⟩
    rintro index ⟨also, behind⟩
    rcases there_iff.mp also with before | ⟨-, found⟩
    · exact absurd before (Nat.not_lt.mpr behind.le)
    · by_contra earlier
      rw [Nat.not_le] at earlier
      obtain ⟨inside, true_⟩ := List.getElem?_eq_some_iff.mp found
      change frontCount present < index at behind
      change index < frontCount present + offset at earlier
      exact first _ (by omega) true_
  · cases gap

end Gaps

/-! ### Parts that are there -/

/-- The content of a part in the directory at a place. -/
def partAt? (disk : Disk) (box : Location) (index : Nat) : Option ByteArray :=
  match disk.entryAt? (box ++ [partName index]) with
  | some (.file content) => some content
  | _ => none

/-- The indices of the parts that are files in the directory at a place. -/
def partsThere (disk : Disk) (box : Location) : Set Nat :=
  {index | index < maxParts ∧ (partAt? disk box index).isSome = true}

/-- What the first parts in the directory at a place make up. -/
def joinedParts (disk : Disk) (box : Location) (count : Nat) : ByteArray :=
  joinParts ((List.range count).filterMap (partAt? disk box))

theorem partAt?_eq_some_iff {disk : Disk} {box : Location} {index : Nat} {content : ByteArray} :
    partAt? disk box index = some content ↔
      disk.entryAt? (box ++ [partName index]) = some (.file content) := by
  unfold partAt?
  cases disk.entryAt? (box ++ [partName index]) with
  | none => simp
  | some entry => cases entry <;> simp

/-- What is joined are the first parts of any list that has the same ones. -/
theorem joinedParts_eq_take {disk : Disk} {box : Location} {count : Nat} {parts : List ByteArray}
    (fits : count ≤ parts.length)
    (same : ∀ index < count, partAt? disk box index = parts[index]?) :
    joinedParts disk box count = joinParts (parts.take count) := by
  have found : ∀ index ∈ List.range count, partAt? disk box index = some (parts[index]?.getD .empty) := by
    intro index member
    have before := List.mem_range.mp member
    rw [same index before, List.getElem?_eq_getElem (before.trans_le fits), Option.getD_some]
  have all : (List.range count).filterMap (partAt? disk box) = parts.take count := by
    rw [List.filterMap_congr found, List.filterMap_eq_map']
    apply List.ext_getElem
    · simp [fits]
    · intro index _ within
      rw [List.length_take] at within
      have inside : index < parts.length := by omega
      simp [inside]
  unfold joinedParts
  rw [all]

section MergeDirectory

variable {directory : Path} {base : String} {disk after : Disk}

theorem mergeDirectory_of_other (other : isSplitDirectory disk directory = false) :
    mergeDirectory directory disk = .ok none disk := by
  unfold mergeDirectory
  change (if !isSplitDirectory disk directory then pure none else _ : Action (Option Path)) disk = _
  rw [other]
  rfl

/-- A directory whose name is not that of a directory of parts is left alone. -/
theorem mergeDirectory_of_plain (plain : directory.fileName?.bind mergedName? = none) :
    mergeDirectory directory disk = .ok none disk := by
  apply mergeDirectory_of_other
  unfold isSplitDirectory
  rw [plain, Option.isSome_none, Bool.and_false]

/-- The path leads to a directory of parts for a name, and so do the paths of the parts in it. -/
structure HasParts (directory : Path) (base : String) (disk : Disk) : Prop where
  base_ne : base ≠ ""
  named : directory.fileName? = some (base ++ splitSuffix)
  there : disk.isDirectory directory = true
  permitted : ∀ index ∈ partsThere disk (disk.leadsTo directory),
    disk.permits (directory.joinName (partName index))

/-- A content is stored at a place, what was in a directory is gone, and nothing else has changed but
for the directory itself. -/
structure Merged (box target : Location) (content : ByteArray) (before after : Disk) : Prop where
  setting : before.SameSetting after
  stored : after.entryAt? target = some (.file content)
  emptied : ∀ rest, rest ≠ [] → after.entryAt? (box ++ rest) = none
  elsewhere : ∀ other, other ≠ target → ¬ box <+: other →
    after.entryAt? other = before.entryAt? other

theorem Merged.becomes {box target : Location} {content : ByteArray} {disk after : Disk}
    (merged : Merged box target content disk after) (gone : after.entryAt? box = none) :
    disk.Becomes (fun other => if other = target then some (.file content)
      else if box <+: other then none else disk.entryAt? other) after := by
  refine ⟨merged.setting, fun other => ?_⟩
  split
  · rename_i isTarget
    rw [isTarget, merged.stored]
  · rename_i notTarget
    split
    · rename_i inside
      obtain ⟨rest, rfl⟩ := inside
      by_cases alone : rest = []
      · rw [alone, List.append_nil, gone]
      · exact merged.emptied rest alone
    · rename_i apart
      exact merged.elsewhere other notTarget apart

namespace HasParts

variable (parts : HasParts directory base disk)

include parts

theorem read?_part {index : Nat} (bound : index < maxParts) :
    disk.read? (directory.joinName (partName index)) = partAt? disk (disk.leadsTo directory) index := by
  have all : [partName index].all isEntryName = true := by
    simpa using isEntryName_partName index
  have standing := (isDirectory_iff.mp parts.there).2
  apply Option.ext
  intro content
  rw [read?_eq_some_iff, partAt?_eq_some_iff, Path.joinName_eq_joinNames]
  simp only [locate?_joinNames_iff all]
  constructor
  · rintro ⟨_, ⟨-, -, -, rfl⟩, there⟩
    exact there
  · intro there
    have part : index ∈ partsThere disk (disk.leadsTo directory) :=
      ⟨bound, by rw [partAt?_eq_some_iff.mpr there, Option.isSome_some]⟩
    have permitted := parts.permitted index part
    rw [Path.joinName_eq_joinNames] at permitted
    exact ⟨_, ⟨permitted, standing, by simpa using entryAt?_leadsTo_of_stands standing, rfl⟩, there⟩

theorem presentParts_iff {index : Nat} : (presentParts disk directory)[index]? = some true ↔
    index ∈ partsThere disk (disk.leadsTo directory) := by
  unfold presentParts partsThere
  rw [List.getElem?_map]
  by_cases bound : index < maxParts
  · have read := parts.read?_part bound
    rw [List.getElem?_range bound, Option.map_some, Option.some.injEq, Disk.isFile, read]
    exact ⟨fun there => ⟨bound, there⟩, And.right⟩
  · rw [List.getElem?_eq_none (by simpa using bound), Option.map_none]
    constructor
    · intro absurd_
      cases absurd_
    · rintro ⟨within, -⟩
      exact absurd within bound

theorem isSplit : isSplitDirectory disk directory = true := by
  unfold isSplitDirectory
  rw [parts.there, parts.named, Option.bind_some, mergedName?_append_splitSuffix parts.base_ne]
  rfl

theorem mergedPath?_eq : mergedPath? directory = some (directory.withFileName base) := by
  unfold mergedPath?
  rw [parts.named, Option.bind_some, mergedName?_append_splitSuffix parts.base_ne, Option.map_some]

/-- Parts that are missing before others are reported, and nothing is changed. -/
theorem reports_gap (gap : ¬ ∃ count, partsThere disk (disk.leadsTo directory) = Set.Iio count) :
    ∃ missing found, IsLeast (partsThere disk (disk.leadsTo directory))ᶜ missing ∧
      IsLeast {index ∈ partsThere disk (disk.leadsTo directory) | missing < index} found ∧
      mergeDirectory directory disk = .error (.missingPart directory missing found) disk := by
  cases outcome : gapIn? (presentParts disk directory) with
  | none =>
      exfalso
      apply gap
      refine ⟨frontCount (presentParts disk directory), Set.ext fun index => ?_⟩
      rw [← parts.presentParts_iff]
      refine ⟨gapIn?_eq_none_iff.mp outcome index, fun before => ?_⟩
      by_contra absent
      exact absurd ((isLeast_frontCount _).2 absent) (Nat.not_le.mpr before)
  | some indices =>
      obtain ⟨missing, found⟩ := indices
      obtain ⟨first, next⟩ := gapIn?_eq_some outcome
      simp only [ne_eq, parts.presentParts_iff] at first next
      refine ⟨missing, found, first, next, ?_⟩
      unfold mergeDirectory
      rw [get_bind, parts.isSplit, parts.mergedPath?_eq]
      dsimp only
      rw [outcome]
      rfl

/-- Without a gap the parts are put together and the directory is taken away. -/
theorem mergeDirectory_eq {count : Nat}
    (front : partsThere disk (disk.leadsTo directory) = Set.Iio count) :
    mergeDirectory directory disk = (do
      let target := directory.withFileName base
      attempt .createFile target
        (writeFile target (joinedParts disk (disk.leadsTo directory) count))
      attempt .removeTree directory (removeTree directory)
      return some target : Action (Option Path)) disk := by
  have present : ∀ index, (presentParts disk directory)[index]? = some true ↔ index < count := by
    intro index
    rw [parts.presentParts_iff, front, Set.mem_Iio]
  have reached : frontCount (presentParts disk directory) = count := by
    refine (isLeast_frontCount _).unique ⟨fun there => ?_, fun index absent => ?_⟩
    · exact Nat.lt_irrefl _ ((present count).mp there)
    · exact Nat.not_lt.mp fun before => absent ((present index).mpr before)
  have whole : gapIn? (presentParts disk directory) = none := by
    rw [gapIn?_eq_none_iff, reached]
    exact fun index => (present index).mp
  have contents : partContents disk directory count =
      (List.range count).filterMap (partAt? disk (disk.leadsTo directory)) := by
    apply List.filterMap_congr
    intro index member
    have inside : index ∈ partsThere disk (disk.leadsTo directory) := by
      rw [front]
      exact List.mem_range.mp member
    exact parts.read?_part inside.1
  unfold frontCount at reached
  unfold mergeDirectory joinedParts
  rw [get_bind, parts.isSplit, parts.mergedPath?_eq]
  dsimp only
  rw [whole, reached, contents]
  rfl

theorem isEntryName_box : isEntryName (base ++ splitSuffix) = true := by
  obtain ⟨front, own⟩ := leadsTo_of_fileName? disk parts.named (by simp [splitSuffix])
  have there := entryAt?_leadsTo_of_stands (isDirectory_iff.mp parts.there).2
  rw [own] at there
  exact isEntryName_of_entryAt? there

/-- The file that the parts stand for is in the same directory. -/
theorem exists_above : ∃ above : Path, directory.withFileName base = above.joinName base ∧
    disk.stands above ∧ disk.leadsTo directory = disk.leadsTo above ++ [base ++ splitSuffix] ∧
      (∀ place, place ∈ disk.way directory ↔
        place ∈ disk.way above ∨ place = disk.leadsTo directory) ∧
      disk.permits (above.joinName base) := by
  have valid := parts.isEntryName_box
  obtain ⟨above, renamed, led⟩ := exists_directory_of_fileName? parts.named valid
  obtain ⟨aim, passed, admitted⟩ := led disk
  obtain ⟨tidyAim, tidyPassed⟩ := way_of_tidied disk above
  obtain ⟨permitted, standing⟩ := isDirectory_iff.mp parts.there
  have onWay : ∀ place, place ∈ disk.way directory ↔
      place ∈ disk.way above.tidied ∨ place = disk.leadsTo directory := by
    intro place
    rw [passed, tidyPassed, aim, mem_way_joinName valid]
  refine ⟨above.tidied, renamed base, fun place member => ?_, ?_, onWay, ?_⟩
  · exact standing place ((onWay place).mpr (.inl member))
  · rw [tidyAim, aim]
  · refine permits_tidied_joinName valid (isEntryName_of_append_splitSuffix parts.base_ne valid) ?_
      (admitted permitted)
    rw [String.utf8ByteSize_append]
    omega

/-- The path of the file is that of a directory, or nothing but a file stands there. -/
theorem locate?_target (noDirectory : disk.isDirectory (directory.withFileName base) = false) :
    ∃ top, disk.leadsTo directory = top ++ [base ++ splitSuffix] ∧
      disk.locate? (directory.withFileName base) = some (top ++ [base]) ∧
      disk.entryAt? (top ++ [base]) ≠ some .directory := by
  obtain ⟨above, renamed, standing, aim, -, permitted⟩ := parts.exists_above
  rw [renamed] at noDirectory ⊢
  have top := entryAt?_leadsTo_of_stands standing
  have own : ∀ location, disk.locate? (above.joinName base) = some location →
      disk.entryAt? location ≠ some .directory := by
    intro location found there
    unfold isDirectory find? at noDirectory
    rw [found, Option.bind_some, there] at noDirectory
    cases noDirectory
  have valid : isEntryName base = true := by
    rcases isEntryName_of_append_splitSuffix parts.base_ne parts.isEntryName_box with isName | dots
    · exact isName
    · rw [isDirectory_iff.mpr ⟨permitted, stands_joinName_dots dots standing⟩] at noDirectory
      cases noDirectory
  have all : [base].all isEntryName = true := by simpa using valid
  have found : disk.locate? (above.joinName base) = some (disk.leadsTo above ++ [base]) := by
    rw [Path.joinName_eq_joinNames] at permitted ⊢
    exact (locate?_joinNames_iff all).mpr ⟨permitted, standing, by simpa using top, rfl⟩
  exact ⟨_, aim, found, own _ found⟩

/-- The file is written before the directory is taken away, and the path still leads there. -/
private theorem exists_written (content : ByteArray)
    (noDirectory : disk.isDirectory (directory.withFileName base) = false) :
    ∃ written, writeFile (directory.withFileName base) content disk = .ok () written ∧
      disk.Becomes (fun other => if other = disk.leadsTo (directory.withFileName base) then
        some (.file content) else disk.entryAt? other) written ∧
      written.locate? directory = some (disk.leadsTo directory) ∧
      written.entryAt? (disk.leadsTo directory) = some .directory := by
  obtain ⟨top, boxAim, located, free⟩ := parts.locate?_target noDirectory
  have wrote := @writeFile_of_locate? _ content _ _ located free
  obtain ⟨_, same, effect⟩ := writeFile_ok wrote
  rw [located, Option.some.injEq] at same
  subst same
  generalize disk.place _ _ = written at wrote effect
  obtain ⟨permitted, standing⟩ := isDirectory_iff.mp parts.there
  have stillThere : written.isDirectory directory = true := by
    refine isDirectory_iff.mpr ⟨(effect.setting.permits _).mpr permitted, ?_⟩
    refine effect.setting.stands (fun place member => ?_) standing
    rw [effect.entries, if_neg]
    rintro rfl
    exact free (standing _ member)
  have found := locate?_of_isDirectory stillThere
  have own := entryAt?_leadsTo_of_stands (isDirectory_iff.mp stillThere).2
  rw [effect.setting.leadsTo] at found own
  rw [← leadsTo_of_locate? located]
  exact ⟨written, wrote, effect, found, own⟩

theorem leadsTo_ne_nil : disk.leadsTo directory ≠ [] := by
  obtain ⟨above, -, -, aim, -⟩ := parts.exists_above
  simp [aim]

/-- A directory of parts is not above its file. -/
theorem target_apart (noDirectory : disk.isDirectory (directory.withFileName base) = false) :
    ¬ disk.leadsTo directory <+: disk.leadsTo (directory.withFileName base) := by
  obtain ⟨top, boxAim, located, -⟩ := parts.locate?_target noDirectory
  rw [← leadsTo_of_locate? located, boxAim]
  exact splitDirectory_apart top base []

/-- The parts are put together and, unless the path ends in a dot, taken away. Their directory stays
where the path passes something in it, since it cannot be followed any more then. -/
theorem merges {count : Nat} (front : partsThere disk (disk.leadsTo directory) = Set.Iio count)
    (noDirectory : disk.isDirectory (directory.withFileName base) = false)
    (noDots : directory.endsInDots = false) :
    ∃ after, mergeDirectory directory disk = .ok (some (directory.withFileName base)) after ∧
      Merged (disk.leadsTo directory) (disk.leadsTo (directory.withFileName base))
        (joinedParts disk (disk.leadsTo directory) count) disk after ∧
      (disk.keepsOut directory (disk.leadsTo directory) →
        after.entryAt? (disk.leadsTo directory) = none) ∧
      (¬ disk.keepsOut directory (disk.leadsTo directory) →
        after.entryAt? (disk.leadsTo directory) = some .directory) := by
  obtain ⟨written, wrote, effect, found, own⟩ :=
    parts.exists_written (joinedParts disk (disk.leadsTo directory) count) noDirectory
  have apart := parts.target_apart noDirectory
  obtain ⟨after, removed, same⟩ : ∃ after, removeTree directory written = .ok () after ∧
      after = if ((written.clear (disk.leadsTo directory)).locate? directory).isSome = true then
        written.erase (disk.leadsTo directory) else written.clear (disk.leadsTo directory) :=
    ⟨_, removeTree_eq found own noDots parts.leadsTo_ne_nil, rfl⟩
  refine ⟨after, ?_, ?_⟩
  · rw [parts.mergeDirectory_eq front]
    simp only [bind_ok_iff, attempt_ok_iff, pure_ok_iff]
    exact ⟨(), written, wrote, (), after, removed, trivial, rfl⟩
  rw [same]
  by_cases outside : disk.keepsOut directory (disk.leadsTo directory)
  · rw [locate?_clear found (effect.setting.keepsOut.mpr outside), Option.isSome_some, if_pos rfl]
    have gone := becomes_erase written parts.leadsTo_ne_nil
    refine ⟨⟨effect.setting.trans gone.setting, ?_, fun rest _ => ?_, fun other other_ outside => ?_⟩,
      fun _ => ?_, fun passes => absurd outside passes⟩
    · rw [gone.entries, if_neg apart, effect.entries, if_pos rfl]
    · rw [gone.entries, if_pos (List.prefix_append _ _)]
    · rw [gone.entries, if_neg outside, effect.entries, if_neg other_]
    · rw [gone.entries, if_pos List.prefix_rfl]
  · rw [locate?_clear_of_passing found (mt effect.setting.keepsOut.mp outside), Option.isSome_none,
      if_neg Bool.false_ne_true]
    refine ⟨⟨effect.setting.trans (clear_sameSetting written _), ?_, fun rest below => ?_,
      fun other other_ outside => ?_⟩, fun kept => absurd kept outside, fun _ => ?_⟩
    · rw [entryAt?_clear, if_neg fun within => apart within.1, effect.entries, if_pos rfl]
    · rw [entryAt?_clear, if_pos ⟨List.prefix_append _ _, by simp [below]⟩]
    · rw [entryAt?_clear, if_neg fun within => outside within.1, effect.entries, if_neg other_]
    · rw [entryAt?_clear, if_neg fun within => within.2 rfl, own]

/-- By a path that ends in a dot the parts are taken away, but not their directory. -/
theorem fails_at_dots {count : Nat}
    (front : partsThere disk (disk.leadsTo directory) = Set.Iio count)
    (noDirectory : disk.isDirectory (directory.withFileName base) = false)
    (dots : directory.endsInDots = true)
    (outside : disk.keepsOut directory (disk.leadsTo directory)) :
    ∃ after, mergeDirectory directory disk = .error (.refused .removeTree directory) after := by
  obtain ⟨written, wrote, effect, found, own⟩ :=
    parts.exists_written (joinedParts disk (disk.leadsTo directory) count) noDirectory
  have refused := removeTree_of_dots found own (effect.setting.keepsOut.mpr outside) dots
  refine ⟨written.clear (disk.leadsTo directory), ?_⟩
  rw [parts.mergeDirectory_eq front]
  change EStateM.bind (attempt .createFile _ (writeFile _ _)) _ disk = _
  unfold EStateM.bind attempt EStateM.adaptExcept
  rw [wrote]
  change EStateM.bind (attempt .removeTree _ (removeTree _)) _ written = _
  unfold EStateM.bind attempt EStateM.adaptExcept
  rw [refused]

/-- A directory in the place of the file is not replaced, and nothing is changed. -/
theorem stops_at_directory {count : Nat}
    (front : partsThere disk (disk.leadsTo directory) = Set.Iio count)
    (inTheWay : disk.isDirectory (directory.withFileName base) = true) :
    mergeDirectory directory disk =
      .error (.refused .createFile (directory.withFileName base)) disk := by
  have refused : ∀ content, writeFile (directory.withFileName base) content disk =
      .error .refused disk := by
    intro content
    have there := entryAt?_leadsTo_of_stands (isDirectory_iff.mp inTheWay).2
    unfold writeFile
    rw [get_bind, locate?_of_isDirectory inTheWay]
    dsimp only
    rw [if_pos (isDirectoryAt_iff.mpr there)]
    rfl
  rw [parts.mergeDirectory_eq front]
  change EStateM.bind (attempt .createFile _ (writeFile _ _)) _ disk = _
  unfold EStateM.bind attempt EStateM.adaptExcept
  rw [refused]

end HasParts

/-! ### Directories with all parts -/

section AllParts

variable {threshold : Threshold} {directory : Path} {name : String} {content : ByteArray}
  {disk after : Disk} (valid : isEntryName name = true)
  (fits : threshold.partCount content.size ≤ maxParts)
  (there : disk.isDirectory (directory.joinName (name ++ splitSuffix)) = true)
  (holds : ∀ rest, disk.entryAt? (disk.leadsTo directory ++ [name ++ splitSuffix] ++ rest) =
    partEntryAt? threshold name content rest)
  (permitted : ∀ index < (threshold.parts content).length,
    disk.permits ((directory.joinName (name ++ splitSuffix)).joinName (partName index)))

section Holds

omit valid there permitted

include fits holds

private theorem partAt?_of_holds {index : Nat} (bound : index < maxParts) :
    partAt? disk (disk.leadsTo directory ++ [name ++ splitSuffix]) index =
      (threshold.parts content)[index]? := by
  rw [← Threshold.length_parts] at fits
  apply Option.ext
  intro part
  rw [partAt?_eq_some_iff, holds]
  by_cases within : index < (threshold.parts content).length
  · rw [partEntryAt?_part fits within, List.getElem?_eq_getElem within]
    simp
  · rw [List.getElem?_eq_none (Nat.not_lt.mp within),
      partEntryAt?_other (partName_ne_scriptName bound)]
    · simp
    · intro other before same
      have equal := partName_inj (by omega) bound same
      omega

private theorem partsThere_of_holds :
    partsThere disk (disk.leadsTo directory ++ [name ++ splitSuffix]) =
      Set.Iio (threshold.parts content).length := by
  ext index
  constructor
  · rintro ⟨bound, isThere⟩
    rw [partAt?_of_holds fits holds bound] at isThere
    rw [isSome_getElem?] at isThere
    exact isThere
  · intro within
    have bound : index < maxParts := by
      rw [Threshold.length_parts] at within
      exact within.trans_le fits
    refine ⟨bound, ?_⟩
    rw [partAt?_of_holds fits holds bound]
    rw [isSome_getElem?]
    exact within

private theorem joinedParts_of_holds :
    joinedParts disk (disk.leadsTo directory ++ [name ++ splitSuffix])
      (threshold.parts content).length = content := by
  rw [joinedParts_eq_take Nat.le.refl, List.take_length, Threshold.joinParts_parts]
  intro index within
  rw [Threshold.length_parts] at within
  exact partAt?_of_holds fits holds (within.trans_le fits)

end Holds

include there holds

omit valid fits permitted in
private theorem keepsOut_of_holds : disk.keepsOut (directory.joinName (name ++ splitSuffix))
    (disk.leadsTo directory ++ [name ++ splitSuffix]) := by
  refine (isDirectory_iff.mp there).2.keepsOut fun rest below inner => ?_
  rw [holds] at inner
  match rest with
  | [] => exact below rfl
  | [entry] =>
      rcases partEntryAt?_eq_some inner with ⟨-, script⟩ | ⟨_, _, -, part⟩
      · cases script
      · cases part
  | _ :: _ :: _ => cases inner

include valid fits permitted

private theorem hasParts_of_holds : HasParts (directory.joinName (name ++ splitSuffix)) name disk where
  base_ne := (isEntryName_iff.mp valid).1
  named := Path.fileName?_joinName directory (isEntryName_append_splitSuffix valid)
  there := there
  permitted := by
    rw [leadsTo_joinName _ _ (isEntryName_append_splitSuffix valid), partsThere_of_holds fits holds]
    exact permitted

private theorem mergeDirectory_of_holds (noDirectory : disk.isDirectory
      ((directory.joinName (name ++ splitSuffix)).withFileName name) = false) :
    ∃ after, mergeDirectory (directory.joinName (name ++ splitSuffix)) disk =
        .ok (some (directory.tidied.joinName name)) after ∧
      disk.Becomes (fun other =>
        if other = disk.leadsTo directory ++ [name] then some (.file content)
        else if disk.leadsTo directory ++ [name ++ splitSuffix] <+: other then none
        else disk.entryAt? other) after := by
  have splitValid := isEntryName_append_splitSuffix valid
  have parts := hasParts_of_holds valid fits there holds permitted
  have boxAim := leadsTo_joinName disk directory splitValid
  have front := partsThere_of_holds fits holds
  have renamed := directory.withFileName_eq_tidied name splitValid
  have targetAim := leadsTo_joinName disk directory.tidied valid
  rw [(way_of_tidied disk directory).1] at targetAim
  rw [← boxAim] at front
  have noDots := endsInDots_of_segments (Path.segments_joinName directory splitValid) splitValid
  have outside := keepsOut_of_holds there holds
  obtain ⟨after, merged, effect, gone, -⟩ := parts.merges front noDirectory noDots
  rw [boxAim] at effect gone
  rw [renamed] at merged effect
  rw [targetAim, joinedParts_of_holds fits holds] at effect
  exact ⟨after, merged, effect.becomes (gone outside)⟩

theorem mergeDirectory_ok {result : Option Path}
    (done : mergeDirectory (directory.joinName (name ++ splitSuffix)) disk = .ok result after) :
    disk.Becomes (fun other =>
      if other = disk.leadsTo directory ++ [name] then some (.file content)
      else if disk.leadsTo directory ++ [name ++ splitSuffix] <+: other then none
      else disk.entryAt? other) after := by
  cases inTheWay : disk.isDirectory ((directory.joinName (name ++ splitSuffix)).withFileName name) with
  | false =>
      obtain ⟨_, merged, effect⟩ :=
        mergeDirectory_of_holds valid fits there holds permitted inTheWay
      rw [merged] at done
      cases done
      exact effect
  | true =>
      have front := partsThere_of_holds fits holds
      rw [← leadsTo_joinName disk directory (isEntryName_append_splitSuffix valid)] at front
      rw [(hasParts_of_holds valid fits there holds permitted).stops_at_directory front inTheWay]
        at done
      cases done

/-- Where no other directory stands in the way, the file takes the place of its parts. -/
theorem mergeDirectory_succeeds
    (free : disk.entryAt? (disk.leadsTo directory ++ [name]) ≠ some .directory) :
    ∃ after, mergeDirectory (directory.joinName (name ++ splitSuffix)) disk =
        .ok (some (directory.tidied.joinName name)) after ∧
      disk.Becomes (fun other =>
        if other = disk.leadsTo directory ++ [name] then some (.file content)
        else if disk.leadsTo directory ++ [name ++ splitSuffix] <+: other then none
        else disk.entryAt? other) after := by
  apply mergeDirectory_of_holds valid fits there holds permitted
  rw [directory.withFileName_eq_tidied name (isEntryName_append_splitSuffix valid)]
  refine Bool.eq_false_iff.mpr fun isDirectory => free ?_
  rw [← (way_of_tidied disk directory).1, ← leadsTo_joinName _ _ valid]
  exact entryAt?_leadsTo_of_stands (isDirectory_iff.mp isDirectory).2

end AllParts

end MergeDirectory

end CrossBuild.Artifacts
