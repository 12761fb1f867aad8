/-
Parts that are lost.

After a file was split, some of its parts may be deleted, however that came about. Merging goes by the
parts that are left: one that is missing before another is noticed, but nothing tells how many there
were, so a file whose last parts are missing comes back shorter.
-/

import CrossBuild.Proofs.Artifacts.SingleFile

namespace CrossBuild.Artifacts

open Files Files.Disk Runs

/-- The parts with some indices were deleted from the directory at a place, and nothing else has
changed. -/
structure LosesParts (box : Location) (lost : Set Nat) (before after : Disk) : Prop where
  setting : before.SameSetting after
  gone : ∀ index ∈ lost, after.entryAt? (box ++ [partName index]) = none
  kept : ∀ other, (∀ index ∈ lost, other ≠ box ++ [partName index]) →
    after.entryAt? other = before.entryAt? other

section Lost

variable {threshold : Threshold} {directory : Path} {name : String} {content : ByteArray}
  {start middle left : Disk} {lost : Set Nat}

theorem PartsReplace.leadsTo_splitDirectory
    (replaced : PartsReplace threshold directory name content start middle)
    (valid : isEntryName name = true) :
    middle.leadsTo (splitDirectory (directory.joinName name)) =
      start.leadsTo directory ++ [name ++ splitSuffix] := by
  rw [replaced.setting.leadsTo, splitDirectory_joinName directory valid,
    leadsTo_joinName _ _ (isEntryName_append_splitSuffix valid), (way_of_tidied start directory).1]

theorem PartsReplace.entryAt?_part
    (replaced : PartsReplace threshold directory name content start middle)
    (fits : (threshold.parts content).length ≤ maxParts) {index : Nat}
    (within : index < (threshold.parts content).length) :
    middle.entryAt? (start.leadsTo directory ++ [name ++ splitSuffix] ++ [partName index]) =
      some (.file (threshold.parts content)[index]) := by
  have own := @partEntryAt?_part _ name _ _ fits within
  rcases replaced.inside [partName index] with same | ⟨nothing, -⟩
  · rw [same, own]
  · rw [own] at nothing
    cases nothing

variable (replaced : PartsReplace threshold directory name content start middle)
  (valid : isEntryName name = true) (fits : (threshold.parts content).length ≤ maxParts)
  (within : lost ⊆ Set.Iio (threshold.parts content).length)
  (deleted : LosesParts (start.leadsTo directory ++ [name ++ splitSuffix]) lost middle left)

include replaced fits within deleted

/-- The parts that are left are as they were, and there are no others. -/
private theorem partAt?_of_deleted {index : Nat} (bound : index < maxParts) {part : ByteArray} :
    partAt? left (start.leadsTo directory ++ [name ++ splitSuffix]) index = some part ↔
      index ∉ lost ∧ (threshold.parts content)[index]? = some part := by
  rw [partAt?_eq_some_iff]
  by_cases isLost : index ∈ lost
  · rw [deleted.gone index isLost]
    simp [isLost]
  · rw [deleted.kept]
    · by_cases isPart : index < (threshold.parts content).length
      · rw [replaced.entryAt?_part fits isPart, List.getElem?_eq_getElem isPart]
        simp [isLost]
      · have nothing : partEntryAt? threshold name content [partName index] = none := by
          apply partEntryAt?_other (partName_ne_scriptName bound)
          intro other before same
          have equal := partName_inj (by omega) bound same
          omega
        rw [List.getElem?_eq_none (Nat.not_lt.mp isPart)]
        rcases replaced.inside [partName index] with same | ⟨-, isDirectory, -⟩
        · rw [same, nothing]
          simp
        · rw [isDirectory]
          simp
    · intro other isLost_ same
      simp only [List.append_cancel_left_eq, List.cons.injEq, and_true] at same
      have before : other < (threshold.parts content).length := within isLost_
      rw [partName_inj bound (by omega) same] at isLost
      exact isLost isLost_

private theorem partsThere_of_deleted :
    partsThere left (start.leadsTo directory ++ [name ++ splitSuffix]) =
      Set.Iio (threshold.parts content).length \ lost := by
  ext index
  constructor
  · rintro ⟨bound, isThere⟩
    obtain ⟨part, own⟩ := Option.isSome_iff_exists.mp isThere
    obtain ⟨notLost, isPart⟩ :=
      (partAt?_of_deleted replaced fits within deleted bound).mp own
    obtain ⟨before, -⟩ := List.getElem?_eq_some_iff.mp isPart
    exact ⟨before, notLost⟩
  · rintro ⟨before, notLost⟩
    have bound : index < maxParts := Nat.lt_of_lt_of_le before fits
    refine ⟨bound, Option.isSome_iff_exists.mpr ⟨(threshold.parts content)[index], ?_⟩⟩
    exact (partAt?_of_deleted replaced fits within deleted bound).mpr
      ⟨notLost, List.getElem?_eq_getElem before⟩

include valid

private theorem hasParts_of_deleted :
    HasParts (splitDirectory (directory.joinName name)) name left := by
  have keeps : middle.KeepsDirectories left := by
    intro place there
    rw [deleted.kept, there]
    rintro index isLost rfl
    rw [replaced.entryAt?_part fits (within isLost)] at there
    cases there
  constructor
  case base_ne => exact (isEntryName_iff.mp valid).1
  case named =>
    rw [splitDirectory_joinName directory valid]
    exact Path.fileName?_joinName _ (isEntryName_append_splitSuffix valid)
  case there => exact keeps.isDirectory deleted.setting replaced.there
  case permitted =>
    intro index part
    apply (deleted.setting.permits _).mpr
    apply (replaced.setting.permits _).mpr
    exact permits_part part.1 replaced.permitted

/-- A part that is missing before another is noticed, and nothing is changed. -/
private theorem noticed_of_deleted {first : Nat} (least : IsLeast lost first)
    (others : ∃ kept < (threshold.parts content).length, first < kept ∧ kept ∉ lost) :
    ∃ found, IsLeast {kept | kept < (threshold.parts content).length ∧ first < kept ∧ kept ∉ lost} found ∧
      mergeDirectory (splitDirectory (directory.joinName name)) left =
        .error (.missingPart (splitDirectory (directory.joinName name)) first found) left := by
  have parts := hasParts_of_deleted replaced valid fits within deleted
  have there := partsThere_of_deleted replaced fits within deleted
  have aim := replaced.leadsTo_splitDirectory valid
  rw [← deleted.setting.leadsTo] at aim
  obtain ⟨kept, bound, later, notLost⟩ := others
  have firstAbsent : first ∉ partsThere left (start.leadsTo directory ++ [name ++ splitSuffix]) := by
    rw [there]
    exact fun inside => inside.2 least.1
  obtain ⟨missing, found, isFirst, isNext, failed⟩ := parts.reports_gap (by
    rw [aim]
    rintro ⟨count, front⟩
    have own : kept ∈ Set.Iio count := by
      rw [← front, there]
      exact ⟨bound, notLost⟩
    apply firstAbsent
    rw [front]
    exact later.trans own)
  rw [aim, there] at isFirst isNext
  have same : missing = first := by
    apply isFirst.unique
    refine ⟨fun inside => inside.2 least.1, fun index absent => ?_⟩
    by_contra before
    rw [Nat.not_le] at before
    have notYet : index ∉ lost := fun isLost => absurd (least.2 isLost) (Nat.not_le.mpr before)
    exact absent ⟨before.trans (later.trans bound), notYet⟩
  rw [same] at isNext failed
  refine ⟨found, ⟨⟨isNext.1.1.1, isNext.1.2, isNext.1.1.2⟩, ?_⟩, failed⟩
  rintro index ⟨before, behind, also⟩
  exact isNext.2 ⟨⟨before, also⟩, behind⟩

/-- If all parts behind the first missing one are missing, those before it are taken for the file. -/
private theorem shortened_of_deleted {first : Nat} (least : IsLeast lost first)
    (none : ∀ kept < (threshold.parts content).length, first < kept → kept ∈ lost) :
    ∃ target after, mergeDirectory (splitDirectory (directory.joinName name)) left =
        .ok (some target) after ∧
      after.entryAt? (start.leadsTo directory ++ [name]) =
        some (.file (joinParts ((threshold.parts content).take first))) ∧
      ∀ rest, rest ≠ [] →
        after.entryAt? (start.leadsTo directory ++ [name ++ splitSuffix] ++ rest) = .none := by
  have splitValid := isEntryName_append_splitSuffix valid
  have parts := hasParts_of_deleted replaced valid fits within deleted
  have there := partsThere_of_deleted replaced fits within deleted
  have aim := replaced.leadsTo_splitDirectory valid
  rw [← deleted.setting.leadsTo] at aim
  have bound : first < (threshold.parts content).length := within least.1
  have front : partsThere left (left.leadsTo (splitDirectory (directory.joinName name))) =
      Set.Iio first := by
    rw [aim, there]
    ext index
    constructor
    · rintro ⟨before, notLost⟩
      by_contra behind
      rw [Set.mem_Iio, Nat.not_lt] at behind
      rcases Nat.lt_or_eq_of_le behind with later | same
      · exact notLost (none index before later)
      · exact notLost (same ▸ least.1)
    · intro before
      exact ⟨Nat.lt_trans before bound, fun isLost => absurd (least.2 isLost) (Nat.not_le.mpr before)⟩
  have renamed : (splitDirectory (directory.joinName name)).withFileName name =
      directory.tidied.joinName name := by
    rw [splitDirectory_joinName directory valid, Path.withFileName_eq_tidied _ _ splitValid,
      directory.tidied_tidied]
  have targetAim : left.leadsTo (directory.tidied.joinName name) = start.leadsTo directory ++ [name] := by
    rw [deleted.setting.leadsTo, replaced.setting.leadsTo, leadsTo_joinName _ _ valid,
      (way_of_tidied start directory).1]
  have gone : left.entryAt? (start.leadsTo directory ++ [name]) = .none := by
    rw [deleted.kept, replaced.gone]
    intro index _ same
    exact splitDirectory_apart (start.leadsTo directory) name [] (same ▸ List.prefix_append _ _)
  have noDirectory : left.isDirectory
      ((splitDirectory (directory.joinName name)).withFileName name) = false := by
    rw [renamed]
    refine Bool.eq_false_iff.mpr fun isDirectory => ?_
    have own := entryAt?_leadsTo_of_stands (isDirectory_iff.mp isDirectory).2
    rw [targetAim, gone] at own
    cases own
  have noDots : (splitDirectory (directory.joinName name)).endsInDots = false := by
    rw [splitDirectory_joinName directory valid]
    exact endsInDots_of_segments (Path.segments_joinName _ splitValid) splitValid
  obtain ⟨after, merged, effect, -⟩ := parts.merges front noDirectory noDots
  rw [renamed, targetAim, aim] at effect
  have content : joinedParts left (start.leadsTo directory ++ [name ++ splitSuffix]) first =
      joinParts ((threshold.parts content).take first) := by
    apply joinedParts_eq_take bound.le
    intro index before
    have inside := before.trans bound
    have notLost : index ∉ lost := fun isLost => absurd (least.2 isLost) (Nat.not_le.mpr before)
    rw [List.getElem?_eq_getElem inside]
    exact (partAt?_of_deleted replaced fits within deleted (inside.trans_le fits)).mpr
      ⟨notLost, List.getElem?_eq_getElem inside⟩
  rw [content] at effect
  exact ⟨_, after, merged, effect.stored, effect.emptied⟩

end Lost

/-- What splitting returned is about a file with the content that was there. -/
private theorem partsReplace_of_splitFile {threshold : Threshold} {file box : Path}
    {content : ByteArray} {start middle : Disk} (read : start.read? file = some content)
    (done : splitFile threshold file start = .ok (some box) middle) :
    ∃ directory name, isEntryName name = true ∧ file = directory.joinName name ∧
      box = splitDirectory file ∧ (threshold.parts content).length ≤ maxParts ∧
      PartsReplace threshold directory name content start middle := by
  obtain ⟨directory, name, valid, rfl⟩ := exists_joinName_of_splitFile done
  obtain ⟨location, found, there⟩ := read?_eq_some_iff.mp read
  rw [leadsTo_of_locate? found, leadsTo_joinName _ _ valid] at there
  obtain ⟨entry, own, outcome⟩ := splitFile_replaces valid done
  rw [there, Option.some.injEq] at own
  subst own
  rcases outcome with ⟨-, whole, -⟩ | ⟨_, same, -, fits, result, replaced⟩
  · cases whole
  · cases same
    rw [Option.some.injEq] at result
    rw [← Threshold.length_parts] at fits
    exact ⟨directory, name, valid, rfl, result, fits, replaced⟩

/-- A file of two bytes. -/
def twoByteDisk : Disk :=
  { entries := [(["f"], .file ⟨#[1, 2]⟩)]
    workingDirectory := []
    limits := some ⟨255, 4095⟩
    keysDistinct := by decide +kernel
    parentsThere := by decide +kernel
    namesValid := by decide +kernel }

/-- The file is split into its bytes, and either of them can be deleted. -/
private theorem loses_one (index : Nat) (isPart : index < 2) : ∃ box middle left,
    splitFile (.ofBytes 1) ⟨"f"⟩ twoByteDisk = .ok (some box) middle ∧
      LosesParts (middle.leadsTo box) {index} middle left := by
  have same : (⟨"f"⟩ : Path) = Path.joinName ⟨""⟩ "f" := by decide +kernel
  have read : twoByteDisk.read? ⟨"f"⟩ = some ⟨#[1, 2]⟩ := by decide +kernel
  have ways : twoByteDisk.leadsTo (splitDirectory ⟨"f"⟩) = ["f.split.file.dir"] ∧
      twoByteDisk.way ⟨"f"⟩ = [[], ["f"]] := by
    decide +kernel
  have room : HasRoomForParts ⟨"f"⟩ twoByteDisk := by
    constructor
    case free => decide +kernel
    case permitted => decide +kernel
    case outside =>
      unfold Disk.keepsOut
      rw [ways.1, ways.2]
      decide
    case start => decide +kernel
  have valid : isEntryName "f" = true := by decide
  rw [same] at read room
  have fits : (Threshold.ofBytes 1).partCount (⟨#[1, 2]⟩ : ByteArray).size ≤ maxParts := by decide
  obtain ⟨middle, done⟩ := splitFile_succeeds valid read (by decide) fits room
  rw [← same] at read done
  obtain ⟨directory, name, valid, whole, -, fits, replaced⟩ := partsReplace_of_splitFile read done
  have count : ((Threshold.ofBytes 1).parts ⟨#[1, 2]⟩).length = 2 := by decide +kernel
  have there := replaced.entryAt?_part fits (isPart.trans_eq count.symm)
  rw [← replaced.leadsTo_splitDirectory valid, ← whole] at there
  generalize splitDirectory ⟨"f"⟩ = box at done there
  refine ⟨box, middle, middle.erase (middle.leadsTo box ++ [partName index]), done, ?_⟩
  have inside : middle.leadsTo box ++ [partName index] ≠ [] := by simp
  have erased := becomes_erase middle inside
  refine ⟨erased.setting, fun other isLost => ?_, fun other kept => ?_⟩
  · rw [Set.mem_singleton_iff.mp isLost, erased.entries, if_pos List.prefix_rfl]
  · rw [erased.entries]
    by_cases present : middle.entryAt? other = none
    · rw [present, ite_self]
    · rw [if_neg]
      rw [prefix_iff_eq_of_file there present]
      exact kept index rfl

/-- Whatever parts of a split file are deleted, merging fails and changes nothing. -/
def NeverShortens (threshold : Threshold) (file : Path) (start : Disk) : Prop :=
  ∀ content box middle lost left, start.read? file = some content →
    splitFile threshold file start = .ok (some box) middle → lost.Nonempty →
      lost ⊆ Set.Iio (threshold.parts content).length → LosesParts (middle.leadsTo box) lost middle left →
        ∃ cause, mergeDirectory box left = .error cause left

end CrossBuild.Artifacts
