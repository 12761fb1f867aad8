/-
How merging ends.

For any disk and any path it is said whether merging leaves everything alone, reports a gap, fails
before a directory, or puts the parts together. The last is only said of paths that lead to the
directory of parts without a dot at their end and pass nothing in it, and all of it only where the
paths of the parts keep to the limits; what happens otherwise is shown at the end.
-/

import CrossBuild.Proofs.Artifacts.Merging

namespace CrossBuild.Artifacts

open Files Files.Disk Runs

section Claims

variable (directory : Path) (base : String) (disk : Disk)

/-- If parts are missing before others, the first gap is reported and nothing is changed. -/
def ReportsGap : Prop :=
  (¬ ∃ count, partsThere disk (disk.leadsTo directory) = Set.Iio count) →
    ∃ missing found, IsLeast (partsThere disk (disk.leadsTo directory))ᶜ missing ∧
      IsLeast {index ∈ partsThere disk (disk.leadsTo directory) | missing < index} found ∧
      mergeDirectory directory disk = .error (.missingPart directory missing found) disk

/-- If a directory stands in the place of the file, nothing is changed. -/
def SparesDirectory : Prop :=
  ∀ count, partsThere disk (disk.leadsTo directory) = Set.Iio count →
    disk.isDirectory (directory.withFileName base) = true →
      ∃ cause, mergeDirectory directory disk = .error cause disk

/-- Otherwise the file that the parts make up takes the place of the directory, and nothing is left
to merge. -/
def JoinsFront : Prop :=
  ∀ count, partsThere disk (disk.leadsTo directory) = Set.Iio count →
    disk.isDirectory (directory.withFileName base) = false →
      ∃ after, mergeDirectory directory disk = .ok (some (directory.withFileName base)) after ∧
        disk.Becomes (fun other =>
          if other = disk.leadsTo (directory.withFileName base) then
            some (.file (joinedParts disk (disk.leadsTo directory) count))
          else if disk.leadsTo directory <+: other then none
          else disk.entryAt? other) after ∧
        mergeDirectory directory after = .ok none after

/-- A directory of parts for a name is merged in one of these ways. -/
def MergesExactly : Prop :=
  base ≠ "" → directory.fileName? = some (base ++ splitSuffix) → disk.isDirectory directory = true →
    ReportsGap directory disk ∧ SparesDirectory directory base disk ∧ JoinsFront directory base disk

end Claims

theorem HasParts.joinsFront {directory : Path} {base : String} {disk : Disk}
    (parts : HasParts directory base disk) (noDots : directory.endsInDots = false)
    (outside : disk.keepsOut directory (disk.leadsTo directory)) : JoinsFront directory base disk := by
  intro count front noDirectory
  obtain ⟨after, merged, effect, gone, -⟩ := parts.merges front noDirectory noDots
  have boxGone := gone outside
  refine ⟨after, merged, effect.becomes boxGone, ?_⟩
  apply mergeDirectory_of_other
  unfold isSplitDirectory
  cases there : after.isDirectory directory with
  | false => rfl
  | true =>
      have own := entryAt?_leadsTo_of_stands (isDirectory_iff.mp there).2
      rw [effect.setting.leadsTo, boxGone] at own
      cases own

/-- A directory of one part, with another directory in it. -/
def onePartDisk : Disk :=
  { entries := [(["f.split.file.dir"], .directory), (["f.split.file.dir", "s"], .directory),
      (["f.split.file.dir", "xx.00"], .file ⟨#[1]⟩)]
    workingDirectory := []
    limits := some ⟨255, 4095⟩
    keysDistinct := by decide +kernel
    parentsThere := by decide +kernel
    namesValid := by decide +kernel }

private theorem partsThere_of_all {box : Location} {count : Nat} {disk : Disk} (fits : count ≤ maxParts)
    (all : ((List.range maxParts).all fun index =>
      (partAt? disk box index).isSome == decide (index < count)) = true) :
    partsThere disk box = Set.Iio count := by
  rw [List.all_eq_true] at all
  ext index
  constructor
  · rintro ⟨bound, isThere⟩
    have own := all index (List.mem_range.mpr bound)
    rw [isThere, beq_iff_eq] at own
    exact of_decide_eq_true own.symm
  · intro before
    have bound := Nat.lt_of_lt_of_le before fits
    have own := all index (List.mem_range.mpr bound)
    rw [decide_eq_true (Set.mem_Iio.mp before), beq_iff_eq] at own
    exact ⟨bound, own⟩

private theorem partsThere_onePartDisk :
    partsThere onePartDisk ["f.split.file.dir"] = Set.Iio 1 :=
  partsThere_of_all (by decide) (by decide +kernel)

private theorem hasParts_onePartDisk {directory : Path}
    (aim : onePartDisk.leadsTo directory = ["f.split.file.dir"])
    (reached : directory.fileName? = some ("f" ++ splitSuffix) ∧
      onePartDisk.isDirectory directory = true ∧
      onePartDisk.permits (directory.joinName (partName 0))) : HasParts directory "f" onePartDisk := by
  obtain ⟨named, there, permitted⟩ := reached
  refine ⟨by decide, named, there, fun index part => ?_⟩
  rw [aim, partsThere_onePartDisk] at part
  obtain rfl : index = 0 := Nat.lt_one_iff.mp part
  exact permitted

section Amiss

variable {directory : Path} {base : String} {count : Nat} {disk : Disk}

theorem HasParts.not_mergesExactly (parts : HasParts directory base disk)
    (front : partsThere disk (disk.leadsTo directory) = Set.Iio count)
    (noDirectory : disk.isDirectory (directory.withFileName base) = false)
    (amiss : directory.endsInDots = true ∧ disk.keepsOut directory (disk.leadsTo directory) ∨
      directory.endsInDots = false ∧ ¬ disk.keepsOut directory (disk.leadsTo directory)) :
    ¬ MergesExactly directory base disk := by
  intro claimed
  obtain ⟨-, -, joins⟩ := claimed parts.base_ne parts.named parts.there
  obtain ⟨after, merged, effect, -⟩ := joins count front noDirectory
  rcases amiss with ⟨dots, outside⟩ | ⟨noDots, passes⟩
  · obtain ⟨_, failed⟩ := parts.fails_at_dots front noDirectory dots outside
    rw [merged] at failed
    cases failed
  · obtain ⟨_, also, -, -, stays⟩ := parts.merges front noDirectory noDots
    rw [merged] at also
    cases also
    have there := stays passes
    rw [effect.entries, if_neg, if_pos List.prefix_rfl] at there
    · cases there
    · exact fun same => parts.target_apart noDirectory (same ▸ List.prefix_rfl)

/-- Merging ends well, and in the place of the file stands something else than the parts make up. -/
def mergesOtherwise (directory : Path) (base : String) (count : Nat) (disk : Disk) : Bool :=
  match mergeDirectory directory disk with
  | .ok _ after => decide (after.entryAt? (disk.leadsTo (directory.withFileName base)) ≠
      some (.file (joinedParts disk (disk.leadsTo directory) count)))
  | .error _ _ => false

theorem not_mergesExactly_of_otherwise
    (isParts : base ≠ "" ∧ directory.fileName? = some (base ++ splitSuffix) ∧
      disk.isDirectory directory = true)
    (front : partsThere disk (disk.leadsTo directory) = Set.Iio count)
    (noDirectory : disk.isDirectory (directory.withFileName base) = false)
    (amiss : mergesOtherwise directory base count disk = true) :
    ¬ MergesExactly directory base disk := by
  intro claimed
  obtain ⟨some, named, there⟩ := isParts
  obtain ⟨-, -, joins⟩ := claimed some named there
  obtain ⟨after, merged, effect, -⟩ := joins count front noDirectory
  unfold mergesOtherwise at amiss
  rw [merged] at amiss
  apply of_decide_eq_true amiss
  rw [effect.entries, if_pos rfl]

end Amiss

private theorem loses_hidden_part : mergesOtherwise ⟨"f.split.file.dir"⟩ "f" 1
    { onePartDisk with limits := some ⟨255, 20⟩ } = true := by
  decide +kernel

end CrossBuild.Artifacts
