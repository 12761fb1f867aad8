/-
Splitting one file and merging it again.

For a file at any path it is said when it stays whole, when it has too many parts, and what stands
where once it is split and once it is merged again. Nothing is asked of the tree around it but that
no file has the name of the directory of parts, that the paths of what goes into the directory keep
to the limits, and that the path of the file does not lead through it. The number of parts is also
counted with machine words, which are never too small for it.
-/

import CrossBuild.Proofs.Artifacts.Merging
import CrossBuild.Proofs.Files.Directories
import Mathlib.Algebra.Order.Floor.Div

namespace CrossBuild.Artifacts

open Files Files.Disk Runs

/-! ### The number of parts -/

/-- The number of parts in words of 64 bits: the quotient, and one more for a rest. -/
def wordPartCount (size bytes : UInt64) : UInt64 :=
  let limit := max bytes 1
  if 0 < size % limit then size / limit + 1 else size / limit

namespace Threshold

theorem partCount_eq (threshold : Threshold) (size : Nat) : threshold.partCount size =
    if 0 < size % threshold.bytes then size / threshold.bytes + 1 else size / threshold.bytes := by
  have positive := threshold.positive
  have rest := Nat.mod_lt size positive
  have whole := Nat.div_add_mod size threshold.bytes
  unfold partCount
  generalize size / threshold.bytes = quotient, size % threshold.bytes = remainder at *
  subst whole
  split
  · have shifted : threshold.bytes * quotient + remainder + threshold.bytes - 1 =
        threshold.bytes * (quotient + 1) + (remainder - 1) := by
      rw [Nat.mul_add, Nat.mul_one]
      omega
    rw [shifted, Nat.mul_add_div positive, Nat.div_eq_of_lt (by omega), Nat.add_zero]
  · have shifted : threshold.bytes * quotient + remainder + threshold.bytes - 1 =
        threshold.bytes * quotient + (threshold.bytes - 1) := by omega
    rw [shifted, Nat.mul_add_div positive, Nat.div_eq_of_lt (by omega), Nat.add_zero]

private theorem toNat_max (left right : UInt64) : (max left right).toNat = max left.toNat right.toNat := by
  change (if left ≤ right then right else left).toNat = _
  split
  · rename_i below
    exact (Nat.max_eq_right (UInt64.le_iff_toNat_le.mp below)).symm
  · rename_i above
    rw [UInt64.le_iff_toNat_le, Nat.not_le] at above
    exact (Nat.max_eq_left above.le).symm

/-- The words do not overflow: with a rest the limit is at least two. -/
theorem toNat_wordPartCount (size bytes : UInt64) :
    (wordPartCount size bytes).toNat = (ofBytes bytes.toNat).partCount size.toNat := by
  have limit : (max bytes 1).toNat = (ofBytes bytes.toNat).bytes := toNat_max bytes 1
  have rest : 0 < size % max bytes 1 ↔ 0 < size.toNat % (ofBytes bytes.toNat).bytes := by
    rw [UInt64.lt_iff_toNat_lt, UInt64.toNat_mod, limit]
    rfl
  have quotient : (size / max bytes 1).toNat = size.toNat / (ofBytes bytes.toNat).bytes := by
    rw [UInt64.toNat_div, limit]
  rw [partCount_eq]
  unfold wordPartCount
  simp only [rest]
  split
  · rename_i more
    rw [UInt64.toNat_add, quotient, Nat.mod_eq_of_lt]
    · rfl
    · have two : 2 ≤ (ofBytes bytes.toNat).bytes := by
        by_contra small
        have one : (ofBytes bytes.toNat).bytes = 1 := by
          have positive := (ofBytes bytes.toNat).positive
          omega
        rw [one, Nat.mod_one] at more
        omega
      have half : size.toNat / (ofBytes bytes.toNat).bytes ≤ size.toNat / 2 :=
        Nat.div_le_div_left two (by decide)
      have bound := size.toNat_lt
      change _ + 1 < 2 ^ 64
      omega
  · exact quotient

end Threshold

/-! ### Contents in parts -/

/-- A content in parts: all of them have the full size but for the last one, which has at least a
byte. -/
structure CutInto (limit : Nat) (content : ByteArray) (parts : List ByteArray) : Prop where
  count : parts.length = content.size ⌈/⌉ limit
  full : ∀ part ∈ parts.dropLast, part.size = limit
  last : ∀ part ∈ parts.getLast?, 0 < part.size ∧ part.size ≤ limit
  joined : joinParts parts = content

theorem Threshold.partCount_eq_ceilDiv (threshold : Threshold) (size : Nat) :
    threshold.partCount size = size ⌈/⌉ threshold.bytes :=
  (Nat.ceilDiv_eq_add_pred_div size threshold.bytes).symm

theorem Threshold.partCount_le_one (threshold : Threshold) {size : Nat}
    (small : size ≤ threshold.bytes) : threshold.partCount size ≤ 1 := by
  unfold partCount
  rw [Nat.div_le_iff_le_mul_add_pred threshold.positive]
  omega

theorem Threshold.pred_partCount_mul_lt (threshold : Threshold) {size : Nat} (some : 0 < size) :
    (threshold.partCount size - 1) * threshold.bytes < size := by
  have positive := threshold.positive
  have below := Nat.div_mul_le_self (size + threshold.bytes - 1) threshold.bytes
  unfold partCount
  rw [Nat.sub_mul, Nat.one_mul]
  omega

theorem Threshold.cutInto_parts (threshold : Threshold) {content : ByteArray} (some : 0 < content.size) :
    CutInto threshold.bytes content (threshold.parts content) := by
  have reached := threshold.size_le_partCount_mul content.size
  have before := threshold.pred_partCount_mul_lt some
  have sizes : ∀ index, (content.extract (index * threshold.bytes)
      ((index + 1) * threshold.bytes)).size =
        min ((index + 1) * threshold.bytes) content.size - index * threshold.bytes :=
    fun index => ByteArray.size_extract
  constructor
  case count => rw [length_parts, partCount_eq_ceilDiv]
  case joined => exact threshold.joinParts_parts content
  case full =>
    intro part member
    obtain ⟨index, within, rfl⟩ := List.mem_iff_getElem.mp member
    rw [List.length_dropLast, length_parts] at within
    have inside : (index + 1) * threshold.bytes ≤ (threshold.partCount content.size - 1) * threshold.bytes :=
      Nat.mul_le_mul_right _ within
    simp only [List.getElem_dropLast, parts, List.getElem_map, List.getElem_range]
    rw [sizes, Nat.min_eq_left (by omega), Nat.add_mul]
    omega
  case last =>
    intro part atEnd
    have count : threshold.partCount content.size - 1 + 1 = threshold.partCount content.size := by
      apply Nat.sub_add_cancel
      rw [Nat.one_le_iff_ne_zero]
      intro none
      rw [none, Nat.zero_mul] at reached
      omega
    rw [Option.mem_def, List.getLast?_eq_getElem?, length_parts, parts, List.getElem?_map,
      List.getElem?_range (by omega), Option.map_some, Option.some.injEq] at atEnd
    have whole := Nat.sub_mul (threshold.partCount content.size) 1 threshold.bytes
    rw [← atEnd, sizes, count, Nat.min_eq_right reached]
    omega

/-! ### Steps that succeed -/

section Steps

variable {path directory : Path} {name : String} {content : ByteArray} {disk : Disk}

private theorem find?_of_read? (read : disk.read? path = some content) :
    disk.find? path = some (.file content) := by
  obtain ⟨location, found, there⟩ := read?_eq_some_iff.mp read
  unfold find?
  rw [found, Option.bind_some, there]

private theorem removeFile_succeeds (read : disk.read? path = some content) :
    ∃ after, removeFile path disk = .ok () after := by
  obtain ⟨location, found, -⟩ := read?_eq_some_iff.mp read
  unfold removeFile
  simp only [bind_ok_iff, get_ok_iff]
  refine ⟨disk.erase location, disk, disk, ⟨rfl, rfl⟩, ?_⟩
  rw [Disk.isFile, read, Option.isSome_some, if_pos rfl, found]
  rfl

private theorem locate?_joinName (valid : isEntryName name = true) (standing : disk.stands directory)
    (permitted : disk.permits (directory.joinName name)) :
    disk.locate? (directory.joinName name) = some (disk.leadsTo directory ++ [name]) := by
  have all : [name].all isEntryName = true := by simpa using valid
  rw [Path.joinName_eq_joinNames] at permitted ⊢
  refine (locate?_joinNames_iff all).mpr ⟨permitted, standing, ?_, rfl⟩
  simpa using entryAt?_leadsTo_of_stands standing

/-- Only another file has to be moved out of the way by hand. -/
private theorem removeExisting_succeeds (valid : isEntryName name = true)
    (standing : disk.stands directory) (permitted : disk.permits (directory.joinName name))
    (outside : disk.keepsOut directory (disk.leadsTo directory ++ [name]))
    (free : disk.isFile (directory.joinName name) = false) :
    ∃ after, removeExisting (directory.joinName name) disk = .ok () after := by
  have found := locate?_joinName valid standing permitted
  have noDots := endsInDots_of_segments (Path.segments_joinName directory valid) valid
  unfold Disk.isFile Disk.read? find? at free
  rw [found, Option.bind_some] at free
  unfold removeExisting
  simp only [bind_ok_iff, get_ok_iff]
  have there : disk.isThere (directory.joinName name) =
      (disk.entryAt? (disk.leadsTo directory ++ [name])).isSome := by
    unfold isThere find?
    rw [found, Option.bind_some]
  cases entry : disk.entryAt? (disk.leadsTo directory ++ [name]) with
  | none =>
      refine ⟨disk, disk, disk, ⟨rfl, rfl⟩, ?_⟩
      rw [there, entry]
      rfl
  | some standingEntry =>
      cases standingEntry with
      | file content =>
          rw [entry] at free
          cases free
      | directory =>
          refine ⟨disk.erase (disk.leadsTo directory ++ [name]), disk, disk, ⟨rfl, rfl⟩, ?_⟩
          rw [there, entry, Option.isSome_some, if_pos rfl, attempt_ok_iff]
          have all : [name].all isEntryName = true := by simpa using valid
          have own := outside.joinNames all
          rw [leadsTo_joinNames all, ← Path.joinName_eq_joinNames] at own
          exact removeTree_of_locate? found entry own noDots (by simp)

private theorem stands_of_read? (valid : isEntryName name = true)
    (read : disk.read? (directory.joinName name) = some content) :
    disk.stands directory ∧ disk.permits (directory.joinName name) ∧
      disk.entryAt? (disk.leadsTo directory ++ [name]) = some (.file content) := by
  have all : [name].all isEntryName = true := by simpa using valid
  obtain ⟨location, found, there⟩ := read?_eq_some_iff.mp read
  rw [Path.joinName_eq_joinNames] at found ⊢
  obtain ⟨permitted, standing, -, rfl⟩ := (locate?_joinNames_iff all).mp found
  exact ⟨standing, permitted, there⟩

/-! ### Filling a directory of parts -/

/-- Nothing has changed but what stands at a place. A directory is there that a path leads to, and it
has no directories in it. -/
structure BoxOpen (box : Path) (before after : Disk) : Prop where
  setting : before.SameSetting after
  stands : after.stands box
  flat : ∀ entry, after.entryAt? (before.leadsTo box ++ [entry]) ≠ some .directory
  kept : ∀ other, ¬ before.leadsTo box <+: other → after.entryAt? other = before.entryAt? other

section Filling

variable {box : Path} {middle after : Disk}

theorem BoxOpen.write (content : ByteArray) (opened : BoxOpen box disk middle)
    (valid : isEntryName name = true) (permitted : disk.permits (box.joinName name)) :
    ∃ after, writeFile (box.joinName name) content middle = .ok () after ∧
      BoxOpen box disk after := by
  have found := locate?_joinName valid opened.stands ((opened.setting.permits _).mpr permitted)
  rw [opened.setting.leadsTo] at found
  have free := opened.flat name
  have done := @writeFile_of_locate? _ content _ _ found free
  have effect := writeFile_joinName_ok valid done
  simp only [opened.setting.leadsTo] at effect
  refine ⟨_, done, opened.setting.trans effect.setting, ?_, fun entry => ?_, fun other apart => ?_⟩
  · refine effect.setting.stands (fun place member => ?_) opened.stands
    rw [effect.entries, if_neg]
    rintro rfl
    exact free (opened.stands _ member)
  · rw [effect.entries]
    split
    · simp
    · exact opened.flat entry
  · rw [effect.entries, if_neg, opened.kept other apart]
    rintro rfl
    exact apart (List.prefix_append _ _)

theorem BoxOpen.writeParts (index : Nat) (parts : List ByteArray) (opened : BoxOpen box disk middle)
    (permitted : ∀ index < maxParts, disk.permits (box.joinName (partName index)))
    (fits : index + parts.length ≤ maxParts) :
    ∃ after, writeParts box index parts middle = .ok () after ∧ BoxOpen box disk after := by
  induction parts generalizing index middle with
  | nil => exact ⟨middle, rfl, opened⟩
  | cons part rest ih =>
      rw [List.length_cons] at fits
      obtain ⟨next, wrote, stillOpen⟩ := opened.write part (isEntryName_partName index)
        (permitted index (by omega))
      obtain ⟨after, others, open_⟩ := @ih next (index + 1) stillOpen (by omega)
      refine ⟨after, ?_, open_⟩
      unfold Artifacts.writeParts
      rw [bind_ok_iff]
      exact ⟨(), next, attempt_ok_iff.mpr wrote, others⟩

theorem BoxOpen.read? (opened : BoxOpen box disk after) (valid : isEntryName name = true)
    (outside : disk.keepsOut directory (disk.leadsTo box))
    (apart : ¬ disk.leadsTo box <+: disk.leadsTo directory ++ [name])
    (read : disk.read? (directory.joinName name) = some content) :
    after.read? (directory.joinName name) = some content := by
  obtain ⟨standing, permitted, there⟩ := stands_of_read? valid read
  have own := entryAt?_leadsTo_of_stands opened.stands
  rw [opened.setting.leadsTo] at own
  have stillStands := opened.setting.stands_of_outside outside opened.kept own standing
  rw [read?_eq_some_iff]
  refine ⟨_, locate?_joinName valid stillStands ((opened.setting.permits _).mpr permitted), ?_⟩
  rw [opened.setting.leadsTo, opened.kept _ apart, there]

end Filling

/-- What stands at a name in a directory can be replaced by an empty directory, if it is no file and
the path of the directory does not come through it. -/
private theorem renewDirectory_succeeds (valid : isEntryName name = true)
    (standing : disk.stands directory) (permitted : disk.permits (directory.joinName name))
    (free : disk.isFile (directory.joinName name) = false)
    (outside : disk.keepsOut directory (disk.leadsTo directory ++ [name]))
    (start : disk.origin directory ≠ disk.leadsTo directory ++ [name]) :
    ∃ cleared made, removeExisting (directory.joinName name) disk = .ok () cleared ∧
      makeDirectories (directory.joinName name) cleared = .ok () made ∧
      BoxOpen (directory.joinName name) disk made := by
  have all : [name].all isEntryName = true := by simpa using valid
  obtain ⟨cleared, removed⟩ := removeExisting_succeeds valid standing permitted outside free
  have emptied := removed
  rw [Path.joinName_eq_joinNames] at emptied
  have gone := (removeExisting_joinNames_ok all (List.cons_ne_nil _ _) outside emptied).1
    ⟨standing, by rw [← Path.joinName_eq_joinNames]; exact permitted⟩
  -- the way starts in a directory, so not at the one that is gone
  have startsIn : disk.origin directory ∈ disk.way directory := start_mem_trail _ _
  have startThere : cleared.entryAt? (disk.origin directory) = some .directory := by
    rw [gone.entries, if_neg fun within => start (outside _ startsIn within)]
    exact standing _ startsIn
  have missing : cleared.entryAt? (disk.leadsTo directory ++ [name]) = none := by
    rw [gone.entries, if_pos List.prefix_rfl]
  have aim := leadsTo_joinName disk directory valid
  obtain ⟨-, stillOutside, onWay⟩ := passes_of_joinName valid
    (fun place member => .inr (standing place member)) outside
  rw [aim] at stillOutside
  have passes : ∀ place ∈ disk.way (directory.joinName name),
      place = disk.leadsTo directory ++ [name] ∨ cleared.entryAt? place = some .directory := by
    intro place member
    by_cases within : disk.leadsTo directory ++ [name] <+: place
    · exact .inl (stillOutside place member within)
    · right
      rw [gone.entries, if_neg within]
      exact standing place (onWay place member within)
  rw [← gone.setting.way] at passes
  have sameStart : cleared.origin (directory.joinName name) = disk.origin directory := by
    rw [gone.setting.origin, Path.joinName_eq_joinNames, origin_joinNames all]
  rw [← sameStart] at startThere
  obtain ⟨made, prepared⟩ := makeDirectories_succeeds (Path.isTidy_joinName directory valid)
    ((gone.setting.permits _).mpr permitted) startThere missing passes
  obtain ⟨setting, renewed, elsewhere⟩ := renewDirectory_ok valid
    (fun place member => .inr (standing place member)) outside removed prepared
  have kept : ∀ other, ¬ disk.leadsTo directory ++ [name] <+: other →
      made.entryAt? other = disk.entryAt? other := by
    intro other apart
    rcases elsewhere other apart with same | ⟨absent, -, onWay⟩
    · exact same
    · rw [standing other onWay] at absent
      cases absent
  have there : made.entryAt? (disk.leadsTo directory ++ [name]) = some .directory := by
    simpa using renewed []
  refine ⟨cleared, made, removed, prepared, setting, ?_, fun entry => ?_, ?_⟩
  · rw [Path.joinName_eq_joinNames, stands_joinNames all, setting.leadsTo]
    exact ⟨setting.stands_of_outside outside kept there standing, there⟩
  · rw [aim, renewed]
    simp
  · rw [aim]
    exact kept

end Steps

/-! ### One file -/

/-- In a directory stand the script, the parts in order, and nothing else. -/
structure HoldsParts (name : String) (parts : List ByteArray) (box : Location) (disk : Disk) :
    Prop where
  directory : disk.entryAt? box = some .directory
  script : disk.entryAt? (box ++ [scriptName]) = some (.file (reassembleScript name).toUTF8)
  part : ∀ index part, parts[index]? = some part →
    disk.entryAt? (box ++ [partName index]) = some (.file part)
  only : ∀ rest, disk.entryAt? (box ++ rest) ≠ none →
    rest = [] ∨ rest = [scriptName] ∨ ∃ index < parts.length, rest = [partName index]

/-- The directory of parts stands in place of the file, and of what stood there before; nothing else
has changed. Merging it gives the file back. -/
structure SplitsAndMerges (threshold : Threshold) (file : Path) (content : ByteArray)
    (before after : Disk) : Prop where
  setting : before.SameSetting after
  parts : ∃ parts, CutInto threshold.bytes content parts ∧
    HoldsParts (file.fileName?.getD "") parts (before.leadsTo (splitDirectory file)) after
  gone : after.entryAt? (before.leadsTo file) = none
  elsewhere : ∀ other, other ≠ before.leadsTo file →
    ¬ before.leadsTo (splitDirectory file) <+: other → after.entryAt? other = before.entryAt? other
  merges : ∃ target last, mergeDirectory (splitDirectory file) after = .ok (some target) last ∧
    target.components = file.components ∧ before.Becomes (fun other =>
      if before.leadsTo (splitDirectory file) <+: other then none else before.entryAt? other) last

/-- There is room for the directory of parts of a file: no other file has its name, the paths of what
goes into it keep to the limits, and the path of the file neither starts from it nor passes anything
below it. -/
structure HasRoomForParts (file : Path) (disk : Disk) : Prop where
  free : disk.isFile (splitDirectory file) = false
  permitted : disk.permits ((splitDirectory file).joinName scriptName)
  outside : disk.keepsOut file (disk.leadsTo (splitDirectory file))
  start : disk.origin file ≠ disk.leadsTo (splitDirectory file)

section Room

variable {threshold : Threshold} {directory : Path} {name : String} {content : ByteArray}
  {disk after : Disk}

section Undivided

variable {file : Path} (read : disk.read? file = some content)

include read

theorem splitFile_of_small (small : content.size ≤ threshold.bytes) :
    splitFile threshold file disk = .ok none disk := by
  have fits : entrySize (.file content) ≤ threshold.bytes := small
  unfold splitFile
  rw [get_bind, find?_of_read? read]
  dsimp only
  rw [if_pos fits]
  rfl

theorem splitFile_of_many (many : maxParts < threshold.partCount content.size) :
    splitFile threshold file disk =
      .error (.capacity file content.size (threshold.partCount content.size)) disk := by
  have large : ¬ entrySize (.file content) ≤ threshold.bytes := fun small =>
    absurd (many.trans_le (threshold.partCount_le_one small)) (by decide)
  have crowded : maxParts < threshold.partCount (entrySize (.file content)) := many
  unfold splitFile
  rw [get_bind, find?_of_read? read]
  dsimp only
  rw [if_neg large, if_pos crowded]
  rfl

end Undivided

/-- What the room for the directory of parts means for the directory that it stands in, by the path
that splitting uses for it. -/
theorem HasRoomForParts.tidied (room : HasRoomForParts (directory.joinName name) disk)
    (valid : isEntryName name = true) :
    disk.isFile (directory.tidied.joinName (name ++ splitSuffix)) = false ∧
      disk.permits ((directory.tidied.joinName (name ++ splitSuffix)).joinName scriptName) ∧
      disk.keepsOut directory (disk.leadsTo directory.tidied ++ [name ++ splitSuffix]) ∧
      disk.origin directory.tidied ≠ disk.leadsTo directory.tidied ++ [name ++ splitSuffix] := by
  have all : [name].all isEntryName = true := by simpa using valid
  have aim := leadsTo_joinName disk directory.tidied (isEntryName_append_splitSuffix valid)
  obtain ⟨free, permitted, outside, start⟩ := room
  rw [splitDirectory_joinName directory valid] at free permitted outside start
  rw [aim] at outside start
  refine ⟨free, permitted, fun place member => outside place ?_, ?_⟩
  · rw [Path.joinName_eq_joinNames, mem_way_joinNames all]
    exact .inl member
  · rw [Path.joinName_eq_joinNames, origin_joinNames all] at start
    unfold origin at start ⊢
    rw [directory.isAbsolute_tidied]
    exact start

theorem splitFile_succeeds (valid : isEntryName name = true)
    (read : disk.read? (directory.joinName name) = some content)
    (large : threshold.bytes < content.size) (fits : threshold.partCount content.size ≤ maxParts)
    (room : HasRoomForParts (directory.joinName name) disk) :
    ∃ after, splitFile threshold (directory.joinName name) disk =
      .ok (some (splitDirectory (directory.joinName name))) after := by
  have splitValid := isEntryName_append_splitSuffix valid
  obtain ⟨standing, -, there⟩ := stands_of_read? valid read
  obtain ⟨free, permitted, outside, start⟩ := room.tidied valid
  obtain ⟨aim, passed⟩ := way_of_tidied disk directory
  have apart : ¬ disk.leadsTo directory.tidied ++ [name ++ splitSuffix] <+:
      disk.leadsTo directory ++ [name] := by
    rw [aim]
    exact splitDirectory_apart _ name []
  have boxAim := leadsTo_joinName disk directory.tidied splitValid
  rw [splitDirectory_joinName directory valid]
  obtain ⟨cleared, made, removed, prepared, opened⟩ := renewDirectory_succeeds splitValid
    (fun place member => standing place ((passed place).mp member))
    (permits_box splitValid permitted) free
    (fun place member => outside place ((passed place).mp member)) start
  rw [← boxAim] at outside apart
  obtain ⟨scripted, wrote, withScript⟩ := opened.write (reassembleScript name).toUTF8
    (by decide : isEntryName scriptName = true) permitted
  have read' := find?_of_read? (withScript.read? valid outside apart read)
  obtain ⟨stored, filled, withParts⟩ := withScript.writeParts 0 (threshold.parts content)
    (fun index within => permits_part within permitted) (by
      rw [Nat.zero_add, Threshold.length_parts]
      exact fits)
  obtain ⟨after, taken⟩ := removeFile_succeeds (withParts.read? valid outside apart read)
  have stores : storeParts threshold (directory.joinName name)
      (directory.tidied.joinName (name ++ splitSuffix)) scripted = .ok () stored := by
    unfold storeParts
    simp only [bind_ok_iff, get_ok_iff]
    refine ⟨scripted, scripted, ⟨rfl, rfl⟩, ?_⟩
    rw [read']
    exact filled
  have tooLarge : ¬ entrySize (.file content) ≤ threshold.bytes := Nat.not_le.mpr large
  have enough : ¬ maxParts < threshold.partCount (entrySize (.file content)) := Nat.not_lt.mpr fits
  refine ⟨after, ?_⟩
  unfold splitFile
  rw [get_bind, find?_of_read? read]
  dsimp only
  rw [if_neg tooLarge, if_neg enough, Path.fileName?_joinName directory valid, Option.getD_some,
    splitDirectory_joinName directory valid]
  simp only [bind_ok_iff, attempt_ok_iff, pure_ok_iff]
  exact ⟨(), cleared, removed, (), made, prepared, (), scripted, wrote, (), stored, stores, (), after,
    taken, trivial, rfl⟩

theorem holdsParts_of_partEntryAt? {box : Location}
    (fits : (threshold.parts content).length ≤ maxParts)
    (holds : ∀ rest, after.entryAt? (box ++ rest) = partEntryAt? threshold name content rest) :
    HoldsParts name (threshold.parts content) box after := by
  constructor
  case directory =>
    rw [← List.append_nil box, holds]
    rfl
  case script => rw [holds, partEntryAt?_script]
  case part =>
    intro index part there
    obtain ⟨within, rfl⟩ := List.getElem?_eq_some_iff.mp there
    rw [holds, partEntryAt?_part fits within]
  case only =>
    intro rest there
    rw [holds] at there
    match rest with
    | [] => exact .inl rfl
    | [entry] =>
        obtain ⟨found, present⟩ := Option.ne_none_iff_exists'.mp there
        rcases partEntryAt?_eq_some present with ⟨rfl, -⟩ | ⟨index, within, rfl, -⟩
        · exact .inr (.inl rfl)
        · exact .inr (.inr ⟨index, within, rfl⟩)
    | first :: second :: later => exact absurd rfl there

/-! What splitting leaves at the places of the file, of its directory of parts and of all others. -/

private theorem splitView_file {top : Location} :
    splitView threshold disk top name content (top ++ [name]) = none :=
  if_pos rfl

private theorem splitView_inside {top : Location} (rest : Location) :
    splitView threshold disk top name content (top ++ [name ++ splitSuffix] ++ rest) =
      partEntryAt? threshold name content rest := by
  rw [splitView, if_neg, if_pos (List.prefix_append _ _), List.append_assoc,
    List.singleton_append, drop_concat]
  intro same
  exact splitDirectory_apart top name [] (same ▸ List.prefix_append _ _)

private theorem splitView_elsewhere {top other : Location} (noFile : other ≠ top ++ [name])
    (outside : ¬ top ++ [name ++ splitSuffix] <+: other) :
    splitView threshold disk top name content other = disk.entryAt? other := by
  rw [splitView, if_neg noFile, if_neg outside]

section File

variable (valid : isEntryName name = true)
  (read : disk.read? (directory.joinName name) = some content)
  (room : HasRoomForParts (directory.joinName name) disk)

include valid read room

private theorem merge_of_splitView (fits : threshold.partCount content.size ≤ maxParts)
    (effect : disk.Becomes (splitView threshold disk (disk.leadsTo directory) name content) after) :
    ∃ last, mergeDirectory (directory.tidied.joinName (name ++ splitSuffix)) after =
        .ok (some (directory.tidied.joinName name)) last ∧
      disk.Becomes (fun other => if disk.leadsTo directory ++ [name ++ splitSuffix] <+: other then none
        else disk.entryAt? other) last := by
  have splitValid := isEntryName_append_splitSuffix valid
  have apart := splitDirectory_apart (disk.leadsTo directory) name []
  obtain ⟨standing, -, there⟩ := stands_of_read? valid read
  obtain ⟨-, permitted, outside, -⟩ := room.tidied valid
  obtain ⟨aim, passed⟩ := way_of_tidied disk directory
  rw [aim] at outside
  have boxPermitted := permits_box splitValid permitted
  have boxThere : after.entryAt? (disk.leadsTo directory ++ [name ++ splitSuffix]) =
      some .directory := by
    rw [← List.append_nil (_ ++ [_]), effect.entries, splitView_inside]
    rfl
  -- the path of the directory may pass the directory of parts, which is there again
  have standsAfter : after.stands directory.tidied := by
    intro place member
    rw [effect.setting.way, passed] at member
    by_cases within : disk.leadsTo directory ++ [name ++ splitSuffix] <+: place
    · rw [outside place member within]
      exact boxThere
    · rw [effect.entries, splitView_elsewhere ?_ within]
      · exact standing place member
      · rintro rfl
        rw [standing _ member] at there
        cases there
  have sameAim : after.leadsTo directory.tidied = disk.leadsTo directory := by
    rw [effect.setting.leadsTo, aim]
  have boxDirectory : after.isDirectory (directory.tidied.joinName (name ++ splitSuffix)) = true := by
    refine isDirectory_iff.mpr ⟨(effect.setting.permits _).mpr boxPermitted, ?_⟩
    rw [Path.joinName_eq_joinNames, stands_joinNames (by simpa using splitValid), sameAim]
    exact ⟨standsAfter, boxThere⟩
  have holds : ∀ rest, after.entryAt? (after.leadsTo directory.tidied ++ [name ++ splitSuffix] ++ rest) =
      partEntryAt? threshold name content rest := by
    intro rest
    rw [sameAim, effect.entries, splitView_inside]
  have partsPermitted : ∀ index < (threshold.parts content).length, after.permits
      ((directory.tidied.joinName (name ++ splitSuffix)).joinName (partName index)) := by
    intro index within
    rw [Threshold.length_parts] at within
    exact (effect.setting.permits _).mpr (permits_part (by omega) permitted)
  have free : after.entryAt? (after.leadsTo directory.tidied ++ [name]) ≠ some .directory := by
    rw [sameAim, effect.entries, splitView_file]
    simp
  obtain ⟨last, merged, restored⟩ :=
    mergeDirectory_succeeds valid fits boxDirectory holds partsPermitted free
  rw [directory.tidied_tidied] at merged
  rw [sameAim] at restored
  refine ⟨last, merged, effect.setting.trans restored.setting, fun other => ?_⟩
  rw [restored.entries]
  by_cases isFile : other = disk.leadsTo directory ++ [name]
  · rw [if_pos isFile, isFile, if_neg apart, there]
  · rw [if_neg isFile]
    split
    · rfl
    · rename_i outsideBox
      rw [effect.entries, splitView_elsewhere isFile outsideBox]

theorem splitsAndMerges_of_splitFile {result : Option Path} (large : threshold.bytes < content.size)
    (done : splitFile threshold (directory.joinName name) disk = .ok result after) :
    SplitsAndMerges threshold (directory.joinName name) content disk after := by
  obtain ⟨-, -, there⟩ := stands_of_read? valid read
  obtain ⟨-, -, outside, -⟩ := room.tidied valid
  have whole := splitDirectory_joinName directory valid
  have fileAim := leadsTo_joinName disk directory valid
  have boxAim := leadsTo_joinName disk directory.tidied (isEntryName_append_splitSuffix valid)
  rw [(way_of_tidied disk directory).1] at outside boxAim
  obtain ⟨entry, own, outcome⟩ := splitFile_ok valid outside done
  rw [there, Option.some.injEq] at own
  subst own
  rcases outcome with ⟨small, -, -⟩ | ⟨_, same, -, fits, -, -, effect⟩
  · exact absurd small (Nat.not_le.mpr large)
  cases same
  constructor
  case setting => exact effect.setting
  case parts =>
    refine ⟨_, threshold.cutInto_parts (by omega), ?_⟩
    rw [Path.fileName?_joinName directory valid, Option.getD_some, whole, boxAim]
    refine holdsParts_of_partEntryAt? ?_ fun rest => ?_
    · rw [Threshold.length_parts]
      exact fits
    · rw [effect.entries, splitView_inside]
  case gone => rw [fileAim, effect.entries, splitView_file]
  case elsewhere =>
    rw [fileAim, whole, boxAim]
    intro other noFile outsideBox
    rw [effect.entries, splitView_elsewhere noFile outsideBox]
  case merges =>
    obtain ⟨last, merged, restored⟩ := merge_of_splitView valid read room fits effect
    rw [whole, boxAim]
    exact ⟨_, last, merged, directory.components_tidied_joinName valid, restored⟩

end File

end Room

/-- A file of three bytes beside an old directory of parts. -/
def staleDisk : Disk :=
  { entries := [(["w"], .directory), (["w", "f"], .file ⟨#[1, 2, 3]⟩), (["w", "g"], .file ⟨#[4]⟩),
      (["w", "f.split.file.dir"], .directory), (["w", "f.split.file.dir", "s"], .directory),
      (["w", "f.split.file.dir", "xx.07"], .file ⟨#[9]⟩)]
    workingDirectory := ["w"]
    limits := some ⟨255, 4095⟩
    keysDistinct := by decide +kernel
    parentsThere := by decide +kernel
    namesValid := by decide +kernel }

/-- A file that is too large for one part and fits into a hundred is split and merges again, as long
as no file has the name of its directory of parts. -/
def SplitsWhenFree (threshold : Threshold) (file : Path) (disk : Disk) : Prop :=
  ∀ content, disk.read? file = some content → threshold.bytes < content.size →
    threshold.partCount content.size ≤ 100 → disk.isFile (splitDirectory file) = false →
      ∃ after, splitFile threshold file disk = .ok (some (splitDirectory file)) after ∧
        SplitsAndMerges threshold file content disk after

/-- The run fails, or something else than parts stands under a name in their directory. -/
def splitsAmiss (threshold : Threshold) (file : Path) (entry : String) (disk : Disk) : Bool :=
  match disk.read? file with
  | none => false
  | some content =>
      decide (threshold.bytes < content.size ∧ threshold.partCount content.size ≤ 100 ∧
        disk.isFile (splitDirectory file) = false) &&
      match splitFile threshold file disk with
      | .error _ _ => true
      | .ok _ after => decide (entry ∉ scriptName :: (List.range 100).map partName ∧
          after.entryAt? (disk.leadsTo (splitDirectory file) ++ [entry]) ≠ none)

theorem not_splitsWhenFree {threshold : Threshold} {file : Path} {entry : String} {disk : Disk}
    (amiss : splitsAmiss threshold file entry disk = true) : ¬ SplitsWhenFree threshold file disk := by
  intro claimed
  unfold splitsAmiss at amiss
  split at amiss
  · cases amiss
  · rename_i content read
    rw [Bool.and_eq_true, decide_eq_true_eq] at amiss
    obtain ⟨⟨large, fits, free⟩, amiss⟩ := amiss
    obtain ⟨after, done, result⟩ := claimed content read large fits free
    rw [done] at amiss
    dsimp only at amiss
    obtain ⟨other, there⟩ := of_decide_eq_true amiss
    obtain ⟨parts, cut, holds⟩ := result.parts
    have count : parts.length ≤ 100 := by
      rw [cut.count, ← threshold.partCount_eq_ceilDiv]
      exact fits
    apply other
    rcases holds.only [entry] there with none | script | ⟨index, within, part⟩
    · cases none
    · rw [(List.cons.inj script).1]
      exact List.mem_cons_self
    · rw [(List.cons.inj part).1]
      exact List.mem_cons_of_mem _ (List.mem_map_of_mem (List.mem_range.mpr (by omega)))

/-- A file with a name that a file can have but, with the suffix, no directory. -/
def longNameDisk : Disk :=
  { entries := [(["release"], .file ⟨#[1, 2]⟩)]
    workingDirectory := []
    limits := some ⟨20, 4095⟩
    keysDistinct := by decide +kernel
    parentsThere := by decide +kernel
    namesValid := by decide +kernel }

private theorem fails_on_long_name :
    splitsAmiss (.ofBytes 1) ⟨"release"⟩ "s" longNameDisk = true := by
  decide +kernel

/-- The path passes a directory in the old directory of parts, which is made again for it. -/
private theorem keeps_passed_directory :
    splitsAmiss (.ofBytes 2) ⟨"f.split.file.dir/s/../../f"⟩ "s" staleDisk = true := by
  decide +kernel

/-- The path starts in the old directory of parts, and nothing can be reached once it is gone. -/
private theorem loses_start : splitsAmiss (.ofBytes 2) ⟨"../f"⟩ "s"
    { staleDisk with workingDirectory := ["w", "f.split.file.dir"] } = true := by
  decide +kernel

end CrossBuild.Artifacts
