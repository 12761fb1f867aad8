/-
Trees of which some files have been replaced by their parts.

The tree may hold directories of parts from before, and the path of its root may come through one of
them. Files in such a directory are left alone. Here is what it does to the tree to split one of the
others; which of them a walk splits is said elsewhere.
-/

import CrossBuild.Proofs.Artifacts.PartlySplit

namespace CrossBuild.Artifacts

open Files Files.Disk Runs

/-- Some large files of a tree have been replaced by their parts, and nothing else has changed. None of
the files was in a directory of parts, and in place of their own stood no file. The new directories also
hold directories that the path of the root passes. -/
structure Reduced (threshold : Threshold) (root : Path) (start : Disk) (split : List Location)
    (disk : Disk) : Prop where
  setting : start.SameSetting disk
  standing : disk.stands root
  distinct : split.Nodup
  large : splittable threshold (treeBelow root start) split
  outside : ∀ file ∈ split, isPlain file.dropLast
  permitted : ∀ file ∈ split,
    start.permits ((splitDirectory (Spot.path ⟨root, file⟩)).joinName scriptName)
  free : ∀ file ∈ split, ∀ content, treeBelow root start (partsPlace file) ≠ some (.file content)
  gone : ∀ file ∈ split, treeBelow root disk file = none
  inside : ∀ front name content, front ++ [name] ∈ split →
    treeBelow root start (front ++ [name]) = some (.file content) → ∀ rest,
      treeBelow root disk (front ++ [name ++ splitSuffix] ++ rest) =
          partEntryAt? threshold name content rest ∨
        partEntryAt? threshold name content rest = none ∧
          treeBelow root disk (front ++ [name ++ splitSuffix] ++ rest) = some .directory ∧
          start.leadsTo root ++ (front ++ [name ++ splitSuffix] ++ rest) ∈ start.way root
  elsewhere : ∀ place, (∀ file ∈ split, place ≠ start.leadsTo root ++ file ∧
    ¬ start.leadsTo root ++ partsPlace file <+: place) → disk.entryAt? place = start.entryAt? place

/-- A file comes before the directory of its parts. -/
theorem lt_append_splitSuffix (name : String) : name < name ++ splitSuffix := by
  rw [String.lt_iff_toList_lt, String.toList_append]
  have first : List.Lex (· < ·) [] splitSuffix.toList := by decide
  have behind := List.Lex.append_left (· < ·) first name.toList
  rw [List.append_nil] at behind
  exact behind

section Reduced

variable {threshold : Threshold} {root : Path} {start disk after : Disk} {split : List Location}
  {front file : Location} {name : String}

/-- A place whose directory is in no directory of parts is such a directory itself or in none. -/
theorem eq_of_partsPlace_prefix {other : Location} {base : String} (plain : isPlain front)
    (nonempty : base ≠ "") (within : other ++ [base ++ splitSuffix] <+: front ++ [name]) :
    front ++ [base] = other ++ [base] ∧ name = base ++ splitSuffix := by
  rcases List.prefix_concat_iff.mp within with same | below
  · obtain ⟨rfl, last⟩ := List.append_inj' same rfl
    exact ⟨rfl, (List.singleton_inj.mp last).symm⟩
  · exact absurd (below.subset (by simp)) (plain.notMem nonempty)

theorem reduced_nil (threshold : Threshold) (there : start.isDirectory root = true) :
    Reduced threshold root start [] start where
  setting := .refl start
  standing := (isDirectory_iff.mp there).2
  distinct := List.nodup_nil
  large := fun _ absent => nomatch absent
  outside := fun _ absent => nomatch absent
  permitted := fun _ absent => nomatch absent
  free := fun _ absent => nomatch absent
  gone := fun _ absent => nomatch absent
  inside := fun _ _ _ absent => nomatch absent
  elsewhere := fun _ _ => rfl

variable (known : Reduced threshold root start split disk)

include known

theorem Reduced.exists_name (member : file ∈ split) :
    ∃ front name content, file = front ++ [name] ∧ isPlain front ∧ name ≠ "" ∧
      treeBelow root start (front ++ [name]) = some (.file content) ∧
      threshold.bytes < content.size := by
  obtain ⟨content, isFile, size, -⟩ := known.large file member
  have valid := valid_of_treeBelow (by rw [isFile]; simp : treeBelow root start file ≠ none)
  cases file using List.reverseRecOn with
  | nil =>
      have stays := known.gone [] member
      have top := entryAt?_leadsTo_of_stands known.standing
      unfold treeBelow at stays
      rw [List.append_nil, top] at stays
      cases stays
  | append_singleton front name =>
      have frontPlain := known.outside _ member
      rw [List.dropLast_concat] at frontPlain
      exact ⟨front, name, content, rfl, frontPlain,
        (isEntryName_iff.mp (all_isEntryName_concat.mp valid).2).1, isFile, size⟩

theorem Reduced.box (member : front ++ [name] ∈ split) :
    treeBelow root disk (front ++ [name ++ splitSuffix]) = some .directory := by
  obtain ⟨content, isFile, -⟩ := known.large _ member
  rcases known.inside front name content member isFile [] with same | ⟨nothing, -⟩
  · rw [List.append_nil] at same
    exact same
  · cases nothing

/-- Outside of directories of parts only the files and their directories of parts differ. -/
theorem Reduced.treeBelow_eq (plain : isPlain front) (whole : front ++ [name] ∉ split)
    (noParts : ∀ base, name = base ++ splitSuffix → front ++ [base] ∉ split) :
    treeBelow root disk (front ++ [name]) = treeBelow root start (front ++ [name]) := by
  unfold treeBelow
  rw [known.setting.leadsTo]
  apply known.elsewhere
  intro file member
  constructor
  · intro same
    rw [List.append_cancel_left same] at whole
    exact whole member
  · intro within
    rw [List.prefix_append_right_inj] at within
    obtain ⟨other, base, -, rfl, -, nonempty, -⟩ := known.exists_name member
    rw [partsPlace_concat] at within
    obtain ⟨same, suffixed⟩ := eq_of_partsPlace_prefix plain nonempty within
    exact noParts base suffixed (same ▸ member)

theorem Reduced.treeBelow_eq_of_plain (plain : isPlain (front ++ [name]))
    (whole : front ++ [name] ∉ split) :
    treeBelow root disk (front ++ [name]) = treeBelow root start (front ++ [name]) := by
  refine known.treeBelow_eq (isPlain_append.mp plain).1 whole ?_
  rintro base rfl member
  obtain ⟨other, _, -, same, -, nonempty, -⟩ := known.exists_name member
  obtain ⟨-, last⟩ := List.append_inj' same rfl
  rw [← List.singleton_inj.mp last] at nonempty
  exact plain.notMem nonempty (by simp)

/-- A file outside of directories of parts was there at the start. -/
theorem Reduced.file_of_file {content : ByteArray} (plain : isPlain front)
    (isFile : treeBelow root disk (front ++ [name]) = some (.file content)) :
    front ++ [name] ∉ split ∧ treeBelow root start (front ++ [name]) = some (.file content) := by
  have whole : front ++ [name] ∉ split := by
    intro member
    rw [known.gone _ member] at isFile
    cases isFile
  refine ⟨whole, ?_⟩
  rw [← known.treeBelow_eq plain whole, isFile]
  rintro base rfl member
  rw [known.box member] at isFile
  cases isFile

/-- Where nothing is split yet, a directory holds what it held at the start. -/
theorem Reduced.treeBelow_fresh (plain : isPlain front) (fresh : ∀ file ∈ split, ¬ front <+: file) :
    treeBelow root disk (front ++ [name]) = treeBelow root start (front ++ [name]) :=
  known.treeBelow_eq plain (fun member => fresh _ member (List.prefix_append _ _))
    fun _ _ member => fresh _ member (List.prefix_append _ _)

/-- Where a directory stands, in parts or not, there was no file at the start. -/
theorem Reduced.not_file_of_directory {content : ByteArray} (plain : isPlain front)
    (directory : treeBelow root disk (front ++ [name]) = some .directory) :
    treeBelow root start (front ++ [name]) ≠ some (.file content) := by
  intro isFile
  by_cases parts : ∃ base, name = base ++ splitSuffix ∧ front ++ [base] ∈ split
  · obtain ⟨base, rfl, member⟩ := parts
    rw [← partsPlace_concat] at isFile
    exact known.free _ member content isFile
  · have whole : front ++ [name] ∉ split := by
      intro member
      rw [known.gone _ member] at directory
      cases directory
    rw [known.treeBelow_eq plain whole fun base same member => parts ⟨base, same, member⟩,
      isFile] at directory
    cases directory

theorem Reduced.leadsTo_spot (valid : front.all isEntryName = true) :
    disk.leadsTo (Spot.path ⟨root, front⟩) = start.leadsTo root ++ front := by
  rw [Artifacts.leadsTo_spot disk (show (Spot.mk root front).names.all isEntryName = true from valid),
    known.setting.leadsTo]

theorem Reduced.isDirectory_iff (valid : front.all isEntryName = true) :
    disk.isDirectory (Spot.path ⟨root, front⟩) = true ↔
      start.permits (Spot.path ⟨root, front⟩) ∧ treeBelow root disk front = some .directory := by
  rw [isDirectory_spot_iff known.standing valid, known.setting.permits]

omit known in
private theorem mem_way_of_below {place : Location} {child : String}
    (valid : front.all isEntryName = true) (passed : place ∈ disk.way (Spot.path ⟨root, front⟩))
    (below : disk.leadsTo root ++ front ++ [child] <+: place) : place ∈ disk.way root := by
  by_cases atTop : front = []
  · subst atTop
    exact passed
  · rw [Spot.path_of_names valid atTop, mem_way_joinNames valid] at passed
    rcases passed with before | ⟨start, within, rfl⟩
    · exact before
    · exfalso
      rw [List.append_assoc, List.prefix_append_right_inj] at below
      exact not_concat_prefix_self front child (below.trans within)

omit known in
private theorem stands_of_spot (valid : front.all isEntryName = true)
    (standing : disk.stands (Spot.path ⟨root, front⟩)) : disk.stands root := by
  by_cases atTop : front = []
  · subst atTop
    exact standing
  · rw [Spot.path_of_names valid atTop, stands_joinNames valid] at standing
    exact standing.1

/-- A directory of parts that no split file is named like is around no such file. -/
private theorem Reduced.not_within (nonempty : name ≠ "") (noBox : front ++ [name ++ splitSuffix] ∉ split)
    (member : file ∈ split) : ¬ front ++ [name ++ splitSuffix] <+: file := by
  intro within
  obtain ⟨other, base, -, rfl, otherPlain, -⟩ := known.exists_name member
  obtain ⟨same, rfl⟩ := eq_of_partsPlace_prefix otherPlain nonempty within
  rw [(List.append_inj' same rfl).1] at member
  exact noBox member

/-- The parts that were made before are neither a file of the start nor in the directory of its parts. -/
private theorem Reduced.parts_apart {content : ByteArray} {other rest : Location} {base : String}
    (plain : isPlain front) (nonempty : name ≠ "") (fresh : front ++ [name] ∉ split)
    (isFile : treeBelow root start (front ++ [name]) = some (.file content))
    (member : other ++ [base] ∈ split) :
    other ++ [base ++ splitSuffix] ++ rest ≠ front ++ [name] ∧
      ¬ front ++ [name ++ splitSuffix] <+: other ++ [base ++ splitSuffix] ++ rest := by
  obtain ⟨_, _, _, same, otherPlain, otherNonempty, -⟩ := known.exists_name member
  obtain ⟨rfl, last⟩ := List.append_inj' same rfl
  obtain rfl := List.singleton_inj.mp last
  constructor
  · intro same
    obtain ⟨own, rfl⟩ := eq_of_partsPlace_prefix plain otherNonempty (same ▸ List.prefix_append _ _)
    rw [(List.append_inj' own rfl).1] at isFile
    exact known.free _ member content (by rw [partsPlace_concat]; exact isFile)
  · intro within
    rw [List.append_assoc, List.singleton_append,
      parts_prefix_iff plain otherPlain nonempty otherNonempty] at within
    exact fresh (within ▸ member)

section Replaced

variable {content : ByteArray} (frontValid : front.all isEntryName = true)
  (replaced : PartsReplace threshold (Spot.path ⟨root, front⟩) name content disk after)

include frontValid replaced

omit known in
private theorem stands_of_replaced (nameValid : isEntryName name = true) : after.stands root := by
  have there := (Disk.isDirectory_iff.mp replaced.there).2
  have boxValid := isEntryName_append_splitSuffix nameValid
  rw [splitDirectory_joinName _ nameValid, Path.joinName_eq_joinNames,
    stands_joinNames (by simpa using boxValid)] at there
  have whole : after.stands (Spot.path ⟨root, front⟩) := fun place member =>
    there.1 place (((way_of_tidied after _).2 place).mpr member)
  exact stands_of_spot frontValid whole

/-- Beside a file and the directory of its parts, splitting the file changes nothing. -/
private theorem Reduced.treeBelow_replaced {place : Location} (notFile : place ≠ front ++ [name])
    (outside : ¬ front ++ [name ++ splitSuffix] <+: place) :
    treeBelow root after place = treeBelow root disk place := by
  unfold treeBelow
  rw [(known.setting.trans replaced.setting).leadsTo, known.setting.leadsTo]
  apply replaced.elsewhere
  · rw [known.leadsTo_spot frontValid, List.append_assoc]
    exact fun same => notFile (List.append_cancel_left same)
  · rw [known.leadsTo_spot frontValid, List.append_assoc, List.prefix_append_right_inj]
    exact outside

/-- The file that has just been split is gone. -/
private theorem Reduced.gone_replaced : treeBelow root after (front ++ [name]) = none := by
  unfold treeBelow
  rw [(known.setting.trans replaced.setting).leadsTo, ← List.append_assoc,
    ← known.leadsTo_spot frontValid]
  exact replaced.gone

/-- Its directory of parts holds its parts, and at most directories on the way of the root. -/
private theorem Reduced.inside_replaced (rest : Location) :
    treeBelow root after (front ++ [name ++ splitSuffix] ++ rest) =
        partEntryAt? threshold name content rest ∨
      partEntryAt? threshold name content rest = none ∧
        treeBelow root after (front ++ [name ++ splitSuffix] ++ rest) = some .directory ∧
        start.leadsTo root ++ (front ++ [name ++ splitSuffix] ++ rest) ∈ start.way root := by
  have aim := known.leadsTo_spot frontValid
  have spelled : treeBelow root after (front ++ [name ++ splitSuffix] ++ rest) =
      after.entryAt? (disk.leadsTo (Spot.path ⟨root, front⟩) ++ [name ++ splitSuffix] ++ rest) := by
    unfold treeBelow
    rw [(known.setting.trans replaced.setting).leadsTo, aim, List.append_assoc, List.append_assoc,
      List.append_assoc]
  rw [spelled]
  rcases replaced.inside rest with stored | ⟨nothing, fresh, passed⟩
  · exact .inl stored
  · refine .inr ⟨nothing, fresh, ?_⟩
    have below : disk.leadsTo root ++ front ++ [name ++ splitSuffix] <+:
        disk.leadsTo (Spot.path ⟨root, front⟩) ++ [name ++ splitSuffix] ++ rest := by
      rw [aim, known.setting.leadsTo]
      exact List.prefix_append _ _
    have inRoot := mem_way_of_below frontValid passed below
    rw [known.setting.way, aim] at inRoot
    simpa only [List.append_assoc] using inRoot

end Replaced

/-- One more file is replaced by its parts. Nothing was put in place of its own directory of parts before,
where a file of that name was split first. -/
theorem Reduced.concat {content : ByteArray} (plain : isPlain front)
    (valid : (front ++ [name]).all isEntryName = true) (fresh : front ++ [name] ∉ split)
    (noBox : front ++ [name ++ splitSuffix] ∉ split)
    (isFile : treeBelow root start (front ++ [name]) = some (.file content))
    (size : threshold.bytes < content.size) (fits : threshold.partCount content.size ≤ maxParts)
    (replaced : PartsReplace threshold (Spot.path ⟨root, front⟩) name content disk after) :
    Reduced threshold root start (split ++ [front ++ [name]]) after := by
  obtain ⟨frontValid, nameValid⟩ := all_isEntryName_concat.mp valid
  have nonempty := (isEntryName_iff.mp nameValid).1
  have aim := known.leadsTo_spot frontValid
  refine ⟨known.setting.trans replaced.setting, stands_of_replaced frontValid replaced nameValid, ?distinct,
    known.large.concat isFile size fits, ?outside, ?permitted, ?free, ?gone, ?inside, ?elsewhere⟩
  case distinct =>
    rw [List.nodup_append]
    refine ⟨known.distinct, List.nodup_singleton _, ?_⟩
    rintro other member own inside rfl
    rw [List.mem_singleton.mp inside] at member
    exact fresh member
  case outside =>
    intro file member
    rcases List.mem_append.mp member with before | own
    · exact known.outside file before
    · rw [List.mem_singleton.mp own, List.dropLast_concat]
      exact plain
  case permitted =>
    intro file member
    rcases List.mem_append.mp member with before | own
    · exact known.permitted file before
    · rw [List.mem_singleton.mp own, Spot.path_concat]
      exact (known.setting.permits _).mp replaced.permitted
  case free =>
    intro file member other there
    rcases List.mem_append.mp member with before | own
    · exact known.free file before other there
    · rw [List.mem_singleton.mp own, partsPlace_concat, ← known.treeBelow_eq plain noBox] at there
      · unfold treeBelow at there
        rw [known.setting.leadsTo, ← List.append_assoc, ← aim] at there
        exact replaced.free other there
      · intro base same
        obtain rfl := (String.append_left_inj splitSuffix).mp same
        exact fresh
  case gone =>
    intro file member
    rcases List.mem_append.mp member with before | own
    · have other : file ≠ front ++ [name] := fun same => fresh (same ▸ before)
      rw [known.treeBelow_replaced frontValid replaced other (known.not_within nonempty noBox before)]
      exact known.gone file before
    · rw [List.mem_singleton.mp own]
      exact known.gone_replaced frontValid replaced
  case inside =>
    intro other base stored member there rest
    rcases List.mem_append.mp member with before | own
    · obtain ⟨notFile, outside⟩ :=
        @Reduced.parts_apart _ _ _ _ _ _ _ known _ _ rest _ plain nonempty fresh isFile before
      rw [known.treeBelow_replaced frontValid replaced notFile outside]
      exact known.inside other base stored before there rest
    · have same := List.mem_singleton.mp own
      rw [same, isFile, Option.some.injEq, Entry.file.injEq] at there
      obtain ⟨rfl, last⟩ := List.append_inj' same rfl
      obtain rfl := List.singleton_inj.mp last
      exact there ▸ known.inside_replaced frontValid replaced rest
  case elsewhere =>
    intro place away
    have own := away (front ++ [name]) (by simp)
    rw [replaced.elsewhere]
    · exact known.elsewhere place fun file member => away file (List.mem_append_left _ member)
    · rw [aim, List.append_assoc]
      exact own.1
    · rw [aim, List.append_assoc, ← partsPlace_concat]
      exact own.2

/-- A file that is come to and is not in a directory of parts stays if it is small, and is replaced by its
parts otherwise. -/
theorem Reduced.splitFile {result : Option Path} (plain : isPlain front)
    (valid : (front ++ [name]).all isEntryName = true) (noBox : front ++ [name ++ splitSuffix] ∉ split)
    (leaf : disk.isDirectory (Spot.path ⟨root, front ++ [name]⟩) ≠ true)
    (done : splitFile threshold (Spot.path ⟨root, front ++ [name]⟩) disk = .ok result after) :
    start.permits (Spot.path ⟨root, front ++ [name]⟩) ∧
      ∃ content, treeBelow root start (front ++ [name]) = some (.file content) ∧
        (content.size ≤ threshold.bytes ∧ result = none ∧ after = disk ∨
          threshold.bytes < content.size ∧ (∃ box, result = some box) ∧
            Reduced threshold root start (split ++ [front ++ [name]]) after) := by
  obtain ⟨frontValid, nameValid⟩ := all_isEntryName_concat.mp valid
  obtain ⟨own, found⟩ := find?_of_splitFile done
  obtain ⟨location, located, there⟩ := Option.bind_eq_some_iff.mp found
  refine ⟨(known.setting.permits _).mp (permits_of_locate? located), ?_⟩
  rw [leadsTo_of_locate? located, known.leadsTo_spot valid] at there
  rw [Spot.path_concat] at done
  obtain ⟨entry, present, outcome⟩ := splitFile_replaces nameValid done
  rw [known.leadsTo_spot frontValid, List.append_assoc, there, Option.some.injEq] at present
  subst present
  cases own with
  | directory =>
      unfold Disk.isDirectory at leaf
      rw [found] at leaf
      simp at leaf
  | file content =>
      rw [← known.setting.leadsTo] at there
      obtain ⟨fresh, isFile⟩ := known.file_of_file plain there
      refine ⟨content, isFile, ?_⟩
      rcases outcome with ⟨small, whole, same⟩ | ⟨_, same, size, fits, parts, replaced⟩
      · exact .inl ⟨small, whole, same⟩
      · cases same
        exact .inr ⟨size, ⟨_, parts⟩, known.concat plain valid fresh noBox isFile size fits replaced⟩

end Reduced

end CrossBuild.Artifacts
