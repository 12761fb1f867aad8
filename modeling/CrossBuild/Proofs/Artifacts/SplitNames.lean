/-
Names of files and of their directories of parts.

The directory of parts of a file stands beside it and has its name with the suffix behind. So the
one can be told from the other, whatever the path consists of before its last name and however many
times the name has the suffix already. Only a directory whose name without the suffix is a dot or
two stands for nothing that has a name. No disk is changed here.
-/

import CrossBuild.Proofs.Artifacts.Parts
import CrossBuild.Proofs.Files.Components

namespace CrossBuild.Artifacts

open Files Files.Path

/-- A name with the suffix behind it, a number of times. -/
def suffixed (name : String) : Nat → String
  | 0 => name
  | times + 1 => suffixed name times ++ splitSuffix

/-- What a directory of parts stands for, if that is merged again, a number of times. -/
def mergedAfter? : Nat → Path → Option Path
  | 0, path => some path
  | times + 1, path => (mergedPath? path).bind (mergedAfter? times)

/-! ### Names with the suffix -/

theorem componentOf?_append_splitSuffix (base : String) :
    componentOf? (base ++ splitSuffix) = some (.name (base ++ splitSuffix)) := by
  refine componentOf?_eq_name_iff.mpr ⟨rfl, isIdle_eq_false_iff.mpr ⟨?_, ?_⟩, ?_⟩
  · exact append_splitSuffix_ne_of_length_lt (by decide)
  · exact append_splitSuffix_ne_of_length_lt (by decide)
  · exact append_splitSuffix_ne_of_length_lt (by decide)

theorem noSlash_append_splitSuffix {base : String} :
    '/' ∉ (base ++ splitSuffix).toList ↔ '/' ∉ base.toList := by
  rw [String.toList_append, List.mem_append, not_or]
  exact and_iff_left (by decide)

theorem mergedPath?_eq_some_iff {directory file : Path} : mergedPath? directory = some file ↔
    ∃ base, directory.fileName? = some (base ++ splitSuffix) ∧ base ≠ "" ∧
      file = directory.withFileName base := by
  unfold mergedPath?
  simp only [Option.map_eq_some_iff, Option.bind_eq_some_iff, mergedName?_eq_some_iff]
  constructor
  · rintro ⟨base, ⟨_, named, rfl, some⟩, rfl⟩
    exact ⟨base, named, some, rfl⟩
  · rintro ⟨base, named, some, rfl⟩
    exact ⟨base, ⟨_, named, rfl, some⟩, rfl⟩

/-! ### Paths of files and of directories of parts -/

/-- A file and its directory of parts are in one directory. -/
theorem splitDirectory_of_fileName? {file : Path} {name : String}
    (named : file.fileName? = some name) : ∃ parent : Path, file.parent? = some parent ∧
      file.components = parent.components ++ [.name name] ∧
      (splitDirectory file).components = parent.components ++ [.name (name ++ splitSuffix)] := by
  obtain ⟨-, noSlash, parent, above, whole, beside⟩ := exists_parent_of_fileName? named
  refine ⟨parent, above, whole, ?_⟩
  unfold splitDirectory
  rw [named, Option.getD_some, beside, components_joinName _ (noSlash_append_splitSuffix.mpr noSlash)
    (append_splitSuffix_ne_of_length_lt (by decide)), componentOf?_append_splitSuffix]
  rfl

/-- What a directory of parts stands for has its name without the suffix, if that is a name. -/
theorem mergedPath?_of_fileName? {directory : Path} {base : String}
    (named : directory.fileName? = some (base ++ splitSuffix))
    (isName : componentOf? base = some (.name base)) :
    ∃ file parent : Path, mergedPath? directory = some file ∧ directory.parent? = some parent ∧
      directory.components = parent.components ++ [.name (base ++ splitSuffix)] ∧
      file.components = parent.components ++ [.name base] := by
  obtain ⟨-, noSlash, parent, above, whole, beside⟩ := exists_parent_of_fileName? named
  obtain ⟨-, counts, -⟩ := componentOf?_eq_name_iff.mp isName
  obtain ⟨some, noDot⟩ := isIdle_eq_false_iff.mp counts
  refine ⟨directory.withFileName base, parent,
    mergedPath?_eq_some_iff.mpr ⟨base, named, some, rfl⟩, above, whole, ?_⟩
  rw [beside, components_joinName _ (noSlash_append_splitSuffix.mp noSlash) noDot, isName]
  rfl

section Naming

variable {file left right directory : Path}

theorem mergedPath?_splitDirectory (named : file.isNamed) :
    ∃ merged, mergedPath? (splitDirectory file) = some merged ∧
      merged.components = file.components := by
  obtain ⟨name, own⟩ := isNamed_iff.mp named
  obtain ⟨isName, -⟩ := exists_parent_of_fileName? own
  obtain ⟨parent, -, whole, split⟩ := splitDirectory_of_fileName? own
  have marked : (splitDirectory file).fileName? = some (name ++ splitSuffix) := by
    rw [fileName?_eq_some_iff, split, List.getLast?_concat]
  obtain ⟨merged, beside, back, -, box, again⟩ := mergedPath?_of_fileName? marked isName
  refine ⟨merged, back, ?_⟩
  rw [split] at box
  rw [again, whole, ← List.append_cancel_right box]

theorem splitDirectory_mergedPath? (back : mergedPath? directory = some file)
    (ends : file.endsInName) : (splitDirectory file).components = directory.components ∧
      ∃ above beside, directory.parent? = some above ∧ file.parent? = some beside ∧
        above.components = beside.components := by
  obtain ⟨base, named, -, rfl⟩ := mergedPath?_eq_some_iff.mp back
  obtain ⟨-, noSlash, parent, -, -, replaced⟩ := exists_parent_of_fileName? named
  obtain ⟨last, written, isName⟩ := ends
  rw [replaced, getLast?_segments_joinName _ (noSlash_append_splitSuffix.mp noSlash),
    Option.some.injEq] at written
  subst written
  obtain ⟨merged, above, found, up, box, whole⟩ := mergedPath?_of_fileName? named isName
  rw [back, Option.some.injEq] at found
  subst found
  have own : (directory.withFileName base).fileName? = some base := by
    rw [fileName?_eq_some_iff, whole, List.getLast?_concat]
  obtain ⟨beside, also, again, split⟩ := splitDirectory_of_fileName? own
  rw [whole] at again
  have same := List.append_cancel_right again
  exact ⟨by rw [split, box, same], above, beside, up, also, same⟩

/-- Files have one path for the directory of their parts when they have one path themselves. -/
theorem components_splitDirectory_eq_iff (leftNamed : left.isNamed) (rightNamed : right.isNamed) :
    (splitDirectory left).components = (splitDirectory right).components ↔
      left.components = right.components := by
  obtain ⟨_, own⟩ := isNamed_iff.mp leftNamed
  obtain ⟨_, other⟩ := isNamed_iff.mp rightNamed
  obtain ⟨above, -, whole, split⟩ := splitDirectory_of_fileName? own
  obtain ⟨beside, -, whole', split'⟩ := splitDirectory_of_fileName? other
  rw [split, split', whole, whole']
  simp only [List.append_singleton_inj, Component.name.injEq, String.append_left_inj]

/-- On a disk, files have one place for their parts when they have one place themselves. -/
theorem leadsTo_splitDirectory_eq_iff (disk : Disk) (leftNamed : left.isNamed)
    (rightNamed : right.isNamed) :
    disk.leadsTo (splitDirectory left) = disk.leadsTo (splitDirectory right) ↔
      disk.leadsTo left = disk.leadsTo right := by
  obtain ⟨_, own⟩ := isNamed_iff.mp leftNamed
  obtain ⟨_, other⟩ := isNamed_iff.mp rightNamed
  obtain ⟨above, -, whole, split⟩ := splitDirectory_of_fileName? own
  obtain ⟨beside, -, whole', split'⟩ := splitDirectory_of_fileName? other
  rw [disk.leadsTo_of_components_concat split, disk.leadsTo_of_components_concat split',
    disk.leadsTo_of_components_concat whole, disk.leadsTo_of_components_concat whole']
  simp only [List.append_singleton_inj, String.append_left_inj]

/-- As it is written, what a directory of parts stands for ends in its name without the suffix. -/
theorem getLast?_segments_of_mergedPath? {base : String}
    (named : directory.fileName? = some (base ++ splitSuffix)) (some : base ≠ "") :
    ∃ file, mergedPath? directory = .some file ∧ file.segments.getLast? = .some base := by
  obtain ⟨-, noSlash, parent, -, -, replaced⟩ := exists_parent_of_fileName? named
  refine ⟨directory.withFileName base, mergedPath?_eq_some_iff.mpr ⟨base, named, some, rfl⟩, ?_⟩
  rw [replaced]
  exact getLast?_segments_joinName _ (noSlash_append_splitSuffix.mp noSlash)

/-- Every merge takes one suffix away. -/
theorem mergedAfter?_of_suffixed {name : String} {kept times : Nat}
    (named : directory.fileName? = some (suffixed name (kept + times + 1)))
    (some : suffixed name kept ≠ "") :
    ∃ file, mergedAfter? (times + 1) directory = .some file ∧
      file.segments.getLast? = .some (suffixed name kept) := by
  induction times generalizing directory with
  | zero =>
      obtain ⟨file, merged, ends⟩ := getLast?_segments_of_mergedPath? named some
      refine ⟨file, ?_, ends⟩
      rw [mergedAfter?, merged]
      rfl
  | succ times ih =>
      have isName := componentOf?_append_splitSuffix (suffixed name (kept + times))
      obtain ⟨first, above, merged, -, -, whole⟩ := mergedPath?_of_fileName? named isName
      have further : first.fileName? = .some (suffixed name (kept + times + 1)) := by
        rw [fileName?_eq_some_iff, whole, List.getLast?_concat]
        rfl
      obtain ⟨file, rest, ends⟩ := ih further
      refine ⟨file, ?_, ends⟩
      rw [mergedAfter?, merged]
      exact rest

end Naming

/-- Names of directories of parts can be told from those of files and the other way round, so that
files with a name never share one. -/
theorem split_names_invert :
    (∀ file : Path, file.isNamed → ∃ merged, mergedPath? (splitDirectory file) = some merged ∧
      merged.components = file.components) ∧
    (∀ directory file : Path, mergedPath? directory = some file → file.endsInName →
      (splitDirectory file).components = directory.components ∧
        ∃ above beside, directory.parent? = some above ∧ file.parent? = some beside ∧
          above.components = beside.components) ∧
    (∀ left right : Path, left.isNamed → right.isNamed →
      ((splitDirectory left).components = (splitDirectory right).components ↔
        left.components = right.components)) ∧
    (∀ (disk : Disk) (left right : Path), left.isNamed → right.isNamed →
      (disk.leadsTo (splitDirectory left) = disk.leadsTo (splitDirectory right) ↔
        disk.leadsTo left = disk.leadsTo right)) ∧
    ∀ (directory : Path) (name : String) (kept times : Nat),
      directory.fileName? = some (suffixed name (kept + times + 1)) → suffixed name kept ≠ "" →
        ∃ file, mergedAfter? (times + 1) directory = some file ∧
          file.segments.getLast? = some (suffixed name kept) :=
  ⟨fun _ => mergedPath?_splitDirectory, fun _ _ => splitDirectory_mergedPath?,
    fun _ _ => components_splitDirectory_eq_iff,
    fun disk _ _ => leadsTo_splitDirectory_eq_iff disk, fun _ _ _ _ => mergedAfter?_of_suffixed⟩

/-- The name has the suffix already, after a doubled slash and before a dot. -/
theorem split_names_of_marked_invert :
    (⟨"./r//a.split.file.dir/."⟩ : Path).isNamed ∧ (⟨"./r/a.split.file.dir"⟩ : Path).isNamed ∧
    mergedPath? ⟨"./r//a.split.file.dir.split.file.dir/"⟩ = some ⟨"./r/a.split.file.dir"⟩ ∧
    (⟨"./r/a.split.file.dir"⟩ : Path).endsInName ∧
    (∃ merged, mergedPath? (splitDirectory ⟨"./r//a.split.file.dir/."⟩) = some merged ∧
      merged.components = (⟨"./r//a.split.file.dir/."⟩ : Path).components) ∧
    (splitDirectory ⟨"./r/a.split.file.dir"⟩).components =
      (⟨"./r//a.split.file.dir.split.file.dir/"⟩ : Path).components ∧
    (⟨"./r//a.split.file.dir/."⟩ : Path).components =
      (⟨"./r/a.split.file.dir"⟩ : Path).components ∧
    (Disk.empty none).leadsTo ⟨"./r//a.split.file.dir/."⟩ =
      (Disk.empty none).leadsTo ⟨"./r/a.split.file.dir"⟩ ∧
    ∃ file, mergedAfter? 2 ⟨"./r//a.split.file.dir.split.file.dir/"⟩ = some file ∧
      file.segments.getLast? = some "a" := by
  obtain ⟨there, back, same, place, several⟩ := split_names_invert
  have spelled : (⟨"./r//a.split.file.dir/."⟩ : Path).isNamed :=
    ⟨"a.split.file.dir", by decide +kernel⟩
  have plain : (⟨"./r/a.split.file.dir"⟩ : Path).isNamed := ⟨"a.split.file.dir", by decide +kernel⟩
  have merged : mergedPath? ⟨"./r//a.split.file.dir.split.file.dir/"⟩ =
      some ⟨"./r/a.split.file.dir"⟩ := by decide +kernel
  have ends : (⟨"./r/a.split.file.dir"⟩ : Path).endsInName :=
    ⟨"a.split.file.dir", by decide +kernel, by decide +kernel⟩
  exact ⟨spelled, plain, merged, ends, there _ spelled, (back _ _ merged ends).1,
    (same _ _ spelled plain).mp (by decide +kernel),
    (place _ _ _ spelled plain).mp (by decide +kernel),
    several ⟨"./r//a.split.file.dir.split.file.dir/"⟩ "a" 0 1 (by decide +kernel)
      (by decide +kernel)⟩

/-- A dot behind a directory is no component. So what a directory of parts with a dot for the rest
of its name stands for has the last name of the directory around, and is not split into it. -/
theorem dotted_split_name_not_inverted :
    mergedPath? ⟨"x/..split.file.dir"⟩ = some ⟨"x/."⟩ ∧ (⟨"x/."⟩ : Path).isNamed ∧
    splitDirectory ⟨"x/."⟩ = ⟨"x.split.file.dir"⟩ ∧
    ¬ ∀ directory file : Path, mergedPath? directory = some file → file.isNamed →
      (splitDirectory file).components = directory.components := by
  have merged : mergedPath? ⟨"x/..split.file.dir"⟩ = some ⟨"x/."⟩ := by decide +kernel
  have named : (⟨"x/."⟩ : Path).isNamed := ⟨"x", by decide +kernel⟩
  refine ⟨merged, named, by decide +kernel, fun inverted => ?_⟩
  exact absurd (inverted _ _ merged named) (by decide +kernel)

end CrossBuild.Artifacts
