/-
What splitting one file changes.

A path of a file is taken as that of its directory with a name behind, and the directory may not be
reached through the directory of parts, since that is taken away on the way. Of runs that fail only
those are described that fail for the number of parts.
-/

import CrossBuild.Proofs.Artifacts.Parts
import CrossBuild.Proofs.Files.Effects
import Mathlib.Data.List.Basic

namespace CrossBuild.Artifacts

open Files Files.Disk Runs

theorem attempt_ok_iff {α : Type} {operation : Operation} {path : Path} {access : Access α}
    {disk after : Disk} {result : α} :
    attempt operation path access disk = .ok result after ↔ access disk = .ok result after :=
  adaptExcept_ok_iff

theorem splitDirectory_joinName (directory : Path) {name : String} (valid : isEntryName name = true) :
    splitDirectory (directory.joinName name) = directory.tidied.joinName (name ++ splitSuffix) := by
  unfold splitDirectory
  rw [Path.fileName?_joinName directory valid, Option.getD_some,
    directory.withFileName_eq_tidied _ valid]

/-- A directory of parts does not stand around the file it is named for. -/
theorem splitDirectory_apart (place : Location) (name : String) (rest : Location) :
    ¬ place ++ [name ++ splitSuffix] <+: place ++ name :: rest :=
  fun within => append_splitSuffix_ne name (concat_prefix_iff.mp within)

/-- A part has a shorter name than the script. -/
theorem permits_part {disk : Disk} {box : Path} {index : Nat} (fits : index < maxParts)
    (permitted : disk.permits (box.joinName scriptName)) :
    disk.permits (box.joinName (partName index)) := by
  have sizes : ∀ index < maxParts, (partName index).utf8ByteSize ≤ scriptName.utf8ByteSize := by
    decide +kernel
  exact permits_joinName_shorter (isEntryName_partName index) (by decide) (sizes index fits) permitted

theorem permits_box {disk : Disk} {base : Path} {box : String} (valid : isEntryName box = true)
    (permitted : disk.permits ((base.joinName box).joinName scriptName)) :
    disk.permits (base.joinName box) := by
  have all : ([box] ++ [scriptName]).all isEntryName = true :=
    all_isEntryName_concat.mpr ⟨by simpa using valid, by decide⟩
  rw [Path.joinName_eq_joinNames base, Path.joinName_joinNames base all] at permitted
  rw [Path.joinName_eq_joinNames base]
  exact permits_joinNames_front all (by simp) permitted

/-! ### Making room -/

theorem removeExisting_ok {path : Path} {disk after : Disk}
    (done : removeExisting path disk = .ok () after) :
    (∃ location, disk.locate? path = some location ∧
      (after = disk.erase location ∧ path.endsInDots = false ∧ location ≠ [] ∨
        after = disk.clear location ∧ (disk.clear location).locate? path = none)) ∨
      disk.find? path = none ∧ after = disk := by
  unfold removeExisting at done
  simp only [bind_ok_iff, get_ok_iff] at done
  obtain ⟨_, _, ⟨rfl, rfl⟩, done⟩ := done
  split at done
  · rw [attempt_ok_iff] at done
    obtain ⟨location, found, -, effect⟩ := removeTree_ok done
    exact .inl ⟨location, found, effect⟩
  · rename_i absent
    rw [pure_ok_iff] at done
    unfold isThere at absent
    rw [Option.not_isSome_iff_eq_none] at absent
    exact .inr ⟨absent, done.2.symm⟩

/-- What stands at a path with names behind is gone, if the path can be followed at all. -/
theorem removeExisting_joinNames_ok {path : Path} {names : List String} {disk after : Disk}
    (valid : names.all isEntryName = true) (some : names ≠ [])
    (outside : disk.keepsOut path (disk.leadsTo path ++ names))
    (done : removeExisting (path.joinNames names) disk = .ok () after) :
    (disk.stands path ∧ disk.permits (path.joinNames names) → disk.Becomes (fun other =>
        if disk.leadsTo path ++ names <+: other then none else disk.entryAt? other) after) ∧
      (¬ (disk.stands path ∧ disk.permits (path.joinNames names)) → after = disk) := by
  obtain ⟨front, last, rfl⟩ : ∃ front last, names = front ++ [last] :=
    ⟨_, _, (List.dropLast_concat_getLast some).symm⟩
  rcases removeExisting_ok done with ⟨location, found, effect⟩ | ⟨absent, rfl⟩
  · obtain ⟨permitted, standing, -, aim⟩ := (locate?_joinNames_iff valid).mp found
    have inside : location ≠ [] := by
      rw [aim, ← List.append_assoc]
      simp
    rcases effect with ⟨erased, -, -⟩ | ⟨-, vanished⟩
    · rw [erased, aim] at *
      exact ⟨fun _ => becomes_erase disk inside, fun unable =>
        absurd ⟨standing, permitted⟩ unable⟩
    · have own := outside.joinNames valid
      rw [leadsTo_joinNames valid, ← aim] at own
      rw [locate?_clear found own] at vanished
      cases vanished
  · refine ⟨fun ⟨standing, permitted⟩ => ⟨.refl after, fun other => ?_⟩, fun _ => rfl⟩
    split
    · rename_i within
      obtain ⟨rest, rfl⟩ := within
      cases there : after.entryAt? (after.leadsTo path ++ (front ++ [last]) ++ rest) with
      | none => rfl
      | some entry =>
          exfalso
          have own : after.entryAt? (after.leadsTo path ++ (front ++ [last])) ≠ none := by
            by_cases alone : rest = []
            · rw [alone, List.append_nil] at there
              rw [there]
              simp
            · rw [entryAt?_above there alone]
              simp
          obtain ⟨top, present⟩ := Option.ne_none_iff_exists'.mp own
          have parent := entryAt?_dropLast present
          rw [← List.append_assoc, List.dropLast_concat] at parent
          have found : after.locate? (path.joinNames (front ++ [last])) =
              Option.some (after.leadsTo path ++ (front ++ [last])) := by
            apply (locate?_joinNames_iff valid).mpr
            rw [List.dropLast_concat]
            exact ⟨permitted, standing, parent, rfl⟩
          unfold find? at absent
          rw [found, Option.bind_some, present] at absent
          cases absent
    · rfl

/-- A file is not taken for a directory: where one stands, removing ends badly. -/
theorem not_file_of_removeExisting {path : Path} {names : List String} {disk after : Disk}
    {content : ByteArray} (valid : names.all isEntryName = true) (standing : disk.stands path)
    (permitted : disk.permits (path.joinNames names))
    (done : removeExisting (path.joinNames names) disk = .ok () after) :
    disk.entryAt? (disk.leadsTo path ++ names) ≠ some (.file content) := by
  intro file
  have parent : disk.entryAt? (disk.leadsTo path ++ names.dropLast) = some .directory := by
    by_cases empty : names = []
    · rw [empty, List.dropLast_nil, List.append_nil]
      exact entryAt?_leadsTo_of_stands standing
    · rw [← List.dropLast_append_of_ne_nil empty]
      exact entryAt?_dropLast file
  have located : disk.locate? (path.joinNames names) = some (disk.leadsTo path ++ names) :=
    (locate?_joinNames_iff valid).mpr ⟨permitted, standing, parent, rfl⟩
  unfold removeExisting at done
  simp only [bind_ok_iff, get_ok_iff] at done
  obtain ⟨_, _, ⟨rfl, rfl⟩, done⟩ := done
  unfold isThere find? at done
  rw [located, Option.bind_some, file, Option.isSome_some, if_pos rfl, attempt_ok_iff] at done
  obtain ⟨location, found, directory, -⟩ := removeTree_ok done
  rw [located, Option.some.injEq] at found
  rw [← found, file] at directory
  cases directory

/-- Removing what is there leaves nothing below the place of a path that can then be followed, and
changes nothing elsewhere. -/
private theorem removeExisting_clears {path : Path} {disk middle : Disk} (detours : disk.detoursStand path)
    (permitted : disk.permits path) (removed : removeExisting path disk = .ok () middle) :
    disk.SameSetting middle ∧
      (∀ rest, rest ≠ [] → middle.entryAt? (disk.leadsTo path ++ rest) = none) ∧
      ∀ other, ¬ disk.leadsTo path <+: other → middle.entryAt? other = disk.entryAt? other := by
  rcases removeExisting_ok removed with ⟨location, found, effect⟩ | ⟨absent, rfl⟩
  · have aim := leadsTo_of_locate? found
    subst aim
    rcases effect with ⟨rfl, -, inside⟩ | ⟨rfl, -⟩
    · have erased := becomes_erase disk inside
      refine ⟨erased.setting, fun rest _ => ?_, fun other apart => ?_⟩
      · rw [erased.entries, if_pos (List.prefix_append _ _)]
      · rw [erased.entries, if_neg apart]
    · refine ⟨clear_sameSetting disk _, fun rest below => ?_, fun other apart => ?_⟩
      · rw [entryAt?_clear, if_pos ⟨List.prefix_append _ _, by simp [below]⟩]
      · rw [entryAt?_clear, if_neg fun within => apart within.1]
  · have missing : ¬ middle.stands path := by
      intro standing
      have there := isDirectory_iff.mpr ⟨permitted, standing⟩
      unfold isDirectory at there
      rw [absent] at there
      cases there
    exact ⟨.refl middle, fun rest below => entryAt?_below_of_not_stands detours missing rest below,
      fun _ _ => rfl⟩

/-- What can be made again keeps to the limits. -/
theorem permits_of_renewPath {path : Path} {disk middle after : Disk} (spelled : path.text ≠ "")
    (removed : removeExisting path disk = .ok () middle)
    (made : makeDirectories path middle = .ok () after) : disk.permits path := by
  obtain ⟨there, grown⟩ := makeDirectories_ok made
  have permitted := (isDirectory_iff.mp (there.resolve_left spelled)).1
  have setting : disk.SameSetting middle := by
    rcases removeExisting_ok removed with ⟨location, -, ⟨rfl, -⟩ | ⟨rfl, -⟩⟩ | ⟨-, rfl⟩
    · exact erase_sameSetting disk _
    · exact clear_sameSetting disk _
    · exact .refl middle
  exact ((setting.trans grown.setting).permits _).mp permitted

/-- Removing what is there and making the directory leaves one in which only directories stand that
the path passes, and apart from it only directories on the way are new. -/
private theorem renewPath_passing {path : Path} {disk middle after : Disk}
    (detours : disk.detoursStand path) (spelled : path.text ≠ "")
    (removed : removeExisting path disk = .ok () middle)
    (made : makeDirectories path middle = .ok () after) :
    disk.SameSetting after ∧ after.entryAt? (disk.leadsTo path) = some .directory ∧
      (∀ rest, rest ≠ [] → after.entryAt? (disk.leadsTo path ++ rest) = none ∨
        after.entryAt? (disk.leadsTo path ++ rest) = some .directory ∧
          disk.leadsTo path ++ rest ∈ disk.way path) ∧
      ∀ other, ¬ disk.leadsTo path <+: other →
        after.entryAt? other = disk.entryAt? other ∨
          disk.entryAt? other = none ∧ after.entryAt? other = some .directory ∧ other ∈ disk.way path := by
  obtain ⟨there, grown⟩ := makeDirectories_ok made
  have standing := (isDirectory_iff.mp (there.resolve_left spelled)).2
  have permitted := permits_of_renewPath spelled removed made
  obtain ⟨setting, cleared, kept⟩ := removeExisting_clears detours permitted removed
  refine ⟨setting.trans grown.setting, ?_, fun rest below => ?_, fun other apart => ?_⟩
  · have own := entryAt?_leadsTo_of_stands standing
    rw [grown.setting.leadsTo, setting.leadsTo] at own
    exact own
  · rcases grown.entries (disk.leadsTo path ++ rest) with same | ⟨-, fresh, onWay⟩
    · rw [same, cleared rest below]
      exact .inl rfl
    · rw [setting.way] at onWay
      exact .inr ⟨fresh, onWay⟩
  · rcases grown.entries other with same | ⟨absent, fresh, onWay⟩
    · exact .inl (same.trans (kept other apart))
    · rw [kept other apart] at absent
      rw [setting.way] at onWay
      exact .inr ⟨absent, fresh, onWay⟩

/-- A directory in which only directories stand that a path passes is empty, if the path passes
nothing in it. -/
private theorem empty_of_keepsOut {path : Path} {top : Location} {disk after : Disk}
    (outside : disk.keepsOut path top) (own : after.entryAt? top = some .directory)
    (inside : ∀ rest, rest ≠ [] → after.entryAt? (top ++ rest) = none ∨
      after.entryAt? (top ++ rest) = some .directory ∧ top ++ rest ∈ disk.way path)
    (rest : List String) :
    after.entryAt? (top ++ rest) = if rest = [] then some .directory else none := by
  split
  · rename_i alone
    rw [alone, List.append_nil]
    exact own
  · rename_i below
    rcases inside rest below with nothing | ⟨-, onWay⟩
    · exact nothing
    · have atEnd := outside _ onWay (List.prefix_append _ _)
      simp [below] at atEnd

theorem renewPath_ok {path : Path} {disk middle after : Disk} (detours : disk.detoursStand path)
    (outside : disk.keepsOut path (disk.leadsTo path)) (spelled : path.text ≠ "")
    (removed : removeExisting path disk = .ok () middle)
    (made : makeDirectories path middle = .ok () after) :
    disk.SameSetting after ∧
      (∀ rest, after.entryAt? (disk.leadsTo path ++ rest) =
        if rest = [] then some .directory else none) ∧
      ∀ other, ¬ disk.leadsTo path <+: other →
        after.entryAt? other = disk.entryAt? other ∨
          disk.entryAt? other = none ∧ after.entryAt? other = some .directory ∧ other ∈ disk.way path := by
  obtain ⟨setting, own, inside, elsewhere⟩ := renewPath_passing detours spelled removed made
  exact ⟨setting, empty_of_keepsOut outside own inside, elsewhere⟩

theorem detoursStand_joinName {path : Path} {name : String} {disk : Disk}
    (valid : isEntryName name = true) (detours : disk.detoursStand path) :
    disk.detoursStand (path.joinName name) := by
  intro place member
  rw [leadsTo_joinName disk path valid]
  rcases (mem_way_joinName valid).mp member with before | rfl
  · exact (detours place before).imp_left fun above => above.trans (List.prefix_append _ _)
  · exact .inl List.prefix_rfl

/-- The directory of a name behind a path does not pass more than the path itself. -/
theorem passes_of_joinName {path : Path} {name : String} {disk : Disk}
    (valid : isEntryName name = true) (detours : disk.detoursStand path)
    (outside : disk.keepsOut path (disk.leadsTo path ++ [name])) :
    disk.detoursStand (path.joinName name) ∧
      disk.keepsOut (path.joinName name) (disk.leadsTo (path.joinName name)) ∧
      ∀ place ∈ disk.way (path.joinName name), ¬ disk.leadsTo path ++ [name] <+: place →
        place ∈ disk.way path := by
  have all : [name].all isEntryName = true := by simpa using valid
  refine ⟨detoursStand_joinName valid detours, ?_, fun place member apart => ?_⟩
  · rw [Path.joinName_eq_joinNames]
    exact outside.joinNames all
  · exact ((mem_way_joinName valid).mp member).resolve_right fun same =>
      apart (same ▸ List.prefix_rfl)

section RenewDirectory

variable {path : Path} {name : String} {disk middle after : Disk} (valid : isEntryName name = true)
  (detours : disk.detoursStand path)

include valid detours

private theorem renewDirectory_passing
    (removed : removeExisting (path.joinName name) disk = .ok () middle)
    (made : makeDirectories (path.joinName name) middle = .ok () after) :
    disk.SameSetting after ∧ after.entryAt? (disk.leadsTo path ++ [name]) = some .directory ∧
      (∀ rest, rest ≠ [] → after.entryAt? (disk.leadsTo path ++ [name] ++ rest) = none ∨
        after.entryAt? (disk.leadsTo path ++ [name] ++ rest) = some .directory ∧
          disk.leadsTo path ++ [name] ++ rest ∈ disk.way path) ∧
      ∀ other, ¬ disk.leadsTo path ++ [name] <+: other →
        after.entryAt? other = disk.entryAt? other ∨
          disk.entryAt? other = none ∧ after.entryAt? other = some .directory ∧ other ∈ disk.way path := by
  have spelled : (path.joinName name).text ≠ "" := by
    rw [Path.joinName_eq_joinNames]
    exact Path.joinNames_text_ne_empty (by simpa using valid) (.inr (List.cons_ne_nil _ _))
  obtain ⟨setting, own, inside, elsewhere⟩ :=
    renewPath_passing (detoursStand_joinName valid detours) spelled removed made
  rw [leadsTo_joinName _ _ valid] at own inside elsewhere
  refine ⟨setting, own, fun rest below => ?_, fun other apart => ?_⟩
  · refine (inside rest below).imp_right fun ⟨fresh, onWay⟩ => ⟨fresh, ?_⟩
    exact ((mem_way_joinName valid).mp onWay).resolve_right fun same => below (by simpa using same)
  · refine (elsewhere other apart).imp_right fun ⟨absent, fresh, onWay⟩ => ⟨absent, fresh, ?_⟩
    exact ((mem_way_joinName valid).mp onWay).resolve_right fun same => apart (same ▸ List.prefix_rfl)

theorem renewDirectory_ok (outside : disk.keepsOut path (disk.leadsTo path ++ [name]))
    (removed : removeExisting (path.joinName name) disk = .ok () middle)
    (made : makeDirectories (path.joinName name) middle = .ok () after) :
    disk.SameSetting after ∧
      (∀ rest, after.entryAt? (disk.leadsTo path ++ [name] ++ rest) =
        if rest = [] then some .directory else none) ∧
      ∀ other, ¬ disk.leadsTo path ++ [name] <+: other →
        after.entryAt? other = disk.entryAt? other ∨
          disk.entryAt? other = none ∧ after.entryAt? other = some .directory ∧ other ∈ disk.way path := by
  obtain ⟨setting, own, inside, elsewhere⟩ := renewDirectory_passing valid detours removed made
  exact ⟨setting, empty_of_keepsOut outside own inside, elsewhere⟩

end RenewDirectory

/-! ### Writing parts -/

theorem writeFile_joinName_ok {directory : Path} {name : String} {content : ByteArray}
    {disk after : Disk} (valid : isEntryName name = true)
    (done : writeFile (directory.joinName name) content disk = .ok () after) :
    disk.Becomes (fun other => if other = disk.leadsTo directory ++ [name] then
      some (.file content) else disk.entryAt? other) after := by
  have all : [name].all isEntryName = true := by simpa using valid
  obtain ⟨location, found, effect⟩ := writeFile_ok done
  have aim := leadsTo_of_locate? found
  rw [Path.joinName_eq_joinNames, leadsTo_joinNames all] at aim
  rw [← aim]
  exact effect

theorem writeParts_ok {directory : Path} {index : Nat} {parts : List ByteArray}
    {disk after : Disk} (fits : index + parts.length ≤ maxParts)
    (done : writeParts directory index parts disk = .ok () after) :
    disk.SameSetting after ∧
      (∀ offset, ∀ within : offset < parts.length,
        after.entryAt? (disk.leadsTo directory ++ [partName (index + offset)]) =
          some (.file parts[offset])) ∧
      ∀ other, (∀ offset < parts.length,
          other ≠ disk.leadsTo directory ++ [partName (index + offset)]) →
        after.entryAt? other = disk.entryAt? other := by
  induction parts generalizing index disk with
  | nil =>
      unfold writeParts at done
      rw [pure_ok_iff] at done
      rw [← done.2]
      exact ⟨.refl disk, fun _ within => absurd within (Nat.not_lt_zero _), fun _ _ => rfl⟩
  | cons part rest ih =>
      unfold writeParts at done
      simp only [bind_ok_iff, attempt_ok_iff] at done
      obtain ⟨_, middle, wrote, others⟩ := done
      rw [List.length_cons] at fits
      have first := writeFile_joinName_ok (isEntryName_partName index) wrote
      obtain ⟨setting, later, unchanged⟩ := ih (by omega) others
      rw [first.setting.leadsTo] at later unchanged
      have own : after.entryAt? (disk.leadsTo directory ++ [partName index]) = some (.file part) := by
        rw [unchanged, first.entries, if_pos rfl]
        intro offset within same
        simp only [List.append_cancel_left_eq, List.cons.injEq, and_true] at same
        have equal := partName_inj (by omega) (by omega) same
        omega
      refine ⟨first.setting.trans setting, ?_, ?_⟩
      · intro offset within
        cases offset with
        | zero => exact own
        | succ offset =>
            rw [List.length_cons] at within
            have shifted := later offset (by omega)
            rw [show index + 1 + offset = index + (offset + 1) by omega] at shifted
            exact shifted
      · intro other different
        rw [unchanged, first.entries, if_neg]
        · exact different 0 (Nat.zero_lt_succ _)
        · intro offset within
          have apart := different (offset + 1) (by rw [List.length_cons]; omega)
          rw [show index + (offset + 1) = index + 1 + offset by omega] at apart
          exact apart

theorem writeParts_keeps {directory : Path} {index : Nat} {parts : List ByteArray}
    {disk after : Disk} (done : writeParts directory index parts disk = .ok () after) :
    disk.KeepsDirectories after := by
  induction parts generalizing index disk with
  | nil =>
      unfold writeParts at done
      rw [pure_ok_iff] at done
      rw [← done.2]
      exact fun _ there => there
  | cons part rest ih =>
      unfold writeParts at done
      simp only [bind_ok_iff, attempt_ok_iff] at done
      obtain ⟨_, middle, wrote, others⟩ := done
      exact (writeFile_keeps wrote).trans (ih others)

/-! ### Splitting -/

section SplitFile

variable {threshold : Threshold} {directory : Path} {name : String} {disk after : Disk}

/-- What stands where once a file of a directory is in parts. -/
def splitView (threshold : Threshold) (disk : Disk) (top : Location) (name : String)
    (content : ByteArray) (other : Location) : Option Entry :=
  if other = top ++ [name] then none
  else if top ++ [name ++ splitSuffix] <+: other then
    partEntryAt? threshold name content (other.drop (top.length + 1))
  else disk.entryAt? other

private theorem storeParts_ok {file parts : Path} {entry : Entry} {location : Location}
    (fits : threshold.partCount (entrySize entry) ≤ maxParts)
    (aim : disk.leadsTo file = location) (there : disk.entryAt? location = some entry)
    (done : storeParts threshold file parts disk = .ok () after) :
    ∃ content, entry = .file content ∧ disk.SameSetting after ∧
      (∀ index, ∀ within : index < (threshold.parts content).length,
        after.entryAt? (disk.leadsTo parts ++ [partName index]) =
          some (.file (threshold.parts content)[index])) ∧
      (∀ other, (∀ index < (threshold.parts content).length,
          other ≠ disk.leadsTo parts ++ [partName index]) →
        after.entryAt? other = disk.entryAt? other) ∧
      disk.KeepsDirectories after := by
  unfold storeParts at done
  simp only [bind_ok_iff, get_ok_iff] at done
  obtain ⟨_, _, ⟨rfl, rfl⟩, done⟩ := done
  cases found : disk.find? file with
  | none =>
      rw [found] at done
      cases done
  | some stored =>
      have same : stored = entry := by
        unfold find? at found
        obtain ⟨place, located, present⟩ := Option.bind_eq_some_iff.mp found
        rw [leadsTo_of_locate? located, aim, there, Option.some.injEq] at present
        exact present.symm
      subst same
      rw [found] at done
      cases stored with
      | directory =>
          dsimp only at done
          simp only [bind_ok_iff, throw_ok_iff, and_false, exists_false] at done
      | file content =>
          dsimp only at done
          have count : 0 + (threshold.parts content).length ≤ maxParts := by
            rw [Nat.zero_add, Threshold.length_parts]
            exact fits
          obtain ⟨setting, written, others⟩ := writeParts_ok count done
          simp only [Nat.zero_add] at written others
          exact ⟨content, rfl, setting, written, others, writeParts_keeps done⟩

/-- Once a file of a directory is in parts, they and the script stand in place of what was there, which
is no file. The new directory also holds directories that the path of the file passes. -/
structure PartsReplace (threshold : Threshold) (directory : Path) (name : String)
    (content : ByteArray) (before after : Disk) : Prop where
  setting : before.SameSetting after
  free : ∀ other, before.entryAt? (before.leadsTo directory ++ [name ++ splitSuffix]) ≠
    some (.file other)
  gone : after.entryAt? (before.leadsTo directory ++ [name]) = none
  inside : ∀ rest, after.entryAt? (before.leadsTo directory ++ [name ++ splitSuffix] ++ rest) =
      partEntryAt? threshold name content rest ∨
    partEntryAt? threshold name content rest = none ∧
      after.entryAt? (before.leadsTo directory ++ [name ++ splitSuffix] ++ rest) = some .directory ∧
      before.leadsTo directory ++ [name ++ splitSuffix] ++ rest ∈ before.way directory
  elsewhere : ∀ other, other ≠ before.leadsTo directory ++ [name] →
    ¬ before.leadsTo directory ++ [name ++ splitSuffix] <+: other →
      after.entryAt? other = before.entryAt? other
  there : after.isDirectory (splitDirectory (directory.joinName name)) = true
  permitted : before.permits ((splitDirectory (directory.joinName name)).joinName scriptName)

theorem PartsReplace.becomes {content : ByteArray}
    (replaced : PartsReplace threshold directory name content disk after)
    (outside : disk.keepsOut directory (disk.leadsTo directory ++ [name ++ splitSuffix])) :
    disk.Becomes (splitView threshold disk (disk.leadsTo directory) name content) after := by
  refine ⟨replaced.setting, fun other => ?_⟩
  unfold splitView
  split
  · rename_i isFile
    rw [isFile, replaced.gone]
  · rename_i notFile
    split
    · rename_i within
      obtain ⟨rest, rfl⟩ := within
      rw [List.append_assoc, List.singleton_append, drop_concat, ← List.singleton_append,
        ← List.append_assoc]
      rcases replaced.inside rest with same | ⟨nothing, -, onWay⟩
      · exact same
      · have atTop := outside _ onWay (List.prefix_append _ _)
        have alone : rest = [] := by simpa using atTop
        rw [alone] at nothing
        cases nothing
    · rename_i apart
      exact replaced.elsewhere other notFile apart

/-- What the directory of parts holds once it is renewed, the script is written and the parts are
stored. -/
private theorem splitSteps_inside {content : ByteArray} {box : Location} {passed : List Location}
    {made scripted stored : Disk} (fits : (threshold.parts content).length ≤ maxParts)
    (own : made.entryAt? box = some .directory)
    (inner : ∀ rest, rest ≠ [] → made.entryAt? (box ++ rest) = none ∨
      made.entryAt? (box ++ rest) = some .directory ∧ box ++ rest ∈ passed)
    (wrote : ∀ other, scripted.entryAt? other = if other = box ++ [scriptName] then
      some (.file (reassembleScript name).toUTF8) else made.entryAt? other)
    (partsThere : ∀ index, ∀ within : index < (threshold.parts content).length,
      stored.entryAt? (box ++ [partName index]) = some (.file (threshold.parts content)[index]))
    (others : ∀ other, (∀ index < (threshold.parts content).length,
      other ≠ box ++ [partName index]) → stored.entryAt? other = scripted.entryAt? other)
    (rest : List String) : stored.entryAt? (box ++ rest) = partEntryAt? threshold name content rest ∨
      partEntryAt? threshold name content rest = none ∧
        stored.entryAt? (box ++ rest) = some .directory ∧ box ++ rest ∈ passed := by
  -- where neither the script nor a part stands, the place is as it was made
  have asMade : ∀ rest, rest ≠ [] → partEntryAt? threshold name content rest = none →
      stored.entryAt? (box ++ rest) = made.entryAt? (box ++ rest) →
        stored.entryAt? (box ++ rest) = partEntryAt? threshold name content rest ∨
          partEntryAt? threshold name content rest = none ∧
            stored.entryAt? (box ++ rest) = some .directory ∧ box ++ rest ∈ passed := by
    intro rest below nothing same
    rw [same, nothing]
    exact (inner rest below).imp_right fun passing => ⟨rfl, passing⟩
  match rest with
  | [] =>
      left
      rw [others _ (by simp), wrote, if_neg (by simp), List.append_nil, own]
      rfl
  | [entry] =>
      by_cases script : entry = scriptName
      · subst script
        left
        rw [others, wrote, if_pos rfl, partEntryAt?_script]
        intro index within same
        simp only [List.append_cancel_left_eq, List.cons.injEq, and_true] at same
        exact partName_ne_scriptName (by omega) same.symm
      · by_cases isPart : ∃ index, index < (threshold.parts content).length ∧ partName index = entry
        · obtain ⟨index, within, rfl⟩ := isPart
          left
          rw [partsThere index within, partEntryAt?_part fits within]
        · have noPart : ∀ index < (threshold.parts content).length, partName index ≠ entry :=
            fun index within same => isPart ⟨index, within, same⟩
          refine asMade _ (List.cons_ne_nil _ _) (partEntryAt?_other script noPart) ?_
          rw [others, wrote, if_neg]
          · simpa using script
          · intro index within same
            simp only [List.append_cancel_left_eq, List.cons.injEq, and_true] at same
            exact noPart index within same.symm
  | first :: second :: later =>
      refine asMade _ (List.cons_ne_nil _ _) rfl ?_
      rw [others _ (by simp), wrote, if_neg (by simp)]

/-- A new directory for the parts of a file has been made and holds the script, and nothing around it has
changed. -/
private structure BoxReady (directory : Path) (name : String) (script : ByteArray)
    (disk made scripted : Disk) : Prop where
  setting : disk.SameSetting scripted
  free : ∀ other, disk.entryAt? (disk.leadsTo directory ++ [name ++ splitSuffix]) ≠ some (.file other)
  top : made.entryAt? (disk.leadsTo directory ++ [name ++ splitSuffix]) = some .directory
  inner : ∀ rest, rest ≠ [] →
    made.entryAt? (disk.leadsTo directory ++ [name ++ splitSuffix] ++ rest) = none ∨
      made.entryAt? (disk.leadsTo directory ++ [name ++ splitSuffix] ++ rest) = some .directory ∧
        disk.leadsTo directory ++ [name ++ splitSuffix] ++ rest ∈ disk.way directory
  entries : ∀ other, scripted.entryAt? other =
    if other = disk.leadsTo directory ++ [name ++ splitSuffix] ++ [scriptName] then some (.file script)
    else made.entryAt? other
  elsewhere : ∀ other, ¬ disk.leadsTo directory ++ [name ++ splitSuffix] <+: other →
    scripted.entryAt? other = disk.entryAt? other
  aim : scripted.leadsTo (splitDirectory (directory.joinName name)) =
    disk.leadsTo directory ++ [name ++ splitSuffix]
  there : scripted.isDirectory (splitDirectory (directory.joinName name)) = true
  permitted : disk.permits ((splitDirectory (directory.joinName name)).joinName scriptName)

private theorem readyBox_ok {script : ByteArray} {cleared made scripted : Disk}
    (valid : isEntryName name = true) (standing : disk.stands directory)
    (removed : removeExisting (splitDirectory (directory.joinName name)) disk = .ok () cleared)
    (prepared : makeDirectories (splitDirectory (directory.joinName name)) cleared = .ok () made)
    (wrote : writeFile ((splitDirectory (directory.joinName name)).joinName scriptName) script made =
      .ok () scripted) :
    BoxReady directory name script disk made scripted := by
  have splitValid := isEntryName_append_splitSuffix valid
  have parts := splitDirectory_joinName directory valid
  obtain ⟨aim, passed⟩ := way_of_tidied disk directory
  generalize directory.tidied = base at parts aim passed
  have baseStands : disk.stands base := fun place member => standing place ((passed place).mp member)
  have spelled : (base.joinName (name ++ splitSuffix)).text ≠ "" := by
    rw [Path.joinName_eq_joinNames]
    exact Path.joinNames_text_ne_empty (by simpa using splitValid) (.inr (List.cons_ne_nil _ _))
  rw [parts] at removed prepared wrote
  obtain ⟨setting, boxThere, inner, elsewhere⟩ := renewDirectory_passing splitValid
    (fun place member => .inr (baseStands place member)) removed prepared
  rw [aim] at boxThere inner elsewhere
  simp only [passed] at inner
  have kept : ∀ other, ¬ disk.leadsTo directory ++ [name ++ splitSuffix] <+: other →
      made.entryAt? other = disk.entryAt? other := by
    intro other apart
    rcases elsewhere other apart with same | ⟨absent, -, onWay⟩
    · exact same
    · rw [baseStands other onWay] at absent
      cases absent
  have scriptEffect := writeFile_joinName_ok (by decide : isEntryName scriptName = true) wrote
  rw [setting.leadsTo, leadsTo_joinName _ _ splitValid, aim] at scriptEffect
  obtain ⟨scriptPlace, scriptFound, -⟩ := writeFile_ok wrote
  refine
    { setting := setting.trans scriptEffect.setting
      free := fun other => ?_
      top := boxThere
      inner := inner
      entries := scriptEffect.entries
      elsewhere := fun other apart => ?_
      aim := ?_
      there := ?_
      permitted := ?_ }
  · have permitted := permits_of_renewPath spelled removed prepared
    rw [Path.joinName_eq_joinNames] at permitted removed
    rw [← aim]
    exact not_file_of_removeExisting (by simpa using splitValid) baseStands permitted removed
  · rw [scriptEffect.entries, if_neg, kept other apart]
    rintro rfl
    exact apart (List.prefix_append _ _)
  · rw [parts, (setting.trans scriptEffect.setting).leadsTo, leadsTo_joinName _ _ splitValid, aim]
  · rw [parts]
    exact (writeFile_keeps wrote).isDirectory scriptEffect.setting
      ((makeDirectories_ok prepared).1.resolve_left spelled)
  · rw [parts]
    exact (setting.permits _).mp (permits_of_locate? scriptFound)

private theorem splitSteps {entry : Entry} {cleared made scripted stored : Disk}
    (valid : isEntryName name = true)
    (there : disk.entryAt? (disk.leadsTo directory ++ [name]) = some entry)
    (standing : disk.stands directory)
    (fits : threshold.partCount (entrySize entry) ≤ maxParts)
    (removed : removeExisting (splitDirectory (directory.joinName name)) disk = .ok () cleared)
    (prepared : makeDirectories (splitDirectory (directory.joinName name)) cleared = .ok () made)
    (wrote : writeFile ((splitDirectory (directory.joinName name)).joinName scriptName)
      (reassembleScript ((directory.joinName name).fileName?.getD "")).toUTF8 made = .ok () scripted)
    (filled : storeParts threshold (directory.joinName name)
      (splitDirectory (directory.joinName name)) scripted = .ok () stored)
    (taken : removeFile (directory.joinName name) stored = .ok () after) :
    ∃ content, entry = .file content ∧
      PartsReplace threshold directory name content disk after := by
  rw [Path.fileName?_joinName directory valid, Option.getD_some] at wrote
  have ready := readyBox_ok valid standing removed prepared wrote
  have fileApart : ¬ disk.leadsTo directory ++ [name ++ splitSuffix] <+:
      disk.leadsTo directory ++ [name] :=
    splitDirectory_apart _ name []
  have fileAim : scripted.leadsTo (directory.joinName name) = disk.leadsTo directory ++ [name] := by
    rw [ready.setting.leadsTo, leadsTo_joinName _ _ valid]
  obtain ⟨content, rfl, toStored, partsThere, others, keeps⟩ := storeParts_ok fits fileAim
    ((ready.elsewhere _ fileApart).trans there) filled
  rw [ready.aim] at partsThere others
  obtain ⟨location, _, located, -, effect⟩ := removeFile_ok taken
  have place := leadsTo_of_locate? located
  rw [toStored.leadsTo, fileAim] at place
  subst place
  have count : (threshold.parts content).length ≤ maxParts := by
    rw [Threshold.length_parts]
    exact fits
  refine
    ⟨content, rfl,
      { setting := (ready.setting.trans toStored).trans effect.setting
        free := ready.free
        gone := ?_
        inside := fun rest => ?_
        elsewhere := fun other notFile apart => ?_
        there := (keeps.trans (removeFile_keeps taken)).isDirectory (toStored.trans effect.setting)
          ready.there
        permitted := ready.permitted }⟩
  · rw [effect.entries, if_pos rfl]
  · rw [effect.entries, if_neg]
    · exact splitSteps_inside count ready.top ready.inner ready.entries partsThere others rest
    · intro same
      exact fileApart (same ▸ List.prefix_append _ rest)
  · rw [effect.entries, if_neg notFile, others, ready.elsewhere other apart]
    intro index _ same
    exact apart (by rw [same]; exact List.prefix_append _ _)

/-- A split that ends well has found the file, and has left it alone or gone through all its steps. -/
private theorem splitFile_cases {file : Path} {result : Option Path}
    (done : splitFile threshold file disk = .ok result after) :
    ∃ entry, disk.find? file = some entry ∧
      (entrySize entry ≤ threshold.bytes ∧ result = none ∧ after = disk ∨
        threshold.bytes < entrySize entry ∧ threshold.partCount (entrySize entry) ≤ maxParts ∧
          result = some (splitDirectory file) ∧ ∃ cleared made scripted stored,
            removeExisting (splitDirectory file) disk = .ok () cleared ∧
            makeDirectories (splitDirectory file) cleared = .ok () made ∧
            writeFile ((splitDirectory file).joinName scriptName)
              (reassembleScript (file.fileName?.getD "")).toUTF8 made = .ok () scripted ∧
            storeParts threshold file (splitDirectory file) scripted = .ok () stored ∧
            removeFile file stored = .ok () after) := by
  unfold splitFile at done
  simp only [bind_ok_iff, get_ok_iff] at done
  obtain ⟨_, _, ⟨rfl, rfl⟩, done⟩ := done
  cases found : disk.find? file with
  | none =>
      rw [found] at done
      cases done
  | some entry =>
      rw [found] at done
      refine ⟨entry, rfl, ?_⟩
      dsimp only at done
      split at done
      · rename_i small
        rw [pure_ok_iff] at done
        exact .inl ⟨small, done.1.symm, done.2.symm⟩
      · rename_i large
        split at done
        · cases done
        · rename_i fits
          rw [Nat.not_le] at large
          rw [Nat.not_lt] at fits
          simp only [bind_ok_iff, attempt_ok_iff, pure_ok_iff] at done
          obtain ⟨_, cleared, removed, _, made, prepared, _, scripted, wrote, _, stored, filled, _,
            _, taken, rfl, rfl⟩ := done
          exact .inr ⟨large, fits, rfl, cleared, made, scripted, stored, removed, prepared, wrote,
            filled, taken⟩

/-- A file that is split is replaced by its parts, however its path goes. -/
theorem splitFile_replaces {result : Option Path} (valid : isEntryName name = true)
    (done : splitFile threshold (directory.joinName name) disk = .ok result after) :
    ∃ entry, disk.entryAt? (disk.leadsTo directory ++ [name]) = some entry ∧
      (entrySize entry ≤ threshold.bytes ∧ result = none ∧ after = disk ∨
        ∃ content, entry = .file content ∧ threshold.bytes < content.size ∧
          threshold.partCount content.size ≤ maxParts ∧
          result = some (splitDirectory (directory.joinName name)) ∧
          PartsReplace threshold directory name content disk after) := by
  obtain ⟨entry, found, outcome⟩ := splitFile_cases done
  have all : [name].all isEntryName = true := by simpa using valid
  unfold find? at found
  obtain ⟨location, located, there⟩ := Option.bind_eq_some_iff.mp found
  rw [Path.joinName_eq_joinNames, locate?_joinNames_iff all] at located
  obtain ⟨-, standing, -, rfl⟩ := located
  refine ⟨entry, there, outcome.imp_right ?_⟩
  rintro ⟨large, fits, rfl, cleared, made, scripted, stored, removed, prepared, wrote, filled, taken⟩
  obtain ⟨content, rfl, effect⟩ := splitSteps valid there standing fits removed prepared wrote filled taken
  exact ⟨content, rfl, large, fits, rfl, effect⟩

theorem splitFile_ok {result : Option Path} (valid : isEntryName name = true)
    (outside : disk.keepsOut directory (disk.leadsTo directory ++ [name ++ splitSuffix]))
    (done : splitFile threshold (directory.joinName name) disk = .ok result after) :
    ∃ entry, disk.entryAt? (disk.leadsTo directory ++ [name]) = some entry ∧
      (entrySize entry ≤ threshold.bytes ∧ result = none ∧ after = disk ∨
        ∃ content, entry = .file content ∧ threshold.bytes < content.size ∧
          threshold.partCount content.size ≤ maxParts ∧
          result = some (splitDirectory (directory.joinName name)) ∧
          disk.permits (splitDirectory (directory.joinName name)) ∧
          disk.Becomes (splitView threshold disk (disk.leadsTo directory) name content) after) := by
  obtain ⟨entry, there, outcome⟩ := splitFile_replaces valid done
  refine ⟨entry, there, outcome.imp_right ?_⟩
  rintro ⟨content, rfl, large, fits, rfl, replaced⟩
  have permitted := (replaced.setting.permits _).mp (isDirectory_iff.mp replaced.there).1
  exact ⟨content, rfl, large, fits, rfl, permitted, replaced.becomes outside⟩

/-- What is split has the name of a file at the end of its path. -/
theorem exists_joinName_of_splitFile {file box : Path}
    (done : splitFile threshold file disk = .ok (some box) after) :
    ∃ (directory : Path) (name : String), isEntryName name = true ∧ file = directory.joinName name := by
  obtain ⟨entry, -, ⟨-, absent, -⟩ | ⟨-, -, -, cleared, made, scripted, stored, -, -, -, -, taken⟩⟩ :=
    splitFile_cases done
  · cases absent
  · obtain ⟨location, content, located, there, -⟩ := removeFile_ok taken
    exact exists_joinName_of_file located there

/-- Nothing is done to what is not there. -/
theorem find?_of_splitFile {file : Path} {result : Option Path}
    (done : splitFile threshold file disk = .ok result after) :
    ∃ entry, disk.find? file = some entry := by
  obtain ⟨entry, found, -⟩ := splitFile_cases done
  exact ⟨entry, found⟩

end SplitFile

/-! ### Failing to split -/

/-- If the run fails, then because the disk refused something. -/
private def failsByRefusal {α : Type} : EStateM.Result Error Disk α → Prop :=
  Ends (fun _ _ => True) fun cause _ => ∃ operation path, cause = .refused operation path

private theorem failsByRefusal_bind {α β : Type} {first : Action α} {next : α → Action β}
    {disk : Disk} (start : failsByRefusal (first disk))
    (others : ∀ value middle, failsByRefusal (next value middle)) :
    failsByRefusal ((first >>= next) disk) := by
  unfold failsByRefusal
  rw [ends_bind_iff]
  apply start.mono
  · intro value middle _
    exact others value middle
  · intro cause middle refused
    exact refused

private theorem failsByRefusal_attempt {α : Type} (operation : Operation) (path : Path)
    (access : Access α) (disk : Disk) : failsByRefusal (attempt operation path access disk) := by
  unfold failsByRefusal attempt
  rw [ends_adaptExcept_iff]
  cases access disk with
  | ok value after => trivial
  | error cause after => exact ⟨operation, path, rfl⟩

private theorem failsByRefusal_removeExisting (path : Path) (disk : Disk) :
    failsByRefusal (removeExisting path disk) := by
  unfold removeExisting
  apply failsByRefusal_bind
  · trivial
  · intro current middle
    split
    · exact failsByRefusal_attempt _ _ _ _
    · trivial

private theorem failsByRefusal_writeParts (directory : Path) (index : Nat) (parts : List ByteArray)
    (disk : Disk) : failsByRefusal (writeParts directory index parts disk) := by
  induction parts generalizing index disk with
  | nil => trivial
  | cons part rest ih =>
      unfold writeParts
      apply failsByRefusal_bind
      · exact failsByRefusal_attempt _ _ _ _
      · intro _ middle
        exact ih (index + 1) middle

private theorem failsByRefusal_storeParts (threshold : Threshold) (file directory : Path)
    (disk : Disk) : failsByRefusal (storeParts threshold file directory disk) := by
  unfold storeParts
  apply failsByRefusal_bind
  · trivial
  · intro current middle
    cases current.find? file with
    | none => exact ⟨_, _, rfl⟩
    | some entry =>
        cases entry with
        | file content => exact failsByRefusal_writeParts _ _ _ _
        | directory =>
            apply failsByRefusal_bind
            · exact failsByRefusal_attempt _ _ _ _
            · intro _ _
              exact ⟨_, _, rfl⟩

/-- A file is found to have too many parts before anything is changed. -/
theorem splitFile_capacity {threshold : Threshold} {file path : Path} {size parts : Nat}
    {disk after : Disk} (failed : splitFile threshold file disk = .error (.capacity path size parts) after) :
    after = disk := by
  have ends : Ends (fun _ _ => True) (fun cause middle =>
      (∃ operation place, cause = .refused operation place) ∨ middle = disk)
      (splitFile threshold file disk) := by
    unfold splitFile
    rw [ends_bind_iff, ends_get_iff]
    cases disk.find? file with
    | none => exact .inl ⟨_, _, rfl⟩
    | some entry =>
        dsimp only
        split
        · trivial
        · split
          · exact .inr rfl
          · generalize splitDirectory file = directory, (reassembleScript _).toUTF8 = script
            generalize directory.joinName scriptName = scriptPath
            refine Ends.mono (?_ : failsByRefusal _) (fun _ _ _ => trivial) fun _ _ => .inl
            apply failsByRefusal_bind
            · exact failsByRefusal_removeExisting _ _
            intro _ _
            apply failsByRefusal_bind
            · exact failsByRefusal_attempt _ _ _ _
            intro _ _
            apply failsByRefusal_bind
            · exact failsByRefusal_attempt _ _ _ _
            intro _ _
            apply failsByRefusal_bind
            · exact failsByRefusal_storeParts _ _ _ _
            intro _ _
            apply failsByRefusal_bind
            · exact failsByRefusal_attempt _ _ _ _
            intro _ _
            trivial
  rcases ends.error failed with ⟨operation, place, different⟩ | same
  · cases different
  · exact same

end CrossBuild.Artifacts
