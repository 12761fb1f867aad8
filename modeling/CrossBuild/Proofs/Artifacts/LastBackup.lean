/-
What laying backups over a repository comes to.

A place holds what the last backup has there that says anything about it, and what it held before if
none does. This is said of all backups in a folder at once, without the order in which their files are
removed, copied and put together.
-/

import CrossBuild.Proofs.Artifacts.HandOff

namespace CrossBuild.Artifacts

open Files Files.Disk Runs

/-- What laying all backups of a folder over a repository does. They are applied in the order of
their names. A place that some of them settle holds the file that the last one of these has there, if
any; elsewhere the files are those that were there before. Even if it fails on the way, nothing
changes in the folder of the backups. -/
structure OverlayExact (target root : Path) (start : Disk) : Prop where
  ordered : (backupNames root start).Pairwise (· ≤ ·)
  list : ∀ applied after, overlay target root start = .ok applied after →
    applied = (backupNames root start).map root.joinName
  settled : ∀ applied after, overlay target root start = .ok applied after →
    ∀ earlier name later place, backupNames root start = earlier ++ name :: later →
      settles (backupTree root start name) place →
      (∀ other ∈ later, ¬ settles (backupTree root start other) place) →
        contentOf? (after.entryAt? (start.leadsTo target ++ place)) =
          contentOf? (backupTree root start name place)
  others : ∀ applied after, overlay target root start = .ok applied after →
    ∀ place, (∀ name ∈ backupNames root start, ¬ settles (backupTree root start name) place) →
      contentOf? (after.entryAt? (start.leadsTo target ++ place)) =
        contentOf? (start.entryAt? (start.leadsTo target ++ place))
  backups : Ends
    (fun _ after => ∀ place, start.leadsTo root <+: place → after.entryAt? place = start.entryAt? place)
    (fun _ after => ∀ place, start.leadsTo root <+: place → after.entryAt? place = start.entryAt? place)
    (overlay target root start)

section Exact

variable {target root : Path} {start : Disk}

end Exact

/-! ### Small disks -/

/-- Two builds of a project, and a repository with leftovers. -/
def layersEntries : List (Location × Entry) :=
  [(["p"], .file "<p><groupId>a</groupId><artifactId>a</artifactId><version>a</version></p>".toUTF8),
    (["m"], .directory), (["m", "a"], .directory), (["m", "a", "a"], .directory),
    (["m", "a", "a", "a"], .directory), (["m", "a", "a", "a", "a"], .directory),
    (["m", "a", "a", "a", "a", "a"], .file ⟨#[1]⟩), (["m", "a", "a", "a", "b"], .directory),
    (["m", "a", "a", "a", "b", "a"], .file ⟨#[2]⟩), (["n"], .directory), (["n", "a"], .directory),
    (["n", "a", "a"], .directory), (["n", "a", "a", "a"], .directory),
    (["n", "a", "a", "a", "b"], .directory), (["n", "a", "a", "a", "b", "b"], .file ⟨#[3]⟩),
    (["r"], .directory), (["r", "a"], .directory), (["r", "a", "a"], .directory),
    (["r", "a", "a", "a"], .directory), (["r", "a", "a", "a", "a"], .directory),
    (["r", "a", "a", "a", "b"], .directory), (["r", "a", "a", "a", "b", "c"], .file ⟨#[4]⟩)]

def layersDisk : Disk :=
  { entries := layersEntries
    workingDirectory := []
    limits := none
    keysDistinct := by decide +kernel
    parentsThere := by decide +kernel
    namesValid := by decide +kernel }

private theorem layers_ways : (layersDisk.leadsTo ⟨"b"⟩ = ["b"] ∧ layersDisk.leadsTo ⟨"m"⟩ = ["m"] ∧
    layersDisk.leadsTo ⟨"n"⟩ = ["n"] ∧ layersDisk.leadsTo ⟨"r"⟩ = ["r"]) ∧
      layersDisk.way ⟨"b"⟩ = [[], ["b"]] ∧ layersDisk.way ⟨"r"⟩ = [[], ["r"]] := by
  decide +kernel

/-- Two builds are backed up and laid over the repository. -/
private theorem layers_run :
    endsWell (backup .default ⟨"p"⟩ ⟨"m"⟩ (Path.joinName ⟨"b"⟩ "c") layersDisk) (fun first between =>
      endsWell (backup .default ⟨"p"⟩ ⟨"n"⟩ (Path.joinName ⟨"b"⟩ "d") between) fun second start =>
        endsWell (overlay ⟨"r"⟩ ⟨"b"⟩ start) fun _ _ => decide (
          (first.copied = [⟨"a", "a", "a"⟩] ∧ second.copied = [⟨"a", "a", "a"⟩]) ∧
          (between.workingDirectory = [] ∧ between.limits = none) ∧
          (start.workingDirectory = [] ∧ start.limits = none) ∧
          (∀ item ∈ layersDisk.entries, ["m"] <+: item.1 → ∀ name ∈ item.1,
            name ∈ ["m", "n", "a", "b"]) ∧
          (∀ item ∈ between.entries, ["n"] <+: item.1 → ∀ name ∈ item.1,
            name ∈ ["m", "n", "a", "b"]) ∧
          backupNames ⟨"b"⟩ start = ["c", "d"] ∧
          backupTree ⟨"b"⟩ start "d" ["a", "a", "a", "b", "b"] = some (.file ⟨#[3]⟩) ∧
          backupTree ⟨"b"⟩ start "d" ["a", "a", "a", "b", "a"] = none)) = true := by
  decide +kernel

private theorem layers_names : ∀ name ∈ ["m", "n", "a", "b"], Text.endsWith splitSuffix name = false := by
  decide +kernel

private theorem layers_project : (Coordinates.names ⟨"a", "a", "a"⟩).all isEntryName = true := by
  decide +kernel

private theorem layers_sound {disk : Disk} {repository : Path} {name source : String}
    {report : BackupReport} (setting : layersDisk.SameSetting disk)
    (aim : layersDisk.leadsTo repository = [source]) (apart : source ≠ "b")
    (folder : Text.endsWith splitSuffix name = false) (copied : report.copied = [⟨"a", "a", "a"⟩])
    (listed : ∀ item ∈ disk.entries, [source] <+: item.1 → ∀ name ∈ item.1,
      name ∈ ["m", "n", "a", "b"]) :
    Delivery.Sound ⟨"b"⟩ ⟨name, disk, repository, .default, report⟩ := by
  obtain ⟨⟨root, -⟩, way, -⟩ := layers_ways
  rw [← setting.leadsTo] at root aim
  rw [← setting.way] at way
  refine Delivery.sound_of_straight ?_ folder copied layers_project (fun place there => ?_) ?_ ?_
  · rw [way, root]
    decide +kernel
  · rw [aim] at there
    exact fun other member => layers_names other (mem_of_entries listed there other member)
  · simp [root, aim]
  · simp [root, aim, apart]

/-- A project that is not installed, and a repository named like a directory of parts. -/
def suffixedDisk : Disk :=
  { entries := [(["p"], .file
        "<p><groupId>a</groupId><artifactId>a</artifactId><version>a</version></p>".toUTF8),
      (["m"], .directory), (["r.split.file.dir"], .directory),
      (["r.split.file.dir", "a"], .file ⟨#[5]⟩)]
    workingDirectory := []
    limits := none
    keysDistinct := by decide +kernel
    parentsThere := by decide +kernel
    namesValid := by decide +kernel }

/-- A folder holds nothing but small files under plain names, and none of them at its top. -/
def holdsSmall (folder : Location) (disk : Disk) : Prop :=
  ∀ item ∈ disk.entries, folder <+: item.1 →
    (∀ name ∈ item.1.drop folder.length, Text.endsWith splitSuffix name = false) ∧
      ∀ content ∈ contentOf? (some item.2),
        content.size ≤ Threshold.default.bytes ∧ folder.length + 1 < item.1.length

instance (folder : Location) (disk : Disk) : Decidable (holdsSmall folder disk) :=
  inferInstanceAs (Decidable (∀ item ∈ disk.entries, folder <+: item.1 → _ ∧
    ∀ content ∈ contentOf? (some item.2), _ ∧ _))

theorem isBackup_of_holdsSmall {root : Path} {name : String} {disk : Disk}
    (small : holdsSmall (disk.leadsTo root ++ [name]) disk) : isBackup (heldBy root name disk) := by
  have listed : ∀ place entry, heldBy root name disk place = some entry →
      (∀ name ∈ place, Text.endsWith splitSuffix name = false) ∧
        ∀ content, entry = .file content →
          content.size ≤ Threshold.default.bytes ∧ 1 < place.length := by
    intro place entry there
    have own := small _ ((entryAt?_eq_some_iff (by simp)).mp there) (List.prefix_append _ place)
    dsimp only at own
    rw [List.drop_left] at own
    refine ⟨own.1, ?_⟩
    rintro content rfl
    have bounds := own.2 content rfl
    have lengths := @List.length_append _ (disk.leadsTo root ++ [name]) place
    exact ⟨bounds.1, by omega⟩
  have free : unsuffixed (heldBy root name disk) := by
    intro place there
    obtain ⟨entry, found⟩ := Option.ne_none_iff_exists'.mp there
    exact (listed place entry found).1
  have sizes : ∀ place content, heldBy root name disk place = some (.file content) →
      content.size ≤ Threshold.default.bytes :=
    fun place content file => ((listed place _ file).2 content rfl).1
  refine ⟨.default, heldBy root name disk, ?_, fun place => (stow_of_small free sizes place).symm⟩
  refine
    { tree := isTree_below_top disk _
      named := fun place there => ?_
      free := free
      fits := fun place content file large => absurd (sizes place content file) (by omega)
      rootless := fun name content file => ?_ }
  · exact namesValid_below there
  · have bounds := ((listed [name] _ file).2 content rfl).2
    simp at bounds

/-- The effect of laying backups over a repository, wherever it and their folder lie apart. -/
def ExactWhenApart (target root : Path) (start : Disk) : Prop :=
  ¬ start.leadsTo target <+: start.leadsTo root → ¬ start.leadsTo root <+: start.leadsTo target →
    (∀ name ∈ backupNames root start, isBackup (heldBy root name start)) →
      OverlayExact target root start

/-- The backup of nothing and the repository are both named like directories of parts, so the
repository becomes an empty file. -/
private theorem loses_repository :
    endsWell (backup .default ⟨"p"⟩ ⟨"m"⟩ (Path.joinName ⟨"b"⟩ "c.split.file.dir") suffixedDisk)
      (fun _ start => endsWell (overlay ⟨"r.split.file.dir"⟩ ⟨"b"⟩ start) fun _ after => decide (
        (start.leadsTo ⟨"r.split.file.dir"⟩ = ["r.split.file.dir"] ∧ start.leadsTo ⟨"b"⟩ = ["b"]) ∧
        backupNames ⟨"b"⟩ start = ["c.split.file.dir"] ∧ holdsSmall ["b", "c.split.file.dir"] start ∧
        backupTree ⟨"b"⟩ start "c.split.file.dir" ["a"] = none ∧
        start.entryAt? ["r.split.file.dir", "a"] = some (.file ⟨#[5]⟩) ∧
        after.entryAt? ["r.split.file.dir", "a"] = none)) = true := by
  decide +kernel

/-- The repository is named through a directory below it. Once that one is removed, the others that
receive files are not emptied. -/
private theorem keeps_leftover :
    endsWell (backup .default ⟨"p"⟩ ⟨"m"⟩ (Path.joinName ⟨"b"⟩ "c") layersDisk)
      (fun _ start => endsWell (overlay ⟨"r/a/a/a/a/../../../.."⟩ ⟨"b"⟩ start) fun _ after => decide (
        (start.leadsTo ⟨"r/a/a/a/a/../../../.."⟩ = ["r"] ∧ start.leadsTo ⟨"b"⟩ = ["b"]) ∧
        backupNames ⟨"b"⟩ start = ["c"] ∧ holdsSmall ["b", "c"] start ∧
        backupTree ⟨"b"⟩ start "c" ["a", "a", "a", "b", "a"] = some (.file ⟨#[2]⟩) ∧
        backupTree ⟨"b"⟩ start "c" ["a", "a", "a", "b", "c"] = none ∧
        after.entryAt? ["r", "a", "a", "a", "b", "c"] = some (.file ⟨#[4]⟩))) = true := by
  decide +kernel

section Again

variable {target root : Path} {start after last : Disk} {applied again : List Path}

/-- Laying the backups over a repository once more gives the same and changes nothing. -/
theorem overlay_again (apart : Apart target root start)
    (made : ∀ name ∈ backupNames root start, isBackup (heldBy root name start))
    (unmerged : ∀ name ∈ backupNames root start, neverMerged (root.joinName name) target)
    (first : overlay target root start = .ok applied after)
    (second : overlay target root after = .ok again last) :
    again = applied ∧ ∀ location, last.entryAt? location = after.entryAt? location := by
  have plain := fun name listed isBackup => unmerged name (mem_backupNames.mpr ⟨listed, isBackup⟩)
  have changed := (overlay_confined apart plain).ok first
  obtain ⟨-, stood, -⟩ := overlay_steps first
  obtain ⟨-, standing, -⟩ := overlay_steps second
  have names := apart.backupNames_eq changed (isDirectory_iff.mp stood).2 (isDirectory_iff.mp standing).2
  obtain ⟨rfl, once⟩ := overlay_layers apart made unmerged first
  obtain ⟨rfl, twice⟩ := overlay_layers (apart.kept changed.setting)
    (by
      rw [names]
      intro name member
      rw [apart.heldBy changed]
      exact made name member)
    (by rw [names]; exact unmerged) second
  rw [names, changed.setting.leadsTo] at twice
  rw [funext (apart.backupTree_eq changed)] at twice
  exact ⟨by rw [names], once.again twice⟩

end Again

/-- A backup below one root, and two below another of which one has a file where the other has a
directory. -/
def crossingEntries : List (Location × Entry) :=
  [(["d"], .directory), (["d", "a"], .directory), (["d", "a", "p"], .directory),
    (["d", "a", "p", "q"], .file ⟨#[1]⟩), (["b"], .directory), (["b", "a"], .directory),
    (["b", "a", "p"], .directory), (["b", "a", "p", "q"], .directory),
    (["b", "a", "p", "q", "f"], .file ⟨#[2]⟩), (["b", "b"], .directory),
    (["b", "b", "p"], .directory), (["b", "b", "p", "q"], .file ⟨#[3]⟩), (["r"], .directory)]

def crossingDisk : Disk :=
  { entries := crossingEntries
    workingDirectory := []
    limits := none
    keysDistinct := by decide +kernel
    parentsThere := by decide +kernel
    namesValid := by decide +kernel }

private theorem crossing_ways : (crossingDisk.leadsTo ⟨"b"⟩ = ["b"] ∧
    crossingDisk.leadsTo ⟨"d"⟩ = ["d"] ∧ crossingDisk.leadsTo ⟨"r"⟩ = ["r"]) ∧
      crossingDisk.way ⟨"r"⟩ = [[], ["r"]] ∧ backupNames ⟨"d"⟩ crossingDisk = ["a"] ∧
      holdsSmall ["d", "a"] crossingDisk := by
  decide +kernel

theorem overlay_again_of_crossing : ∃ applied after last,
    overlay ⟨"r"⟩ ⟨"d"⟩ crossingDisk = .ok applied after ∧
      overlay ⟨"r"⟩ ⟨"d"⟩ after = .ok applied last ∧
      ∀ location, last.entryAt? location = after.entryAt? location := by
  have checked : endsWell (overlay ⟨"r"⟩ ⟨"d"⟩ crossingDisk) (fun _ after =>
      endsWell (overlay ⟨"r"⟩ ⟨"d"⟩ after) fun _ _ => true) = true := by
    decide +kernel
  obtain ⟨applied, after, first, checked⟩ := exists_of_endsWell checked
  obtain ⟨again, last, second, -⟩ := exists_of_endsWell checked
  obtain ⟨⟨-, root, target⟩, way, names, small⟩ := crossing_ways
  have apart : Apart ⟨"r"⟩ ⟨"d"⟩ crossingDisk := by
    refine ⟨by simp [root, target], by simp [root, target], ?_⟩
    unfold Disk.keepsOut
    rw [target, way]
    decide
  have made : ∀ name ∈ backupNames ⟨"d"⟩ crossingDisk, isBackup (heldBy ⟨"d"⟩ name crossingDisk) := by
    rw [names, List.forall_mem_singleton]
    exact isBackup_of_holdsSmall (by rw [root]; exact small)
  obtain ⟨rfl, same⟩ := overlay_again apart made (fun name _ => .inr (by decide +kernel)) first second
  exact ⟨again, after, last, first, second, same⟩

/-- Laying backups over a repository twice is the same as doing it once, wherever it and their folder
lie apart. -/
def SameWhenRepeated (target root : Path) (start : Disk) : Prop :=
  ¬ start.leadsTo target <+: start.leadsTo root → ¬ start.leadsTo root <+: start.leadsTo target →
    ∀ applied after, overlay target root start = .ok applied after →
      ∃ last, overlay target root after = .ok applied last ∧
        ∀ location, last.entryAt? location = after.entryAt? location

/-- The directory that the first backup wants to empty is a file of the second one by then. -/
theorem overlay_again_fails : ¬ SameWhenRepeated ⟨"r"⟩ ⟨"b"⟩ crossingDisk := by
  have checked : endsWell (overlay ⟨"r"⟩ ⟨"b"⟩ crossingDisk) (fun _ after =>
      !endsWell (overlay ⟨"r"⟩ ⟨"b"⟩ after) fun _ _ => true) = true := by
    decide +kernel
  obtain ⟨applied, after, first, checked⟩ := exists_of_endsWell checked
  obtain ⟨⟨root, -, target⟩, -⟩ := crossing_ways
  intro repeated
  obtain ⟨last, second, -⟩ := repeated (by simp [root, target]) (by simp [root, target]) applied after
    first
  rw [second] at checked
  cases checked

end CrossBuild.Artifacts
