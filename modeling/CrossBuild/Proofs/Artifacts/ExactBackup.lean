/-
What a backup does, exactly.

Whatever the folder held before, a backup that ends well leaves there what the repository has
installed of the projects it copied, with large files in parts, and outside the folder nothing but
directories that lead to it. The folder and the repository have to lie apart, and neither may be
named by a path that goes through the folder, or through directories that are not there; what
happens otherwise is shown at the end. Backups that fail are not looked at.
-/

import CrossBuild.Proofs.Artifacts.Backups

namespace CrossBuild.Artifacts

open Files Files.Disk Runs

/-- The path of the folder leads down to it through directories that are there or will be made, the
path of the repository passes nothing below the folder, and neither holds the other. -/
structure SetApart (repository folder : Path) (disk : Disk) : Prop where
  spelled : folder.text ≠ ""
  detours : disk.detoursStand folder
  outside : disk.keepsOut folder (disk.leadsTo folder)
  passes : disk.keepsOut repository (disk.leadsTo folder)
  folderApart : ¬ disk.leadsTo folder <+: disk.leadsTo repository
  sourceApart : ¬ disk.leadsTo repository <+: disk.leadsTo folder

def inRepository (repository : Path) (disk : Disk) : Location → Option Entry := fun place =>
  disk.entryAt? (disk.leadsTo repository ++ place)

/-- What is installed of some projects, and the directories that lead to it. -/
def installedOf (repository : Path) (projects : List Coordinates) (disk : Disk) :
    Location → Option Entry :=
  reachOf (inRepository repository disk) (projects.map Coordinates.names)

/-- What a folder of one disk holds on another. -/
def heldIn (folder : Path) (before after : Disk) : Location → Option Entry := fun place =>
  after.entryAt? (before.leadsTo folder ++ place)

/-- Only large files are kept in directories of parts, each in its own. -/
structure SplitExactly (threshold : Threshold) (tree held : Location → Option Entry) : Prop where
  small : ∀ place content, tree place = some (.file content) → content.size ≤ threshold.bytes →
    held place = some (.file content)
  large : ∀ front base content, tree (front ++ [base]) = some (.file content) →
    threshold.bytes < content.size →
      held (front ++ [base]) = none ∧ ∀ place, held (front ++ [base ++ splitSuffix] ++ place) =
        partEntryAt? threshold base content place
  boxes : ∀ front base, held (front ++ [base ++ splitSuffix]) ≠ none →
    ∃ content, tree (front ++ [base]) = some (.file content) ∧ threshold.bytes < content.size

/-- The report lists every project once, in order, and as copied just when the repository has its
directory. Put together again, the folder holds what is installed of these projects. -/
structure BackupExact (threshold : Threshold) (manifest repository folder : Path)
    (report : BackupReport) (before after : Disk) : Prop where
  reported : ∃ projects, collectCoordinates before manifest = .ok projects ∧
    report.copied = projects.filter
      (fun project => before.isDirectory (repository.join project.relativePath)) ∧
    report.skipped = projects.filter
      (fun project => !before.isDirectory (repository.join project.relativePath))
  contents : ∀ place, reassembled (heldIn folder before after) place =
    installedOf repository report.copied before place
  split : SplitExactly threshold (installedOf repository report.copied before)
    (heldIn folder before after)
  elsewhere : ∀ other, ¬ before.leadsTo folder <+: other →
    after.entryAt? other = before.entryAt? other ∨
      before.entryAt? other = none ∧ after.entryAt? other = some .directory ∧
        other <+: before.leadsTo folder

/-- All projects of a manifest have names that can be those of directories. -/
def PlainProjects (manifest : Path) (disk : Disk) : Prop :=
  ∀ projects, collectCoordinates disk manifest = .ok projects →
    ∀ project ∈ projects, project.names.all isEntryName = true

/-- Nothing below the directories of these projects is named like a directory of parts, the
directories themselves included. -/
def FreeOfParts (repository : Path) (projects : List Coordinates) (disk : Disk) : Prop :=
  ∀ project ∈ projects, ∀ place, inRepository repository disk (project.names ++ place) ≠ none →
    ∀ name ∈ project.version :: place, Text.endsWith splitSuffix name = false

section Exact

variable {threshold : Threshold} {manifest repository folder : Path} {report : BackupReport}
  {projects : List Coordinates} {disk next : Disk}

/-- Only the version can be named like a directory of parts: the other names have no dots. -/
theorem endsWith_of_noDot {name : String} (noDot : '.' ∉ name.toList) :
    Text.endsWith splitSuffix name = false := by
  cases ends : Text.endsWith splitSuffix name with
  | false => rfl
  | true =>
      exfalso
      obtain ⟨base, found⟩ := Option.isSome_iff_exists.mp ends
      rw [dropEnding?_eq_some_iff] at found
      apply noDot
      rw [found, String.toList_append]
      exact List.mem_append_right _ (by decide)

theorem FreeOfParts.names (free : FreeOfParts repository projects disk) :
    ∀ project ∈ projects, ∀ place, inRepository repository disk (project.names ++ place) ≠ none →
      ∀ name ∈ project.names ++ place, Text.endsWith splitSuffix name = false := by
  intro project member place there name inside
  have own := free project member place there
  unfold Coordinates.names at inside
  simp only [List.append_assoc, List.mem_append, List.mem_cons] at inside own
  rcases inside with group | artifact | version
  · exact endsWith_of_noDot (Text.not_mem_of_mem_split group)
  · exact endsWith_of_noDot (Text.not_mem_of_mem_split artifact)
  · apply own
    simpa using version

/-- Nothing in a directory of parts is named like one itself. -/
private theorem partEntryAt?_suffixed {name base : String} {content : ByteArray} {front : Location}
    (fits : (threshold.parts content).length ≤ maxParts) :
    partEntryAt? threshold name content (front ++ [base ++ splitSuffix]) = none := by
  cases there : partEntryAt? threshold name content (front ++ [base ++ splitSuffix]) with
  | none => rfl
  | some entry =>
      exfalso
      cases front with
      | cons first rest => cases rest <;> cases there
      | nil =>
          have long : splitSuffix.toList.length ≤ (base ++ splitSuffix).toList.length := by
            rw [String.toList_append, List.length_append]
            omega
          rcases partEntryAt?_eq_some there with ⟨script, -⟩ | ⟨index, within, part, -⟩
          · rw [script] at long
            revert long
            decide
          · rw [part, toList_partName (by omega)] at long
            revert long
            simp [splitSuffix]

theorem splitExactly_stow {tree : Location → Option Entry} (free : unsuffixed tree)
    (named : ∀ place, tree place ≠ none → place.all isEntryName = true)
    (fits : fitsParts threshold tree) : SplitExactly threshold tree (stow threshold tree) := by
  constructor
  case small =>
    intro place content file size
    rw [stow_plain (free.plain place (by rw [file]; simp)), file, wholeEntryAt?, if_pos size]
  case large =>
    intro front base content file size
    have there : tree (front ++ [base]) ≠ none := by rw [file]; simp
    have plain := free.plain _ there
    have nonempty := (isEntryName_iff.mp (all_isEntryName_concat.mp (named _ there)).2).1
    constructor
    · rw [stow_plain plain, file, wholeEntryAt?, if_neg (Nat.not_le.mpr size)]
    · intro place
      rw [List.append_assoc, List.singleton_append, stow_split (isPlain_append.mp plain).1 nonempty,
        file, splitEntryAt?, if_neg (Nat.not_le.mpr size)]
  case boxes =>
    intro front base there
    rcases isPlain_or_split (front ++ [base ++ splitSuffix]) with plain | ⟨start, owner, rest, whole, plain, some⟩
    · exfalso
      rw [stow_plain plain] at there
      have present : tree (front ++ [base ++ splitSuffix]) ≠ none := by
        intro absent
        rw [absent] at there
        exact there rfl
      have plainName := free _ present (base ++ splitSuffix)
        (List.mem_append_right _ (List.mem_singleton.mpr rfl))
      rw [endsWith_append] at plainName
      cases plainName
    · obtain ⟨entry, found⟩ := Option.ne_none_iff_exists'.mp there
      rw [whole, stow_split plain some] at found
      obtain ⟨content, file, size, inside⟩ := splitEntryAt?_eq_some found
      cases rest using List.reverseRecOn with
      | nil =>
          obtain ⟨sameFront, sameName⟩ := List.append_inj' whole rfl
          have sameBase := (String.append_left_inj _).mp (List.cons.inj sameName).1
          rw [sameFront, sameBase]
          exact ⟨content, file, size⟩
      | append_singleton inner last =>
          exfalso
          rw [← List.cons_append, ← List.append_assoc] at whole
          obtain ⟨-, sameName⟩ := List.append_inj' whole rfl
          have count := fits _ content file size
          rw [← Threshold.length_parts] at count
          rw [← (List.cons.inj sameName).1, partEntryAt?_suffixed count] at inside
          cases inside

/-- A backup that ends well has exactly the effect that is asked for. -/
theorem backup_exact (apart : SetApart repository folder disk) (named : PlainProjects manifest disk)
    (free : FreeOfParts repository report.copied disk)
    (done : backup threshold manifest repository folder disk = .ok report next) :
    BackupExact threshold manifest repository folder report disk next := by
  obtain ⟨spelled, detours, outside, passes, folderApart, sourceApart⟩ := apart
  obtain ⟨-, -, -, projects, collected, -⟩ := backup_steps done
  have valid := named projects collected
  have suffixes := free.names
  have plain : ∀ project ∈ report.copied, ∀ place,
      inRepository repository disk (project.names ++ place) ≠ none →
        isPlain (project.names ++ place) := by
    intro project member place there name inside
    exact mergedName?_of_endsWith (suffixes project member place there name inside)
  obtain ⟨copied, skipped⟩ := backup_partition detours outside spelled folderApart sourceApart
    (fun _ => rfl) passes collected valid plain done
  have ofCopied : ∀ project ∈ report.copied, project.names.all isEntryName = true := by
    intro project member
    rw [copied] at member
    exact valid project (List.mem_of_mem_filter member)
  have made : BackedUp threshold (inRepository repository disk) folder report.copied disk next :=
    backup_ok detours outside spelled folderApart sourceApart (fun _ => rfl) ofCopied plain done
  have held : heldIn folder disk next =
      stow threshold (installedOf repository report.copied disk) := funext made.kept
  have unmarked : unsuffixed (installedOf repository report.copied disk) := by
    apply unsuffixed_reachOf
    · intro top listed
      obtain ⟨project, member, rfl⟩ := List.mem_map.mp listed
      rw [made.installed project member]
      simp
    · intro top listed
      obtain ⟨project, member, rfl⟩ := List.mem_map.mp listed
      exact suffixes project member
  have entryNames : ∀ place, installedOf repository report.copied disk place ≠ none →
      place.all isEntryName = true := by
    intro place there
    rcases @reachOf_within (inRepository repository disk) (report.copied.map Coordinates.names) place
      with absent | same
    · exact absurd absent there
    · exact namesValid_below fun gone => there (same.trans gone)
  constructor
  case reported => exact ⟨projects, collected, copied, skipped⟩
  case contents =>
    intro place
    have top : installedOf repository report.copied disk [] = some .directory := by
      unfold installedOf reachOf
      rw [if_pos (.inl rfl)]
      exact made.top
    rw [held]
    exact reassembled_stow top entryNames unmarked made.fits place
  case split =>
    rw [held]
    exact splitExactly_stow unmarked entryNames made.fits
  case elsewhere =>
    intro other outer
    rcases made.elsewhere other outer with same | ⟨absent, fresh, onWay⟩
    · exact .inl same
    · right
      rcases detours other onWay with above | there
      · exact ⟨absent, fresh, above⟩
      · rw [absent] at there
        cases there

end Exact

/-! ### A small disk -/

/-- A project and a module whose directory lies below its own, what they have installed, a project
that is named like a directory of parts, and a folder with leftovers. -/
def nestedEntries : List (Location × Entry) :=
  [(["w"], .directory),
    (["w", "p"], .file ("<p><groupId>a</groupId><artifactId>a</artifactId><version>a</version>".toUTF8 ++
      "<modules><module>n</module></modules></p>".toUTF8)),
    (["w", "n"], .directory), (["w", "n", "pom.xml"],
      .file "<p><groupId>a.a</groupId><artifactId>a</artifactId><version>b</version></p>".toUTF8),
    (["w", "q"], .file ("<p><groupId>b</groupId><artifactId>b</artifactId>".toUTF8 ++
      "<version>1.split.file.dir</version></p>".toUTF8)),
    (["w", "c"], .directory), (["w", "c", "x"], .directory), (["w", "c", "x", "a"], .file ⟨#[9]⟩),
    (["m"], .directory), (["m", "a"], .directory), (["m", "a", "a"], .directory),
    (["m", "a", "a", "a"], .directory), (["m", "a", "a", "a", "a"], .file ⟨#[1]⟩),
    (["m", "a", "a", "a", "b"], .directory), (["m", "a", "a", "a", "b", "a"], .file ⟨#[1, 2, 3]⟩),
    (["m", "b"], .directory), (["m", "b", "b"], .directory),
    (["m", "b", "b", "1.split.file.dir"], .directory)]

def nestedDisk : Disk :=
  { entries := nestedEntries
    workingDirectory := ["w"]
    limits := none
    keysDistinct := by decide +kernel
    parentsThere := by decide +kernel
    namesValid := by decide +kernel }

theorem nested_plain : PlainProjects ⟨"p"⟩ nestedDisk := by
  have checked : (match collectCoordinates nestedDisk ⟨"p"⟩ with
    | .ok projects => projects.all fun project => project.names.all isEntryName
    | .error _ => false) = true := by
    decide +kernel
  intro projects collected
  rw [collected] at checked
  exact List.all_eq_true.mp checked

/-- Both projects are copied, and the file of the module, which both of them hold, is split. -/
theorem backup_exact_of_nested : ∃ report next,
    backup (.ofBytes 2) ⟨"p"⟩ ⟨"/m"⟩ ⟨"c"⟩ nestedDisk = .ok report next ∧
      report.copied = [⟨"a", "a", "a"⟩, ⟨"a.a", "a", "b"⟩] ∧
      BackupExact (.ofBytes 2) ⟨"p"⟩ ⟨"/m"⟩ ⟨"c"⟩ report nestedDisk next := by
  have checked : endsWell (backup (.ofBytes 2) ⟨"p"⟩ ⟨"/m"⟩ ⟨"c"⟩ nestedDisk) (fun report _ =>
      decide (report.copied = [⟨"a", "a", "a"⟩, ⟨"a.a", "a", "b"⟩])) = true := by
    decide +kernel
  have ways : nestedDisk.leadsTo ⟨"c"⟩ = ["w", "c"] ∧ nestedDisk.leadsTo ⟨"/m"⟩ = ["m"] ∧
      nestedDisk.way ⟨"c"⟩ = [["w"], ["w", "c"]] ∧ nestedDisk.way ⟨"/m"⟩ = [[], ["m"]] := by
    decide +kernel
  have names : Coordinates.names ⟨"a", "a", "a"⟩ = ["a", "a", "a"] ∧
      Coordinates.names ⟨"a.a", "a", "b"⟩ = ["a", "a", "a", "b"] := by
    decide +kernel
  obtain ⟨aim, source, way, sourceWay⟩ := ways
  obtain ⟨report, next, done, checked⟩ := exists_of_endsWell checked
  have copied := of_decide_eq_true checked
  refine ⟨report, next, done, copied, backup_exact ?apart nested_plain ?free done⟩
  case apart =>
    refine
      { spelled := by decide
        detours := ?_
        outside := ?_
        passes := ?_
        folderApart := by simp [aim, source]
        sourceApart := by simp [aim, source] }
    · unfold Disk.detoursStand
      rw [way, aim]
      decide
    · unfold Disk.keepsOut
      rw [way, aim]
      decide
    · unfold Disk.keepsOut
      rw [sourceWay, aim]
      decide
  case free =>
    have listed : ∀ item ∈ nestedDisk.entries, ["m", "a"] <+: item.1 → ∀ name ∈ item.1,
        name ∈ ["m", "a", "b"] := by
      decide +kernel
    have plain : ∀ name ∈ ["m", "a", "b"], Text.endsWith splitSuffix name = false := by
      decide +kernel
    intro project member place there name inside
    unfold inRepository at there
    rw [source] at there
    rw [copied] at member
    simp only [List.mem_cons, List.not_mem_nil, or_false] at member inside
    apply plain
    rcases member with rfl | rfl
    · rw [names.1] at there
      rcases inside with rfl | within
      · decide
      · exact mem_of_entries listed there name (by simp [within])
    · rw [names.2] at there
      rcases inside with rfl | within
      · decide
      · exact mem_of_entries listed there name (by simp [within])

/-! ### Where backups are not exact -/

/-- Backups are exact as long as the folder and the repository lie apart, the projects have plain
names, and nothing in their directories is named like a directory of parts. -/
def ExactWhenDisjoint (threshold : Threshold) (manifest repository folder : Path) (disk : Disk) :
    Prop :=
  ¬ disk.leadsTo folder <+: disk.leadsTo repository →
  ¬ disk.leadsTo repository <+: disk.leadsTo folder →
  PlainProjects manifest disk →
  ∀ report next,
    (∀ project ∈ report.copied, ∀ place, inRepository repository disk (project.names ++ place) ≠ none →
      ∀ name ∈ place, Text.endsWith splitSuffix name = false) →
    backup threshold manifest repository folder disk = .ok report next →
    BackupExact threshold manifest repository folder report disk next

/-- The backup ends well, and at some place there is not what is installed, or a project that is
installed is not copied. -/
def missesInstalled (manifest repository folder : Path) (place : Location) (disk : Disk) : Bool :=
  match collectCoordinates disk manifest, backup .default manifest repository folder disk with
  | .ok projects, .ok report next => decide (
      (¬ disk.leadsTo folder <+: disk.leadsTo repository ∧
        ¬ disk.leadsTo repository <+: disk.leadsTo folder) ∧
      (∀ project ∈ projects, project.names.all isEntryName = true) ∧
      (∀ project ∈ report.copied, ∀ item ∈ disk.entries,
        disk.leadsTo repository ++ project.names <+: item.1 →
          ∀ name ∈ item.1.drop (disk.leadsTo repository ++ project.names).length,
            Text.endsWith splitSuffix name = false) ∧
      (reassembled (heldIn folder disk next) place ≠ installedOf repository report.copied disk place ∨
        ∃ project ∈ projects, disk.isDirectory (repository.join project.relativePath) = true ∧
          project ∉ report.copied))
  | _, _ => false

theorem not_exactWhenDisjoint {manifest repository folder : Path} {place : Location} {disk : Disk}
    (missed : missesInstalled manifest repository folder place disk = true) :
    ¬ ExactWhenDisjoint .default manifest repository folder disk := by
  intro claimed
  unfold missesInstalled at missed
  split at missed
  · rename_i projects report next collected done
    rw [decide_eq_true_eq] at missed
    obtain ⟨⟨folderApart, sourceApart⟩, named, free, missed⟩ := missed
    have result := claimed folderApart sourceApart ?named report next ?free done
    case named =>
      intro others same
      rw [collected] at same
      rw [← Except.ok.inj same]
      exact named
    case free =>
      intro project member place there
      unfold inRepository at there
      rw [← List.append_assoc] at there
      obtain ⟨entry, found⟩ := Option.ne_none_iff_exists'.mp there
      have inner : disk.leadsTo repository ++ project.names ++ place ≠ [] := by
        intro empty
        exact project.names_ne_nil
          (List.append_eq_nil_iff.mp (List.append_eq_nil_iff.mp empty).1).2
      have listed := free project member _ ((entryAt?_eq_some_iff inner).mp found)
        (List.prefix_append _ place)
      dsimp only at listed
      rw [List.drop_left] at listed
      exact listed
    rcases missed with different | ⟨project, member, installed, absent⟩
    · exact different (result.contents place)
    · obtain ⟨others, same, copied, -⟩ := result.reported
      rw [collected] at same
      rw [← Except.ok.inj same] at copied
      rw [copied] at absent
      exact absent (List.mem_filter.mpr ⟨member, installed⟩)
  · cases missed

/-- A folder without a name is the working directory, which is not emptied. -/
private theorem keeps_workingDirectory :
    missesInstalled ⟨"p"⟩ ⟨"/m"⟩ ⟨""⟩ ["c"] nestedDisk = true := by
  decide +kernel

/-- The path goes through a directory that is made only after the folder was to be removed. -/
private theorem keeps_leftovers :
    missesInstalled ⟨"p"⟩ ⟨"/m"⟩ ⟨"z/../c"⟩ ["x", "a"] nestedDisk = true := by
  decide +kernel

/-- The path goes through the folder, so part of it is made anew. -/
private theorem makes_detour :
    missesInstalled ⟨"p"⟩ ⟨"/m"⟩ ⟨"c/x/.."⟩ ["x"] nestedDisk = true := by
  decide +kernel

/-- The repository is named through the folder, and out of reach once that one is removed. -/
private theorem loses_repository_path :
    missesInstalled ⟨"p"⟩ ⟨"c/x/../../../m"⟩ ⟨"c"⟩ [] nestedDisk = true := by
  decide +kernel

/-- The directory of the project itself has the name of a directory of parts. -/
private theorem mistakes_project :
    missesInstalled ⟨"q"⟩ ⟨"/m"⟩ ⟨"c"⟩ ["b", "b", "1"] nestedDisk = true := by
  decide +kernel

theorem backup_inexact_on_crossed_paths :
    ¬ ExactWhenDisjoint .default ⟨"p"⟩ ⟨"/m"⟩ ⟨""⟩ nestedDisk ∧
    ¬ ExactWhenDisjoint .default ⟨"p"⟩ ⟨"/m"⟩ ⟨"z/../c"⟩ nestedDisk ∧
    ¬ ExactWhenDisjoint .default ⟨"p"⟩ ⟨"/m"⟩ ⟨"c/x/.."⟩ nestedDisk ∧
    ¬ ExactWhenDisjoint .default ⟨"p"⟩ ⟨"c/x/../../../m"⟩ ⟨"c"⟩ nestedDisk ∧
    ¬ ExactWhenDisjoint .default ⟨"q"⟩ ⟨"/m"⟩ ⟨"c"⟩ nestedDisk :=
  ⟨not_exactWhenDisjoint keeps_workingDirectory, not_exactWhenDisjoint keeps_leftovers,
    not_exactWhenDisjoint makes_detour, not_exactWhenDisjoint loses_repository_path,
    not_exactWhenDisjoint mistakes_project⟩

end CrossBuild.Artifacts
