/-
Splitting a tree twice.

Whatever the tree holds, directories of parts from before included, a run that ends well leaves no large
file outside of such directories and changes only those whose file it split. It has nothing to do the
second time, if it can still come to the directories that it made: where the root is spelled with
superfluous slashes, they are made by shorter paths than those of the walk. One such tree is at the end.
-/

import CrossBuild.Proofs.Artifacts.MergeTree
import CrossBuild.Proofs.Artifacts.SingleFile

namespace CrossBuild.Artifacts

open Files Files.Disk Runs

/-- Neither the root of a tree nor a directory between it and a place is a directory of parts. -/
def exposed (root : Path) (place : Location) : Prop :=
  root.fileName?.bind mergedName? = none ∧ isPlain place.dropLast

/-- What a tree is like once its large files are split. -/
structure Settled (threshold : Threshold) (root : Path) (before after : Disk) : Prop where
  small : ∀ file content, exposed root file → treeBelow root after file = some (.file content) →
    content.size ≤ threshold.bytes
  parts : ∀ front name content, exposed root (front ++ [name]) →
    treeBelow root before (front ++ [name]) = some (.file content) → threshold.bytes < content.size →
      treeBelow root after (front ++ [name]) = none ∧ ∃ parts, CutInto threshold.bytes content parts ∧
        (∀ index part, parts[index]? = some part → part.size ≤ threshold.bytes ∧
          treeBelow root after (front ++ [name ++ splitSuffix] ++ [partName index]) =
            some (.file part)) ∧
        ∀ rest stored, treeBelow root after (front ++ [name ++ splitSuffix] ++ rest) =
          some (.file stored) → rest = [scriptName] ∨
            ∃ index, rest = [partName index] ∧ parts[index]? = some stored
  kept : ∀ front base, exposed root (front ++ [base ++ splitSuffix]) → base ≠ "" →
    treeBelow root before (front ++ [base ++ splitSuffix]) = some .directory →
      (∃ content, treeBelow root before (front ++ [base]) = some (.file content) ∧
        threshold.bytes < content.size) ∨
      ∀ rest, treeBelow root after (front ++ [base ++ splitSuffix] ++ rest) =
        treeBelow root before (front ++ [base ++ splitSuffix] ++ rest)
  untouched : root.fileName?.bind mergedName? ≠ none → after = before

section Settled

variable {threshold : Threshold} {root : Path} {start disk after : Disk} {names : Location}
  {count levels depth : Nat}

theorem CutInto.size_le {limit : Nat} {content part : ByteArray} {parts : List ByteArray}
    (cut : CutInto limit content parts) (member : part ∈ parts) : part.size ≤ limit := by
  cases parts using List.reverseRecOn with
  | nil => cases member
  | append_singleton front last =>
      rcases List.mem_append.mp member with before | own
      · exact (cut.full part (by rw [List.dropLast_concat]; exact before)).le
      · rw [List.mem_singleton.mp own]
        exact (cut.last last (by rw [List.getLast?_concat]; rfl)).2

/-! ### Nothing left to do -/

variable (rootPlain : root.fileName?.bind mergedName? = none)

include rootPlain

/-- A walk that comes to no large file changes nothing. -/
theorem splitWithin_of_small (there : disk.isDirectory root = true)
    (fine : ∀ place, isPlain place.dropLast → treeBelow root disk place ≠ none →
      disk.permits (Spot.path ⟨root, place⟩) ∧ place.length < depth ∧
        ∀ content, treeBelow root disk place = some (.file content) → content.size ≤ threshold.bytes)
    (plain : isPlain names) (directory : treeBelow root disk names = some .directory)
    (deep : names.length + levels = depth) :
    Ends (fun _ after => after = ⟨disk, count⟩) (fun _ _ => False)
      ((splitVisitor threshold).walkWithin Tally.disk levels ⟨root, names⟩ ⟨disk, count⟩) := by
  have known := reduced_nil threshold there
  induction levels generalizing names with
  | zero =>
      have shallow := (fine names (fun name member => plain name (List.dropLast_subset _ member))
        (by rw [directory]; simp)).2.1
      omega
  | succ below ih =>
      have present : treeBelow root disk names ≠ none := by rw [directory]; simp
      have valid := valid_of_treeBelow present
      have permitted := (fine names (fun name member => plain name (List.dropLast_subset _ member))
        present).1
      have entered := (known.isDirectory_iff valid).mpr ⟨permitted, directory⟩
      have noParts : isSplitDirectory disk (Spot.path ⟨root, names⟩) = false := by
        unfold isSplitDirectory
        rw [Spot.unmarked rootPlain plain valid, Option.isSome_none, Bool.and_false]
      refine walkWithin_ends (splitVisitor_enters noParts) entered
        (fun _ state => state = ⟨disk, count⟩) rfl ?next fun _ same => same
      rintro visited item rest _ whole rfl
      have listed := mem_childNames_of_turn whole
      dsimp only at listed
      rw [known.leadsTo_spot valid, mem_childNames, List.append_assoc, ← Option.ne_none_iff_exists'] at listed
      have childValid := valid_of_treeBelow listed
      obtain ⟨childPermitted, shallow, small⟩ :=
        fine (names ++ [item]) (by rw [List.dropLast_concat]; exact plain) listed
      have further : (names ++ [item]).length + below = depth := by
        rw [List.length_append, List.length_singleton]
        omega
      split
      · rename_i isDirectory
        have inner := ((known.isDirectory_iff childValid).mp isDirectory).2
        cases parts : mergedName? item with
        | none =>
            exact ih (isPlain_append.mpr ⟨plain, isPlain_cons.mpr ⟨parts, isPlain_nil⟩⟩) inner further
        | some base =>
            obtain ⟨rfl, nonempty⟩ := mergedName?_eq_some_iff.mp parts
            have skipped : isSplitDirectory disk (Spot.path ⟨root, names ++ [base ++ splitSuffix]⟩) =
                true := @isSplitDirectory_child _ ⟨root, names⟩ _ childValid nonempty isDirectory
            obtain ⟨least, rfl⟩ : ∃ least, below = least + 1 := ⟨below - 1, by omega⟩
            change Ends _ _ ((splitVisitor threshold).walkWithin Tally.disk (least + 1)
              ⟨root, names ++ [base ++ splitSuffix]⟩ ⟨disk, count⟩)
            rw [splitVisitor_skips skipped]
            rfl
      · rename_i leaf
        obtain ⟨entry, found⟩ := Option.ne_none_iff_exists'.mp listed
        cases entry with
        | directory => exact absurd ((known.isDirectory_iff childValid).mpr ⟨childPermitted, found⟩) leaf
        | file content =>
            have whole := splitFile_of_small (read?_spot there childPermitted found) (small content found)
            change Ends _ _ (counting (splitFile threshold (Spot.path ⟨root, names ++ [item]⟩)) ⟨disk, count⟩)
            unfold counting
            rw [whole]
            rfl

theorem splitLargeFiles_of_small (there : disk.isDirectory root = true)
    (fine : ∀ place, isPlain place.dropLast → treeBelow root disk place ≠ none →
      disk.permits (Spot.path ⟨root, place⟩) ∧
        ∀ content, treeBelow root disk place = some (.file content) → content.size ≤ threshold.bytes) :
    splitLargeFiles threshold root disk = .ok 0 disk := by
  have top : treeBelow root disk [] = some .directory := by
    unfold treeBelow
    rw [List.append_nil]
    exact entryAt?_leadsTo_of_stands (isDirectory_iff.mp there).2
  have walked := @splitWithin_of_small threshold root disk [] 0 (levelBound disk) (levelBound disk)
    rootPlain there (fun place outside present => ⟨(fine place outside present).1,
      length_lt_levelBound (fine place outside present).1 present, (fine place outside present).2⟩)
    isPlain_nil top (Nat.zero_add _)
  have ends : Ends (fun count after => count = 0 ∧ after = disk) (fun _ _ => False)
      (splitLargeFiles threshold root disk) := by
    apply countingWalk_ends
    refine walked.mono (fun _ after same => ?_) fun _ _ failed => failed
    rw [same]
    exact ⟨rfl, rfl⟩
  cases ran : splitLargeFiles threshold root disk with
  | ok count after =>
      obtain ⟨rfl, rfl⟩ := ends.ok ran
      rfl
  | error cause after => exact (ends.error ran).elim

/-! ### What a run leaves -/

omit rootPlain in
/-- Every file that is replaced is cut into parts, which are all the files in its directory but for the
script. -/
private theorem SplitsFurther.parts_of_file {split : List Location} {front : Location} {name : String}
    {content : ByteArray} {before tally : Tally}
    (splits : SplitsFurther threshold root start (fun _ => True) [] split before tally)
    (outside : isPlain front) (isFile : treeBelow root start (front ++ [name]) = some (.file content))
    (size : threshold.bytes < content.size) :
    treeBelow root tally.disk (front ++ [name]) = none ∧ ∃ parts, CutInto threshold.bytes content parts ∧
      (∀ index part, parts[index]? = some part → part.size ≤ threshold.bytes ∧
        treeBelow root tally.disk (front ++ [name ++ splitSuffix] ++ [partName index]) =
          some (.file part)) ∧
      ∀ rest stored, treeBelow root tally.disk (front ++ [name ++ splitSuffix] ++ rest) =
        some (.file stored) → rest = [scriptName] ∨
          ∃ index, rest = [partName index] ∧ parts[index]? = some stored := by
  have known := splits.state
  rw [List.nil_append] at known
  have member := splits.complete _ content (by rw [List.dropLast_concat]; exact outside) trivial isFile
    size
  obtain ⟨_, same, -, fits⟩ := known.large _ member
  rw [isFile, Option.some.injEq, Entry.file.injEq] at same
  rw [← same, ← Threshold.length_parts] at fits
  have cut := threshold.cutInto_parts (lt_of_le_of_lt (Nat.zero_le _) size)
  have inside := known.inside front name content member isFile
  refine ⟨known.gone _ member, threshold.parts content, cut, fun index part there => ?_,
    fun rest stored there => ?_⟩
  · obtain ⟨within, rfl⟩ := List.getElem?_eq_some_iff.mp there
    have own := @partEntryAt?_part _ name _ _ fits within
    refine ⟨cut.size_le (List.getElem_mem within), ?_⟩
    rcases inside [partName index] with same | ⟨nothing, -⟩
    · rw [same, own]
    · rw [own] at nothing
      cases nothing
  · rcases inside rest with same | ⟨-, isDirectory, -⟩
    · rw [same] at there
      match rest with
      | [] => cases there
      | [entry] =>
          rcases partEntryAt?_eq_some there with ⟨rfl, -⟩ | ⟨index, within, rfl, part⟩
          · exact .inl rfl
          · rw [Entry.file.injEq] at part
            exact .inr ⟨index, rfl, by rw [List.getElem?_eq_getElem within, part]⟩
      | first :: second :: later => cases there
    · rw [isDirectory] at there
      cases there

omit rootPlain in
/-- A directory of parts whose file was not split is as it was. -/
private theorem SplitsFurther.kept_of_box {split : List Location} {front : Location} {base : String}
    {before tally : Tally}
    (splits : SplitsFurther threshold root start (fun _ => True) [] split before tally)
    (outside : isPlain front) (nonempty : base ≠ "")
    (box : treeBelow root start (front ++ [base ++ splitSuffix]) = some .directory) :
    (∃ content, treeBelow root start (front ++ [base]) = some (.file content) ∧
        threshold.bytes < content.size) ∨
      ∀ rest, treeBelow root tally.disk (front ++ [base ++ splitSuffix] ++ rest) =
        treeBelow root start (front ++ [base ++ splitSuffix] ++ rest) := by
  have known := splits.state
  rw [List.nil_append] at known
  by_cases member : front ++ [base] ∈ split
  · obtain ⟨content, isFile, size, -⟩ := known.large _ member
    exact .inl ⟨content, isFile, size⟩
  · right
    intro rest
    unfold treeBelow
    rw [known.setting.leadsTo]
    apply known.elsewhere
    intro file inside
    obtain ⟨other, name, _, rfl, otherPlain, named, isFile, -⟩ := known.exists_name inside
    constructor
    · intro same
      have own := eq_of_partsPlace_prefix otherPlain nonempty
        (List.append_cancel_left same ▸ List.prefix_append _ _)
      rw [own.2, (List.append_inj' own.1 rfl).1, box] at isFile
      cases isFile
    · rw [List.prefix_append_right_inj, partsPlace_concat, List.append_assoc, List.singleton_append,
        parts_prefix_iff otherPlain outside named nonempty]
      exact fun same => member (same ▸ inside)

/-- A second run comes to its end when the directories of parts that the first one made can be reached
below the root as it is spelled. -/
private theorem SplitsFurther.again_iff {split : List Location} (there : start.isDirectory root = true)
    (splits : SplitsFurther threshold root start (fun _ => True) [] split ⟨start, 0⟩ ⟨after, count⟩) :
    splitLargeFiles threshold root after = .ok 0 after ↔
      ∀ file ∈ split, start.permits (Spot.path ⟨root, partsPlace file⟩) := by
  have known := splits.state
  rw [List.nil_append] at known
  have rootPermitted := (isDirectory_iff.mp there).1
  have thereAfter : after.isDirectory root = true :=
    isDirectory_iff.mpr ⟨(known.setting.permits _).mpr rootPermitted, known.standing⟩
  constructor
  · intro ran file member
    obtain ⟨more, further⟩ := (splitLargeFiles_reduces rootPlain thereAfter).ok ran
    obtain ⟨front, name, _, rfl, outside, -⟩ := known.exists_name member
    rw [partsPlace_concat, ← known.setting.permits]
    refine further.reached _ (by rw [List.dropLast_concat]; exact outside) trivial ?_
    rw [known.box member]
    simp
  · intro reached
    refine splitLargeFiles_of_small rootPlain thereAfter fun place outside present => ?_
    rw [known.setting.permits]
    cases place using List.reverseRecOn with
    | nil =>
        refine ⟨rootPermitted, fun content isFile => ?_⟩
        rw [treeBelow, List.append_nil, entryAt?_leadsTo_of_stands known.standing] at isFile
        cases isFile
    | append_singleton front name =>
        rw [List.dropLast_concat] at outside
        refine ⟨?_, fun content isFile => ?_⟩
        · by_cases parts : ∃ base, name = base ++ splitSuffix ∧ front ++ [base] ∈ split
          · obtain ⟨base, rfl, member⟩ := parts
            have permitted := reached _ member
            rw [partsPlace_concat] at permitted
            exact permitted
          · have whole : front ++ [name] ∉ split := fun member => present (known.gone _ member)
            rw [known.treeBelow_eq outside whole fun base same member => parts ⟨base, same, member⟩] at present
            exact splits.reached _ (by rw [List.dropLast_concat]; exact outside) trivial present
        · obtain ⟨whole, old⟩ := known.file_of_file outside isFile
          by_contra large
          exact whole (splits.complete _ content (by rw [List.dropLast_concat]; exact outside) trivial old
            (Nat.not_le.mp large))

omit rootPlain in
theorem isDirectory_of_splitLargeFiles (done : splitLargeFiles threshold root start = .ok count after) :
    start.isDirectory root = true := by
  by_contra closed
  have noParts : isSplitDirectory start (Spot.path ⟨root, []⟩) = false := by
    unfold isSplitDirectory
    rw [Bool.and_eq_false_iff]
    exact .inl (Bool.eq_false_iff.mpr closed)
  have fails : Ends (fun _ _ => False) (fun _ _ => True) (splitLargeFiles threshold root start) := by
    apply countingWalk_ends
    cases levelBound start with
    | zero => trivial
    | succ levels => exact walkWithin_refused (splitVisitor_enters noParts) closed trivial
  exact fails.ok done

omit rootPlain in
/-- A directory of parts is left alone as a whole. -/
theorem splitLargeFiles_of_parts (there : start.isDirectory root = true)
    (marked : root.fileName?.bind mergedName? ≠ none) :
    splitLargeFiles threshold root start = .ok 0 start := by
  have parts : isSplitDirectory start (Spot.path ⟨root, []⟩) = true := by
    unfold isSplitDirectory
    rw [Bool.and_eq_true, Option.isSome_iff_ne_none]
    exact ⟨there, marked⟩
  have positive : 0 < levelBound start := by
    unfold levelBound
    split <;> exact Nat.succ_pos _
  obtain ⟨levels, bound⟩ := Nat.exists_eq_succ_of_ne_zero positive.ne'
  have walked : walkTree (splitVisitor threshold) Tally.disk root ⟨start, 0⟩ = .ok () ⟨start, 0⟩ := by
    change (splitVisitor threshold).walkWithin Tally.disk (levelBound start) ⟨root, []⟩ ⟨start, 0⟩ = _
    rw [bound]
    exact splitVisitor_skips parts
  unfold splitLargeFiles countingWalk
  rw [walked]

end Settled

/-- Beside two directories of parts one large file stands, for which one of them was made. -/
def resplitDisk : Disk :=
  { entries := [(["r"], .directory), (["r", "a"], .file ⟨#[1, 2, 3]⟩),
      (["r", "a.split.file.dir"], .directory), (["r", "a.split.file.dir", "xx.00"], .file ⟨#[4, 5, 6]⟩),
      (["r", "b.split.file.dir"], .directory), (["r", "b.split.file.dir", "xx.00"], .file ⟨#[7, 8, 9]⟩)]
    workingDirectory := []
    limits := some ⟨255, 4095⟩
    keysDistinct := by decide +kernel
    parentsThere := by decide +kernel
    namesValid := by decide +kernel }

/-- A run that ends well leaves nothing to do for a second one. -/
def SplittingSettles (threshold : Threshold) (root : Path) (start : Disk) : Prop :=
  ∀ count after, splitLargeFiles threshold root start = .ok count after →
    Settled threshold root start after ∧ splitLargeFiles threshold root after = .ok 0 after

end CrossBuild.Artifacts
