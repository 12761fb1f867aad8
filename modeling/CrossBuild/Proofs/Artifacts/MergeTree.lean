/-
Merging a whole tree back.

A tree of which some files are in parts, however it came about, is merged without a failure into the
tree at the start, as long as the parts can be reached by the paths of the walk. These are longer
than the paths by which the parts were written when the root is spelled with more slashes than
needed, so a tree can be split that cannot be merged; the last part is about one.
-/

import CrossBuild.Proofs.Artifacts.Overlays
import CrossBuild.Proofs.Artifacts.SplitTree

namespace CrossBuild.Artifacts

open Files Files.Disk Runs

/-- Some of the files in parts have been merged and counted. -/
structure MergesBack (threshold : Threshold) (root : Path) (start : Disk)
    (split left : List Location) (before after : Tally) : Prop where
  state : PartlySplit threshold root start left after.disk
  count : after.count + left.length = before.count + split.length
  within : left ⊆ split

/-- The paths from the root to the parts of some files keep to the limits. -/
def reachesParts (threshold : Threshold) (root : Path) (start : Disk) (split : List Location) :
    Prop :=
  ∀ file ∈ split, ∀ content, treeBelow root start file = some (.file content) →
    ∀ index < threshold.partCount content.size,
      start.permits (Spot.path ⟨root, partsPlace file ++ [partName index]⟩)

section MergeTree

variable {threshold : Threshold} {root : Path} {start disk : Disk} {split left fewer : List Location}
  {names place file other : Location} {before tally after : Tally} {levels depth : Nat}

theorem MergesBack.refl (known : PartlySplit threshold root start split tally.disk) :
    MergesBack threshold root start split split tally tally where
  state := known
  count := rfl
  within := List.Subset.refl split

theorem MergesBack.trans (first : MergesBack threshold root start split left before tally)
    (second : MergesBack threshold root start left fewer tally after) :
    MergesBack threshold root start split fewer before after where
  state := second.state
  count := by
    have early := first.count
    have late := second.count
    omega
  within := List.Subset.trans second.within first.within

theorem reachesParts.subset (reached : reachesParts threshold root start split)
    (part : left ⊆ split) : reachesParts threshold root start left := fun file member =>
  reached file (part member)

variable (plain : plainTree root start) (there : start.isDirectory root = true)

include plain there

theorem PartlySplit.partsPlace_inj (known : PartlySplit threshold root start split disk)
    (member : file ∈ split) (otherMember : other ∈ split)
    (same : partsPlace file = partsPlace other) : file = other := by
  obtain ⟨front, name, content, rfl, -, valid, -⟩ := known.large.exists_name there member
  obtain ⟨before, base, stored, rfl, -, otherValid, -⟩ := known.large.exists_name there otherMember
  have frontPlain := (isPlain_append.mp (isPlain_of_mem plain.unsuffixed known.large member)).1
  have beforePlain := (isPlain_append.mp (isPlain_of_mem plain.unsuffixed known.large otherMember)).1
  rw [partsPlace_concat, partsPlace_concat] at same
  apply (@parts_prefix_iff _ _ [] _ _ frontPlain beforePlain (isEntryName_iff.mp valid).1
    (isEntryName_iff.mp otherValid).1).mp
  exact same ▸ List.prefix_rfl

theorem partly_partsPlace (large : splittable threshold (treeBelow root start) split)
    (member : file ∈ split) :
    partly threshold (treeBelow root start) split (partsPlace file) = some .directory := by
  obtain ⟨front, name, content, rfl, -, valid, isFile, -⟩ := large.exists_name there member
  have box := partly_of_parts plain.unsuffixed large (isEntryName_iff.mp valid).1 member isFile []
  rw [List.append_nil] at box
  rw [partsPlace_concat]
  exact box

/-- The directories that lead to a file in parts can be entered. -/
theorem PartlySplit.isDirectory_above (known : PartlySplit threshold root start split disk)
    (reached : reachesParts threshold root start split) (member : file ∈ split)
    (within : place <+: partsPlace file) : disk.isDirectory (Spot.path ⟨root, place⟩) = true := by
  have valid := known.large.valid_partsPlace there member
  have box := partly_partsPlace plain there known.large member
  obtain ⟨content, isFile, size, -⟩ := known.large file member
  have first := reached file member content isFile 0 (threshold.partCount_pos size)
  obtain ⟨behind, whole⟩ := within
  rw [← whole] at valid box first
  have partValid := all_isEntryName_concat.mpr ⟨valid, isEntryName_partName 0⟩
  rw [List.append_assoc] at first partValid
  rw [known.isDirectory_iff there (all_isEntryName_append.mp valid).1]
  refine ⟨permits_above there partValid first, ?_⟩
  rw [← known.entryAt?] at box ⊢
  by_cases own : behind = []
  · rw [own, List.append_nil] at box
    exact box
  · rw [← List.append_assoc] at box
    exact entryAt?_above box own

/-- A directory that leads to a file in parts holds the next one. -/
theorem PartlySplit.mem_childNames_above {child : String}
    (known : PartlySplit threshold root start split disk)
    (reached : reachesParts threshold root start split) (member : file ∈ split)
    (within : names ++ [child] <+: partsPlace file) :
    child ∈ disk.childNames (disk.leadsTo root ++ names) := by
  have directory := known.isDirectory_above plain there reached member within
  have valid := known.large.valid_partsPlace there member
  obtain ⟨behind, whole⟩ := within
  rw [← whole, all_isEntryName_append] at valid
  have present := ((known.isDirectory_iff there valid.1).mp directory).2
  rw [mem_childNames, List.append_assoc, known.entryAt?]
  exact ⟨_, present⟩

theorem partly_directory_mono (large : splittable threshold (treeBelow root start) split)
    (within : left ⊆ split)
    (directory : partly threshold (treeBelow root start) left place = some .directory) :
    partly threshold (treeBelow root start) split place = some .directory := by
  have fewer : splittable threshold (treeBelow root start) left := fun file member =>
    large file (within member)
  rcases partly_eq_directory plain.unsuffixed fewer directory with own | ⟨file, member, rfl⟩
  · exact partly_of_directory large own
  · exact partly_partsPlace plain there large (within member)

/-- Going back to a directory merges it if it holds parts. -/
theorem mergeSpot_ends (known : PartlySplit threshold root start left tally.disk)
    (reached : reachesParts threshold root start left) (valid : names.all isEntryName = true) :
    ∃ fewer after, counting (mergeDirectory (Spot.path ⟨root, names⟩)) tally = .ok () after ∧
      MergesBack threshold root start left fewer tally after ∧
        ∀ file ∈ fewer, partsPlace file ≠ names := by
  unfold counting
  by_cases holds : ∃ file ∈ left, partsPlace file = names
  · obtain ⟨file, member, rfl⟩ := holds
    obtain ⟨target, after, merged, state⟩ := known.mergeParts plain there member (reached file member)
    rw [merged]
    refine ⟨left.erase file, _, rfl, ⟨state, ?_, List.erase_subset⟩, ?_⟩
    · have some_ := List.length_pos_of_mem member
      rw [List.length_erase_of_mem member]
      dsimp only
      rw [Option.isSome_some, if_pos rfl]
      omega
    · intro other inside same
      have equal := known.partsPlace_inj plain there (List.mem_of_mem_erase inside) member same
      rw [equal] at inside
      exact known.distinct.not_mem_erase inside
  · have other : ∀ file ∈ left, partsPlace file ≠ names := fun file member same =>
      holds ⟨file, member, same⟩
    rw [known.mergeOther plain there valid other]
    exact ⟨left, tally, rfl, MergesBack.refl known, other⟩

theorem mergeWithin_ends
    (bound : ∀ place, start.permits (Spot.path ⟨root, place⟩) →
      partly threshold (treeBelow root start) split place = some .directory → place.length < depth)
    (large : splittable threshold (treeBelow root start) split)
    (reached : reachesParts threshold root start split) (part : left ⊆ split)
    (known : PartlySplit threshold root start left tally.disk)
    (valid : names.all isEntryName = true) (deep : names.length + levels = depth)
    (entered : tally.disk.isDirectory (Spot.path ⟨root, names⟩) = true) :
    Ends (fun _ after => ∃ fewer, MergesBack threshold root start left fewer tally after ∧
        ∀ file ∈ fewer, ¬ names <+: partsPlace file)
      (fun _ _ => False) (mergeVisitor.walkWithin Tally.disk levels ⟨root, names⟩ tally) := by
  induction levels generalizing left names tally with
  | zero =>
      exfalso
      obtain ⟨permitted, directory⟩ := (known.isDirectory_iff there valid).mp entered
      have shallow := bound names permitted (partly_directory_mono plain there large part directory)
      omega
  | succ below ih =>
      have aim : tally.disk.leadsTo (Spot.path ⟨root, names⟩) = tally.disk.leadsTo root ++ names :=
        leadsTo_spot tally.disk (show (Spot.mk root names).names.all isEntryName = true from valid)
      -- No parts are left below the names gone through. Merging only takes directories away, so
      -- those below the others are still where the walk can enter them.
      refine walkWithin_ends rfl entered (fun visited state => ∃ fewer,
        MergesBack threshold root start left fewer tally state ∧
          ∀ other ∈ visited, ∀ file ∈ fewer, ¬ names ++ [other] <+: partsPlace file)
        ?none ?next ?all
      case none =>
        exact ⟨left, MergesBack.refl known, fun _ absent => nomatch absent⟩
      case next =>
        rintro visited item rest state whole ⟨fewer, merged, apart⟩
        obtain ⟨entry, present⟩ := mem_childNames.mp (mem_childNames_of_turn whole)
        have inner := all_isEntryName_concat.mpr ⟨valid, isEntryName_of_entryAt? present⟩
        have still := List.Subset.trans merged.within part
        split
        · rename_i isDirectory
          refine (ih still merged.state inner ?_ isDirectory).mono (fun _ after later => ?_)
            fun _ _ failed => failed
          · rw [List.length_append, List.length_singleton]
            omega
          · obtain ⟨least, further, gone⟩ := later
            refine ⟨least, merged.trans further, fun other earlier file member => ?_⟩
            rcases List.mem_append.mp earlier with before | own
            · exact apart other before file (further.within member)
            · rw [List.mem_singleton.mp own]
              exact gone file member
        · rename_i leaf
          refine ⟨fewer, merged, fun other earlier file member within => ?_⟩
          rcases List.mem_append.mp earlier with before | own
          · exact apart other before file member within
          · rw [List.mem_singleton.mp own] at within
            exact leaf (merged.state.isDirectory_above plain there (reached.subset still) member
              within)
      case all =>
        rintro state ⟨fewer, merged, apart⟩
        obtain ⟨least, after, ran, further, own⟩ := mergeSpot_ends plain there merged.state
          (reached.subset (List.Subset.trans merged.within part)) valid
        change Ends _ _ (counting (mergeDirectory (Spot.path ⟨root, names⟩)) state)
        rw [ran]
        refine ⟨least, merged.trans further, fun file member within => ?_⟩
        obtain ⟨behind, whole⟩ := within
        cases behind with
        | nil =>
            rw [List.append_nil] at whole
            exact own file member whole.symm
        | cons child rest =>
            have inside := further.within member
            have within : names ++ [child] <+: partsPlace file := by
              rw [← whole]
              exact concat_prefix_iff.mpr rfl
            have listed := known.mem_childNames_above plain there (reached.subset part)
              (merged.within inside) within
            rw [← aim] at listed
            exact apart child listed file inside within

/-- A tree of which some files are in parts is merged back, and each of these files is counted. -/
theorem PartlySplit.mergeLargeFiles_ends (known : PartlySplit threshold root start split disk)
    (reached : reachesParts threshold root start split) :
    Ends (fun count after => count = split.length ∧
        ∀ place, after.entryAt? place = start.entryAt? place)
      (fun _ _ => False) (mergeLargeFiles root disk) := by
  have top : disk.isDirectory root = true :=
    Disk.isDirectory_iff.mpr ⟨(known.planted.setting.permits _).mpr (Disk.isDirectory_iff.mp there).1,
      known.stands there⟩
  apply countingWalk_ends
  have walked := @mergeWithin_ends threshold root start split split [] ⟨disk, 0⟩ (levelBound disk)
    (levelBound disk) plain there
    (fun place permitted directory => length_lt_levelBound
      ((known.planted.setting.permits _).mpr permitted) (by
        unfold treeBelow
        rw [known.entryAt?, directory]
        simp))
    known.large reached (List.Subset.refl split) known rfl (Nat.zero_add _) top
  refine walked.mono (fun _ after finished => ?_) fun _ _ failed => failed
  obtain ⟨fewer, merged, gone⟩ := finished
  obtain rfl : fewer = [] :=
    List.eq_nil_iff_forall_not_mem.mpr fun file member => gone file member List.nil_prefix
  have counted := merged.count
  rw [List.length_nil, Nat.add_zero, Nat.zero_add] at counted
  refine ⟨counted, fun place => ?_⟩
  by_cases within : start.leadsTo root <+: place
  · obtain ⟨rest, rfl⟩ := within
    rw [merged.state.planted.inside, partly_nil]
    rfl
  · exact merged.state.planted.outside place within

end MergeTree

/-! ### There and back -/

/-- The files below a directory that are larger than a threshold. -/
def largeFiles (threshold : Threshold) (root : Path) (disk : Disk) : List Location :=
  (filesBelow disk (disk.leadsTo root)).filter fun file =>
    match treeBelow root disk file with
    | some entry => threshold.bytes < entrySize entry
    | none => false

/-- The files below a directory that are gone later. -/
def missingFiles (root : Path) (before after : Disk) : List Location :=
  (filesBelow before (before.leadsTo root)).filter fun file =>
    after.entryAt? (before.leadsTo root ++ file) = none

/-- Splitting went through the whole tree, or came to a file with too many parts. -/
def splitHalts (threshold : Threshold) (root : Path) (before after : Disk) : Prop :=
  (∃ count, splitLargeFiles threshold root before = .ok count after) ∨
    ∃ path size parts, splitLargeFiles threshold root before = .error (.capacity path size parts) after

/-- Merging brings the tree back and counts the files that were in parts. If splitting came to its
end, it has counted the large files. -/
structure SplitUndone (threshold : Threshold) (root : Path) (before after : Disk) : Prop where
  merges : ∃ last, mergeLargeFiles root after = .ok (missingFiles root before after).length last ∧
    ∀ place, last.entryAt? place = before.entryAt? place
  counts : ∀ count, splitLargeFiles threshold root before = .ok count after →
    count = (largeFiles threshold root before).length

section SplitUndone

variable {threshold : Threshold} {root : Path} {start after : Disk} {split : List Location}

theorem mem_filesBelow_root (there : start.isDirectory root = true) {file : Location} :
    file ∈ filesBelow start (start.leadsTo root) ↔
      ∃ content, treeBelow root start file = some (.file content) := by
  have top := entryAt?_leadsTo_of_stands (isDirectory_iff.mp there).2
  rw [mem_filesBelow]
  constructor
  · exact And.right
  · rintro ⟨content, isFile⟩
    refine ⟨?_, content, isFile⟩
    rintro rfl
    unfold treeBelow at isFile
    rw [List.append_nil, top] at isFile
    cases isFile

theorem mem_largeFiles (there : start.isDirectory root = true) {file : Location} :
    file ∈ largeFiles threshold root start ↔
      ∃ content, treeBelow root start file = some (.file content) ∧ threshold.bytes < content.size := by
  unfold largeFiles
  rw [List.mem_filter, mem_filesBelow_root there]
  constructor
  · rintro ⟨⟨content, isFile⟩, large⟩
    rw [isFile] at large
    exact ⟨content, isFile, of_decide_eq_true large⟩
  · rintro ⟨content, isFile, large⟩
    rw [isFile]
    exact ⟨⟨content, rfl⟩, decide_eq_true large⟩

theorem PartlySplit.missingFiles_perm (plain : plainTree root start)
    (there : start.isDirectory root = true)
    (known : PartlySplit threshold root start split after) :
    (missingFiles root start after).Perm split := by
  have distinct : (missingFiles root start after).Nodup := (nodup_filesBelow _ _).filter _
  rw [List.perm_ext_iff_of_nodup distinct known.distinct]
  intro file
  unfold missingFiles
  rw [List.mem_filter, mem_filesBelow_root there, decide_eq_true_eq, known.planted.inside]
  constructor
  · rintro ⟨⟨content, isFile⟩, gone⟩
    by_contra whole
    rw [partly_plain (plain.unsuffixed.plain file (by rw [isFile]; simp)), if_neg whole, isFile] at gone
    cases gone
  · intro member
    obtain ⟨content, isFile, -⟩ := known.large file member
    exact ⟨⟨content, isFile⟩, by rw [partly, if_pos member]⟩

end SplitUndone

theorem plainTree_of_entries {root : Path} {disk : Disk} (plain : ∀ item ∈ disk.entries,
    ∀ name ∈ item.1.getLast?, Text.endsWith splitSuffix name = false) : plainTree root disk := by
  intro place there name last
  obtain ⟨entry, found⟩ := Option.ne_none_iff_exists'.mp there
  unfold treeBelow at found
  by_cases inside : disk.leadsTo root ++ place = []
  · rw [inside] at last
    cases last
  · exact plain _ ((entryAt?_eq_some_iff inside).mp found) name last

/-- One file that can be split, and one that has too many parts. -/
def crowdedDisk : Disk :=
  { entries := [(["r"], .directory), (["r", "a"], .file ⟨#[1, 2]⟩),
      (["r", "b"], .file ⟨Array.replicate 101 3⟩)]
    workingDirectory := []
    limits := some ⟨255, 4095⟩
    keysDistinct := by decide +kernel
    parentsThere := by decide +kernel
    namesValid := by decide +kernel }

/-- Paths may not be longer than the root below with a name of a few letters. -/
def tightDisk : Disk :=
  { entries := [(["r"], .directory), (["r", "f"], .file ⟨#[1, 2, 3]⟩)]
    workingDirectory := []
    limits := some ⟨255, 40⟩
    keysDistinct := by decide +kernel
    parentsThere := by decide +kernel
    namesValid := by decide +kernel }

/-- Splitting leaves out the slashes when it names the directory of parts, the walk does not. -/
def spacedRoot : Path :=
  ⟨"r//////////////////////////////"⟩

end CrossBuild.Artifacts
