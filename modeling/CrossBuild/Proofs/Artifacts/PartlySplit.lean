/-
Trees of which some files are in parts.

Splitting or merging a whole tree goes from file to file, so on the way some of its large files are
in parts and the others are in one piece. Such a state is given by the tree at the start and a list
of files, in no particular order. Here is what merging does to one of them; the walks are described
elsewhere.
-/

import CrossBuild.Proofs.Artifacts.Copying
import CrossBuild.Proofs.Artifacts.Stowed

namespace CrossBuild.Artifacts

open Files Files.Disk Runs

/-- What stands at and below a directory. -/
def treeBelow (root : Path) (disk : Disk) : Location → Option Entry := fun place =>
  disk.entryAt? (disk.leadsTo root ++ place)

/-- No entry of a tree, its root included, has a name that ends like that of a directory of
parts. -/
def plainTree (root : Path) (disk : Disk) : Prop :=
  ∀ place, treeBelow root disk place ≠ none →
    ∀ name ∈ (disk.leadsTo root ++ place).getLast?, Text.endsWith splitSuffix name = false

/-- A tree with some of its files in parts. -/
def partly (threshold : Threshold) (tree : Location → Option Entry) (split : List Location)
    (place : Location) : Option Entry :=
  if place ∈ split then none
  else (tree place).or
    (stow threshold (fun file => if file ∈ split then tree file else none) place)

/-- The files are larger than the threshold, with no more parts than can be named. -/
def splittable (threshold : Threshold) (tree : Location → Option Entry) (files : List Location) :
    Prop :=
  ∀ file ∈ files, ∃ content, tree file = some (.file content) ∧ threshold.bytes < content.size ∧
    threshold.partCount content.size ≤ maxParts

/-- Where the parts of a file are kept. -/
def partsPlace (file : Location) : Location :=
  file.dropLast ++ [file.getLast?.getD "" ++ splitSuffix]

theorem Spot.path_concat (root : Path) (front : Location) (name : String) :
    Spot.path ⟨root, front ++ [name]⟩ = (Spot.path ⟨root, front⟩).joinName name := by
  unfold Spot.path
  rw [List.foldl_append, List.foldl_cons, List.foldl_nil]

/-! ### Places of parts -/

/-- A place in no directory of parts is not taken for one. -/
theorem Spot.unmarked {root : Path} {names : Location}
    (rootPlain : root.fileName?.bind mergedName? = none) (plain : isPlain names)
    (valid : names.all isEntryName = true) :
    (Spot.path ⟨root, names⟩).fileName?.bind mergedName? = none := by
  cases names using List.reverseRecOn with
  | nil => exact rootPlain
  | append_singleton front last =>
      have own := @Spot.fileName?_child ⟨root, front⟩ last valid
      unfold Spot.child at own
      rw [own, Option.bind_some]
      exact plain last (by simp)

theorem partsPlace_concat (front : Location) (name : String) :
    partsPlace (front ++ [name]) = front ++ [name ++ splitSuffix] := by
  unfold partsPlace
  rw [List.dropLast_concat, List.getLast?_concat, Option.getD_some]

/-- A place within a directory of parts tells where that directory is. -/
theorem parts_prefix_iff {front other rest : Location} {name base : String} (plain : isPlain front)
    (otherPlain : isPlain other) (nonempty : name ≠ "") (some : base ≠ "") :
    front ++ [name ++ splitSuffix] <+: other ++ (base ++ splitSuffix) :: rest ↔
      front ++ [name] = other ++ [base] := by
  induction front generalizing other with
  | nil =>
      cases other with
      | nil =>
          rw [List.nil_append, List.nil_append, List.nil_append, List.nil_append,
            List.cons_prefix_cons, List.cons.injEq]
          constructor
          · rintro ⟨same, -⟩
            exact ⟨(String.append_left_inj splitSuffix).mp same, rfl⟩
          · rintro ⟨rfl, -⟩
            exact ⟨rfl, List.nil_prefix⟩
      | cons first later =>
          constructor
          · intro within
            have same := (List.cons_prefix_cons.mp within).1
            exact absurd (same ▸ List.mem_cons_self) (otherPlain.notMem nonempty)
          · intro same
            have lengths := congrArg List.length same
            simp at lengths
  | cons first later ih =>
      have stands := isPlain_cons.mp plain
      cases other with
      | nil =>
          constructor
          · intro within
            have same := (List.cons_prefix_cons.mp within).1
            exact absurd (same ▸ List.mem_cons_self) (plain.notMem some)
          · intro same
            have lengths := congrArg List.length same
            simp at lengths
      | cons second others =>
          have otherStands := isPlain_cons.mp otherPlain
          rw [List.cons_append, List.cons_append, List.cons_append, List.cons_append,
            List.cons_prefix_cons, List.cons.injEq, ih stands.2 otherStands.2]

/-! ### The view -/

section Partly

variable {threshold : Threshold} {tree : Location → Option Entry} {split : List Location}
  {place front : Location} {name base : String}

theorem partly_nil (threshold : Threshold) (tree : Location → Option Entry) (place : Location) :
    partly threshold tree [] place = tree place := by
  have nothing : stow threshold (fun _ => none) place = none := by
    rcases isPlain_or_split place with plain | ⟨front, base, rest, rfl, plain, some⟩
    · rw [stow_plain plain]
      rfl
    · rw [stow_split plain some]
      rfl
  simp only [partly, List.not_mem_nil, if_false, nothing, Option.or_none]

theorem partly_plain (plain : isPlain place) :
    partly threshold tree split place = if place ∈ split then none else tree place := by
  unfold partly
  split
  · rfl
  · rename_i whole
    rw [stow_plain plain, if_neg whole, wholeEntryAt?_none, Option.or_none]

theorem partly_congr {other : List Location} (same : ∀ file, file ∈ split ↔ file ∈ other) :
    partly threshold tree split = partly threshold tree other := by
  unfold partly
  simp only [same]

theorem splittable.concat {file : Location} {content : ByteArray}
    (large : splittable threshold tree split) (there : tree file = some (.file content))
    (size : threshold.bytes < content.size) (fits : threshold.partCount content.size ≤ maxParts) :
    splittable threshold tree (split ++ [file]) := by
  intro other member
  rcases List.mem_append.mp member with before | own
  · exact large other before
  · rw [List.mem_singleton.mp own]
    exact ⟨content, there, size, fits⟩

variable (free : unsuffixed tree) (large : splittable threshold tree split)

include free large

theorem isPlain_of_mem (member : place ∈ split) : isPlain place := by
  obtain ⟨content, file, -⟩ := large place member
  exact free.plain place (by rw [file]; simp)

theorem partly_parts (plain : isPlain front) (some : base ≠ "") (rest : Location) :
    partly threshold tree split (front ++ (base ++ splitSuffix) :: rest) =
      if front ++ [base] ∈ split then splitEntryAt? threshold base rest (tree (front ++ [base]))
      else none := by
  have whole : front ++ (base ++ splitSuffix) :: rest ∉ split := fun member =>
    (isPlain_of_mem free large member).notMem some (by simp)
  unfold partly
  rw [if_neg whole, free.nothing_in_parts some, Option.none_or, stow_split plain some]
  split
  · rfl
  · rfl

omit free in
theorem partly_of_directory (directory : tree place = some .directory) :
    partly threshold tree split place = some .directory := by
  rw [partly, if_neg, directory, Option.some_or]
  intro member
  obtain ⟨content, file, -⟩ := large place member
  rw [directory] at file
  cases file

/-- Directories are those of the tree and those of parts. -/
theorem partly_eq_directory (there : partly threshold tree split place = some .directory) :
    tree place = some .directory ∨ ∃ file ∈ split, partsPlace file = place := by
  rcases isPlain_or_split place with plain | ⟨front, base, rest, rfl, plain, nonempty⟩
  · rw [partly_plain plain] at there
    split at there
    · cases there
    · exact .inl there
  · rw [partly_parts free large plain nonempty] at there
    split at there
    · rename_i member
      obtain ⟨content, file, size, -⟩ := large _ member
      rw [file, splitEntryAt?, if_neg (Nat.not_le.mpr size)] at there
      refine .inr ⟨front ++ [base], member, ?_⟩
      rw [partsPlace_concat]
      cases rest with
      | nil => rfl
      | cons entry later =>
          cases later with
          | nil =>
              rcases partEntryAt?_eq_some there with ⟨-, isFile⟩ | ⟨index, within, -, isFile⟩
              · cases isFile
              · cases isFile
          | cons _ _ => cases there
    · cases there

theorem partly_of_parts {content : ByteArray} (nonempty : name ≠ "") (member : front ++ [name] ∈ split)
    (file : tree (front ++ [name]) = some (.file content)) (rest : Location) :
    partly threshold tree split (front ++ [name ++ splitSuffix] ++ rest) =
      partEntryAt? threshold name content rest := by
  have plain := isPlain_of_mem free large member
  obtain ⟨other, same, size, -⟩ := large _ member
  rw [file, Option.some.injEq, Entry.file.injEq] at same
  rw [List.append_assoc, List.singleton_append,
    partly_parts free large (isPlain_append.mp plain).1 nonempty, if_pos member, file,
    splitEntryAt?, same, if_neg (Nat.not_le.mpr size)]

/-- Whether one file is in parts shows only where it stands and where its parts do. -/
theorem partly_elsewhere {other : List Location} (plain : isPlain (front ++ [name]))
    (nonempty : name ≠ "")
    (otherLarge : splittable threshold tree other)
    (same : ∀ file, file ≠ front ++ [name] → (file ∈ other ↔ file ∈ split))
    (apart : place ≠ front ++ [name]) (outside : ¬ front ++ [name ++ splitSuffix] <+: place) :
    partly threshold tree other place = partly threshold tree split place := by
  rcases isPlain_or_split place with whole | ⟨start, base, rest, rfl, startPlain, some⟩
  · rw [partly_plain whole, partly_plain whole]
    simp only [same place apart]
  · rw [parts_prefix_iff (isPlain_append.mp plain).1 startPlain nonempty some] at outside
    rw [partly_parts free otherLarge startPlain some, partly_parts free large startPlain some]
    simp only [same (start ++ [base]) fun equal => outside equal.symm]

/-- One more file in parts shows where it stood and where its parts are. -/
theorem partly_concat {content : ByteArray} (nonempty : name ≠ "")
    (file : tree (front ++ [name]) = some (.file content)) (size : threshold.bytes < content.size)
    (fits : threshold.partCount content.size ≤ maxParts) (place : Location) :
    partly threshold tree (split ++ [front ++ [name]]) place =
      if place = front ++ [name] then none
      else if front ++ [name ++ splitSuffix] <+: place then
        partEntryAt? threshold name content (place.drop (front.length + 1))
      else partly threshold tree split place := by
  have more := large.concat file size fits
  split
  · rename_i own
    rw [own, partly, if_pos (by simp)]
  · rename_i apart
    split
    · rename_i within
      obtain ⟨rest, rfl⟩ := within
      rw [partly_of_parts free more nonempty (by simp) file, List.append_assoc, List.singleton_append,
        drop_concat]
    · rename_i outside
      have plain := free.plain (front ++ [name]) (by rw [file]; simp)
      refine partly_elsewhere free large plain nonempty more (fun other different => ?_) apart outside
      rw [List.mem_append, List.mem_singleton]
      exact or_iff_left different

theorem partly_erase {content : ByteArray} (distinct : split.Nodup) (nonempty : name ≠ "")
    (member : front ++ [name] ∈ split) (file : tree (front ++ [name]) = some (.file content))
    (place : Location) :
    partly threshold tree (split.erase (front ++ [name])) place =
      if place = front ++ [name] then some (.file content)
      else if front ++ [name ++ splitSuffix] <+: place then none
      else partly threshold tree split place := by
  have plain := isPlain_of_mem free large member
  have gone : front ++ [name] ∉ split.erase (front ++ [name]) := distinct.not_mem_erase
  have fewer : splittable threshold tree (split.erase (front ++ [name])) := fun other inside =>
    large other (List.mem_of_mem_erase inside)
  split
  · rename_i own
    rw [own, partly_plain plain, if_neg gone, file]
  · rename_i apart
    split
    · rename_i within
      obtain ⟨rest, rfl⟩ := within
      rw [List.append_assoc, List.singleton_append,
        partly_parts free fewer (isPlain_append.mp plain).1 nonempty, if_neg gone]
    · rename_i outside
      apply partly_elsewhere free large plain nonempty fewer _ apart outside
      intro other different
      exact List.mem_erase_of_ne different

end Partly

/-! ### States -/

/-- Some large files of a tree are in parts, and nothing else has changed. The directories of parts
have paths that keep to the limits, with the slashes as splitting leaves them. -/
structure PartlySplit (threshold : Threshold) (root : Path) (start : Disk) (split : List Location)
    (disk : Disk) : Prop where
  planted : start.Plants (start.leadsTo root) (partly threshold (treeBelow root start) split) disk
  distinct : split.Nodup
  large : splittable threshold (treeBelow root start) split
  permitted : ∀ file ∈ split, start.permits (splitDirectory (Spot.path ⟨root, file⟩))

section PartlySplit

variable {threshold : Threshold} {root : Path} {start disk after : Disk} {split : List Location}
  {names front : Location} {name : String}

theorem plainTree.unsuffixed (plain : plainTree root start) : unsuffixed (treeBelow root start) := by
  intro place there name member
  obtain ⟨before, behind, rfl⟩ := List.append_of_mem member
  have present : treeBelow root start (before ++ [name]) ≠ none := by
    by_cases last : behind = []
    · rw [last] at there
      exact there
    · obtain ⟨entry, found⟩ := Option.ne_none_iff_exists'.mp there
      unfold treeBelow at found ⊢
      rw [← List.singleton_append, ← List.append_assoc, ← List.append_assoc,
        List.append_assoc (start.leadsTo root)] at found
      rw [entryAt?_above found last]
      simp
  apply plain _ present
  rw [← List.append_assoc, List.getLast?_concat]
  rfl

theorem valid_of_treeBelow {place : Location} (child : treeBelow root start place ≠ none) :
    place.all isEntryName = true :=
  namesValid_below child

/-! ### Paths into a tree -/

theorem isDirectory_spot_iff (standing : disk.stands root) (valid : names.all isEntryName = true) :
    disk.isDirectory (Spot.path ⟨root, names⟩) = true ↔
      disk.permits (Spot.path ⟨root, names⟩) ∧ treeBelow root disk names = some .directory := by
  rw [Disk.isDirectory_iff]
  apply and_congr_right
  intro _
  unfold treeBelow
  by_cases atTop : names = []
  · subst atTop
    rw [List.append_nil]
    exact ⟨fun _ => entryAt?_leadsTo_of_stands standing, fun _ => standing⟩
  · rw [Spot.path_of_names valid atTop, stands_joinNames valid]
    exact ⟨And.right, fun present => ⟨standing, present⟩⟩

theorem read?_spot {content : ByteArray} (there : disk.isDirectory root = true)
    (permitted : disk.permits (Spot.path ⟨root, names⟩))
    (isFile : treeBelow root disk names = some (.file content)) :
    disk.read? (Spot.path ⟨root, names⟩) = some content := by
  have standing := (isDirectory_iff.mp there).2
  have valid := valid_of_treeBelow (by rw [isFile]; simp : treeBelow root disk names ≠ none)
  by_cases atTop : names = []
  · rw [atTop, treeBelow, List.append_nil, entryAt?_leadsTo_of_stands standing] at isFile
    cases isFile
  · rw [Spot.path_of_names valid atTop] at permitted ⊢
    refine read?_eq_some_iff.mpr
      ⟨_, (locate?_joinNames_iff valid).mpr ⟨permitted, standing, ?_, rfl⟩, isFile⟩
    have parent := entryAt?_dropLast isFile
    rw [List.dropLast_append_of_ne_nil atTop] at parent
    exact parent

/-- The root is not taken for a directory of parts, however it is spelled. -/
theorem plainTree.rootName (plain : plainTree root start) (there : start.isDirectory root = true) :
    root.fileName?.bind mergedName? = none := by
  have standing := entryAt?_leadsTo_of_stands (isDirectory_iff.mp there).2
  cases own : root.fileName? with
  | none => rfl
  | some name =>
      rw [Option.bind_some]
      cases stands : mergedName? name with
      | none => rfl
      | some base =>
          exfalso
          obtain ⟨rfl, nonempty⟩ := mergedName?_eq_some_iff.mp stands
          have spelled : base ++ splitSuffix ≠ "" := by
            intro empty
            rw [String.append_eq_empty_iff] at empty
            exact nonempty empty.1
          obtain ⟨top, aim⟩ := leadsTo_of_fileName? start own spelled
          have present : treeBelow root start [] ≠ none := by
            unfold treeBelow
            rw [List.append_nil, standing]
            simp
          have marked := plain [] present (base ++ splitSuffix) (by
            rw [List.append_nil, aim, List.getLast?_concat]
            rfl)
          rw [endsWith_append] at marked
          cases marked

theorem permits_above {behind : Location} (there : start.isDirectory root = true)
    (valid : (front ++ behind).all isEntryName = true)
    (permitted : start.permits (Spot.path ⟨root, front ++ behind⟩)) :
    start.permits (Spot.path ⟨root, front⟩) := by
  by_cases atTop : front = []
  · rw [atTop]
    exact (Disk.isDirectory_iff.mp there).1
  · rw [Spot.path_of_names valid (by simp [atTop])] at permitted
    rw [Spot.path_of_names (all_isEntryName_append.mp valid).1 atTop]
    exact permits_joinNames_front valid atTop permitted

theorem splittable.exists_name {file : Location}
    (large : splittable threshold (treeBelow root start) split)
    (there : start.isDirectory root = true) (member : file ∈ split) :
    ∃ front name content, file = front ++ [name] ∧ (front ++ [name]).all isEntryName = true ∧
      isEntryName name = true ∧ treeBelow root start (front ++ [name]) = some (.file content) ∧
        threshold.bytes < content.size ∧ threshold.partCount content.size ≤ maxParts := by
  obtain ⟨content, isFile, size, fits⟩ := large file member
  have valid := @valid_of_treeBelow _ _ file (by rw [isFile]; simp)
  cases file using List.reverseRecOn with
  | nil =>
      have top := entryAt?_leadsTo_of_stands (Disk.isDirectory_iff.mp there).2
      unfold treeBelow at isFile
      rw [List.append_nil, top] at isFile
      cases isFile
  | append_singleton front name =>
      exact ⟨front, name, content, rfl, valid, (all_isEntryName_concat.mp valid).2, isFile, size,
        fits⟩

theorem splittable.valid_partsPlace {file : Location}
    (large : splittable threshold (treeBelow root start) split)
    (there : start.isDirectory root = true) (member : file ∈ split) :
    (partsPlace file).all isEntryName = true := by
  obtain ⟨front, name, content, rfl, all, valid, -⟩ := large.exists_name there member
  rw [partsPlace_concat, all_isEntryName_concat]
  exact ⟨(all_isEntryName_append.mp all).1, isEntryName_append_splitSuffix valid⟩

/-- No directory of the tree is taken for a directory of parts. -/
theorem plainTree.unmarked (plain : plainTree root start) (there : start.isDirectory root = true)
    (present : treeBelow root start names ≠ none) :
    (Spot.path ⟨root, names⟩).fileName?.bind mergedName? = none :=
  Spot.unmarked (plain.rootName there) (plain.unsuffixed.plain names present)
    (valid_of_treeBelow present)

variable (known : PartlySplit threshold root start split disk) (plain : plainTree root start)
  (there : start.isDirectory root = true)

include known

theorem PartlySplit.entryAt? (place : Location) : disk.entryAt? (disk.leadsTo root ++ place) =
    partly threshold (treeBelow root start) split place := by
  rw [known.planted.setting.leadsTo]
  exact known.planted.inside place

theorem PartlySplit.keeps {place : Location} (directory : start.entryAt? place = some .directory) :
    disk.entryAt? place = some .directory := by
  by_cases within : start.leadsTo root <+: place
  · obtain ⟨rest, rfl⟩ := within
    rw [known.planted.inside]
    exact partly_of_directory known.large directory
  · rw [known.planted.outside place within]
    exact directory

include plain

theorem PartlySplit.erase {content : ByteArray} (member : front ++ [name] ∈ split)
    (nonempty : name ≠ "") (file : treeBelow root start (front ++ [name]) = some (.file content))
    (effect : disk.Becomes (fun other =>
      if other = disk.leadsTo root ++ front ++ [name] then some (.file content)
      else if disk.leadsTo root ++ front ++ [name ++ splitSuffix] <+: other then none
      else disk.entryAt? other) after) :
    PartlySplit threshold root start (split.erase (front ++ [name])) after where
  planted := by
    rw [known.planted.setting.leadsTo] at effect
    refine known.planted.becomes effect (fun place => ?_) fun other apart => ?_
    · rw [partly_erase plain.unsuffixed known.large known.distinct nonempty member file,
        ← known.entryAt?, known.planted.setting.leadsTo]
      simp only [List.append_assoc, List.append_cancel_left_eq, List.prefix_append_right_inj]
    · have away := apart_from_children (fun within => apart ((List.prefix_append _ front).trans within))
        name (name ++ splitSuffix)
      rw [if_neg away.1, if_neg away.2]
  distinct := known.distinct.erase _
  large := fun other inside => known.large other (List.mem_of_mem_erase inside)
  permitted := fun other inside => known.permitted other (List.mem_of_mem_erase inside)

/-! ### Steps -/

include there

omit plain in
theorem PartlySplit.stands : disk.stands root := by
  intro place member
  rw [known.planted.setting.way] at member
  exact known.keeps ((isDirectory_iff.mp there).2 place member)

omit plain in
theorem PartlySplit.isDirectory_iff (valid : names.all isEntryName = true) :
    disk.isDirectory (Spot.path ⟨root, names⟩) = true ↔ start.permits (Spot.path ⟨root, names⟩) ∧
      partly threshold (treeBelow root start) split names = some .directory := by
  rw [isDirectory_spot_iff (known.stands there) valid, known.planted.setting.permits,
    ← known.entryAt? names, treeBelow]

/-- A directory of parts whose parts can be reached can be merged. -/
theorem PartlySplit.mergeParts {file : Location} (member : file ∈ split)
    (reached : ∀ content, treeBelow root start file = some (.file content) →
      ∀ index < threshold.partCount content.size,
        start.permits (Spot.path ⟨root, partsPlace file ++ [partName index]⟩)) :
    ∃ target after, mergeDirectory (Spot.path ⟨root, partsPlace file⟩) disk =
        .ok (some target) after ∧ PartlySplit threshold root start (split.erase file) after := by
  obtain ⟨front, name, content, rfl, all, valid, isFile, size, fits⟩ :=
    known.large.exists_name there member
  have nonempty := (isEntryName_iff.mp valid).1
  have frontAll := (all_isEntryName_append.mp all).1
  have aim : disk.leadsTo (Spot.path ⟨root, front⟩) = disk.leadsTo root ++ front :=
    leadsTo_spot disk (show (Spot.mk root front).names.all isEntryName = true from frontAll)
  have boxAll := known.large.valid_partsPlace there member
  rw [partsPlace_concat] at boxAll
  have partAll := all_isEntryName_concat.mpr ⟨boxAll, isEntryName_partName 0⟩
  have view := partly_of_parts plain.unsuffixed known.large nonempty member isFile
  have box : disk.isDirectory (Spot.path ⟨root, front ++ [name ++ splitSuffix]⟩) = true := by
    rw [known.isDirectory_iff there boxAll]
    constructor
    · have first := reached content isFile 0 (threshold.partCount_pos size)
      rw [partsPlace_concat] at first
      exact permits_above there partAll first
    · have top := view []
      rw [List.append_nil] at top
      exact top
  have holds : ∀ rest, disk.entryAt? (disk.leadsTo (Spot.path ⟨root, front⟩) ++
      [name ++ splitSuffix] ++ rest) = partEntryAt? threshold name content rest := by
    intro rest
    rw [aim, List.append_assoc, List.append_assoc, known.entryAt?, ← List.append_assoc, view]
  have allowed : ∀ index < (threshold.parts content).length, disk.permits
      (((Spot.path ⟨root, front⟩).joinName (name ++ splitSuffix)).joinName (partName index)) := by
    intro index within
    rw [Threshold.length_parts] at within
    have part := reached content isFile index within
    rw [partsPlace_concat, Spot.path_concat, Spot.path_concat] at part
    exact (known.planted.setting.permits _).mpr part
  have vacant : disk.entryAt? (disk.leadsTo (Spot.path ⟨root, front⟩) ++ [name]) ≠ some .directory := by
    rw [aim, List.append_assoc, known.entryAt?, partly, if_pos member]
    simp
  rw [partsPlace_concat, Spot.path_concat]
  rw [Spot.path_concat] at box
  obtain ⟨after, merged, effect⟩ := mergeDirectory_succeeds valid fits box holds allowed vacant
  rw [aim] at effect
  exact ⟨_, after, merged, known.erase plain member nonempty isFile effect⟩

theorem PartlySplit.mergeOther (valid : names.all isEntryName = true)
    (other : ∀ file ∈ split, partsPlace file ≠ names) :
    mergeDirectory (Spot.path ⟨root, names⟩) disk = .ok none disk := by
  apply mergeDirectory_of_other
  by_contra isSplit
  unfold isSplitDirectory at isSplit
  rw [Bool.not_eq_false, Bool.and_eq_true] at isSplit
  obtain ⟨isDirectory, marked⟩ := isSplit
  have present := ((known.isDirectory_iff there valid).mp isDirectory).2
  rcases partly_eq_directory plain.unsuffixed known.large present with own | ⟨file, member, same⟩
  · rw [plain.unmarked there (by rw [own]; simp)] at marked
    cases marked
  · exact other file member same

end PartlySplit

end CrossBuild.Artifacts
