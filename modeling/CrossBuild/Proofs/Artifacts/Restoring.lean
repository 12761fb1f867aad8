/-
Copying a tree with directories of parts merged.

The source is what is kept of a tree, with large files in parts, and the target ends up with the
tree itself over what it held before. A directory of parts is copied like any other and replaced by
its file when it is left, so for a moment both the parts and nothing else may stand next to the file:
directories that receive files are taken to be empty before.
-/

import CrossBuild.Proofs.Artifacts.Copying
import CrossBuild.Proofs.Artifacts.Stowed

namespace CrossBuild.Artifacts

open Files Files.Disk Runs

/-! ### A directory of parts -/

section Parts

variable {threshold : Threshold} {target : Path} {spot : Spot} {old : Location → Option Entry}
  {content : ByteArray} {base name : String} {disk state next : Disk} {levels : Nat}

/-- What is there of a directory of parts once some of its names are copied. -/
def gatheredParts (threshold : Threshold) (base : String) (content : ByteArray)
    (copied : List String) : Location → Option Entry
  | [] => some .directory
  | name :: rest => if name ∈ copied then partEntryAt? threshold base content (name :: rest) else none

private theorem partEntryAt?_below (first second : String) (rest : Location) :
    partEntryAt? threshold base content (first :: second :: rest) = none := rfl

private theorem partEntryAt?_ne_directory (name : String) :
    partEntryAt? threshold base content [name] ≠ some .directory := by
  intro there
  rcases partEntryAt?_eq_some there with ⟨-, same⟩ | ⟨_, _, -, same⟩
  · cases same
  · cases same

private theorem gatherPart_ok {copied : List String}
    (known : CopyAt target spot (partEntryAt? threshold base content) old disk)
    (filled : disk.Plants (spot.target target disk) (gatheredParts threshold base content copied)
      state)
    (there : partEntryAt? threshold base content [name] ≠ none) (fresh : name ∉ copied)
    (done : copyChild target .merge levels spot name state = .ok () next) :
    disk.Plants (spot.target target disk)
        (gatheredParts threshold base content (copied ++ [name])) next ∧
      disk.permits (target.joinNames (spot.names ++ [name])) := by
  rcases known.copyChild_ok filled rfl there done with
    ⟨isDirectory, -⟩ | ⟨found, file, permitted, planted⟩
  · exact absurd isDirectory (partEntryAt?_ne_directory name)
  · refine ⟨(filled.graft planted).congr fun place => ?_, permitted⟩
    cases place with
    | nil => rfl
    | cons first rest =>
        by_cases same : first = name
        · subst same
          simp only [graft, gatheredParts, List.mem_append, List.mem_singleton, or_true, if_true,
            fresh, if_false]
          cases rest with
          | nil => rw [if_pos rfl, file]
          | cons second later => rw [if_neg (List.cons_ne_nil _ _), partEntryAt?_below]
        · simp only [graft, gatheredParts, List.mem_append, List.mem_singleton, same, or_false,
            if_false]

private theorem gatheredParts_all {names : List String}
    (children : ∀ name, name ∈ names ↔ partEntryAt? threshold base content [name] ≠ none)
    (place : Location) :
    gatheredParts threshold base content names place =
      partEntryAt? threshold base content place := by
  cases place with
  | nil => rfl
  | cons first rest =>
      rw [gatheredParts]
      split
      · rfl
      · rename_i absent
        have missing : partEntryAt? threshold base content [first] = none := by
          by_contra there
          exact absent ((children first).mpr there)
        cases rest with
        | nil => rw [missing]
        | cons second later => rw [partEntryAt?_below]

/-- Where a directory is empty, filling it leaves every path as it was. -/
theorem isDirectory_of_filled {top : Location} {view inner : Location → Option Entry}
    {made filled : Disk} {path : Path} (emptied : disk.Plants top view made)
    (empty : ∀ first rest, view (first :: rest) = none) (gathered : disk.Plants top inner filled)
    (open_ : inner [] = some .directory) (there : made.isDirectory path = true) :
    filled.isDirectory path = true := by
  obtain ⟨followed, stood⟩ := isDirectory_iff.mp there
  have change : made.SameSetting filled := emptied.setting.symm.trans gathered.setting
  refine isDirectory_iff.mpr ⟨(change.permits _).mpr followed, fun place member => ?_⟩
  rw [change.way] at member
  have standing := stood place member
  by_cases within : top <+: place
  · obtain ⟨rest, rfl⟩ := within
    rw [emptied.inside] at standing
    rw [gathered.inside]
    cases rest with
    | nil => exact open_
    | cons first later =>
        rw [empty] at standing
        cases standing
  · rw [gathered.outside place within, ← emptied.outside place within]
    exact standing

/-- The parts are copied one by one into the empty directory, and nothing has been merged then. -/
private theorem gatherParts_ok
    (known : CopyAt target spot (partEntryAt? threshold base content) old disk)
    (nothing : ∀ place, old place = none)
    (done : Visitor.walkWithin (copyVisitor target .merge) id levels spot disk = .ok () next) :
    ∃ copied, disk.Plants (spot.target target disk) (partEntryAt? threshold base content) copied ∧
      copied.isDirectory spot.path = true ∧ disk.permits (target.joinNames spot.names) ∧
      (∀ name, partEntryAt? threshold base content [name] ≠ none →
        disk.permits (target.joinNames (spot.names ++ [name]))) ∧
      finishDirectory .merge spot.path (spot.below target) copied = .ok () next := by
  obtain ⟨below, made, names, copied, -, -, permitted, -, isDirectory, entered, distinct, children,
    moved, finished⟩ := known.copyWithin_ok done
  have blank : ∀ first rest, enteredView old (first :: rest) = none := by
    intro first rest
    rw [enteredView, nothing]
  obtain ⟨gathered, allowed⟩ := forM_distinct_ok distinct
    (fun copied current => disk.Plants (spot.target target disk)
      (gatheredParts threshold base content copied) current)
    (fun other => disk.permits (target.joinNames (spot.names ++ [other])))
    (entered.congr fun place => by
      cases place with
      | nil => rfl
      | cons first rest =>
          rw [blank]
          rfl)
    (fun before name current next _ member fresh kept moved =>
      gatherPart_ok known kept ((children name).mp member) fresh moved)
    moved
  exact ⟨copied, gathered.congr (gatheredParts_all children),
    isDirectory_of_filled entered blank gathered rfl isDirectory, permitted,
    fun name there => allowed name ((children name).mpr there), finished⟩

/-- A directory of parts that is copied into a place where nothing stands leaves its file. -/
theorem restoreParts_ok (valid : isEntryName base = true)
    (fits : threshold.partCount content.size ≤ maxParts)
    (known : CopyAt target (spot.child (base ++ splitSuffix)) (partEntryAt? threshold base content)
      old disk)
    (nothing : ∀ place, old place = none)
    (done : Visitor.walkWithin (copyVisitor target .merge) id levels
      (spot.child (base ++ splitSuffix)) disk = .ok () next) :
    disk.Becomes (fun other =>
      if other = spot.target target disk ++ [base] then some (.file content)
      else if spot.target target disk ++ [base ++ splitSuffix] <+: other then none
      else disk.entryAt? other) next := by
  obtain ⟨copied, gathered, sourceThere, permitted, allowed, finished⟩ :=
    gatherParts_ok known nothing done
  have aim : (spot.child (base ++ splitSuffix)).target target disk =
      spot.target target disk ++ [base ++ splitSuffix] := (List.append_assoc ..).symm
  rw [aim] at gathered
  have isSplit := isSplitDirectory_child known.valid (isEntryName_iff.mp valid).1 sourceThere
  have front := (all_isEntryName_concat.mp known.valid).1
  have box : (spot.child (base ++ splitSuffix)).below target =
      (target.joinNames spot.names).joinName (base ++ splitSuffix) :=
    (Path.joinName_joinNames target known.valid).symm
  have top : copied.leadsTo (target.joinNames spot.names) = spot.target target disk := by
    rw [leadsTo_joinNames front, gathered.setting.leadsTo]
  have holds : ∀ place, copied.entryAt? (copied.leadsTo (target.joinNames spot.names) ++
      [base ++ splitSuffix] ++ place) = partEntryAt? threshold base content place := by
    intro place
    rw [top, gathered.inside]
  have own : copied.entryAt? (spot.target target disk ++ [base ++ splitSuffix]) = some .directory :=
    gathered.atTop
  have standing : copied.stands (target.joinNames (spot.child (base ++ splitSuffix)).names) := by
    refine (stands_joinNames known.valid).mpr ⟨?_, ?_⟩
    · refine gathered.setting.stands_of_outside ?_ gathered.outside own known.standing
      rw [List.append_assoc]
      exact known.outside.append _
    · rw [gathered.setting.leadsTo]
      rw [List.append_assoc] at own
      exact own
  unfold finishDirectory at finished
  simp only [bind_ok_iff, get_ok_iff] at finished
  obtain ⟨_, _, ⟨rfl, rfl⟩, finished⟩ := finished
  rw [isSplit, if_pos rfl, discard_ok_iff, box] at finished
  obtain ⟨result, merged⟩ := finished
  have effect := mergeDirectory_ok valid fits ?_ holds ?_ merged
  · rw [top] at effect
    refine ⟨gathered.setting.trans effect.setting, fun other => ?_⟩
    rw [effect.entries]
    split
    · rfl
    · split
      · rfl
      · rename_i apart
        exact gathered.outside other apart
  · rw [← box]
    exact isDirectory_iff.mpr ⟨(gathered.setting.permits _).mpr permitted, standing⟩
  · intro index within
    have there : partEntryAt? threshold base content [partName index] ≠ none := by
      rw [partEntryAt?_part (by rw [Threshold.length_parts]; exact fits) within]
      simp
    rw [← box]
    unfold Spot.below
    rw [Path.joinName_joinNames target]
    · exact (gathered.setting.permits _).mpr (allowed _ there)
    · exact all_isEntryName_concat.mpr ⟨known.valid, isEntryName_partName index⟩

end Parts

/-! ### A directory of the tree -/

/-- What has to be known where a directory is copied with its directories of parts merged. -/
structure Restoring (threshold : Threshold) (target : Path) (spot : Spot)
    (image old : Location → Option Entry) (disk : Disk) : Prop
    extends CopyAt target spot (stow threshold image) old disk where
  tree : isTree image
  named : ∀ place, image place ≠ none → place.all isEntryName = true
  plain : ∀ place, image place ≠ none → isPlain place
  fits : fitsParts threshold image
  unmerged : neverMerged spot.path (spot.below target)
  empty : ∀ place name content, image (place ++ [name]) = some (.file content) →
    disk.permits (target.joinNames (spot.names ++ place)) →
      ∀ rest, rest ≠ [] → old (place ++ rest) = none

/-- What a directory holds once some names of the source are copied. -/
def restoredView (image old : Location → Option Entry) (copied : List String) :
    Location → Option Entry
  | [] => some .directory
  | first :: rest =>
      if first ∈ copied.map ownerName then (image (first :: rest)).or (old (first :: rest))
      else old (first :: rest)

section Restoring

variable {threshold : Threshold} {target : Path} {spot : Spot} {image old : Location → Option Entry}
  {disk state next : Disk} {copied : List String} {name : String} {levels : Nat}

/-- The names in a directory of the source: directories and small files of the tree under their
own names, and large files. -/
private theorem sourceName_cases (there : stow threshold image [name] ≠ none) :
    mergedName? name = none ∧ stow threshold image [name] = image [name] ∨
      ∃ base content, name = base ++ splitSuffix ∧ base ≠ "" ∧
        image [base] = some (.file content) ∧ threshold.bytes < content.size := by
  cases stands : mergedName? name with
  | none =>
      left
      refine ⟨rfl, ?_⟩
      rw [stow_name stands] at there ⊢
      unfold wholeEntryAt? at there ⊢
      split
      · rename_i content found
        rw [found] at there
        dsimp only at there
        split
        · rw [found]
        · rename_i large
          rw [if_neg large] at there
          exact absurd rfl there
      · rfl
  | some base =>
      right
      obtain ⟨rfl, some⟩ := mergedName?_eq_some_iff.mp stands
      rw [stow_box some] at there
      obtain ⟨entry, kept⟩ := Option.ne_none_iff_exists'.mp there
      obtain ⟨content, found, large, -⟩ := splitEntryAt?_eq_some kept
      exact ⟨base, content, rfl, some, found, large⟩

/-- A name of the tree that is not split has not been restored before its turn. -/
private theorem fresh_owner (plain : mergedName? name = none)
    (there : stow threshold image [name] ≠ none)
    (before : ∀ other ∈ copied, stow threshold image [other] ≠ none) (fresh : name ∉ copied) :
    name ∉ copied.map ownerName := by
  intro member
  obtain ⟨other, inside, owner⟩ := List.mem_map.mp member
  rcases sourceName_cases (before other inside) with
    ⟨otherPlain, -⟩ | ⟨base, content, rfl, some, file, large⟩
  · rw [ownerName_of_plain otherPlain] at owner
    rw [owner] at inside
    exact fresh inside
  · rw [ownerName_append some] at owner
    subst owner
    rw [stow_name plain, file, wholeEntryAt?, if_neg (Nat.not_le.mpr large)] at there
    exact there rfl

private theorem mem_owners_concat {first : String} :
    first ∈ (copied ++ [name]).map ownerName ↔ first ∈ copied.map ownerName ∨ first = ownerName name := by
  rw [List.map_append, List.mem_append, List.map_singleton, List.mem_singleton]

/-- Once a name of its own is restored, with what it holds over what was there, so is the view. -/
private theorem restoredView_concat {inner : Location → Option Entry}
    (plain : mergedName? name = none) (fresh : name ∉ copied.map ownerName)
    (restored : ∀ rest, inner rest = (image (name :: rest)).or (old (name :: rest)))
    (place : Location) :
    graft name inner (restoredView image old copied) place =
      restoredView image old (copied ++ [name]) place := by
  cases place with
  | nil => rfl
  | cons first rest =>
      simp only [graft, restoredView, mem_owners_concat, ownerName_of_plain plain]
      by_cases same : first = name
      · subst same
        simp only [if_true, or_true, restored]
      · simp only [same, if_false, or_false]

private theorem Restoring.child (known : Restoring threshold target spot image old disk)
    (filled : disk.Plants (spot.target target disk) (restoredView image old copied) state)
    (plain : mergedName? name = none) (there : stow threshold image [name] ≠ none)
    (fresh : name ∉ copied.map ownerName) :
    Restoring threshold target (spot.child name) (fun place => image (name :: place))
      (fun place => old (name :: place)) state := by
  have inner := known.toCopyAt.child filled rfl there
  have source : (fun place => stow threshold image (name :: place)) =
      stow threshold fun place => image (name :: place) := funext (stow_cons plain)
  have held : (fun place => restoredView image old copied (name :: place)) =
      fun place => old (name :: place) := by
    funext place
    rw [restoredView, if_neg fresh]
  rw [source, held] at inner
  refine
    { inner with
      tree := fun place last present => known.tree (name :: place) last present
      named := fun place present => ?_
      plain := fun place present => (isPlain_cons.mp (known.plain (name :: place) present)).2
      fits := fun place content file large => known.fits (name :: place) content file large
      unmerged := .inl (by rw [Spot.fileName?_child inner.valid, Option.bind_some, plain])
      empty := fun place last content file permitted rest below => ?_ }
  · have all := known.named (name :: place) present
    rw [List.all_cons, Bool.and_eq_true] at all
    exact all.2
  · apply known.empty (name :: place) last content file _ rest below
    rw [filled.setting.permits, Spot.child, List.append_assoc] at permitted
    exact permitted

/-- Once the parts of a file are merged, the view has the file in place of its directory of parts. -/
private theorem restoredView_box {base : String} {content : ByteArray} (nonempty : base ≠ "")
    (file : image [base] = some (.file content))
    (belowFile : ∀ rest, rest ≠ [] → image (base :: rest) = none)
    (notPlain : ∀ rest, image ((base ++ splitSuffix) :: rest) = none)
    (nothing : ∀ rest, rest ≠ [] → old rest = none) (top place : Location) :
    (if top ++ place = top ++ [base] then some (.file content)
      else if top ++ [base ++ splitSuffix] <+: top ++ place then none
      else restoredView image old copied place) =
      restoredView image old (copied ++ [base ++ splitSuffix]) place := by
  cases place with
  | nil =>
      rw [List.append_nil, if_neg (by simp), if_neg (not_concat_prefix_self _ _)]
      rfl
  | cons first rest =>
      simp only [restoredView, mem_owners_concat, ownerName_append nonempty]
      by_cases isBase : first = base
      · subst isBase
        simp only [or_true, if_true]
        by_cases atEnd : rest = []
        · rw [atEnd, if_pos rfl, file, Option.some_or]
        · rw [if_neg (by simpa using atEnd), if_neg (splitDirectory_apart _ first rest),
            belowFile rest atEnd, Option.none_or, ite_self]
      · by_cases isBox : first = base ++ splitSuffix
        · subst isBox
          rw [if_neg (by simp [isBase]), if_pos (concat_prefix_iff.mpr rfl), notPlain,
            nothing _ (List.cons_ne_nil _ _), Option.none_or, ite_self]
        · rw [if_neg (by simp [isBase]), if_neg fun within => isBox (concat_prefix_iff.mp within).symm]
          simp only [isBase, or_false]

/-- A directory of parts is copied and merged: its file is there, over nothing. -/
private theorem Restoring.copyBox_ok {base : String} {content : ByteArray}
    (known : Restoring threshold target spot image old disk)
    (filled : disk.Plants (spot.target target disk) (restoredView image old copied) state)
    (permitted : disk.permits (target.joinNames spot.names)) (some : base ≠ "")
    (file : image [base] = .some (.file content)) (large : threshold.bytes < content.size)
    (done : copyChild target .merge levels spot (base ++ splitSuffix) state = .ok () next) :
    disk.Plants (spot.target target disk)
      (restoredView image old (copied ++ [base ++ splitSuffix])) next := by
  have valid : isEntryName base = true := by
    have all := known.named [base] (by rw [file]; simp)
    simpa using all
  have box : ∀ rest, stow threshold image ((base ++ splitSuffix) :: rest) =
      partEntryAt? threshold base content rest := by
    intro rest
    rw [stow_box some, file, splitEntryAt?, if_neg (Nat.not_le.mpr large)]
  have nothing : ∀ rest, rest ≠ [] → old rest = none := by
    intro rest below
    have blank := known.empty [] base content file (by rw [List.append_nil]; exact permitted) rest below
    rw [List.nil_append] at blank
    exact blank
  have notPlain : ∀ rest, image ((base ++ splitSuffix) :: rest) = none := by
    intro rest
    by_contra there
    exact (known.plain _ there).notMem some List.mem_cons_self
  have belowFile : ∀ rest, rest ≠ [] → image (base :: rest) = none := by
    intro rest below
    by_contra there
    rw [known.tree.directory_of_cons below there] at file
    cases file
  have blank : ∀ rest, restoredView image old copied ((base ++ splitSuffix) :: rest) = none := by
    intro rest
    rw [restoredView, notPlain, nothing _ (List.cons_ne_nil _ _), Option.none_or, ite_self]
  have there : stow threshold image [base ++ splitSuffix] ≠ none := by
    rw [box]
    simp [partEntryAt?]
  have inner := known.toCopyAt.child filled rfl there
  rcases known.toCopyAt.copyChild_ok filled rfl there done with
    ⟨-, walked⟩ | ⟨found, isFile, -, -⟩
  · have source : (fun place => stow threshold image ((base ++ splitSuffix) :: place)) =
        partEntryAt? threshold base content := funext box
    rw [source] at inner
    have effect := restoreParts_ok valid (known.fits [base] content file large) inner blank walked
    have aim : spot.target target state = spot.target target disk := by
      unfold Spot.target
      rw [filled.setting.leadsTo]
    rw [aim] at effect
    refine filled.becomes effect (fun place => ?_) fun other apart => ?_
    · rw [filled.inside]
      exact restoredView_box some file belowFile notPlain nothing _ place
    · have away := apart_from_children apart base (base ++ splitSuffix)
      rw [if_neg away.1, if_neg away.2]
  · rw [box] at isFile
    cases isFile

/-- The directory at a place of the source has been copied: its path can be followed in the target,
and no file stood there. -/
def entersAt (target : Path) (spot : Spot) (old : Location → Option Entry) (disk : Disk)
    (place : Location) : Prop :=
  disk.permits (target.joinNames (spot.names ++ place)) ∧
    ∀ content, old place ≠ some (.file content)

/-- Copying one more name of the source extends the view by it, and enters its directories. -/
private theorem Restoring.copyChild_ok (known : Restoring threshold target spot image old disk)
    (filled : disk.Plants (spot.target target disk) (restoredView image old copied) state)
    (permitted : disk.permits (target.joinNames spot.names))
    (before : ∀ other ∈ copied, stow threshold image [other] ≠ none)
    (there : stow threshold image [name] ≠ none) (fresh : name ∉ copied)
    (whole : ∀ {inner held before after},
      Restoring threshold target (spot.child name) inner held before →
      Visitor.walkWithin (copyVisitor target .merge) id levels (spot.child name) before =
        .ok () after →
      before.Plants ((spot.child name).target target before)
          (fun place => (inner place).or (held place)) after ∧
        ∀ place, inner place = some .directory → entersAt target (spot.child name) held before place)
    (done : copyChild target .merge levels spot name state = .ok () next) :
    disk.Plants (spot.target target disk) (restoredView image old (copied ++ [name])) next ∧
      (image [name] = some .directory → ∀ place, image (name :: place) = some .directory →
        entersAt target spot old disk (name :: place)) := by
  rcases sourceName_cases there with ⟨plain, same⟩ | ⟨base, content, rfl, some, file, large⟩
  · have ownFresh := fresh_owner plain there before fresh
    rcases known.toCopyAt.copyChild_ok filled rfl there done with
      ⟨isDirectory, walked⟩ | ⟨content, isFile, -, planted⟩
    · obtain ⟨planted, followed⟩ := whole (known.child filled plain there ownFresh) walked
      have aim : (spot.child name).target target state = spot.target target disk ++ [name] := by
        unfold Spot.target Spot.child
        rw [filled.setting.leadsTo, List.append_assoc]
      rw [aim] at planted
      refine ⟨(filled.graft planted).congr (restoredView_concat plain ownFresh fun _ => rfl), ?_⟩
      intro _ place there
      obtain ⟨allowed, noFile⟩ := followed place there
      rw [filled.setting.permits, Spot.child, List.append_assoc] at allowed
      exact ⟨allowed, noFile⟩
    · rw [same] at isFile
      refine ⟨(filled.graft planted).congr (restoredView_concat plain ownFresh fun rest => ?_), ?_⟩
      · split
        · rename_i atEnd
          rw [atEnd, isFile, Option.some_or]
        · rename_i below
          have absent : image (name :: rest) = none := by
            by_contra there
            rw [known.tree.directory_of_cons below there] at isFile
            cases isFile
          rw [restoredView, if_neg ownFresh, absent, Option.none_or]
      · intro isDirectory
        rw [isFile] at isDirectory
        cases isDirectory
  · refine ⟨known.copyBox_ok filled permitted some file large done, fun isDirectory => ?_⟩
    have plain := known.plain [base ++ splitSuffix] (by rw [isDirectory]; simp)
    exact absurd List.mem_cons_self (plain.notMem some)

/-- Each name of the tree is that of something in its stored form. -/
private theorem Restoring.exists_source (known : Restoring threshold target spot image old disk)
    (there : image [name] ≠ none) :
    ∃ source, stow threshold image [source] ≠ none ∧ ownerName source = name := by
  have plain := known.plain [name] there name (List.mem_singleton.mpr rfl)
  have nonempty : name ≠ "" := by
    have all := known.named [name] there
    rw [List.all_cons, Bool.and_eq_true] at all
    exact (isEntryName_iff.mp all.1).1
  cases kept : stow threshold image [name] with
  | some entry => exact ⟨name, by rw [kept]; simp, ownerName_of_plain plain⟩
  | none =>
      -- what is not stored as it is has been split
      refine ⟨name ++ splitSuffix, ?_, ownerName_append nonempty⟩
      rw [stow_name plain] at kept
      rw [stow_box nonempty]
      unfold wholeEntryAt? at kept
      split at kept
      · rename_i content found
        rw [found, splitEntryAt?]
        split at kept
        · cases kept
        · rename_i large
          rw [if_neg large]
          simp [partEntryAt?]
      · exact absurd kept there

private theorem source_of_directory {source : String} (directory : image [name] = some .directory)
    (there : stow threshold image [source] ≠ none) (owner : ownerName source = name) : source = name := by
  rcases sourceName_cases there with ⟨plain, -⟩ | ⟨base, content, rfl, some, file, -⟩
  · rw [ownerName_of_plain plain] at owner
    exact owner
  · rw [ownerName_append some] at owner
    rw [owner, directory] at file
    cases file

/-- Where the tree holds something, it holds what is above that. -/
private theorem Restoring.first_there (known : Restoring threshold target spot image old disk)
    {rest : Location} (there : image (name :: rest) ≠ none) : image [name] ≠ none := by
  by_cases atEnd : rest = []
  · rw [← atEnd]
    exact there
  · rw [known.tree.directory_of_cons atEnd there]
    simp

/-- Once all names are restored, the view is the tree over what was there. -/
private theorem Restoring.restoredView_all (known : Restoring threshold target spot image old disk)
    (top : image [] = some .directory) (all : ∀ name, image [name] ≠ none → name ∈ copied.map ownerName)
    (place : Location) : restoredView image old copied place = (image place).or (old place) := by
  cases place with
  | nil =>
      rw [top]
      rfl
  | cons first rest =>
      rw [restoredView]
      split
      · rfl
      · rename_i absent
        have nothing : image (first :: rest) = none := by
          by_contra there
          exact absent (all first (known.first_there there))
        rw [nothing, Option.none_or]

/-- A directory copied with its directories of parts merged holds the tree over what it held. -/
theorem Restoring.copyWithin_ok (known : Restoring threshold target spot image old disk)
    (done : Visitor.walkWithin (copyVisitor target .merge) id levels spot disk = .ok () next) :
    disk.Plants (spot.target target disk) (fun place => (image place).or (old place)) next ∧
      ∀ place, image place = some .directory → entersAt target spot old disk place := by
  induction levels generalizing spot image old disk next with
  | zero => cases done
  | succ below ih =>
      obtain ⟨_, made, names, copied, same, isDirectory, permitted, noFile, -, entered, distinct,
        children, moved, finished⟩ := known.toCopyAt.copyWithin_ok done
      cases same
      have top : image [] = some .directory := by
        rw [stow_plain isPlain_nil] at isDirectory
        exact wholeEntryAt?_eq_directory isDirectory
      obtain ⟨filled, followed⟩ := forM_distinct_ok distinct
        (fun copied current => disk.Plants (spot.target target disk)
          (restoredView image old copied) current)
        (fun name => image [name] = some .directory → ∀ place,
          image (name :: place) = some .directory → entersAt target spot old disk (name :: place))
        (entered.congr fun place => by cases place <;> rfl)
        (fun before name current next earlier member fresh kept moved =>
          known.copyChild_ok kept permitted
            (fun other inside => (children other).mp (earlier other inside))
            ((children name).mp member) fresh ih moved)
        moved
      rw [known.unmerged.finishDirectory] at finished
      cases finished
      have named : ∀ name, image [name] ≠ none → name ∈ names.map ownerName := by
        intro name there
        obtain ⟨source, stored, owner⟩ := known.exists_source there
        exact List.mem_map.mpr ⟨source, (children source).mpr stored, owner⟩
      refine ⟨filled.congr (known.restoredView_all top named), fun place there => ?_⟩
      cases place with
      | nil =>
          refine ⟨?_, noFile⟩
          rw [List.append_nil]
          exact permitted
      | cons name rest =>
          have above : image [name] = some .directory := by
            by_cases atEnd : rest = []
            · rw [← atEnd]
              exact there
            · exact known.tree.directory_of_cons atEnd (by rw [there]; simp)
          obtain ⟨source, stored, owner⟩ := known.exists_source (by rw [above]; simp : image [name] ≠ none)
          obtain rfl := source_of_directory above stored owner
          exact followed source ((children source).mpr stored) above rest there

end Restoring

end CrossBuild.Artifacts
