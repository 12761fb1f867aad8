/-
The steps of copying a tree.

A copy that ends well is taken apart into its steps, and each step is described by what it changes.
What the steps add up to depends on what happens to large files and is not said here.
-/

import CrossBuild.Artifacts.Copy
import CrossBuild.Proofs.Artifacts.Merging

namespace CrossBuild.Artifacts

open Files Files.Disk Runs

/-! ### Spots -/

theorem Spot.path_of_names {root : Path} {names : List String}
    (valid : names.all isEntryName = true) (some : names ≠ []) :
    Spot.path ⟨root, names⟩ = root.joinNames names :=
  Path.foldl_joinName root valid some

theorem Spot.fileName?_child {spot : Spot} {name : String}
    (valid : (spot.child name).names.all isEntryName = true) :
    (spot.child name).path.fileName? = some name := by
  have last : isEntryName name = true :=
    List.all_eq_true.mp valid name (List.mem_append_right _ (List.mem_singleton.mpr rfl))
  have some : spot.names ++ [name] ≠ [] := by simp
  have all : (spot.names ++ [name]).all isEntryName = true := valid
  have whole : (spot.child name).path = spot.root.joinNames (spot.names ++ [name]) :=
    Spot.path_of_names valid some
  rw [whole]
  refine Path.fileName?_of_segments (?_ : _ = (spot.root.stem ++ spot.names) ++ [name]) last
  rw [Path.segments_joinNames all, if_neg some, List.append_assoc]

/-- A directory that has the name of a directory of parts is one. -/
theorem isSplitDirectory_child {disk : Disk} {spot : Spot} {base : String}
    (valid : (spot.child (base ++ splitSuffix)).names.all isEntryName = true) (nonempty : base ≠ "")
    (directory : disk.isDirectory (spot.child (base ++ splitSuffix)).path = true) :
    isSplitDirectory disk (spot.child (base ++ splitSuffix)).path = true := by
  unfold isSplitDirectory
  rw [directory, Spot.fileName?_child valid, Option.bind_some, mergedName?_append_splitSuffix nonempty]
  rfl

theorem leadsTo_spot (disk : Disk) {spot : Spot} (valid : spot.names.all isEntryName = true) :
    disk.leadsTo spot.path = disk.leadsTo spot.root ++ spot.names := by
  obtain ⟨root, names⟩ := spot
  by_cases some : names = []
  · rw [some, List.append_nil]
    rfl
  · rw [Spot.path_of_names valid some, leadsTo_joinNames valid]

/-- The place of a spot, and the one below a target that corresponds to it. -/
abbrev Spot.source (spot : Spot) (disk : Disk) : Location :=
  disk.leadsTo spot.root ++ spot.names

abbrev Spot.target (spot : Spot) (target : Path) (disk : Disk) : Location :=
  disk.leadsTo target ++ spot.names

/-! ### Steps -/

/-- Entering a directory of the source makes that of the target. -/
theorem makeSpot_ok {target : Path} {names : List String} {disk after : Disk}
    (valid : names.all isEntryName = true) (spelled : target.text ≠ "")
    (standing : disk.stands target)
    (parent : disk.entryAt? (disk.leadsTo target ++ names.dropLast) = some .directory)
    (done : makeDirectories (target.joinNames names) disk = .ok () after) :
    disk.permits (target.joinNames names) ∧
      (∀ content, disk.entryAt? (disk.leadsTo target ++ names) ≠ some (.file content)) ∧
      disk.Becomes (fun other => if other = disk.leadsTo target ++ names then some .directory
        else disk.entryAt? other) after := by
  obtain ⟨permitted, noFile, effect⟩ :=
    makeDirectories_joinNames_ok valid (.inl spelled) standing done
  refine ⟨permitted, noFile, effect.setting, fun other => ?_⟩
  rw [effect.entries]
  by_cases own : other = disk.leadsTo target ++ names
  · subst own
    rw [if_pos rfl, if_pos ⟨List.prefix_append _ _, List.prefix_rfl⟩]
  · rw [if_neg own]
    split
    · rename_i between
      obtain ⟨⟨front, rfl⟩, within⟩ := between
      rw [List.prefix_append_right_inj] at within
      have shorter : front <+: names.dropLast := by
        refine List.prefix_of_prefix_length_le within (List.dropLast_prefix names) ?_
        rw [List.length_dropLast]
        have different : front.length ≠ names.length := fun lengths =>
          own (by rw [List.IsPrefix.eq_of_length within lengths])
        have bound := within.length_le
        omega
      obtain ⟨rest, whole⟩ := shorter
      rw [← whole, ← List.append_assoc] at parent
      by_cases alone : rest = []
      · rw [alone, List.append_nil] at parent
        exact parent.symm
      · exact (entryAt?_above parent alone).symm
    · rfl

theorem replaceFile_ok {source target : Path} {disk after : Disk}
    (done : replaceFile source target disk = .ok () after) :
    ∃ content, disk.permits source ∧ disk.entryAt? (disk.leadsTo source) = some (.file content) ∧
      disk.permits target ∧ disk.Becomes (fun other =>
        if other = disk.leadsTo target then some (.file content) else disk.entryAt? other) after := by
  unfold replaceFile at done
  simp only [bind_ok_iff, get_ok_iff] at done
  obtain ⟨_, _, ⟨rfl, rfl⟩, done⟩ := done
  split at done
  · simp only [bind_ok_iff, attempt_ok_iff] at done
    obtain ⟨_, middle, removed, copied⟩ := done
    obtain ⟨location, old, found, -, cleared⟩ := removeFile_ok removed
    obtain ⟨from_, content, to_, sourceFound, there, targetFound, effect⟩ := copyFile_ok copied
    have sourceAim := leadsTo_of_locate? sourceFound
    have targetAim := leadsTo_of_locate? targetFound
    have aim := leadsTo_of_locate? found
    have readable := (cleared.setting.permits source).mp (permits_of_locate? sourceFound)
    rw [cleared.setting.leadsTo] at sourceAim targetAim
    have different : from_ ≠ to_ := by
      intro same
      rw [same, targetAim, cleared.entries, if_pos aim.symm] at there
      cases there
    rw [cleared.entries, if_neg (by rw [aim, ← targetAim]; exact different), sourceAim] at there
    refine ⟨content, readable, there, permits_of_locate? found,
      cleared.setting.trans effect.setting, ?_⟩
    intro other
    rw [effect.entries, if_neg different, targetAim, cleared.entries, aim]
    split
    · rfl
    · rfl
  · rename_i absent
    rw [attempt_ok_iff] at done
    obtain ⟨from_, content, to_, sourceFound, there, targetFound, effect⟩ := copyFile_ok done
    have different : from_ ≠ to_ := by
      intro same
      apply absent
      unfold isThere find?
      rw [targetFound, ← same, Option.bind_some, there]
      rfl
    rw [if_neg different, leadsTo_of_locate? targetFound] at effect
    rw [leadsTo_of_locate? sourceFound] at there
    exact ⟨content, permits_of_locate? sourceFound, there, permits_of_locate? targetFound, effect⟩

/-- Nothing but the limits keeps a file from being copied where nothing stands. -/
theorem replaceFile_succeeds {source target : Path} {disk : Disk} {location : Location}
    {content : ByteArray} (read : disk.read? source = some content)
    (found : disk.locate? target = some location) (missing : disk.entryAt? location = none) :
    ∃ after, replaceFile source target disk = .ok () after := by
  have absent : disk.isThere target = false := by
    unfold isThere find?
    rw [found, Option.bind_some, missing]
    rfl
  have free : disk.entryAt? location ≠ some .directory := by
    rw [missing]
    simp
  unfold replaceFile
  rw [get_bind, absent]
  change ∃ after, attempt .copyFile target (copyFile source target) disk = .ok () after
  simp only [attempt_ok_iff]
  unfold copyFile
  rw [get_bind, read]
  exact ⟨_, writeFile_of_locate? found free⟩

/-- What is done for one name in a directory. -/
def copyChild (target : Path) (largeFiles : LargeFiles) (levels : Nat) (spot : Spot)
    (name : String) : Action Unit := do
  let inner := spot.child name
  if (← get).isDirectory inner.path then
    Visitor.walkWithin (copyVisitor target largeFiles) id levels inner
  else replaceFile inner.path (inner.below target)

/-- Copying a directory: make it, copy what it holds, then see to its large files. -/
theorem copyWithin_ok {target : Path} {largeFiles : LargeFiles} {levels : Nat} {spot : Spot}
    {disk after : Disk}
    (done : Visitor.walkWithin (copyVisitor target largeFiles) id levels spot disk = .ok () after) :
    ∃ below made names copied, levels = below + 1 ∧
      makeDirectories (spot.below target) disk = .ok () made ∧
      made.list? spot.path = some names ∧
      names.forM (copyChild target largeFiles below spot) made = .ok () copied ∧
      finishDirectory largeFiles spot.path (spot.below target) copied = .ok () after := by
  cases levels with
  | zero => cases done
  | succ below =>
      unfold Visitor.walkWithin at done
      simp only [copyVisitor, bind_ok_iff, attempt_ok_iff, pure_ok_iff] at done
      obtain ⟨_, made, ⟨_, _, prepared, rfl, rfl⟩, done⟩ := done
      dsimp only at done
      simp only [bind_ok_iff, get_ok_iff] at done
      obtain ⟨_, _, ⟨rfl, rfl⟩, done⟩ := done
      dsimp only [id] at done
      cases listed : Disk.list? _ spot.path with
      | none =>
          rw [listed] at done
          cases done
      | some names =>
          rw [listed] at done
          simp only [bind_ok_iff] at done
          obtain ⟨_, copied, children, finished⟩ := done
          exact ⟨below, _, names, copied, rfl, prepared, listed, children, finished⟩

theorem copyTree_ok {source target : Path} {largeFiles : LargeFiles} {disk after : Disk}
    (done : copyTree source target largeFiles disk = .ok () after) :
    ∃ levels, Visitor.walkWithin (copyVisitor target largeFiles) id levels ⟨source, []⟩ disk =
      .ok () after := by
  unfold copyTree walkTree at done
  simp only [bind_ok_iff, get_ok_iff] at done
  obtain ⟨_, _, ⟨rfl, rfl⟩, done⟩ := done
  exact ⟨_, done⟩

theorem copyChild_ok {target : Path} {largeFiles : LargeFiles} {levels : Nat} {spot : Spot}
    {name : String} {disk after : Disk}
    (done : copyChild target largeFiles levels spot name disk = .ok () after) :
    disk.isDirectory (spot.child name).path = true ∧
        Visitor.walkWithin (copyVisitor target largeFiles) id levels (spot.child name) disk =
          .ok () after ∨
      replaceFile (spot.child name).path ((spot.child name).below target) disk = .ok () after := by
  unfold copyChild at done
  simp only [bind_ok_iff, get_ok_iff] at done
  obtain ⟨_, _, ⟨rfl, rfl⟩, done⟩ := done
  split at done
  · rename_i isDirectory
    exact .inl ⟨isDirectory, done⟩
  · exact .inr done

/-- One of two directories does not have the name of a directory of parts, so neither is merged. -/
def neverMerged (source target : Path) : Prop :=
  source.fileName?.bind mergedName? = none ∨ target.fileName?.bind mergedName? = none

theorem neverMerged_joinNames_nil {source target : Path} :
    neverMerged source (target.joinNames []) ↔ neverMerged source target := by
  unfold neverMerged
  rw [Path.fileName?_joinNames_nil]

theorem neverMerged.finishDirectory {source target : Path} {disk : Disk}
    (unmerged : neverMerged source target) :
    Artifacts.finishDirectory .merge source target disk = .ok () disk := by
  change (if isSplitDirectory disk source then discard (mergeDirectory target) else pure () :
    Action Unit) disk = _
  split
  · rename_i isSplit
    have named : source.fileName?.bind mergedName? ≠ none := by
      intro plain
      unfold isSplitDirectory at isSplit
      rw [plain, Option.isSome_none, Bool.and_false] at isSplit
      cases isSplit
    change EStateM.map _ (mergeDirectory target) disk = _
    unfold EStateM.map
    rw [mergeDirectory_of_plain (unmerged.resolve_left named)]
  · rfl

/-! ### Directories -/

/-- What has to be known where a directory is copied: what the source and the target hold there,
that neither holds the other, and that the target is reached. -/
structure CopyAt (target : Path) (spot : Spot) (image old : Location → Option Entry)
    (disk : Disk) : Prop where
  valid : spot.names.all isEntryName = true
  spelled : target.text ≠ ""
  standing : disk.stands target
  outside : disk.keepsOut target (disk.leadsTo target)
  sourceApart : ¬ spot.source disk <+: spot.target target disk
  targetApart : ¬ spot.target target disk <+: spot.source disk
  parent : disk.entryAt? (disk.leadsTo target ++ spot.names.dropLast) = some .directory
  source : ∀ place, disk.entryAt? (spot.source disk ++ place) = image place
  held : ∀ place, disk.entryAt? (spot.target target disk ++ place) = old place

private theorem apart_concat {left right : Location} {name : String} (apart : ¬ left <+: right) :
    ¬ left ++ [name] <+: right ++ [name] := by
  intro within
  rcases List.prefix_concat_iff.mp ((List.prefix_append left [name]).trans within) with same | below
  · have lengths := within.length_le
    rw [same, List.length_append, List.length_append, List.length_singleton] at lengths
    omega
  · exact apart below

section CopyAt

variable {target : Path} {spot : Spot} {image old view : Location → Option Entry}
  {disk state next : Disk} {name : String} {largeFiles : LargeFiles} {levels : Nat}

/-- While a directory of the target is filled, that of the source stays as it is. -/
theorem CopyAt.source_kept (known : CopyAt target spot image old disk)
    (filled : disk.Plants (spot.target target disk) view state) (place : Location) :
    state.entryAt? (spot.source disk ++ place) = image place := by
  rw [filled.outside, known.source]
  intro within
  rcases List.prefix_or_prefix_of_prefix within (List.prefix_append _ place) with below | above
  · exact known.targetApart below
  · exact known.sourceApart above

theorem CopyAt.child (known : CopyAt target spot image old disk)
    (filled : disk.Plants (spot.target target disk) view state) (top : view [] = some .directory)
    (there : image [name] ≠ none) :
    CopyAt target (spot.child name) (fun place => image (name :: place))
      (fun place => view (name :: place)) state := by
  obtain ⟨entry, found⟩ := Option.ne_none_iff_exists'.mp there
  have sourceAim : (spot.child name).source state = spot.source disk ++ [name] := by
    unfold Spot.source Spot.child
    rw [filled.setting.leadsTo, List.append_assoc]
  have targetAim : (spot.child name).target target state = spot.target target disk ++ [name] := by
    unfold Spot.target Spot.child
    rw [filled.setting.leadsTo, List.append_assoc]
  have own := filled.atTop
  rw [top] at own
  rw [← known.source] at found
  refine
    { valid := ?_
      spelled := known.spelled
      standing := filled.setting.stands_of_outside (known.outside.append _) filled.outside own
        known.standing
      outside := ?_
      sourceApart := ?_
      targetApart := ?_
      parent := ?_
      source := ?_
      held := ?_ }
  · exact all_isEntryName_concat.mpr ⟨known.valid, isEntryName_of_entryAt? found⟩
  · rw [filled.setting.keepsOut, filled.setting.leadsTo]
    exact known.outside
  · rw [sourceAim, targetAim]
    exact apart_concat known.sourceApart
  · rw [sourceAim, targetAim]
    exact apart_concat known.targetApart
  · change state.entryAt? (state.leadsTo target ++ (spot.names ++ [name]).dropLast) = _
    rw [List.dropLast_concat, filled.setting.leadsTo]
    exact own
  · intro place
    rw [sourceAim, List.append_assoc]
    exact known.source_kept filled (name :: place)
  · intro place
    rw [targetAim, List.append_assoc]
    exact filled.inside (name :: place)

/-- What a directory of the target holds once it is made. -/
def enteredView (old : Location → Option Entry) : Location → Option Entry
  | [] => some .directory
  | first :: rest => old (first :: rest)

/-- Copying a directory goes through the names it holds. -/
theorem CopyAt.copyWithin_ok (known : CopyAt target spot image old disk)
    (done : Visitor.walkWithin (copyVisitor target largeFiles) id levels spot disk = .ok () next) :
    ∃ below made, ∃ names : List String, ∃ copied, levels = below + 1 ∧ image [] = some .directory ∧
      disk.permits (target.joinNames spot.names) ∧ (∀ content, old [] ≠ some (.file content)) ∧
      made.isDirectory spot.path = true ∧
      disk.Plants (spot.target target disk) (enteredView old) made ∧
      names.Nodup ∧ (∀ name, name ∈ names ↔ image [name] ≠ none) ∧
      names.forM (copyChild target largeFiles below spot) made = .ok () copied ∧
      finishDirectory largeFiles spot.path (spot.below target) copied = .ok () next := by
  obtain ⟨below, made, names, copied, whole, prepared, listed, children, finished⟩ :=
    Artifacts.copyWithin_ok done
  obtain ⟨permitted, noFile, effect⟩ :=
    makeSpot_ok known.valid known.spelled known.standing known.parent prepared
  have entered : disk.Plants (spot.target target disk) (enteredView old) made := by
    refine ⟨effect.setting, fun rest => ?_, fun other apart => ?_⟩
    · rw [effect.entries]
      cases rest with
      | nil =>
          rw [List.append_nil, if_pos rfl]
          rfl
      | cons first rest => rw [if_neg (by simp), known.held, enteredView]
    · rw [effect.entries, if_neg]
      rintro rfl
      exact apart List.prefix_rfl
  obtain ⟨isDirectory, rfl⟩ := list?_eq_some_iff.mp listed
  have aim : made.leadsTo spot.path = spot.source disk := by
    rw [leadsTo_spot made known.valid, effect.setting.leadsTo]
  have stood := entryAt?_leadsTo_of_stands (isDirectory_iff.mp isDirectory).2
  rw [aim, ← List.append_nil (spot.source disk), known.source_kept entered] at stood
  refine ⟨below, made, _, copied, whole, stood, permitted, fun content file => ?_, isDirectory,
    entered, nodup_childNames made _, fun name => ?_, children, finished⟩
  · rw [← known.held, List.append_nil] at file
    exact noFile content file
  · rw [mem_childNames, aim, known.source_kept entered, ne_eq, ← ne_eq, Option.ne_none_iff_exists']

/-- What is done for a name depends on whether a directory or a file stands there. -/
theorem CopyAt.copyChild_ok (known : CopyAt target spot image old disk)
    (filled : disk.Plants (spot.target target disk) view state) (top : view [] = some .directory)
    (there : image [name] ≠ none)
    (done : copyChild target largeFiles levels spot name state = .ok () next) :
    image [name] = some .directory ∧
        Visitor.walkWithin (copyVisitor target largeFiles) id levels (spot.child name) state =
          .ok () next ∨
      ∃ content, image [name] = some (.file content) ∧
        disk.permits (target.joinNames (spot.names ++ [name])) ∧
        state.Plants (spot.target target disk ++ [name]) (fun place =>
          if place = [] then some (.file content) else view (name :: place)) next := by
  have inner := known.child filled top there
  have sourceAim : state.leadsTo (spot.child name).path = spot.source disk ++ [name] := by
    rw [leadsTo_spot state inner.valid]
    change state.leadsTo spot.root ++ (spot.names ++ [name]) = _
    rw [filled.setting.leadsTo, List.append_assoc]
  have targetAim : state.leadsTo ((spot.child name).below target) =
      spot.target target disk ++ [name] := by
    unfold Spot.below
    rw [leadsTo_joinNames inner.valid]
    change state.leadsTo target ++ (spot.names ++ [name]) = _
    rw [filled.setting.leadsTo, List.append_assoc]
  rcases Artifacts.copyChild_ok done with ⟨isDirectory, walked⟩ | replaced
  · left
    have stood := entryAt?_leadsTo_of_stands (isDirectory_iff.mp isDirectory).2
    rw [sourceAim, known.source_kept filled] at stood
    exact ⟨stood, walked⟩
  · right
    obtain ⟨content, -, file, permitted, effect⟩ := replaceFile_ok replaced
    rw [sourceAim, known.source_kept filled] at file
    rw [targetAim] at effect
    refine ⟨content, file, (filled.setting.permits _).mp permitted, effect.setting, ?_, ?_⟩
    · intro place
      rw [effect.entries]
      by_cases own : place = []
      · rw [own, List.append_nil, if_pos rfl, if_pos rfl]
      · rw [if_neg (by simpa using own), if_neg own, List.append_assoc]
        exact filled.inside (name :: place)
    · intro other apart
      rw [effect.entries, if_neg]
      rintro rfl
      exact apart List.prefix_rfl

end CopyAt

end CrossBuild.Artifacts
