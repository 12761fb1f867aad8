/-
Copies in a directory that was empty.

Nothing but the limits on paths stands in the way of such a copy, and nothing but these and the number of
parts in the way of splitting its files. A state on the way is given by the tree that has been copied so
far and the files of it that are in parts. The steps of a copy are described here, and a walk that splits
the files of a finished one.
-/

import CrossBuild.Proofs.Artifacts.SingleFile
import CrossBuild.Proofs.Artifacts.SplitTree
import Mathlib.Logic.Function.Basic

namespace CrossBuild.Artifacts

open Files Files.Disk Runs

/-- The target is an empty directory, it and the source are apart, and neither is taken for a directory
of parts. -/
structure FreshTarget (source target : Path) (start : Disk) : Prop where
  sourceThere : start.isDirectory source = true
  targetThere : start.isDirectory target = true
  vacant : ∀ place, place ≠ [] → treeBelow target start place = none
  sourceApart : ¬ start.leadsTo source <+: start.leadsTo target
  targetApart : ¬ start.leadsTo target <+: start.leadsTo source
  sourceName : source.fileName?.bind mergedName? = none
  targetName : target.fileName?.bind mergedName? = none

/-- The paths by which a tree is read and stored keep to the limits. -/
def copyable (source target : Path) (start : Disk) : Prop :=
  ∀ place, treeBelow source start place ≠ none →
    start.permits (Spot.path ⟨source, place⟩) ∧ start.permits (target.joinNames place)

/-- The large files of a tree have no more parts than can be named, and the paths by which these are
stored keep to the limits. -/
def dividable (threshold : Threshold) (target : Path) (start : Disk)
    (tree : Location → Option Entry) : Prop :=
  ∀ file content, tree file = some (.file content) → threshold.bytes < content.size →
    threshold.partCount content.size ≤ maxParts ∧
      start.permits ((splitDirectory (Spot.path ⟨target, file⟩)).joinName scriptName)

/-- A tree has been copied into the target, and some of its large files are in parts. -/
structure Copied (threshold : Threshold) (target : Path) (start : Disk)
    (tree : Location → Option Entry) (split : List Location) (disk : Disk) : Prop where
  top : tree [] = some .directory
  planted : start.Plants (start.leadsTo target) (partly threshold tree split) disk
  distinct : split.Nodup
  large : splittable threshold tree split
  permitted : ∀ file ∈ split,
    start.permits ((splitDirectory (Spot.path ⟨target, file⟩)).joinName scriptName)

/-- More files are in parts. Those of some kind that are large are now among them, and the others are
not. -/
structure Divided (threshold : Threshold) (target : Path) (start : Disk)
    (tree : Location → Option Entry) (kind : Location → Prop) (split more : List Location)
    (disk : Disk) : Prop where
  state : Copied threshold target start tree (split ++ more) disk
  within : ∀ file ∈ more, kind file
  complete : ∀ file content, kind file → tree file = some (.file content) →
    threshold.bytes < content.size → file ∈ more

section FreshCopy

variable {source target : Path} {start disk : Disk} {threshold : Threshold}
  {view tree image : Location → Option Entry} {split : List Location} {names front : Location}
  {name : String}

/-- A directory of a tree holds the names under which the tree has something. -/
theorem mem_childNames_spot {root : Path} (valid : names.all isEntryName = true) :
    name ∈ disk.childNames (disk.leadsTo (Spot.path ⟨root, names⟩)) ↔
      treeBelow root disk (names ++ [name]) ≠ none := by
  rw [mem_childNames, leadsTo_spot disk (show (Spot.mk root names).names.all isEntryName = true from valid),
    List.append_assoc, Option.ne_none_iff_exists', treeBelow]

/-! ### What stays in place -/

section Planted

variable (fresh : FreshTarget source target start)

include fresh

theorem FreshTarget.keepsOut {path : Path} (standing : start.stands path) :
    start.keepsOut path (start.leadsTo target) := by
  apply standing.keepsOut
  intro rest strict there
  have nothing := fresh.vacant rest strict
  unfold treeBelow at nothing
  rw [there] at nothing
  cases nothing

variable (filled : start.Plants (start.leadsTo target) view disk)

include filled

theorem FreshTarget.stands {path : Path} (standing : start.stands path)
    (top : view [] = some .directory) : disk.stands path :=
  filled.setting.stands_of_outside (fresh.keepsOut standing) filled.outside
    (filled.atTop.trans top) standing

theorem FreshTarget.treeBelow_source (place : Location) :
    treeBelow source disk place = treeBelow source start place := by
  unfold treeBelow
  rw [filled.setting.leadsTo]
  apply filled.outside
  intro within
  rcases List.prefix_or_prefix_of_prefix within (List.prefix_append _ place) with below | above
  · exact fresh.targetApart below
  · exact fresh.sourceApart above

omit fresh in
theorem treeBelow_of_plants (place : Location) : treeBelow target disk place = view place := by
  unfold treeBelow
  rw [filled.setting.leadsTo]
  exact filled.inside place

end Planted

section Source

variable (fresh : FreshTarget source target start)
  (filled : start.Plants (start.leadsTo target) view disk) (top : view [] = some .directory)
  (valid : names.all isEntryName = true)

include fresh filled top valid

theorem FreshTarget.isDirectory_source : disk.isDirectory (Spot.path ⟨source, names⟩) = true ↔
    start.permits (Spot.path ⟨source, names⟩) ∧ treeBelow source start names = some .directory := by
  have standing := fresh.stands filled (isDirectory_iff.mp fresh.sourceThere).2 top
  rw [isDirectory_spot_iff standing valid, filled.setting.permits, fresh.treeBelow_source filled]

theorem FreshTarget.isDirectory_target : disk.isDirectory (Spot.path ⟨target, names⟩) = true ↔
    start.permits (Spot.path ⟨target, names⟩) ∧ view names = some .directory := by
  have standing := fresh.stands filled (isDirectory_iff.mp fresh.targetThere).2 top
  rw [isDirectory_spot_iff standing valid, filled.setting.permits, treeBelow_of_plants filled]

end Source

/-! ### Steps -/

theorem FreshTarget.spelled (fresh : FreshTarget source target start) : target.text ≠ "" :=
  (isDirectory_iff.mp fresh.targetThere).1.spelled

theorem FreshTarget.copied (threshold : Threshold) (fresh : FreshTarget source target start) :
    Copied threshold target start (treeBelow target start) [] start where
  top := by
    unfold treeBelow
    rw [List.append_nil]
    exact entryAt?_leadsTo_of_stands (isDirectory_iff.mp fresh.targetThere).2
  planted := by
    refine ⟨.refl start, fun rest => ?_, fun _ _ => rfl⟩
    rw [partly_nil]
    rfl
  distinct := List.nodup_nil
  large := fun _ absent => nomatch absent
  permitted := fun _ absent => nomatch absent

/-- One more place of a tree shows only where it is. -/
theorem partly_update {entry : Entry} {place : Location} (whole : place ∉ split) (other : Location) :
    partly threshold (Function.update tree place (some entry)) split other =
      if other = place then some entry else partly threshold tree split other := by
  have same : (fun file => if file ∈ split then Function.update tree place (some entry) file else none) =
      fun file => if file ∈ split then tree file else none := by
    funext file
    split
    · rename_i member
      apply Function.update_of_ne
      rintro rfl
      exact whole member
    · rfl
  unfold partly
  rw [same]
  by_cases own : other = place
  · subst own
    rw [if_neg whole, if_pos rfl, Function.update_self, Option.some_or]
  · rw [if_neg own, Function.update_of_ne own]

section Copied

variable {entry : Entry} {after : Disk} (known : Copied threshold target start tree split disk)

include known

theorem Copied.partly_top : partly threshold tree split [] = some .directory :=
  partly_of_directory known.large known.top

theorem Copied.not_mem (noFile : ∀ content, tree names ≠ some (.file content)) : names ∉ split := by
  intro member
  obtain ⟨content, isFile, -⟩ := known.large names member
  exact noFile content isFile

/-- Where nothing has been copied to, there is nothing. -/
theorem Copied.vacant (absent : tree names = none) (plain : split = [] ∨ isPlain names) :
    partly threshold tree split names = none := by
  have whole : names ∉ split := known.not_mem (by rw [absent]; simp)
  rcases plain with none | plain
  · rw [none, partly_nil, absent]
  · rw [partly_plain plain, if_neg whole, absent]

theorem Copied.add (whole : names ∉ split) (atTop : names = [] → entry = .directory)
    (effect : disk.Becomes (fun other => if other = start.leadsTo target ++ names then some entry
      else disk.entryAt? other) after) :
    Copied threshold target start (Function.update tree names (some entry)) split after where
  top := by
    by_cases own : names = []
    · rw [own, Function.update_self, atTop own]
    · rw [Function.update_of_ne (Ne.symm own), known.top]
  planted := by
    refine known.planted.becomes effect (fun place => ?_) fun other apart => ?_
    · rw [partly_update whole, known.planted.inside]
      simp only [List.append_cancel_left_eq]
    · rw [if_neg]
      rintro rfl
      exact apart (List.prefix_append _ _)
  distinct := known.distinct
  large := by
    intro file member
    obtain ⟨content, isFile, size⟩ := known.large file member
    refine ⟨content, ?_, size⟩
    rw [Function.update_of_ne, isFile]
    rintro rfl
    exact whole member
  permitted := known.permitted

private theorem Copied.above (parent : names ≠ [] → tree names.dropLast = some .directory) :
    disk.entryAt? (disk.leadsTo target ++ names.dropLast) = some .directory := by
  rw [known.planted.setting.leadsTo, known.planted.inside]
  by_cases atTop : names = []
  · rw [atTop]
    exact known.partly_top
  · exact partly_of_directory known.large (parent atTop)

variable (fresh : FreshTarget source target start) (valid : names.all isEntryName = true)

include fresh

theorem Copied.stands : disk.stands target :=
  fresh.stands known.planted (isDirectory_iff.mp fresh.targetThere).2 known.partly_top

include valid

/-- A directory whose path keeps to the limits can be made. -/
theorem Copied.makeDirectories_ends (parent : names ≠ [] → tree names.dropLast = some .directory)
    (absent : names ≠ [] → tree names = none) (plain : split = [] ∨ isPlain names) :
    Ends (fun _ after => start.permits (target.joinNames names) ∧
        Copied threshold target start (Function.update tree names (some .directory)) split after)
      (fun _ _ => ¬ start.permits (target.joinNames names))
      (attempt .makeDirectories (target.joinNames names)
        (makeDirectories (target.joinNames names)) disk) := by
  have standing := known.stands fresh
  have above := known.above parent
  have aim := known.planted.setting.leadsTo target
  have noFile : ∀ content, partly threshold tree split names ≠ some (.file content) := by
    intro content
    by_cases atTop : names = []
    · rw [atTop, known.partly_top]
      simp
    · rw [known.vacant (absent atTop) plain]
      simp
  apply Ends.of_results
  · intro _ after done
    rw [attempt_ok_iff] at done
    obtain ⟨permitted, -, effect⟩ := makeSpot_ok valid fresh.spelled standing above done
    rw [aim] at effect
    refine ⟨(known.planted.setting.permits _).mp permitted, known.add ?_ (fun _ => rfl) effect⟩
    apply known.not_mem
    intro content isFile
    by_cases atTop : names = []
    · rw [atTop, known.top] at isFile
      cases isFile
    · rw [absent atTop] at isFile
      cases isFile
  · intro cause after failed permitted
    obtain ⟨made, done⟩ := makeDirectories_joinNames_succeeds valid standing
      ((known.planted.setting.permits _).mpr permitted) above fun content isFile => by
        rw [aim, known.planted.inside] at isFile
        exact noFile content isFile
    rw [attempt_ok_iff.mpr done] at failed
    cases failed

/-- A file whose paths keep to the limits can be copied. -/
theorem Copied.replaceFile_ends (strict : names ≠ []) (parent : tree names.dropLast = some .directory)
    (absent : tree names = none) (plain : split = [] ∨ isPlain names)
    (there : treeBelow source start names ≠ none)
    (leaf : disk.isDirectory (Spot.path ⟨source, names⟩) ≠ true) :
    Ends (fun _ after => (start.permits (Spot.path ⟨source, names⟩) ∧
        start.permits (target.joinNames names)) ∧
        ∃ content, treeBelow source start names = some (.file content) ∧
          Copied threshold target start (Function.update tree names (some (.file content))) split after)
      (fun _ _ => ¬ (start.permits (Spot.path ⟨source, names⟩) ∧
        start.permits (target.joinNames names)))
      (replaceFile (Spot.path ⟨source, names⟩) (target.joinNames names) disk) := by
  have setting := known.planted.setting
  have whole : names ∉ split := known.not_mem (by rw [absent]; simp)
  apply Ends.of_results
  · intro _ after done
    obtain ⟨content, fromPermitted, isFile, permitted, effect⟩ := replaceFile_ok done
    rw [leadsTo_spot disk (show (Spot.mk source names).names.all isEntryName = true from valid)] at isFile
    rw [leadsTo_joinNames valid, setting.leadsTo] at effect
    refine ⟨⟨(setting.permits _).mp fromPermitted, (setting.permits _).mp permitted⟩, content, ?_,
      known.add whole (fun atTop => absurd atTop strict) effect⟩
    rw [← fresh.treeBelow_source known.planted]
    exact isFile
  · rintro cause after failed ⟨fromPermitted, permitted⟩
    obtain ⟨entry, found⟩ := Option.ne_none_iff_exists'.mp there
    cases entry with
    | directory =>
        exact leaf ((fresh.isDirectory_source known.planted known.partly_top valid).mpr
          ⟨fromPermitted, found⟩)
    | file content =>
        have standing := fresh.stands known.planted (isDirectory_iff.mp fresh.sourceThere).2
          known.partly_top
        have sourceThere : disk.isDirectory source = true := isDirectory_iff.mpr
          ⟨(setting.permits _).mpr (isDirectory_iff.mp fresh.sourceThere).1, standing⟩
        rw [← fresh.treeBelow_source known.planted] at found
        have read := read?_spot sourceThere ((setting.permits _).mpr fromPermitted) found
        have located := (locate?_joinNames_iff valid).mpr ⟨(setting.permits _).mpr permitted,
          known.stands fresh, known.above fun _ => parent, rfl⟩
        have missing : disk.entryAt? (disk.leadsTo target ++ names) = none := by
          rw [setting.leadsTo, known.planted.inside, known.vacant absent plain]
        obtain ⟨copied, done⟩ := replaceFile_succeeds read located missing
        rw [done] at failed
        cases failed

end Copied

section Divided

variable {content : ByteArray} {kind : Location → Prop} {more : List Location}
  (fresh : FreshTarget source target start) (free : unsuffixed tree)
  (valid : (front ++ [name]).all isEntryName = true)

include fresh free valid

/-- There is room for the directory of parts of a file of the copy. -/
private theorem Copied.hasRoomForParts (known : Copied threshold target start tree split disk)
    (isFile : tree (front ++ [name]) = some (.file content)) (whole : front ++ [name] ∉ split)
    (permitted : start.permits ((splitDirectory (Spot.path ⟨target, front ++ [name]⟩)).joinName scriptName)) :
    HasRoomForParts (Spot.path ⟨target, front ++ [name]⟩) disk := by
  obtain ⟨frontValid, nameValid⟩ := all_isEntryName_concat.mp valid
  have boxValid := isEntryName_append_splitSuffix nameValid
  have plain := free.plain (front ++ [name]) (by rw [isFile]; simp)
  have nonempty := (isEntryName_iff.mp nameValid).1
  have setting := known.planted.setting
  have aim : disk.leadsTo (splitDirectory (Spot.path ⟨target, front ++ [name]⟩)) =
      start.leadsTo target ++ (front ++ [name ++ splitSuffix]) := by
    rw [Spot.path_concat, splitDirectory_joinName _ nameValid, leadsTo_joinName _ _ boxValid,
      (way_of_tidied disk _).1,
      leadsTo_spot disk (show (Spot.mk target front).names.all isEntryName = true from frontValid),
      setting.leadsTo, List.append_assoc]
  have noBox : ∀ rest, disk.entryAt?
      (start.leadsTo target ++ (front ++ [name ++ splitSuffix]) ++ rest) = none := by
    intro rest
    rw [List.append_assoc, known.planted.inside, List.append_assoc, List.singleton_append,
      partly_parts free known.large (isPlain_append.mp plain).1 nonempty, if_neg whole]
  have standing := known.stands fresh
  have onWay : ∀ place ∈ disk.way target,
      ¬ start.leadsTo target ++ (front ++ [name ++ splitSuffix]) <+: place := by
    rintro place member ⟨rest, rfl⟩
    have there := standing _ member
    rw [noBox] at there
    cases there
  have spelled : Spot.path ⟨target, front ++ [name]⟩ = target.joinNames (front ++ [name]) :=
    Spot.path_of_names valid (by simp)
  refine ⟨?_, (setting.permits _).mpr permitted, ?_, ?_⟩
  · rw [Disk.isFile, Option.isSome_eq_false_iff, Option.isNone_iff_eq_none,
      Option.eq_none_iff_forall_ne_some]
    intro stored read
    obtain ⟨location, found, there⟩ := read?_eq_some_iff.mp read
    have nothing := noBox []
    rw [List.append_nil, ← aim, ← leadsTo_of_locate? found, there] at nothing
    cases nothing
  · rw [aim, spelled]
    intro place member within
    rcases (mem_way_joinNames valid).mp member with before | ⟨origin, inside, rfl⟩
    · exact absurd within (onWay place before)
    · exfalso
      rw [setting.leadsTo, List.prefix_append_right_inj] at within
      exact splitDirectory_apart front name [] (within.trans inside)
  · rw [aim, spelled, origin_joinNames valid]
    intro same
    exact onWay _ (start_mem_trail _ _) (same ▸ List.prefix_rfl)

omit fresh in
/-- Where its parts have taken the place of a file, it is one of those in parts. -/
private theorem Copied.parted {after : Disk} (known : Copied threshold target start tree split disk)
    (isFile : tree (front ++ [name]) = some (.file content)) (whole : front ++ [name] ∉ split)
    (large : threshold.bytes < content.size) (fits : threshold.partCount content.size ≤ maxParts)
    (permitted : start.permits ((splitDirectory (Spot.path ⟨target, front ++ [name]⟩)).joinName scriptName))
    (effect : disk.Becomes (splitView threshold disk (start.leadsTo target ++ front) name content) after) :
    Copied threshold target start tree (split ++ [front ++ [name]]) after where
  top := known.top
  planted := by
    have nonempty := (isEntryName_iff.mp (all_isEntryName_concat.mp valid).2).1
    refine known.planted.becomes effect (fun place => ?_) fun other apart => ?_
    · rw [partly_concat free known.large nonempty isFile large fits]
      unfold splitView
      by_cases own : place = front ++ [name]
      · rw [if_pos own, if_pos (by rw [own, List.append_assoc])]
      · rw [if_neg own, if_neg (by simpa [List.append_assoc] using own)]
        by_cases within : front ++ [name ++ splitSuffix] <+: place
        · obtain ⟨rest, rfl⟩ := within
          rw [if_pos (List.prefix_append _ _), if_pos, List.append_assoc, List.singleton_append,
            drop_concat, ← List.append_assoc, drop_concat]
          rw [List.append_assoc, List.prefix_append_right_inj]
          exact List.prefix_append _ _
        · rw [if_neg within, if_neg, known.planted.inside]
          rw [List.append_assoc, List.prefix_append_right_inj]
          exact within
    · unfold splitView
      rw [if_neg, if_neg]
      · exact fun within => apart ((List.prefix_append _ _).trans ((List.prefix_append _ _).trans within))
      · rintro rfl
        exact apart ((List.prefix_append _ _).trans (List.prefix_append _ _))
  distinct := by
    rw [List.nodup_append]
    refine ⟨known.distinct, List.nodup_singleton _, ?_⟩
    rintro file member other own rfl
    rw [List.mem_singleton.mp own] at member
    exact whole member
  large := known.large.concat isFile large fits
  permitted := by
    intro file member
    rcases List.mem_append.mp member with before | own
    · exact known.permitted file before
    · rw [List.mem_singleton.mp own]
      exact permitted

omit valid in
/-- What is not in parts can be read, if its path keeps to the limits. -/
theorem Copied.read (known : Copied threshold target start tree split disk)
    (isFile : tree (front ++ [name]) = some (.file content)) (whole : front ++ [name] ∉ split)
    (permitted : start.permits (Spot.path ⟨target, front ++ [name]⟩)) :
    disk.read? (Spot.path ⟨target, front ++ [name]⟩) = some content := by
  have setting := known.planted.setting
  have plain := free.plain (front ++ [name]) (by rw [isFile]; simp)
  refine read?_spot (isDirectory_iff.mpr ⟨(setting.permits _).mpr (isDirectory_iff.mp fresh.targetThere).1,
    known.stands fresh⟩) ((setting.permits _).mpr permitted) ?_
  rw [treeBelow_of_plants known.planted, partly_plain plain, if_neg whole, isFile]

/-- A file of the copy stays if it is small, and can be split if it has not too many parts. -/
theorem Copied.splitFile_ends (known : Copied threshold target start tree split disk)
    (isFile : tree (front ++ [name]) = some (.file content)) (whole : front ++ [name] ∉ split)
    (permitted : start.permits (Spot.path ⟨target, front ++ [name]⟩)) :
    Ends (fun _ after => content.size ≤ threshold.bytes ∧ after = disk ∨
        threshold.bytes < content.size ∧
          Copied threshold target start tree (split ++ [front ++ [name]]) after)
      (fun _ _ => ¬ dividable threshold target start tree)
      (splitFile threshold (Spot.path ⟨target, front ++ [name]⟩) disk) := by
  obtain ⟨frontValid, nameValid⟩ := all_isEntryName_concat.mp valid
  have plain := free.plain (front ++ [name]) (by rw [isFile]; simp)
  have setting := known.planted.setting
  have read := known.read fresh free isFile whole permitted
  rcases Nat.lt_or_ge threshold.bytes content.size with large | small
  case inr =>
    rw [splitFile_of_small read small]
    exact .inl ⟨small, rfl⟩
  case inl =>
    apply Ends.of_results
    · intro result after done
      refine .inr ⟨large, ?_⟩
      rw [Spot.path_concat] at done
      obtain ⟨entry, there, outcome⟩ := splitFile_replaces nameValid done
      have aim : disk.leadsTo (Spot.path ⟨target, front⟩) = start.leadsTo target ++ front := by
        rw [leadsTo_spot disk (show (Spot.mk target front).names.all isEntryName = true from frontValid),
          setting.leadsTo]
      rw [aim, List.append_assoc, known.planted.inside, partly_plain plain, if_neg whole, isFile,
        Option.some.injEq] at there
      subst there
      rcases outcome with ⟨small, -⟩ | ⟨_, same, -, fits, -, replaced⟩
      · exact absurd small (Nat.not_le.mpr large)
      cases same
      have scripts := (setting.permits _).mp replaced.permitted
      rw [← Spot.path_concat] at scripts
      have room := known.hasRoomForParts fresh free valid isFile whole scripts
      rw [Spot.path_concat] at room
      have outside := (room.tidied nameValid).2.2.1
      rw [(way_of_tidied disk _).1] at outside
      have effect := replaced.becomes outside
      rw [aim] at effect
      exact known.parted free valid isFile whole large fits scripts effect
    · intro cause after failed able
      obtain ⟨fits, scripts⟩ := able _ content isFile large
      have room := known.hasRoomForParts fresh free valid isFile whole scripts
      rw [Spot.path_concat] at read room failed
      obtain ⟨done, succeeds⟩ := splitFile_succeeds nameValid read large fits room
      rw [succeeds] at failed
      cases failed

end Divided

/-! ### Splitting the files of a copy -/

section Dividing

variable {content : ByteArray} {kind other : Location → Prop} {more : List Location}

theorem Divided.refl (known : Copied threshold target start tree split disk)
    (nothing : ∀ file content, kind file → tree file ≠ some (.file content)) :
    Divided threshold target start tree kind split [] disk where
  state := by
    rw [List.append_nil]
    exact known
  within := fun _ absent => nomatch absent
  complete := fun file content fits isFile => absurd isFile (nothing file content fits)

theorem Divided.trans {later : List Location} {after : Disk}
    (first : Divided threshold target start tree kind split more disk)
    (second : Divided threshold target start tree other (split ++ more) later after) :
    Divided threshold target start tree (fun file => kind file ∨ other file) split (more ++ later)
      after where
  state := by
    rw [← List.append_assoc]
    exact second.state
  within := by
    intro file member
    rcases List.mem_append.mp member with early | late
    · exact .inl (first.within file early)
    · exact .inr (second.within file late)
  complete := by
    intro file content fits isFile large
    rcases fits with early | late
    · exact List.mem_append_left _ (first.complete file content early isFile large)
    · exact List.mem_append_right _ (second.complete file content late isFile large)

theorem Divided.extend (divided : Divided threshold target start tree kind split more disk)
    (wider : ∀ file, kind file → other file)
    (new : ∀ file content, other file → tree file = some (.file content) → kind file) :
    Divided threshold target start tree other split more disk where
  state := divided.state
  within := fun file member => wider file (divided.within file member)
  complete := fun file content fits isFile =>
    divided.complete file content (new file content fits isFile) isFile

section Names

variable {reach : String → Location → Prop} {visited rest : List String} {after : Disk}
  (divided : Divided threshold target start tree (fun file => ∃ item ∈ visited, reach item file) split more
    disk)

include divided

/-- After some names of a directory, one more has been seen to. -/
theorem Divided.visit {others : List Location}
    (further : Divided threshold target start tree (reach name) (split ++ more) others after) :
    Divided threshold target start tree (fun file => ∃ item ∈ visited ++ [name], reach item file) split
      (more ++ others) after := by
  refine (divided.trans further).extend (fun file kind => ?_) fun file content kind _ => ?_
  · rcases kind with ⟨item, earlier, reached⟩ | reached
    · exact ⟨item, List.mem_append_left _ earlier, reached⟩
    · exact ⟨name, List.mem_append_right _ List.mem_cons_self, reached⟩
  · obtain ⟨item, inside, reached⟩ := kind
    rcases List.mem_append.mp inside with earlier | last
    · exact .inl ⟨item, earlier, reached⟩
    · rw [List.mem_singleton.mp last] at reached
      exact .inr reached

/-- What lies below a name has not been split before the name is gone through. -/
theorem Divided.unsplit (inside : ∀ item file, reach item file → names ++ [item] <+: file)
    (unseen : name ∉ visited) (untouched : ∀ file ∈ split, ¬ names ++ [name] <+: file) :
    ∀ file ∈ split ++ more, ¬ names ++ [name] <+: file := by
  intro file member within
  rcases List.mem_append.mp member with before | late
  · exact untouched file before within
  · obtain ⟨item, earlier, reached⟩ := divided.within file late
    have around := inside item file reached
    obtain ⟨behind, rfl⟩ := within
    rw [List.append_assoc, List.singleton_append, concat_prefix_iff] at around
    exact unseen (around ▸ earlier)

end Names

variable (free : unsuffixed tree)

include free

/-- What a directory of the copy holds of which no file is in parts. -/
private theorem Copied.listed (known : Copied threshold target start tree split disk)
    (directory : tree names = some .directory) (untouched : ∀ item, names ++ [item] ∉ split)
    (member : name ∈ disk.childNames (start.leadsTo target ++ names)) :
    isPlain (names ++ [name]) ∧ tree (names ++ [name]) ≠ none := by
  have plain := free.plain names (by rw [directory]; simp)
  obtain ⟨entry, present⟩ := mem_childNames.mp member
  rw [List.append_assoc, known.planted.inside] at present
  cases stands : mergedName? name with
  | none =>
      have both : isPlain (names ++ [name]) :=
        isPlain_append.mpr ⟨plain, isPlain_cons.mpr ⟨stands, isPlain_nil⟩⟩
      rw [partly_plain both, if_neg (untouched name)] at present
      exact ⟨both, by rw [present]; simp⟩
  | some base =>
      exfalso
      obtain ⟨rfl, nonempty⟩ := mergedName?_eq_some_iff.mp stands
      rw [partly_parts free known.large plain nonempty, if_neg (untouched base)] at present
      cases present

variable (fresh : FreshTarget source target start)

include fresh

/-- One more file is seen to. -/
theorem Copied.divide_ends (known : Copied threshold target start tree split disk)
    (isFile : tree (front ++ [name]) = some (.file content)) (whole : front ++ [name] ∉ split)
    (valid : (front ++ [name]).all isEntryName = true)
    (permitted : start.permits (Spot.path ⟨target, front ++ [name]⟩)) :
    Ends (fun _ after => ∃ more,
        Divided threshold target start tree (· = front ++ [name]) split more after)
      (fun _ _ => ¬ dividable threshold target start tree)
      (splitFile threshold (Spot.path ⟨target, front ++ [name]⟩) disk) := by
  refine (known.splitFile_ends fresh free valid isFile whole permitted).mono (fun _ after outcome => ?_)
    fun _ _ failed => failed
  rcases outcome with ⟨small, rfl⟩ | ⟨-, further⟩
  · refine ⟨[], by rw [List.append_nil]; exact known, (fun _ absent => nomatch absent), ?_⟩
    rintro _ stored rfl same large
    rw [isFile, Option.some.injEq, Entry.file.injEq] at same
    rw [same] at small
    exact absurd small (Nat.not_le.mpr large)
  · exact ⟨[front ++ [name]], further, fun file member => List.mem_singleton.mp member,
      fun file _ own _ _ => List.mem_singleton.mpr own⟩

/-- One more name of a directory is seen to, whether or not it is that of a file. -/
private theorem Copied.splitChild_ends (known : Copied threshold target start tree split disk)
    (plain : isPlain (names ++ [name])) (whole : names ++ [name] ∉ split)
    (valid : (names ++ [name]).all isEntryName = true)
    (permitted : start.permits (Spot.path ⟨target, names ++ [name]⟩)) :
    Ends (fun _ after => ∃ more,
        Divided threshold target start tree (· = names ++ [name]) split more after)
      (fun _ _ => ¬ dividable threshold target start tree)
      ((if disk.isFile (Spot.path ⟨target, names ++ [name]⟩) = true then
        discard (splitFile threshold (Spot.path ⟨target, names ++ [name]⟩))
      else pure () : Action Unit) disk) := by
  split
  · rename_i isFile
    obtain ⟨content, read⟩ := Option.isSome_iff_exists.mp isFile
    obtain ⟨location, found, file⟩ := read?_eq_some_iff.mp read
    rw [leadsTo_of_locate? found,
      leadsTo_spot disk (show (Spot.mk target (names ++ [name])).names.all isEntryName = true from valid),
      known.planted.setting.leadsTo, known.planted.inside, partly_plain plain, if_neg whole] at file
    rw [ends_discard_iff]
    exact known.divide_ends free fresh file whole valid permitted
  · rename_i noFile
    refine ⟨[], Divided.refl known ?_⟩
    rintro file content rfl isFile
    apply noFile
    rw [Disk.isFile, known.read fresh free isFile whole permitted, Option.isSome_some]

/-- All files that stand directly in a directory of the copy are seen to. -/
theorem Copied.splitChildren_ends (known : Copied threshold target start tree split disk)
    (directory : tree names = some .directory) (untouched : ∀ item, names ++ [item] ∉ split)
    (reached : ∀ place, names <+: place → tree place ≠ none → start.permits (target.joinNames place)) :
    Ends (fun _ after => ∃ more,
        Divided threshold target start tree (fun file => ∃ item, file = names ++ [item]) split more after)
      (fun _ _ => ¬ dividable threshold target start tree)
      (splitChildren threshold (target.joinNames names) disk) := by
  have top : disk.entryAt? (start.leadsTo target ++ names) = some .directory := by
    rw [known.planted.inside]
    exact partly_of_directory known.large directory
  have valid : names.all isEntryName = true := namesValid_below (by rw [top]; simp)
  have aim : disk.leadsTo (target.joinNames names) = start.leadsTo target ++ names := by
    rw [leadsTo_joinNames valid, known.planted.setting.leadsTo]
  have there : disk.isDirectory (target.joinNames names) = true := by
    refine isDirectory_iff.mpr ⟨(known.planted.setting.permits _).mpr
      (reached names List.prefix_rfl (by rw [directory]; simp)), (stands_joinNames valid).mpr
        ⟨known.stands fresh, ?_⟩⟩
    rw [known.planted.setting.leadsTo]
    exact top
  unfold splitChildren
  rw [ends_bind_iff, ends_get_iff, list?_eq_some_iff.mpr ⟨there, rfl⟩]
  dsimp only
  rw [aim]
  refine (ends_forM (fun visited state => ∃ more, Divided threshold target start tree
    (fun file => ∃ item ∈ visited, file = names ++ [item]) split more state) ?none ?next).mono
      ?all fun _ _ failed => failed
  case none => exact ⟨[], Divided.refl known fun file content fits => by simp at fits⟩
  case next =>
    rintro visited item rest state whole ⟨more, divided⟩
    have member := mem_childNames_of_turn whole
    obtain ⟨entry, present⟩ := mem_childNames.mp member
    obtain ⟨plain, stored⟩ := known.listed free directory untouched member
    have all : (names ++ [item]).all isEntryName = true :=
      all_isEntryName_concat.mpr ⟨valid, isEntryName_of_entryAt? present⟩
    have permitted := reached (names ++ [item]) (List.prefix_append _ _) stored
    have spelled : (target.joinNames names).joinName item = Spot.path ⟨target, names ++ [item]⟩ := by
      rw [Path.joinName_joinNames target all, Spot.path_of_names all (by simp)]
    rw [← Spot.path_of_names all (by simp)] at permitted
    have notYet : names ++ [item] ∉ split ++ more := by
      intro inside
      rcases List.mem_append.mp inside with before | late
      · exact untouched item before
      · obtain ⟨other, earlier, same⟩ := divided.within _ late
        rw [List.append_cancel_left_eq, List.singleton_inj] at same
        exact notMem_visited whole (same ▸ earlier)
    rw [ends_bind_iff, ends_get_iff, spelled]
    refine (divided.state.splitChild_ends free fresh plain notYet all permitted).mono (fun _ after further => ?_)
      fun _ _ failed => failed
    obtain ⟨later, further⟩ := further
    exact ⟨more ++ later, divided.visit further⟩
  case all =>
    rintro _ after ⟨more, divided⟩
    refine ⟨more, divided.extend (fun file visited => ?_) fun file content kind isFile => ?_⟩
    · obtain ⟨item, -, same⟩ := visited
      exact ⟨item, same⟩
    obtain ⟨item, rfl⟩ := kind
    refine ⟨item, mem_childNames.mpr ⟨.file content, ?_⟩, rfl⟩
    have both := free.plain (names ++ [item]) (by rw [isFile]; simp)
    rw [List.append_assoc, known.planted.inside, partly_plain both, if_neg (untouched item), isFile]

end Dividing

section InPlace

variable {levels depth : Nat} {tally : Tally} (fresh : FreshTarget source target start)
  (free : unsuffixed (treeBelow source start))

include fresh free

/-- One more leaf of the copy is seen to, where it is. -/
private theorem Copied.visitFile_ends
    (known : Copied threshold target start (treeBelow source start) split tally.disk)
    (plain : isPlain (names ++ [name])) (stored : treeBelow source start (names ++ [name]) ≠ none)
    (whole : names ++ [name] ∉ split) (valid : (names ++ [name]).all isEntryName = true)
    (permitted : start.permits (Spot.path ⟨target, names ++ [name]⟩))
    (leaf : tally.disk.isDirectory (Spot.path ⟨target, names ++ [name]⟩) ≠ true) :
    Ends (fun _ after => ∃ more, Divided threshold target start (treeBelow source start)
        (names ++ [name] <+: ·) split more after.disk)
      (fun _ _ => ¬ dividable threshold target start (treeBelow source start))
      ((splitVisitor threshold).file ⟨target, names ++ [name]⟩ tally) := by
  obtain ⟨entry, found⟩ := Option.ne_none_iff_exists'.mp stored
  cases entry with
  | directory =>
      refine absurd ((fresh.isDirectory_target known.planted known.partly_top valid).mpr ⟨permitted, ?_⟩) leaf
      rw [partly_plain plain, if_neg whole, found]
  | file content =>
      have divided := known.divide_ends free fresh found whole valid permitted
      unfold splitVisitor counting
      dsimp only
      cases ran : splitFile threshold (Spot.path ⟨target, names ++ [name]⟩) tally.disk with
      | error cause after => exact divided.error ran
      | ok result after =>
          obtain ⟨more, further⟩ := divided.ok ran
          refine ⟨more, further.extend (fun file same => same ▸ List.prefix_rfl)
            fun file stored within isFile => ?_⟩
          exact eq_of_below_file found within (by rw [isFile]; simp)

/-- What stands under one more name is seen to, if walking through a directory there sees to it. -/
private theorem Copied.visitChild_ends
    (known : Copied threshold target start (treeBelow source start) split tally.disk)
    (plain : isPlain (names ++ [name])) (stored : treeBelow source start (names ++ [name]) ≠ none)
    (unsplit : ∀ file ∈ split, ¬ names ++ [name] <+: file)
    (permitted : start.permits (Spot.path ⟨target, names ++ [name]⟩))
    (walked : treeBelow source start (names ++ [name]) = some .directory →
      Ends (fun _ after => ∃ more, Divided threshold target start (treeBelow source start)
          (names ++ [name] <+: ·) split more after.disk)
        (fun _ _ => ¬ dividable threshold target start (treeBelow source start))
        ((splitVisitor threshold).walkWithin Tally.disk levels ⟨target, names ++ [name]⟩ tally)) :
    Ends (fun _ after => ∃ more, Divided threshold target start (treeBelow source start)
        (names ++ [name] <+: ·) split more after.disk)
      (fun _ _ => ¬ dividable threshold target start (treeBelow source start))
      ((if tally.disk.isDirectory (Spot.path ⟨target, names ++ [name]⟩) then
          (splitVisitor threshold).walkWithin Tally.disk levels ⟨target, names ++ [name]⟩
        else (splitVisitor threshold).file ⟨target, names ++ [name]⟩) tally) := by
  have notSplit : names ++ [name] ∉ split := fun member => unsplit _ member List.prefix_rfl
  have own : partly threshold (treeBelow source start) split (names ++ [name]) =
      treeBelow source start (names ++ [name]) := by
    rw [partly_plain plain, if_neg notSplit]
  have all : (names ++ [name]).all isEntryName = true := by
    apply @namesValid_below tally.disk (start.leadsTo target)
    rw [known.planted.inside, own]
    exact stored
  split
  · rename_i isDirectory
    have present := ((fresh.isDirectory_target known.planted known.partly_top all).mp isDirectory).2
    rw [own] at present
    exact walked present
  · rename_i leaf
    exact known.visitFile_ends fresh free plain stored notSplit all permitted leaf

/-- All files below a directory of the copy are seen to, where they are. -/
theorem Copied.splitWithin_ends
    (known : Copied threshold target start (treeBelow source start) split tally.disk)
    (directory : treeBelow source start names = some .directory)
    (untouched : ∀ file ∈ split, ¬ names <+: file)
    (reached : ∀ place, treeBelow source start place ≠ none →
      start.permits (Spot.path ⟨target, place⟩) ∧ place.length < depth)
    (deep : names.length + levels = depth) :
    Ends (fun _ after => ∃ more,
        Divided threshold target start (treeBelow source start) (names <+: ·) split more after.disk)
      (fun _ _ => ¬ dividable threshold target start (treeBelow source start))
      ((splitVisitor threshold).walkWithin Tally.disk levels ⟨target, names⟩ tally) := by
  induction levels generalizing split names tally with
  | zero =>
      have shallow := (reached names (by rw [directory]; simp)).2
      omega
  | succ below ih =>
      have plain := free.plain names (by rw [directory]; simp)
      have apart : ∀ item, names ++ [item] ∉ split := fun item member =>
        untouched _ member (List.prefix_append _ _)
      have top : tally.disk.entryAt? (start.leadsTo target ++ names) = some .directory := by
        rw [known.planted.inside]
        exact partly_of_directory known.large directory
      have valid : names.all isEntryName = true := namesValid_below (by rw [top]; simp)
      have aim : tally.disk.leadsTo (Spot.path ⟨target, names⟩) = start.leadsTo target ++ names := by
        rw [leadsTo_spot tally.disk (show (Spot.mk target names).names.all isEntryName = true from valid),
          known.planted.setting.leadsTo]
      have entered : tally.disk.isDirectory (Spot.path ⟨target, names⟩) = true := by
        rw [fresh.isDirectory_target known.planted known.partly_top valid]
        exact ⟨(reached names (by rw [directory]; simp)).1, partly_of_directory known.large directory⟩
      have noParts : isSplitDirectory tally.disk (Spot.path ⟨target, names⟩) = false := by
        unfold isSplitDirectory
        rw [Spot.unmarked fresh.targetName plain valid, Option.isSome_none, Bool.and_false]
      refine walkWithin_ends (splitVisitor_enters noParts) entered (fun visited state => ∃ more,
        Divided threshold target start (treeBelow source start)
          (fun file => ∃ other ∈ visited, names ++ [other] <+: file) split more state.disk) ?none ?next ?all
      case none => exact ⟨[], Divided.refl known fun file content fits => by simp at fits⟩
      case next =>
        rintro visited item rest state whole ⟨more, divided⟩
        rw [aim] at whole
        obtain ⟨both, stored⟩ := known.listed free directory apart (mem_childNames_of_turn whole)
        have unsplit := divided.unsplit (fun _ _ around => around) (notMem_visited whole)
          fun file member within => untouched file member ((List.prefix_append _ _).trans within)
        refine (divided.state.visitChild_ends fresh free both stored unsplit (reached _ stored).1
          fun present => ih divided.state present unsplit ?_).mono (fun _ after further => ?_)
            fun _ _ failed => failed
        · rw [List.length_append, List.length_singleton]
          omega
        obtain ⟨later, further⟩ := further
        exact ⟨more ++ later, divided.visit further⟩
      case all =>
        rintro state ⟨more, divided⟩
        refine ⟨more, divided.extend (fun file ⟨other, _, within⟩ =>
          (List.prefix_append _ _).trans within) fun file content within isFile => ?_⟩
        obtain ⟨behind, rfl⟩ := within
        have strict : behind ≠ [] := by
          rintro rfl
          rw [List.append_nil, directory] at isFile
          cases isFile
        obtain ⟨item, stored, around⟩ := exists_child strict (by rw [isFile]; simp)
        refine ⟨item, ?_, around⟩
        rw [mem_childNames_spot valid, treeBelow_of_plants known.planted, partly_plain (free.plain _ stored),
          if_neg (apart item)]
        exact stored

end InPlace

end FreshCopy

end CrossBuild.Artifacts
