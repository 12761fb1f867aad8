/-
Where the files of a backup land.

Before a backup is laid over a repository, the directories that it writes files into are worked out from
its places alone. Copying goes another way: each directory of parts is replaced by its file when it is
left, be it in another one or not. Here it is said which directories directly hold a file once a tree is
copied into an empty directory, and for which trees these are the ones that were worked out. A directory
of parts has to hold a part, all that it holds stands directly in it, and it has to have a name without
the suffix.
-/

import CrossBuild.Proofs.Artifacts.MergingCopy

namespace CrossBuild.Artifacts

open Files Files.Disk Runs

/-! ### What merging makes of a tree -/

def holdsFile (image : Location → Option Entry) (place : Location) : Prop :=
  ∃ content, image place = some (.file content)

/-- A file of the tree comes to stand at a place, or the one that a directory of parts stands for. -/
def landsAt (image : Location → Option Entry) : Location → Prop
  | [] => False
  | [name] => holdsFile image [name] ∨ name ≠ "" ∧ image [name ++ splitSuffix] = some .directory
  | name :: next :: rest =>
      mergedName? name = none ∧ landsAt (fun place => image (name :: place)) (next :: rest)

/-- Which files and directories there are once a tree is copied with merging. -/
structure Lands (image view : Location → Option Entry) : Prop where
  directory : ∀ place, view place = some .directory ↔ image place = some .directory ∧ isPlain place
  file : ∀ place, holdsFile view place ↔ landsAt image place

/-- What is seen of a tree of which only some names have been come to. -/
def visible (names : List String) (image : Location → Option Entry) : Location → Option Entry
  | [] => image []
  | name :: rest => if name ∈ names then image (name :: rest) else none

section Lands

variable {image view inner : Location → Option Entry} {names : List String} {name base : String}
  {content : ByteArray}

theorem not_holdsFile_of_none {place : Location} (missing : image place = none) :
    ¬ holdsFile image place := by
  rintro ⟨_, there⟩
  rw [missing] at there
  cases there

theorem not_holdsFile_of_directory {place : Location} (directory : image place = some .directory) :
    ¬ holdsFile image place := by
  rintro ⟨_, there⟩
  rw [directory] at there
  cases there

theorem landsAt_cons {rest : Location} (strict : rest ≠ []) : landsAt image (name :: rest) ↔
    mergedName? name = none ∧ landsAt (fun place => image (name :: place)) rest := by
  obtain ⟨next, rest, rfl⟩ := List.exists_cons_of_ne_nil strict
  exact .rfl

theorem landsAt_concat (front : Location) (name : String) : landsAt image (front ++ [name]) ↔
    isPlain front ∧ (holdsFile image (front ++ [name]) ∨
      name ≠ "" ∧ image (front ++ [name ++ splitSuffix]) = some .directory) := by
  induction front generalizing image with
  | nil => exact (and_iff_right isPlain_nil).symm
  | cons first rest ih =>
      rw [List.cons_append, landsAt_cons (by simp), ih, isPlain_cons, and_assoc]
      rfl

theorem not_landsAt_nothing (place : Location) : ¬ landsAt (fun _ => none) place := by
  cases place using List.reverseRecOn with
  | nil => exact id
  | append_singleton front name =>
      rw [landsAt_concat]
      rintro ⟨-, ⟨_, absent⟩ | ⟨-, absent⟩⟩ <;> cases absent

theorem Lands.eq_none_iff (lands : Lands image view) (place : Location) :
    view place = none ↔ ¬ (image place = some .directory ∧ isPlain place) ∧ ¬ landsAt image place := by
  rw [← lands.directory, ← lands.file]
  unfold holdsFile
  cases view place with
  | none => simp
  | some entry => cases entry <;> simp

/-- Nothing is seen below a name that has not been come to. -/
theorem Lands.vacant (lands : Lands (visible names image) view) (fresh : name ∉ names)
    {rest : Location} (strict : rest ≠ []) : view (name :: rest) = none := by
  rw [lands.eq_none_iff, landsAt_cons strict]
  have hidden : (fun place => visible names image (name :: place)) = fun _ => none :=
    funext fun _ => if_neg fresh
  rw [hidden, congrFun hidden rest]
  constructor
  · rintro ⟨there, -⟩
    cases there
  · exact fun lands => not_landsAt_nothing rest lands.2

theorem visible_nil (first : String) (rest : Location) :
    visible [] image (first :: rest) = none := by
  rw [visible, if_neg List.not_mem_nil]

theorem lands_start (top : image [] = some .directory) {old : Location → Option Entry}
    (blank : ∀ first rest, old (first :: rest) = none) :
    Lands (visible [] image) (enteredView old) where
  directory := by
    intro place
    cases place with
    | nil => exact iff_of_true rfl ⟨top, isPlain_nil⟩
    | cons first rest =>
        rw [enteredView, blank, visible_nil]
        exact iff_of_false (by simp) (by simp)
  file := by
    intro place
    cases place with
    | nil => exact iff_of_false (not_holdsFile_of_directory rfl) id
    | cons first rest =>
        refine iff_of_false (not_holdsFile_of_none (blank first rest)) fun lands => ?_
        by_cases last : rest = []
        · subst last
          rcases lands with own | ⟨-, there⟩
          · exact not_holdsFile_of_none (visible_nil first []) own
          · rw [visible_nil] at there
            cases there
        · have hidden : (fun place => visible [] image (first :: place)) = fun _ => none :=
            funext (visible_nil first)
          rw [landsAt_cons last, hidden] at lands
          exact not_landsAt_nothing rest lands.2

theorem visible_concat_other {first : String} (other : first ≠ name) (rest : Location) :
    visible (names ++ [name]) image (first :: rest) = visible names image (first :: rest) := by
  simp only [visible, List.mem_append, List.mem_singleton, other, or_false]

theorem visible_concat_own (rest : Location) :
    visible (names ++ [name]) image (name :: rest) = image (name :: rest) := by
  simp only [visible, List.mem_append, List.mem_singleton, or_true, if_true]

/-- The name is that of a directory of parts, and the place that of the file that it stands for. -/
def isFileOf (image : Location → Option Entry) (name first : String) (rest : Location) : Prop :=
  rest = [] ∧ first ≠ "" ∧ first ++ splitSuffix = name ∧ image [name] = some .directory

/-- What one more name brings is not seen at another one, unless that is the name of its file. -/
theorem landsAt_visible_other {first : String} (other : first ≠ name) {rest : Location}
    (apart : ¬ isFileOf image name first rest) (fresh : name ∉ names) :
    landsAt (visible (names ++ [name]) image) (first :: rest) ↔
      landsAt (visible names image) (first :: rest) := by
  by_cases last : rest = []
  · subst last
    unfold landsAt holdsFile
    rw [visible_concat_other other]
    apply or_congr_right
    apply and_congr_right
    intro nonempty
    by_cases box : first ++ splitSuffix = name
    · rw [box, visible_concat_own]
      refine ⟨fun there => absurd ⟨rfl, nonempty, box, there⟩ apart, fun there => ?_⟩
      rw [visible, if_neg fresh] at there
      cases there
    · rw [visible_concat_other box]
  · rw [landsAt_cons last, landsAt_cons last, funext (visible_concat_other other)]

/-- At a name whose tree has been come to, what lands below it lands there. -/
theorem landsAt_visible_own {rest : Location} (strict : rest ≠ []) :
    landsAt (visible (names ++ [name]) image) (name :: rest) ↔
      mergedName? name = none ∧ landsAt (fun place => image (name :: place)) rest := by
  rw [landsAt_cons strict, funext visible_concat_own]

/-- At the name itself stands its file, or one that was there before. -/
theorem Lands.landsAt_visible (lands : Lands (visible names image) view) (fresh : name ∉ names) :
    landsAt (visible (names ++ [name]) image) [name] ↔ holdsFile image [name] ∨ holdsFile view [name] := by
  rw [lands.file]
  unfold landsAt holdsFile
  rw [visible_concat_own, visible_concat_other (append_splitSuffix_ne name)]
  simp only [visible, if_neg fresh, reduceCtorEq, exists_false, false_or]

/-- One more name changes what stands at it, and at the name of its file. -/
theorem Lands.step {next : Location → Option Entry} (lands : Lands (visible names image) view)
    (fresh : name ∉ names) (top : next [] = view [])
    (others : ∀ first rest, first ≠ name → ¬ isFileOf image name first rest →
      next (first :: rest) = view (first :: rest))
    (replaced : ∀ first, isFileOf image name first [] →
      view [first] ≠ some .directory ∧ holdsFile next [first])
    (directory : ∀ rest, next (name :: rest) = some .directory ↔
      image (name :: rest) = some .directory ∧ isPlain (name :: rest))
    (file : holdsFile next [name] ↔ holdsFile image [name] ∨ holdsFile view [name])
    (further : ∀ rest, rest ≠ [] → (holdsFile next (name :: rest) ↔
      mergedName? name = none ∧ landsAt (fun place => image (name :: place)) rest)) :
    Lands (visible (names ++ [name]) image) next where
  directory := by
    intro place
    cases place with
    | nil =>
        rw [top]
        exact lands.directory []
    | cons first rest =>
        by_cases own : first = name
        · subst own
          rw [visible_concat_own]
          exact directory rest
        · rw [visible_concat_other own]
          by_cases taken : isFileOf image name first rest
          · have last := taken.1
            subst last
            obtain ⟨noDirectory, content, isFile⟩ := replaced first taken
            rw [← lands.directory, isFile]
            exact iff_of_false (by simp) noDirectory
          · rw [others first rest own taken]
            exact lands.directory _
  file := by
    intro place
    cases place with
    | nil =>
        unfold holdsFile
        rw [top]
        exact lands.file []
    | cons first rest =>
        by_cases own : first = name
        · subst own
          by_cases last : rest = []
          · subst last
            rw [lands.landsAt_visible fresh]
            exact file
          · rw [landsAt_visible_own last]
            exact further rest last
        · by_cases taken : isFileOf image name first rest
          · have last := taken.1
            subst last
            refine ⟨fun _ => .inr ⟨taken.2.1, ?_⟩, fun _ => (replaced first taken).2⟩
            rw [taken.2.2.1, visible_concat_own, taken.2.2.2]
          · rw [landsAt_visible_other own taken fresh, ← lands.file]
            unfold holdsFile
            rw [others first rest own taken]

theorem not_isFileOf_of_file {first : String} {rest : Location}
    (isFile : image [name] = some (.file content)) : ¬ isFileOf image name first rest := by
  rintro ⟨-, -, -, there⟩
  rw [isFile] at there
  cases there

theorem not_isFileOf_of_plain {first : String} {rest : Location} (plain : mergedName? name = none) :
    ¬ isFileOf image name first rest := by
  rintro ⟨-, nonempty, rfl, -⟩
  rw [mergedName?_append_splitSuffix nonempty] at plain
  cases plain

theorem Lands.addFile (lands : Lands (visible names image) view) (tree : isTree image)
    (fresh : name ∉ names) (isFile : image [name] = some (.file content)) :
    Lands (visible (names ++ [name]) image) (graft name
      (fun place => if place = [] then some (.file content) else view (name :: place)) view) := by
  have nothing : ∀ rest, rest ≠ [] → image (name :: rest) = none := by
    intro rest strict
    by_contra there
    have directory := tree.directory_of_cons strict there
    rw [isFile] at directory
    cases directory
  have hidden : ∀ rest, rest ≠ [] → graft name
      (fun place => if place = [] then some (.file content) else view (name :: place)) view
        (name :: rest) = none := by
    intro rest strict
    rw [graft, if_pos rfl, if_neg strict, lands.vacant fresh strict]
  refine lands.step fresh rfl ?_ ?_ ?_ ?_ ?_
  · intro first rest other _
    rw [graft, if_neg other]
  · exact fun first taken => absurd taken (not_isFileOf_of_file isFile)
  · intro rest
    by_cases last : rest = []
    · subst last
      rw [graft, if_pos rfl, if_pos rfl, isFile]
      exact iff_of_false (by simp) (by simp)
    · rw [hidden rest last, nothing rest last]
      exact iff_of_false (by simp) (by simp)
  · refine ⟨fun _ => .inl ⟨content, isFile⟩, fun _ => ⟨content, ?_⟩⟩
    rw [graft, if_pos rfl, if_pos rfl]
  · intro rest strict
    refine iff_of_false (not_holdsFile_of_none (hidden rest strict)) fun lands => ?_
    obtain ⟨front, last, rfl⟩ := (List.eq_nil_or_concat' rest).resolve_left strict
    rcases ((landsAt_concat front last).mp lands.2).2 with ⟨_, there⟩ | ⟨-, there⟩
    · cases (nothing _ strict).symm.trans there
    · cases (nothing (front ++ [last ++ splitSuffix]) (by simp)).symm.trans there

theorem Lands.addDirectory (lands : Lands (visible names image) view) (fresh : name ∉ names)
    (plain : mergedName? name = none) (inside : Lands (fun place => image (name :: place)) inner)
    (there : image [name] = some .directory) (vacant : ¬ holdsFile view [name]) :
    Lands (visible (names ++ [name]) image) (graft name inner view) := by
  refine lands.step fresh rfl ?_ ?_ ?_ ?_ ?_
  · intro first rest other _
    rw [graft, if_neg other]
  · exact fun first taken => absurd taken (not_isFileOf_of_plain plain)
  · intro rest
    rw [graft, if_pos rfl, inside.directory, isPlain_cons, and_iff_right plain]
  · have kept := (inside.directory []).mpr ⟨there, isPlain_nil⟩
    have seen : graft name inner view [name] = some .directory := (if_pos rfl).trans kept
    refine iff_of_false (not_holdsFile_of_directory seen) ?_
    rintro (isFile | isFile)
    · exact not_holdsFile_of_directory there isFile
    · exact vacant isFile
  · intro rest strict
    unfold holdsFile
    rw [graft, if_pos rfl, and_iff_right plain]
    exact inside.file rest

theorem Lands.addBox (lands : Lands (visible names image) view) (fresh : base ++ splitSuffix ∉ names)
    (nonempty : base ≠ "") (there : image [base ++ splitSuffix] = some .directory)
    (free : view [base] ≠ some .directory) (vacant : ¬ holdsFile view [base ++ splitSuffix]) :
    Lands (visible (names ++ [base ++ splitSuffix]) image)
      (mergedView [base] [base ++ splitSuffix] content (graft (base ++ splitSuffix) inner view)) := by
  have own : ∀ rest, mergedView [base] [base ++ splitSuffix] content
      (graft (base ++ splitSuffix) inner view) ((base ++ splitSuffix) :: rest) = none := by
    intro rest
    rw [mergedView, if_neg fun same => append_splitSuffix_ne base (List.cons.inj same).1,
      if_pos (List.cons_prefix_cons.mpr ⟨rfl, List.nil_prefix⟩)]
  have named := mergedName?_append_splitSuffix nonempty
  refine lands.step fresh ?_ ?_ ?_ ?_ ?_ ?_
  · rw [mergedView_apart (by simp) (by simp)]
    rfl
  · intro first rest other taken
    rw [mergedView_apart, graft, if_neg other]
    · intro same
      obtain ⟨rfl, rfl⟩ := List.cons.inj same
      exact taken ⟨rfl, nonempty, rfl, there⟩
    · exact fun within => other (List.cons_prefix_cons.mp within).1.symm
  · rintro first ⟨-, -, same, -⟩
    obtain rfl := (String.append_left_inj _).mp same
    exact ⟨free, content, if_pos rfl⟩
  · intro rest
    rw [own, isPlain_cons, named]
    exact iff_of_false (by simp) (by simp)
  · refine iff_of_false (not_holdsFile_of_none (own [])) ?_
    rintro (isFile | isFile)
    · exact not_holdsFile_of_directory there isFile
    · exact vacant isFile
  · intro rest _
    rw [named]
    exact iff_of_false (not_holdsFile_of_none (own rest)) (by simp)

/-- Once all names have been come to, all of the tree is seen. -/
theorem visible_all (tree : isTree image) (all : ∀ name, image [name] ≠ none → name ∈ names) :
    visible names image = image := by
  funext place
  cases place with
  | nil => rfl
  | cons name rest =>
      rw [visible]
      split
      · rfl
      · rename_i absent
        by_contra there
        have missing : image [name] = none := by
          by_contra there
          exact absent (all name there)
        by_cases last : rest = []
        · exact there (by rw [last, missing])
        · have directory := tree.directory_of_cons last (Ne.symm there)
          rw [missing] at directory
          cases directory

end Lands

/-! ### Copying with merging -/

section Landing

variable {target : Path} {spot : Spot} {image old view inner : Location → Option Entry}
  {disk state next : Disk} {name base : String} {levels : Nat}

/-- What a directory holds has been copied, and is still to be seen to. -/
structure LandedAt (target : Path) (spot : Spot) (image view : Location → Option Entry)
    (disk copied : Disk) : Prop where
  planted : disk.Plants (spot.target target disk) view copied
  lands : Lands image view
  top : image [] = some .directory
  free : ∀ content, disk.entryAt? (spot.target target disk) ≠ some (.file content)
  sourceThere : copied.isDirectory spot.path = true
  permitted : disk.permits (target.joinNames spot.names)
  reached : ∀ name, image [name] ≠ none → disk.permits (target.joinNames (spot.names ++ [name]))

/-- What has been copied of a directory of parts can be merged. -/
theorem LandedAt.hasParts (known : CopyAt target (spot.child (base ++ splitSuffix)) image old state)
    (nonempty : base ≠ "")
    (landed : LandedAt target (spot.child (base ++ splitSuffix)) image inner state disk) :
    HasParts (target.joinNames (spot.names ++ [base ++ splitSuffix])) base disk := by
  have valid : (spot.names ++ [base ++ splitSuffix]).all isEntryName = true := known.valid
  obtain ⟨planted, lands, top, -, -, permitted, reached⟩ := landed
  have aim : disk.leadsTo (target.joinNames (spot.names ++ [base ++ splitSuffix])) =
      (spot.child (base ++ splitSuffix)).target target state := by
    rw [leadsTo_joinNames valid, planted.setting.leadsTo]
    rfl
  have own := planted.atTop
  rw [(lands.directory []).mpr ⟨top, isPlain_nil⟩] at own
  constructor
  case base_ne => exact nonempty
  case named =>
    rw [← Path.joinName_joinNames target valid]
    exact Path.fileName?_joinName _ (all_isEntryName_concat.mp valid).2
  case there =>
    refine isDirectory_iff.mpr ⟨(planted.setting.permits _).mpr permitted,
      (stands_joinNames valid).mpr ⟨?_, ?_⟩⟩
    · exact planted.setting.stands_of_outside (known.outside.append _) planted.outside own known.standing
    · rw [planted.setting.leadsTo]
      exact own
  case permitted =>
    rintro index ⟨-, isPart⟩
    obtain ⟨content, part⟩ := Option.isSome_iff_exists.mp isPart
    rw [partAt?_eq_some_iff, aim, planted.inside] at part
    have partValid := isEntryName_partName index
    have name_ : ∀ {name}, isEntryName name = true →
        (target.joinNames (spot.names ++ [base ++ splitSuffix])).joinName name =
          target.joinNames (spot.names ++ [base ++ splitSuffix] ++ [name]) := fun fine =>
      Path.joinName_joinNames target (all_isEntryName_concat.mpr ⟨valid, fine⟩)
    rw [planted.setting.permits]
    rcases (lands.file _).mp ⟨content, part⟩ with ⟨_, isFile⟩ | ⟨-, isParts⟩
    · rw [name_ partValid]
      exact reached _ (by rw [isFile]; simp)
    · have boxValid : isEntryName (partName index ++ splitSuffix) = true :=
        isEntryName_append_splitSuffix partValid
      refine permits_joinName_front partValid boxValid ?_
      rw [name_ boxValid]
      exact reached _ (by rw [isParts]; simp)

/-- A directory of parts that has been copied is replaced by its file. -/
theorem LandedAt.merge (known : CopyAt target (spot.child (base ++ splitSuffix)) image old state)
    (nonempty : base ≠ "")
    (landed : LandedAt target (spot.child (base ++ splitSuffix)) image inner state disk)
    (finished : finishDirectory .merge (spot.child (base ++ splitSuffix)).path
      ((spot.child (base ++ splitSuffix)).below target) disk = .ok () next) :
    ∃ content, disk.entryAt? (spot.target target state ++ [base]) ≠ some .directory ∧
      disk.Becomes (mergedView (spot.target target state ++ [base])
        (spot.target target state ++ [base ++ splitSuffix]) content disk.entryAt?) next := by
  have valid : (spot.names ++ [base ++ splitSuffix]).all isEntryName = true := known.valid
  have parts := landed.hasParts known nonempty
  have aim : disk.leadsTo (target.joinNames (spot.names ++ [base ++ splitSuffix])) =
      spot.target target state ++ [base ++ splitSuffix] := by
    rw [leadsTo_joinNames valid, landed.planted.setting.leadsTo, List.append_assoc]
  have isParts := isSplitDirectory_child known.valid nonempty landed.sourceThere
  change (if isSplitDirectory disk (spot.child (base ++ splitSuffix)).path then
    discard (mergeDirectory (target.joinNames (spot.names ++ [base ++ splitSuffix]))) else pure () :
      Action Unit) disk = _ at finished
  rw [if_pos isParts, discard_ok_iff] at finished
  obtain ⟨result, merged⟩ := finished
  by_cases gap : ∃ count, partsThere disk
      (disk.leadsTo (target.joinNames (spot.names ++ [base ++ splitSuffix]))) = Set.Iio count
  · obtain ⟨count, front⟩ := gap
    cases inTheWay : disk.isDirectory
        ((target.joinNames (spot.names ++ [base ++ splitSuffix])).withFileName base) with
    | true =>
        rw [parts.stops_at_directory front inTheWay] at merged
        cases merged
    | false =>
        have noDots : (target.joinNames (spot.names ++ [base ++ splitSuffix])).endsInDots = false := by
          rw [← Path.joinName_joinNames target valid]
          exact endsInDots_of_segments (Path.segments_joinName _ (all_isEntryName_concat.mp valid).2)
            (all_isEntryName_concat.mp valid).2
        have outside : disk.keepsOut (target.joinNames (spot.names ++ [base ++ splitSuffix]))
            (disk.leadsTo (target.joinNames (spot.names ++ [base ++ splitSuffix]))) := by
          refine keepsOut.joinNames (keepsOut.append ?_ _) valid
          rw [landed.planted.setting.keepsOut, landed.planted.setting.leadsTo]
          exact known.outside
        obtain ⟨after, ran, effect, gone, -⟩ := parts.merges front inTheWay noDots
        rw [merged] at ran
        cases ran
        obtain ⟨above, boxAim, located, free⟩ := parts.locate?_target inTheWay
        have becomes := effect.becomes (gone outside)
        rw [← leadsTo_of_locate? located] at becomes
        rw [aim] at boxAim becomes
        obtain rfl := (List.append_inj' boxAim rfl).1
        exact ⟨_, free, becomes⟩
  · obtain ⟨_, _, -, -, failed⟩ := parts.reports_gap gap
    rw [failed] at merged
    cases merged

theorem mergedView_append {content : ByteArray} (top file box rest : Location) :
    mergedView (top ++ file) (top ++ box) content view (top ++ rest) =
      mergedView file box content (fun place => view (top ++ place)) rest := by
  unfold mergedView
  simp only [List.append_cancel_left_eq, List.prefix_append_right_inj]

/-- Copying one name adds what lands of it. -/
theorem landChild_ok {names : List String}
    (known : CopyAt target spot image old disk) (tree : isTree image)
    (walks : ∀ {spot image old disk next}, CopyAt target spot image old disk →
      (∀ first rest, old (first :: rest) = none) →
      Visitor.walkWithin (copyVisitor target .merge) id levels spot disk = .ok () next →
        ∃ copied view, LandedAt target spot image view disk copied ∧
          finishDirectory .merge spot.path (spot.below target) copied = .ok () next)
    (filled : disk.Plants (spot.target target disk) view state)
    (lands : Lands (visible names image) view) (top : image [] = some .directory)
    (there : image [name] ≠ none) (fresh : name ∉ names)
    (done : copyChild target .merge levels spot name state = .ok () next) :
    (∃ view, disk.Plants (spot.target target disk) view next ∧
      Lands (visible (names ++ [name]) image) view) ∧
        disk.permits (target.joinNames (spot.names ++ [name])) := by
  have open_ : view [] = some .directory := (lands.directory []).mpr ⟨top, isPlain_nil⟩
  rcases known.copyChild_ok filled open_ there done with
    ⟨isDirectory, walked⟩ | ⟨content, isFile, permitted, planted⟩
  · have inside := known.child filled open_ there
    obtain ⟨copied, inner, landed, finished⟩ :=
      walks inside (fun first rest => lands.vacant fresh (by simp)) walked
    have aim : spot.target target state = spot.target target disk := by
      rw [Spot.target, filled.setting.leadsTo]
    have childAim : (spot.child name).target target state = spot.target target disk ++ [name] := by
      rw [← aim]
      exact (List.append_assoc ..).symm
    have vacant : ¬ holdsFile view [name] := by
      rintro ⟨content, isFile⟩
      refine landed.free content ?_
      rw [childAim, filled.inside, isFile]
    have planted := landed.planted
    rw [childAim] at planted
    refine ⟨?_, (filled.setting.permits _).mp landed.permitted⟩
    cases marked : mergedName? name with
    | none =>
        have unmerged : neverMerged (spot.child name).path ((spot.child name).below target) := by
          left
          rw [Spot.fileName?_child inside.valid, Option.bind_some, marked]
        rw [unmerged.finishDirectory] at finished
        cases finished
        exact ⟨_, filled.graft planted,
          lands.addDirectory fresh marked landed.lands isDirectory vacant⟩
    | some base =>
        obtain ⟨rfl, nonempty⟩ := mergedName?_eq_some_iff.mp marked
        obtain ⟨content, free, merged⟩ := landed.merge inside nonempty finished
        rw [aim] at free merged
        have grown := filled.graft planted
        have same : graft (base ++ splitSuffix) inner view [base] = view [base] := by
          rw [graft, if_neg (append_splitSuffix_ne base).symm]
        rw [grown.inside, same] at free
        refine ⟨mergedView [base] [base ++ splitSuffix] content (graft (base ++ splitSuffix) inner view),
          grown.becomes merged (fun rest => ?_) (fun other apart => ?_),
          lands.addBox fresh nonempty isDirectory free vacant⟩
        · rw [mergedView_append, funext grown.inside]
        · obtain ⟨noFile, outside⟩ := apart_from_children apart base (base ++ splitSuffix)
          exact mergedView_apart noFile outside
  · exact ⟨⟨_, filled.graft planted, lands.addFile tree fresh isFile⟩, permitted⟩

/-- Before it is seen to, a directory that was copied holds what lands of the source. -/
theorem landing_ok (known : CopyAt target spot image old disk)
    (blank : ∀ first rest, old (first :: rest) = none)
    (done : Visitor.walkWithin (copyVisitor target .merge) id levels spot disk = .ok () next) :
    ∃ copied view, LandedAt target spot image view disk copied ∧
      finishDirectory .merge spot.path (spot.below target) copied = .ok () next := by
  induction levels generalizing spot image old disk next with
  | zero => cases done
  | succ levels ih =>
      obtain ⟨below, made, names, copied, whole, top, permitted, noFile, isDirectory, entered, distinct,
        children, moved, finished⟩ := known.copyWithin_ok done
      obtain rfl : levels = below := Nat.succ.inj whole
      have tree : isTree image := by
        rw [← funext known.source]
        exact isTree_below_top disk _
      have blankMade : ∀ first rest, enteredView old (first :: rest) = none := by
        intro first rest
        rw [enteredView, blank]
      obtain ⟨⟨view, planted, lands⟩, reached⟩ := forM_distinct_ok distinct
        (fun names state => ∃ view, disk.Plants (spot.target target disk) view state ∧
          Lands (visible names image) view)
        (fun name => disk.permits (target.joinNames (spot.names ++ [name])))
        ⟨_, entered, lands_start top blank⟩
        (fun before name state next _ member fresh kept moved => by
          obtain ⟨view, filled, lands⟩ := kept
          exact landChild_ok known tree ih filled lands top ((children name).mp member) fresh moved)
        moved
      rw [visible_all tree fun name there => (children name).mpr there] at lands
      have open_ : view [] = some .directory := (lands.directory []).mpr ⟨top, isPlain_nil⟩
      refine ⟨copied, view, ⟨planted, lands, top, fun content isFile => ?_, ?_, permitted,
        fun name there => reached name ((children name).mpr there)⟩, finished⟩
      · refine noFile content ?_
        rw [← known.held, List.append_nil]
        exact isFile
      · exact isDirectory_of_filled entered blankMade planted open_ isDirectory

end Landing

/-! ### An empty target -/

/-- The target is an empty directory apart from the source, and is not merged itself. -/
structure EmptyTarget (source target : Path) (start : Disk) : Prop where
  sourceThere : start.isDirectory source = true
  there : start.isDirectory target = true
  vacant : ∀ place, place ≠ [] → treeBelow target start place = none
  sourceApart : ¬ start.leadsTo source <+: start.leadsTo target
  targetApart : ¬ start.leadsTo target <+: start.leadsTo source
  unmerged : neverMerged source target

section EmptyTarget

variable {source target : Path} {start after : Disk} (empty : EmptyTarget source target start)

include empty

theorem EmptyTarget.copyAt : CopyAt target ⟨source, []⟩ (treeBelow source start)
    (treeBelow target start) start := by
  obtain ⟨permitted, standing⟩ := isDirectory_iff.mp empty.there
  constructor
  case valid => rfl
  case spelled => exact permitted.spelled
  case standing => exact standing
  case outside =>
    refine standing.keepsOut fun rest strict there => ?_
    cases (empty.vacant rest strict).symm.trans there
  case sourceApart =>
    rw [Spot.source, Spot.target, List.append_nil, List.append_nil]
    exact empty.sourceApart
  case targetApart =>
    rw [Spot.source, Spot.target, List.append_nil, List.append_nil]
    exact empty.targetApart
  case parent =>
    rw [List.dropLast_nil, List.append_nil]
    exact entryAt?_leadsTo_of_stands standing
  case source =>
    intro place
    rw [Spot.source, List.append_nil]
    rfl
  case held =>
    intro place
    rw [Spot.target, List.append_nil]
    rfl

/-- What is copied with merging lands in the target. -/
theorem EmptyTarget.lands (done : copyTree source target .merge start = .ok () after) :
    Lands (treeBelow source start) (treeBelow target after) := by
  obtain ⟨levels, walked⟩ := copyTree_ok done
  obtain ⟨copied, view, landed, finished⟩ :=
    landing_ok empty.copyAt (fun first rest => empty.vacant _ (by simp)) walked
  have unmerged : neverMerged (Spot.path ⟨source, []⟩) (target.joinNames []) :=
    neverMerged_joinNames_nil.mpr empty.unmerged
  have same := unmerged.finishDirectory.symm.trans finished
  cases same
  have planted := landed.planted
  rw [Spot.target, List.append_nil] at planted
  have own : treeBelow target after = view := funext (treeBelow_of_plants planted)
  rw [own]
  exact landed.lands

end EmptyTarget

/-! ### Directories that files are written into -/

theorem endsWith_iff {ending text : String} :
    Text.endsWith ending text = true ↔ ∃ base, text = base ++ ending := by
  unfold Text.endsWith
  rw [Option.isSome_iff_exists]
  simp only [dropEnding?_eq_some_iff]

/-- What lies in a directory with the suffix lies directly in it, the name of the directory is longer,
and where it stands for a file there is a part. -/
structure SoundParts (image : Location → Option Entry) : Prop where
  direct : ∀ front box rest, Text.endsWith splitSuffix box = true → rest ≠ [] →
    holdsFile image (front ++ box :: rest) → box ≠ splitSuffix ∧ rest.length = 1
  filled : ∀ front base, base ≠ "" → image (front ++ [base ++ splitSuffix]) = some .directory →
    ∃ part, holdsFile image (front ++ [base ++ splitSuffix, part])

section Receiving

variable {image view : Location → Option Entry} {place : Location}

/-- A directory holds a file in the end if it is in no directory of parts, and held a file or a directory
of parts. -/
theorem Lands.receives_iff (lands : Lands image view) : receives view place ↔ place ≠ [] ∧ isPlain place ∧
    ∃ name, holdsFile image (place ++ [name]) ∨
      name ≠ "" ∧ image (place ++ [name ++ splitSuffix]) = some .directory := by
  have files : (∃ name content, view (place ++ [name]) = some (.file content)) ↔
      ∃ name, landsAt image (place ++ [name]) := exists_congr fun name => lands.file _
  unfold receives
  rw [files]
  simp only [landsAt_concat, exists_and_left]

/-- The last name has the suffix. -/
def isSuffixed (place : Location) : Prop :=
  place.getLast?.any (Text.endsWith splitSuffix) = true

/-- A directory is taken for one that files are written into if it holds one and does not have the
suffix, or if a directory in it has the suffix and holds one. -/
theorem mem_receivingDirectories_iff {disk : Disk} {component : Path}
    (there : disk.isDirectory component = true) : place ∈ receivingDirectories disk component ↔
      place ≠ [] ∧ (¬ isSuffixed place ∧ (∃ name, holdsFile (treeBelow component disk) (place ++ [name])) ∨
        ∃ box name, Text.endsWith splitSuffix box = true ∧
          holdsFile (treeBelow component disk) (place ++ [box, name])) := by
  rw [mem_receivingDirectories there]
  constructor
  · rintro ⟨names, content, strict, file, goes⟩
    obtain ⟨front, name, rfl⟩ := (List.eq_nil_or_concat' names).resolve_left strict
    rw [receivingDirectory?_concat] at goes
    by_cases suffixed : isSuffixed front
    · obtain ⟨above, box, rfl⟩ := (List.eq_nil_or_concat' front).resolve_left (by
        rintro rfl
        cases suffixed)
      have ends : Text.endsWith splitSuffix box = true := by simpa [isSuffixed] using suffixed
      rw [List.getLast?_concat, Option.any_some, if_pos ends, List.dropLast_concat] at goes
      split at goes
      · cases goes
      · rename_i inner
        cases goes
        refine ⟨by simpa using inner, .inr ⟨box, name, ends, content, ?_⟩⟩
        rw [List.append_assoc] at file
        exact file
    · unfold isSuffixed at suffixed
      rw [if_neg suffixed] at goes
      split at goes
      · cases goes
      · rename_i inner
        cases goes
        exact ⟨by simpa using inner, .inl ⟨suffixed, name, content, file⟩⟩
  · rintro ⟨strict, ⟨unsuffixed, name, content, file⟩ | ⟨box, name, ends, content, file⟩⟩
    · refine ⟨place ++ [name], content, by simp, file, ?_⟩
      unfold isSuffixed at unsuffixed
      rw [receivingDirectory?_concat, if_neg unsuffixed, if_neg (by simpa using strict)]
    · refine ⟨place ++ [box] ++ [name], content, by simp, ?_, ?_⟩
      · rw [List.append_assoc]
        exact file
      · rw [receivingDirectory?_concat, List.getLast?_concat, Option.any_some, if_pos ends,
          List.dropLast_concat, if_neg (by simpa using strict)]

theorem endsWith_of_mergedName? {name base : String} (marked : mergedName? name = some base) :
    Text.endsWith splitSuffix name = true :=
  endsWith_iff.mpr ⟨base, (mergedName?_eq_some_iff.mp marked).1⟩

theorem SoundParts.plain (sound : SoundParts image) {front rest : Location} (long : 1 < rest.length)
    (file : holdsFile image (front ++ rest)) : isPlain front := by
  intro name member
  by_contra marked
  obtain ⟨base, marked⟩ := Option.ne_none_iff_exists'.mp marked
  obtain ⟨before, behind, rfl⟩ := List.append_of_mem member
  rw [List.append_assoc, List.cons_append] at file
  have single := (sound.direct before name (behind ++ rest) (endsWith_of_mergedName? marked)
    (by rintro none; simp [List.append_eq_nil_iff.mp none] at long) file).2
  rw [List.length_append] at single
  omega

/-- Where the directories of parts are sound, the directories that are worked out are those that hold files
in the end. -/
theorem SoundParts.receives_iff (sound : SoundParts image) (tree : isTree image)
    (lands : Lands image view) : receives view place ↔
      place ≠ [] ∧ (¬ isSuffixed place ∧ (∃ name, holdsFile image (place ++ [name])) ∨
        ∃ box name, Text.endsWith splitSuffix box = true ∧ holdsFile image (place ++ [box, name])) := by
  rw [lands.receives_iff]
  apply and_congr_right
  intro strict
  obtain ⟨front, last, rfl⟩ := (List.eq_nil_or_concat' place).resolve_left strict
  have suffixed_iff : isSuffixed (front ++ [last]) ↔ Text.endsWith splitSuffix last = true := by
    simp [isSuffixed]
  rw [suffixed_iff]
  constructor
  · rintro ⟨plain, name, file | ⟨nonempty, box⟩⟩
    · refine .inl ⟨fun suffixed => ?_, name, file⟩
      have own := plain last (by simp)
      rw [List.append_assoc] at file
      obtain ⟨base, rfl⟩ := endsWith_iff.mp suffixed
      have nonempty : base ≠ "" := by
        rintro rfl
        exact (sound.direct front _ [name] suffixed (by simp) file).1 (String.empty_append ..)
      rw [mergedName?_append_splitSuffix nonempty] at own
      cases own
    · obtain ⟨part, file⟩ := sound.filled _ _ nonempty box
      exact .inr ⟨_, part, endsWith_append _ _, file⟩
  · rintro (⟨unsuffixed, name, file⟩ | ⟨box, name, ends, file⟩)
    · refine ⟨isPlain_append.mpr ⟨?_, ?_⟩, name, .inl file⟩
      · rw [List.append_assoc] at file
        exact sound.plain (by simp) file
      · intro other member
        rw [List.mem_singleton.mp member]
        exact mergedName?_of_endsWith (Bool.eq_false_iff.mpr unsuffixed)
    · obtain ⟨base, rfl⟩ := endsWith_iff.mp ends
      have nonempty : base ≠ "" := by
        rintro rfl
        exact (sound.direct _ _ [name] ends (by simp) file).1 (String.empty_append ..)
      refine ⟨sound.plain (by simp) file, base, .inr ⟨nonempty, ?_⟩⟩
      refine tree _ name ?_
      obtain ⟨content, isFile⟩ := file
      rw [List.append_assoc, List.singleton_append, isFile]
      simp

end Receiving

/-- Once a backup is copied with merging into an empty directory, a directory directly holds a file if it
is in no directory of parts and the backup holds a file or a directory of parts there. Where these are
sound, the same directories are worked out from the backup alone. -/
theorem receivingDirectories_eq_receives {source target : Path} {start after : Disk}
    (empty : EmptyTarget source target start)
    (done : copyTree source target .merge start = .ok () after) :
    (∀ place, receives (treeBelow target after) place ↔ place ≠ [] ∧ isPlain place ∧
      ∃ name, holdsFile (treeBelow source start) (place ++ [name]) ∨
        name ≠ "" ∧ treeBelow source start (place ++ [name ++ splitSuffix]) = some .directory) ∧
    (SoundParts (treeBelow source start) → ∀ place,
      place ∈ receivingDirectories start source ↔ receives (treeBelow target after) place) := by
  have lands := empty.lands done
  refine ⟨fun place => lands.receives_iff, fun sound place => ?_⟩
  rw [mem_receivingDirectories_iff empty.sourceThere,
    sound.receives_iff (isTree_below_top start _) lands]

/-- Where no name has the suffix, nothing has to be sound. -/
theorem unsuffixed.soundParts {image : Location → Option Entry} (free : unsuffixed image) :
    SoundParts image where
  direct := by
    rintro front box rest ends - ⟨content, file⟩
    rw [free (front ++ box :: rest) (by rw [file]; simp) box (by simp)] at ends
    cases ends
  filled := by
    intro front base _ there
    have plain := free _ (by rw [there]; simp) (base ++ splitSuffix) (by simp)
    rw [endsWith_append] at plain
    cases plain

/-! ### Two backups -/

private theorem emptyTarget_of_entries {disk : Disk}
    (there : disk.isDirectory ⟨"b"⟩ = true ∧ disk.isDirectory ⟨"t"⟩ = true)
    (aims : disk.leadsTo ⟨"b"⟩ = ["b"] ∧ disk.leadsTo ⟨"t"⟩ = ["t"])
    (alone : ∀ item ∈ disk.entries, ["t"] <+: item.1 → item.1 = ["t"]) :
    EmptyTarget ⟨"b"⟩ ⟨"t"⟩ disk := by
  constructor
  case sourceThere => exact there.1
  case there => exact there.2
  case vacant =>
    intro place strict
    unfold treeBelow
    rw [aims.2]
    cases found : disk.entryAt? (["t"] ++ place) with
    | none => rfl
    | some entry =>
        have same := alone _ ((entryAt?_eq_some_iff (by simp)).mp found) (List.prefix_append _ _)
        rw [List.append_right_eq_self] at same
        exact absurd same strict
  case sourceApart =>
    rw [aims.1, aims.2]
    decide
  case targetApart =>
    rw [aims.1, aims.2]
    decide
  case unmerged => exact .inl (by decide +kernel)

/-- One file at the top, one in a directory and one in a directory of that. -/
def layeredDisk : Disk :=
  { entries := [(["b"], .directory), (["b", "f"], .file ⟨#[1]⟩), (["b", "x"], .directory),
      (["b", "x", "g"], .file ⟨#[2]⟩), (["b", "x", "y"], .directory),
      (["b", "x", "y", "h"], .file ⟨#[3]⟩), (["t"], .directory)]
    workingDirectory := []
    limits := some ⟨255, 4095⟩
    keysDistinct := by decide +kernel
    parentsThere := by decide +kernel
    namesValid := by decide +kernel }

private theorem layered_copied : ∃ after, copyTree ⟨"b"⟩ ⟨"t"⟩ .merge layeredDisk = .ok () after := by
  have checked : endsWell (copyTree ⟨"b"⟩ ⟨"t"⟩ .merge layeredDisk) (fun _ _ => true) = true := by
    decide +kernel
  obtain ⟨_, after, done, -⟩ := exists_of_endsWell checked
  exact ⟨after, done⟩

private theorem layered_sound : SoundParts (treeBelow ⟨"b"⟩ layeredDisk) := by
  apply unsuffixed.soundParts
  intro place there
  have aim : layeredDisk.leadsTo ⟨"b"⟩ = ["b"] := by decide +kernel
  unfold treeBelow at there
  rw [aim] at there
  have listed : ∀ item ∈ layeredDisk.entries, ["b"] <+: item.1 →
      ∀ name ∈ item.1, name ∈ ["b", "f", "x", "g", "y", "h"] := by
    decide +kernel
  have plain : ∀ name ∈ ["b", "f", "x", "g", "y", "h"], Text.endsWith splitSuffix name = false := by
    decide +kernel
  exact fun name member => plain name (mem_of_entries listed there name member)

theorem receivingDirectories_of_layered : ∃ after, EmptyTarget ⟨"b"⟩ ⟨"t"⟩ layeredDisk ∧
    copyTree ⟨"b"⟩ ⟨"t"⟩ .merge layeredDisk = .ok () after ∧
    (∀ place, receives (treeBelow ⟨"t"⟩ after) place ↔ place ≠ [] ∧ isPlain place ∧
      ∃ name, holdsFile (treeBelow ⟨"b"⟩ layeredDisk) (place ++ [name]) ∨ name ≠ "" ∧
        treeBelow ⟨"b"⟩ layeredDisk (place ++ [name ++ splitSuffix]) = some .directory) ∧
    SoundParts (treeBelow ⟨"b"⟩ layeredDisk) ∧ ∀ place,
      place ∈ receivingDirectories layeredDisk ⟨"b"⟩ ↔ receives (treeBelow ⟨"t"⟩ after) place := by
  have empty : EmptyTarget ⟨"b"⟩ ⟨"t"⟩ layeredDisk :=
    emptyTarget_of_entries (by decide +kernel) (by decide +kernel) (by decide +kernel)
  obtain ⟨after, done⟩ := layered_copied
  obtain ⟨holding, same⟩ := receivingDirectories_eq_receives empty done
  exact ⟨after, empty, done, holding, layered_sound, same layered_sound⟩

/-- The directory has the suffix for a name, so it stands for no file. -/
def dottedDisk : Disk :=
  { entries := [(["b"], .directory), (["b", "x"], .directory), (["b", "x", ".split.file.dir"], .directory),
      (["b", "x", ".split.file.dir", "f"], .file ⟨#[1]⟩), (["t"], .directory)]
    workingDirectory := []
    limits := some ⟨255, 4095⟩
    keysDistinct := by decide +kernel
    parentsThere := by decide +kernel
    namesValid := by decide +kernel }

private theorem dotted_copied : ∃ after, copyTree ⟨"b"⟩ ⟨"t"⟩ .merge dottedDisk = .ok () after := by
  have checked : endsWell (copyTree ⟨"b"⟩ ⟨"t"⟩ .merge dottedDisk) (fun _ _ => true) = true := by
    decide +kernel
  obtain ⟨_, after, done, -⟩ := exists_of_endsWell checked
  exact ⟨after, done⟩

/-- The directory that holds the file is not worked out, but the one around it is. -/
theorem receivingDirectories_of_dotted_differ : ∃ after, EmptyTarget ⟨"b"⟩ ⟨"t"⟩ dottedDisk ∧
    copyTree ⟨"b"⟩ ⟨"t"⟩ .merge dottedDisk = .ok () after ∧
    receivingDirectories dottedDisk ⟨"b"⟩ = [["x"]] ∧
    receives (treeBelow ⟨"t"⟩ after) ["x", ".split.file.dir"] ∧
    ¬ ∀ place, place ∈ receivingDirectories dottedDisk ⟨"b"⟩ ↔ receives (treeBelow ⟨"t"⟩ after) place := by
  have empty : EmptyTarget ⟨"b"⟩ ⟨"t"⟩ dottedDisk :=
    emptyTarget_of_entries (by decide +kernel) (by decide +kernel) (by decide +kernel)
  obtain ⟨after, done⟩ := dotted_copied
  have worked : receivingDirectories dottedDisk ⟨"b"⟩ = [["x"]] := by decide +kernel
  have lands : receives (treeBelow ⟨"t"⟩ after) ["x", ".split.file.dir"] := by
    have plain : ∀ name ∈ ["x", ".split.file.dir"], mergedName? name = none := by decide +kernel
    have file : treeBelow ⟨"b"⟩ dottedDisk (["x", ".split.file.dir"] ++ ["f"]) = some (.file ⟨#[1]⟩) := by
      decide +kernel
    exact ((empty.lands done).receives_iff).mpr ⟨by simp, plain, "f", .inl ⟨_, file⟩⟩
  refine ⟨after, empty, done, worked, lands, fun same => ?_⟩
  have member := (same _).mpr lands
  rw [worked] at member
  exact absurd member (by decide)

end CrossBuild.Artifacts
