/-
Copying a tree with large files split.

The target ends up holding what is kept of the source, and nothing changes elsewhere. It may hold
some of that already, as it does when the same place is copied twice; but nothing else may be there.
A directory is first copied name by name and then its files are split, and each of these two loops
has a view of the directory that its steps extend by one name.
-/

import CrossBuild.Proofs.Artifacts.Copying
import CrossBuild.Proofs.Artifacts.Stowed

namespace CrossBuild.Artifacts

open Files Files.Disk Runs

/-- What has to be known where a directory is copied with its large files split. -/
structure Stowing (threshold : Threshold) (target : Path) (spot : Spot)
    (image old : Location → Option Entry) (disk : Disk) : Prop
    extends CopyAt target spot image old disk where
  tree : isTree image
  plain : ∀ place, image place ≠ none → isPlain place
  allowed : ∀ place, old place = none ∨ old place = stow threshold image place

/-- What a directory holds once some of its names are copied, before anything is split. -/
def copiedView (threshold : Threshold) (image old : Location → Option Entry)
    (copied : List String) : Location → Option Entry
  | [] => some .directory
  | name :: rest =>
      if name ∈ copied then
        match image [name] with
        | some (.file content) => if rest = [] then some (.file content) else none
        | _ => stow threshold image (name :: rest)
      else old (name :: rest)

/-- What a directory holds once the files under some names are split. -/
def dividedView (threshold : Threshold) (image copied : Location → Option Entry)
    (divided : List String) : Location → Option Entry
  | [] => some .directory
  | name :: rest =>
      if ownerName name ∈ divided then stow threshold image (name :: rest)
      else copied (name :: rest)

section Stowing

variable {threshold : Threshold} {target : Path} {spot : Spot} {image old : Location → Option Entry}
  {disk state next : Disk} {copied : List String} {name : String}

/-! ### Copying the names -/

private theorem copiedView_concat_directory (isDirectory : image [name] = some .directory)
    (plain : mergedName? name = none) (place : Location) :
    graft name (stow threshold fun rest => image (name :: rest))
        (copiedView threshold image old copied) place =
      copiedView threshold image old (copied ++ [name]) place := by
  cases place with
  | nil => rfl
  | cons first rest =>
      by_cases same : first = name
      · subst same
        simp only [graft, copiedView, List.mem_append, List.mem_singleton, or_true, if_true,
          isDirectory, stow_cons plain]
      · simp only [graft, copiedView, List.mem_append, List.mem_singleton, same, or_false, if_false]

private theorem copiedView_concat_file {content : ByteArray}
    (isFile : image [name] = some (.file content)) (fresh : name ∉ copied)
    (nothing : ∀ rest, rest ≠ [] → old (name :: rest) = none) (place : Location) :
    graft name (fun rest => if rest = [] then some (.file content)
        else copiedView threshold image old copied (name :: rest))
        (copiedView threshold image old copied) place =
      copiedView threshold image old (copied ++ [name]) place := by
  cases place with
  | nil => rfl
  | cons first rest =>
      by_cases same : first = name
      · subst same
        simp only [graft, copiedView, List.mem_append, List.mem_singleton, or_true, if_true, isFile,
          fresh, if_false]
        split
        · rfl
        · rename_i below
          exact nothing rest below
      · simp only [graft, copiedView, List.mem_append, List.mem_singleton, same, or_false, if_false]

private theorem Stowing.plainName (known : Stowing threshold target spot image old disk)
    (there : image [name] ≠ none) : mergedName? name = none :=
  known.plain [name] there name (List.mem_singleton.mpr rfl)

/-- Where the tree has no directory, nothing is held below. -/
private theorem Stowing.nothing_below (known : Stowing threshold target spot image old disk)
    (plain : mergedName? name = none) (noDirectory : image [name] ≠ some .directory)
    (rest : Location) (strict : rest ≠ []) : old (name :: rest) = none := by
  rcases known.allowed (name :: rest) with absent | same
  · exact absent
  · rw [same]
    exact stow_below known.tree plain noDirectory rest strict

private theorem Stowing.child (known : Stowing threshold target spot image old disk)
    (filled : disk.Plants (spot.target target disk) (copiedView threshold image old copied) state)
    (there : image [name] ≠ none) (fresh : name ∉ copied) :
    Stowing threshold target (spot.child name) (fun place => image (name :: place))
      (fun place => copiedView threshold image old copied (name :: place)) state := by
  have plainName := known.plainName there
  refine
    { known.toCopyAt.child filled rfl there with
      tree := fun place inner present => known.tree (name :: place) inner present
      plain := fun place present => (isPlain_cons.mp (known.plain (name :: place) present)).2
      allowed := fun place => ?_ }
  simp only [copiedView, fresh, if_false]
  rw [← stow_cons plainName]
  exact known.allowed (name :: place)

/-- Copying one more name extends the view by it. -/
private theorem Stowing.copyChild_ok {levels : Nat}
    (known : Stowing threshold target spot image old disk)
    (filled : disk.Plants (spot.target target disk) (copiedView threshold image old copied) state)
    (there : image [name] ≠ none) (fresh : name ∉ copied)
    (whole : ∀ {inner held before after},
      Stowing threshold target (spot.child name) inner held before →
      Visitor.walkWithin (copyVisitor target (.split threshold)) id levels (spot.child name) before =
        .ok () after →
      before.Plants ((spot.child name).target target before) (stow threshold inner) after ∧
        fitsParts threshold inner)
    (done : copyChild target (.split threshold) levels spot name state = .ok () next) :
    disk.Plants (spot.target target disk) (copiedView threshold image old (copied ++ [name])) next ∧
      (∀ content, image [name] = some (.file content) →
        disk.permits (target.joinNames (spot.names ++ [name]))) ∧
      (image [name] = some .directory → fitsParts threshold fun place => image (name :: place)) := by
  have plainName := known.plainName there
  rcases known.toCopyAt.copyChild_ok filled rfl there done with
    ⟨isDirectory, walked⟩ | ⟨content, isFile, permitted, planted⟩
  · obtain ⟨planted, fits⟩ := whole (known.child filled there fresh) walked
    have aim : (spot.child name).target target state = spot.target target disk ++ [name] := by
      unfold Spot.target Spot.child
      rw [filled.setting.leadsTo, List.append_assoc]
    rw [aim] at planted
    refine ⟨(filled.graft planted).congr (copiedView_concat_directory isDirectory plainName), ?_,
      fun _ => fits⟩
    intro content isFile
    rw [isDirectory] at isFile
    cases isFile
  · refine ⟨(filled.graft planted).congr (copiedView_concat_file isFile fresh ?_),
      fun _ _ => permitted, fun isDirectory => ?_⟩
    · exact known.nothing_below plainName (by rw [isFile]; simp)
    · rw [isFile] at isDirectory
      cases isDirectory

/-! ### Splitting the files -/

private theorem splitEntryAt?_small {place : Location} {entry : Option Entry}
    (small : ∀ content, entry = some (.file content) → content.size ≤ threshold.bytes) :
    splitEntryAt? threshold name place entry = none := by
  cases entry with
  | none => rfl
  | some found =>
      cases found with
      | directory => rfl
      | file content => rw [splitEntryAt?, if_pos (small content rfl)]

/-- Where no large file is waiting to be split, the directory holds what is kept of the tree. -/
private theorem Stowing.copiedView_settled (known : Stowing threshold target spot image old disk)
    (children : ∀ other, other ∈ copied ↔ image [other] ≠ none)
    (small : ∀ content, image [ownerName name] = some (.file content) →
      content.size ≤ threshold.bytes) (rest : Location) :
    copiedView threshold image old copied (name :: rest) = stow threshold image (name :: rest) := by
  have fromOld : image [name] = none → stow threshold image (name :: rest) = none →
      copiedView threshold image old copied (name :: rest) = stow threshold image (name :: rest) := by
    intro absent nothing
    have left : name ∉ copied := fun member => (children name).mp member absent
    simp only [copiedView, left, if_false]
    rcases known.allowed (name :: rest) with blank | same
    · rw [blank, nothing]
    · exact same
  cases stands : mergedName? name with
  | none =>
      rw [ownerName_of_plain stands] at small
      have alone : stow threshold image [name] = wholeEntryAt? threshold (image [name]) :=
        stow_name stands
      cases found : image [name] with
      | none =>
          apply fromOld found
          by_cases atEnd : rest = []
          · rw [atEnd, alone, found]
            rfl
          · exact stow_below known.tree stands (by rw [found]; simp) rest atEnd
      | some entry =>
          have member : name ∈ copied := (children name).mpr (by rw [found]; simp)
          simp only [copiedView, member, if_true, found]
          cases entry with
          | directory => rfl
          | file content =>
              dsimp only
              split
              · rename_i atEnd
                rw [atEnd, alone, found, wholeEntryAt?, if_pos (small content found)]
              · rename_i below
                exact (stow_below known.tree stands (by rw [found]; simp) rest below).symm
  | some base =>
      obtain ⟨rfl, nonempty⟩ := mergedName?_eq_some_iff.mp stands
      rw [ownerName_append nonempty] at small
      have absent : image [base ++ splitSuffix] = none := by
        by_contra there
        rw [known.plainName there] at stands
        cases stands
      apply fromOld absent
      rw [stow_box nonempty, splitEntryAt?_small small]

/-- A file seen while the directory is divided is one of the tree that is still waiting. -/
private theorem Stowing.file_of_dividedView (known : Stowing threshold target spot image old disk)
    (children : ∀ other, other ∈ copied ↔ image [other] ≠ none) {divided : List String}
    {content : ByteArray} (there : dividedView threshold image (copiedView threshold image old copied)
      divided [name] = some (.file content)) (fresh : name ∉ divided) :
    image [name] = some (.file content) := by
  cases stands : mergedName? name with
  | none =>
      simp only [dividedView, ownerName_of_plain stands, fresh, if_false] at there
      cases found : image [name] with
      | none =>
          rw [known.copiedView_settled children (by rw [ownerName_of_plain stands, found]; simp),
            stow_name stands, found] at there
          cases there
      | some entry =>
          cases entry with
          | directory =>
              rw [known.copiedView_settled children (by rw [ownerName_of_plain stands, found]; simp),
                stow_name stands, found] at there
              cases there
          | file own =>
              have member : name ∈ copied := (children name).mpr (by rw [found]; simp)
              simp only [copiedView, member, if_true, found] at there
              exact there
  | some base =>
      exfalso
      obtain ⟨rfl, nonempty⟩ := mergedName?_eq_some_iff.mp stands
      have noFile : stow threshold image [base ++ splitSuffix] ≠ some (.file content) := by
        rw [stow_box nonempty]
        unfold splitEntryAt?
        split
        · split
          · simp
          · simp [partEntryAt?]
        · simp
      have absent : image [base ++ splitSuffix] = none := by
        by_contra there
        rw [known.plainName there] at stands
        cases stands
      have left : base ++ splitSuffix ∉ copied := fun member => (children _).mp member absent
      simp only [dividedView, copiedView, left, if_false] at there
      split at there
      · exact noFile there
      · rcases known.allowed [base ++ splitSuffix] with blank | same
        · rw [blank] at there
          cases there
        · rw [same] at there
          exact noFile there

private theorem dividedView_concat {divided : List String} {view : Location → Option Entry}
    (settled : ∀ first rest, ownerName first = name →
      view (first :: rest) = stow threshold image (first :: rest)) (place : Location) :
    dividedView threshold image view divided place =
      dividedView threshold image view (divided ++ [name]) place := by
  cases place with
  | nil => rfl
  | cons first rest =>
      simp only [dividedView, List.mem_append, List.mem_singleton]
      by_cases before : ownerName first ∈ divided
      · simp only [before, true_or, if_true]
      · by_cases own : ownerName first = name
        · simp only [own, or_true, if_true]
          rw [settled first rest own, ite_self]
        · simp only [before, own, or_self, if_false]

/-- A directory of which one more file is split. -/
private theorem Stowing.divided_concat (known : Stowing threshold target spot image old disk)
    (children : ∀ other, other ∈ copied ↔ image [other] ≠ none) {divided : List String}
    {content : ByteArray} (file : image [name] = some (.file content))
    (large : threshold.bytes < content.size) (fresh : name ∉ divided)
    (filled : disk.Plants (spot.target target disk)
      (dividedView threshold image (copiedView threshold image old copied) divided) state)
    (effect : state.Becomes
      (splitView threshold state (spot.target target disk) name content) next) :
    disk.Plants (spot.target target disk)
      (dividedView threshold image (copiedView threshold image old copied) (divided ++ [name]))
      next := by
  have plain := @Stowing.plainName _ _ _ _ _ _ name known (by rw [file]; simp)
  have nonempty : name ≠ "" := by
    have there := known.source [name]
    rw [file] at there
    exact (isEntryName_iff.mp (isEntryName_of_entryAt? there)).1
  have member : name ∈ copied := (children name).mpr (by rw [file]; simp)
  have own := ownerName_of_plain plain
  refine filled.becomes effect (fun place => ?_) fun other apart => ?_
  · match place with
    | [] =>
        unfold splitView
        rw [List.append_nil, if_neg (by simp), if_neg (not_concat_prefix_self _ _), filled.atTop]
        rfl
    | first :: rest =>
        by_cases isName : first = name
        · subst isName
          simp only [dividedView, own, List.mem_append, List.mem_singleton, or_true, if_true]
          unfold splitView
          by_cases atEnd : rest = []
          · rw [atEnd, if_pos rfl, stow_name plain, file, wholeEntryAt?,
              if_neg (Nat.not_le.mpr large)]
          · rw [if_neg (by simpa using atEnd), if_neg, filled.inside,
              stow_below known.tree plain (by rw [file]; simp) rest atEnd]
            · simp only [dividedView, own, fresh, if_false, copiedView, member, if_true, file, atEnd]
            · exact splitDirectory_apart _ first rest
        · by_cases isBox : first = name ++ splitSuffix
          · subst isBox
            simp only [dividedView, ownerName_append nonempty, List.mem_append, List.mem_singleton,
              or_true, if_true]
            unfold splitView
            rw [stow_box nonempty, file, splitEntryAt?, if_neg (Nat.not_le.mpr large),
              if_neg (by simp [isName]), if_pos (concat_prefix_iff.mpr rfl), drop_concat]
          · have different : ownerName first ≠ name := by
              cases stands : mergedName? first with
              | none =>
                  rw [ownerName_of_plain stands]
                  exact isName
              | some base =>
                  obtain ⟨rfl, some⟩ := mergedName?_eq_some_iff.mp stands
                  rw [ownerName_append some]
                  rintro rfl
                  exact isBox rfl
            unfold splitView
            rw [if_neg (by simp [isName]), if_neg, filled.inside]
            · simp only [dividedView, List.mem_append, List.mem_singleton, different, or_false]
            · exact fun within => isBox (concat_prefix_iff.mp within).symm
  · have away := apart_from_children apart name (name ++ splitSuffix)
    unfold splitView
    rw [if_neg away.1, if_neg away.2]

/-- A file that has not been come to stands as it was copied. -/
private theorem Stowing.dividedView_file (known : Stowing threshold target spot image old disk)
    (children : ∀ other, other ∈ copied ↔ image [other] ≠ none) {divided : List String}
    {content : ByteArray} (fresh : name ∉ divided) (file : image [name] = some (.file content)) :
    dividedView threshold image (copiedView threshold image old copied) divided [name] =
      some (.file content) := by
  have plain := @Stowing.plainName _ _ _ _ _ _ name known (by rw [file]; simp)
  have member : name ∈ copied := (children name).mpr (by rw [file]; simp)
  simp only [dividedView, ownerName_of_plain plain, fresh, if_false, copiedView, member, if_true, file]

/-- It can be read there. -/
private theorem Stowing.isFile_child (known : Stowing threshold target spot image old disk)
    (children : ∀ other, other ∈ copied ↔ image [other] ≠ none) {divided : List String}
    {content : ByteArray} (valid : isEntryName name = true) (fresh : name ∉ divided)
    (filled : disk.Plants (spot.target target disk)
      (dividedView threshold image (copiedView threshold image old copied) divided) state)
    (permitted : disk.permits (target.joinNames (spot.names ++ [name])))
    (file : image [name] = some (.file content)) :
    state.isFile ((spot.below target).joinName name) = true := by
  have all := all_isEntryName_concat.mpr ⟨known.valid, valid⟩
  have there := filled.inside [name]
  rw [known.dividedView_file children fresh file] at there
  have top := filled.atTop
  unfold isFile Spot.below
  rw [Path.joinName_joinNames target all, Option.isSome_iff_exists]
  refine ⟨content, read?_eq_some_iff.mpr ⟨_, (locate?_joinNames_iff all).mpr
    ⟨(filled.setting.permits _).mpr permitted, ?_, ?_, rfl⟩, ?_⟩⟩
  · exact filled.setting.stands_of_outside (known.outside.append _) filled.outside top known.standing
  · rw [List.dropLast_concat, filled.setting.leadsTo]
    exact top
  · rw [filled.setting.leadsTo, ← List.append_assoc]
    exact there

/-- Going on to the next name divides the directory further. -/
private theorem Stowing.splitChild_ok (known : Stowing threshold target spot image old disk)
    (children : ∀ other, other ∈ copied ↔ image [other] ≠ none)
    (permitted : ∀ other content, image [other] = some (.file content) →
      disk.permits (target.joinNames (spot.names ++ [other])))
    {divided : List String} (valid : isEntryName name = true) (fresh : name ∉ divided)
    (filled : disk.Plants (spot.target target disk)
      (dividedView threshold image (copiedView threshold image old copied) divided) state)
    (done : (do
      let path := (spot.below target).joinName name
      if (← get).isFile path then discard (splitFile threshold path) : Action Unit) state =
        .ok () next) :
    disk.Plants (spot.target target disk)
        (dividedView threshold image (copiedView threshold image old copied) (divided ++ [name]))
        next ∧
      ∀ content, image [name] = some (.file content) → threshold.bytes < content.size →
        threshold.partCount content.size ≤ maxParts := by
  have aim : state.leadsTo (spot.below target) = spot.target target disk := by
    unfold Spot.below
    rw [leadsTo_joinNames known.valid, filled.setting.leadsTo]
  have settled : (∀ content, image [name] = some (.file content) → content.size ≤ threshold.bytes) →
      disk.Plants (spot.target target disk)
          (dividedView threshold image (copiedView threshold image old copied) (divided ++ [name]))
          state ∧
        ∀ content, image [name] = some (.file content) → threshold.bytes < content.size →
          threshold.partCount content.size ≤ maxParts := by
    intro small
    refine ⟨filled.congr (dividedView_concat fun first rest own => ?_), fun content file large => ?_⟩
    · rw [← own] at small
      exact known.copiedView_settled children small rest
    · exact absurd (small content file) (Nat.not_le.mpr large)
  simp only [bind_ok_iff, get_ok_iff] at done
  obtain ⟨_, _, ⟨rfl, rfl⟩, done⟩ := done
  split at done
  · rw [discard_ok_iff] at done
    obtain ⟨result, split⟩ := done
    have outside : state.keepsOut (spot.below target)
        (state.leadsTo (spot.below target) ++ [name ++ splitSuffix]) := by
      have start : state.keepsOut target (state.leadsTo target) := by
        rw [filled.setting.keepsOut, filled.setting.leadsTo]
        exact known.outside
      exact ((start.append _).joinNames known.valid).append _
    obtain ⟨entry, there, effect⟩ := splitFile_ok valid outside split
    rw [aim, filled.inside] at there
    rcases effect with ⟨small, -, rfl⟩ | ⟨content, rfl, large, fits, -, -, effect⟩
    · apply settled
      intro content file
      rw [known.dividedView_file children fresh file, Option.some.injEq] at there
      rw [← there] at small
      exact small
    · rw [aim] at effect
      have file := known.file_of_dividedView children there fresh
      refine ⟨known.divided_concat children file large fresh filled effect, fun other same _ => ?_⟩
      rw [file, Option.some.injEq, Entry.file.injEq] at same
      rw [← same]
      exact fits
  · rename_i noFile
    rw [pure_ok_iff] at done
    obtain ⟨-, rfl⟩ := done
    apply settled
    exact fun content file =>
      absurd (known.isFile_child children valid fresh filled (permitted name content file) file) noFile

private theorem Stowing.splitChildren_ok (known : Stowing threshold target spot image old disk)
    (isDirectory : image [] = some .directory)
    (children : ∀ other, other ∈ copied ↔ image [other] ≠ none)
    (permitted : ∀ other content, image [other] = some (.file content) →
      disk.permits (target.joinNames (spot.names ++ [other])))
    (filled : disk.Plants (spot.target target disk) (copiedView threshold image old copied) state)
    (done : splitChildren threshold (spot.below target) state = .ok () next) :
    disk.Plants (spot.target target disk) (stow threshold image) next ∧
      ∀ other content, image [other] = some (.file content) → threshold.bytes < content.size →
        threshold.partCount content.size ≤ maxParts := by
  unfold splitChildren at done
  simp only [bind_ok_iff, get_ok_iff] at done
  obtain ⟨_, _, ⟨rfl, rfl⟩, done⟩ := done
  cases listed : state.list? (spot.below target) with
  | none =>
      rw [listed] at done
      cases done
  | some names =>
      rw [listed] at done
      dsimp only at done
      obtain ⟨-, rfl⟩ := list?_eq_some_iff.mp listed
      have aim : state.leadsTo (spot.below target) = spot.target target disk := by
        unfold Spot.below
        rw [leadsTo_joinNames known.valid, filled.setting.leadsTo]
      rw [aim] at done
      have divided := forM_distinct_ok (nodup_childNames state (spot.target target disk))
        (fun divided current => disk.Plants (spot.target target disk)
          (dividedView threshold image (copiedView threshold image old copied) divided) current)
        (fun other => ∀ content, image [other] = some (.file content) →
          threshold.bytes < content.size → threshold.partCount content.size ≤ maxParts)
        (filled.congr fun place => by cases place <;> rfl)
        (fun before name current next _ member fresh kept moved => by
          obtain ⟨entry, there⟩ := mem_childNames.mp member
          exact known.splitChild_ok children permitted (isEntryName_of_entryAt? there) fresh kept moved)
        done
      have seen : ∀ other content, image [other] = some (.file content) →
          other ∈ state.childNames (spot.target target disk) := by
        intro other content file
        have member : other ∈ copied := (children _).mpr (by rw [file]; simp)
        refine mem_childNames.mpr ⟨.file content, ?_⟩
        rw [filled.inside]
        simp only [copiedView, member, if_true, file]
      refine ⟨divided.1.congr fun place => ?_, fun other content file =>
        divided.2 other (seen other content file) content file⟩
      match place with
      | [] =>
          have whole := @stow_plain threshold image [] isPlain_nil
          rw [whole, isDirectory]
          rfl
      | first :: rest =>
          rw [dividedView]
          split
          · rfl
          · rename_i absent
            exact known.copiedView_settled children
              (fun content file => absurd (seen _ content file) absent) rest

/-- A directory copied with its large files split holds what is kept of the tree, and no file has
too many parts. -/
theorem Stowing.copyWithin_ok {levels : Nat} (known : Stowing threshold target spot image old disk)
    (done : Visitor.walkWithin (copyVisitor target (.split threshold)) id levels spot disk =
      .ok () next) :
    disk.Plants (spot.target target disk) (stow threshold image) next ∧
      fitsParts threshold image := by
  induction levels generalizing spot image old disk next with
  | zero => cases done
  | succ below ih =>
      obtain ⟨_, made, names, copied, same, isDirectory, -, -, -, entered, distinct, children, moved,
        finished⟩ := known.toCopyAt.copyWithin_ok done
      cases same
      have filled := forM_distinct_ok distinct
        (fun copied current => disk.Plants (spot.target target disk)
          (copiedView threshold image old copied) current)
        (fun other => (∀ content, image [other] = some (.file content) →
            disk.permits (target.joinNames (spot.names ++ [other]))) ∧
          (image [other] = some .directory → fitsParts threshold fun place => image (other :: place)))
        (entered.congr fun place => by cases place <;> rfl)
        (fun before name current next _ member fresh kept moved =>
          known.copyChild_ok kept ((children name).mp member) fresh ih moved)
        moved
      obtain ⟨planted, files⟩ := known.splitChildren_ok isDirectory children
        (fun other content file =>
          (filled.2 other ((children other).mpr (by rw [file]; simp))).1 content file)
        filled.1 finished
      refine ⟨planted, fun place content file large => ?_⟩
      match place with
      | [] =>
          rw [isDirectory] at file
          cases file
      | [name] => exact files name content file large
      | name :: inner :: rest =>
          have above := known.tree.directory_of_cons (List.cons_ne_nil inner rest)
            (by rw [file]; simp)
          have member : name ∈ names := (children name).mpr (by rw [above]; simp)
          exact (filled.2 name member).2 above (inner :: rest) content file large

end Stowing

end CrossBuild.Artifacts
