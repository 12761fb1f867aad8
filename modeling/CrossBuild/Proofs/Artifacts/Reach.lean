/-
How far laying backups over a repository reaches.

Whether it ends well or fails on the way, and whatever the backups hold, nothing changes but what
stands below the repository. Only the repository itself must not be taken for a directory of parts,
and its path must not pass anything below it.
-/

import CrossBuild.Artifacts.Backup
import CrossBuild.Proofs.Artifacts.Overlays
import CrossBuild.Proofs.Artifacts.Walks
import CrossBuild.Proofs.Files.Confined

namespace CrossBuild.Artifacts

open Files Files.Disk Runs

section Steps

variable {α : Type} {disk : Disk} {top : Location} {path : Path} {operation : Operation}

theorem attempt_confined {access : Access α} (confined : Confined disk top (access disk)) :
    Confined disk top (attempt operation path access disk) :=
  ends_adaptExcept_iff.mpr confined

theorem removeExisting_confined (inside : ∀ location,
    disk.locate? path = some location → top <+: location ∧ location ≠ top) :
    Confined disk top (removeExisting path disk) := by
  unfold removeExisting
  apply confined_of_get
  split
  · exact attempt_confined (removeTree_confined inside)
  · exact confined_pure

theorem replaceFile_confined {source target : Path} {names : List String}
    (valid : names.all isEntryName = true) (some : names ≠ []) :
    Confined disk (disk.leadsTo target) (replaceFile source (target.joinNames names) disk) := by
  have inside : ∀ {state location}, disk.ChangesBelow (disk.leadsTo target) state →
      state.locate? (target.joinNames names) = Option.some location →
        disk.leadsTo target <+: location ∧ location ≠ disk.leadsTo target := by
    intro state location changed found
    rw [← changed.setting.leadsTo]
    exact locate?_joinNames_below valid some found
  have copied : ∀ state, disk.ChangesBelow (disk.leadsTo target) state →
      Confined disk (disk.leadsTo target)
        (attempt .copyFile (target.joinNames names) (copyFile source (target.joinNames names)) state) :=
    fun state changed => Confined.trans changed
      (attempt_confined (copyFile_confined fun _ found => inside changed found))
  unfold replaceFile
  apply confined_of_get
  split
  · refine Confined.bind (attempt_confined (removeFile_confined fun _ found =>
      inside (.refl disk _) found)) fun _ state changed => copied state changed
  · exact copied disk (.refl disk _)

/-- The file of a directory of parts stands in the directory of that one, or is no file at all. -/
theorem mergeDirectory_confined {directory : Path} {name : String}
    (valid : isEntryName name = true) :
    Confined disk (disk.leadsTo directory) (mergeDirectory (directory.joinName name) disk) := by
  unfold mergeDirectory
  apply confined_of_get
  split
  · exact confined_pure
  · cases stands : mergedPath? (directory.joinName name) with
    | none => exact confined_pure
    | some target =>
        have aimed : ∀ location, disk.locate? target = some location →
            disk.entryAt? location ≠ some .directory →
              disk.leadsTo directory <+: location ∧ location ≠ disk.leadsTo directory := by
          intro location found notDirectory
          unfold mergedPath? at stands
          rw [Path.fileName?_joinName directory valid, Option.bind_some] at stands
          obtain ⟨base, own, rfl⟩ := Option.map_eq_some_iff.mp stands
          obtain ⟨rfl, some⟩ := mergedName?_eq_some_iff.mp own
          rw [directory.withFileName_eq_tidied base valid] at found
          rcases isEntryName_of_append_splitSuffix some valid with fine | dots
          · have all : [base].all isEntryName = true := by simpa using fine
            rw [Path.joinName_eq_joinNames] at found
            rw [← (way_of_tidied disk directory).1]
            exact locate?_joinNames_below all (List.cons_ne_nil _ _) found
          · exact absurd (entryAt?_of_locate?_dots dots found) notDirectory
        dsimp only
        cases gapIn? (presentParts disk (directory.joinName name)) with
        | some gap => exact confined_throw
        | none =>
            refine Confined.bind (attempt_confined (writeFile_confined aimed)) fun _ written changed => ?_
            refine Confined.trans changed (Confined.bind (attempt_confined
              (removeTree_confined fun location found => ?_)) fun _ _ further =>
                Confined.trans further confined_pure)
            have all : [name].all isEntryName = true := by simpa using valid
            rw [Path.joinName_eq_joinNames] at found
            rw [← changed.setting.leadsTo]
            exact locate?_joinNames_below all (List.cons_ne_nil _ _) found

/-! ### Copying -/

section Copying

variable {source target : Path} {names : Location} {start : Disk}

private theorem finishDirectory_confined (valid : names.all isEntryName = true)
    (plain : neverMerged source (target.joinNames [])) :
    Confined disk (disk.leadsTo target)
      (finishDirectory .merge (Spot.path ⟨source, names⟩) (target.joinNames names) disk) := by
  cases names using List.reverseRecOn with
  | nil =>
      have unmerged : neverMerged (Spot.path ⟨source, []⟩) (target.joinNames []) := plain
      rw [unmerged.finishDirectory]
      exact confined_pure
  | append_singleton front name =>
      obtain ⟨frontValid, own⟩ := all_isEntryName_concat.mp valid
      unfold finishDirectory
      rw [← Path.joinName_joinNames target valid]
      apply confined_of_get
      split
      · refine ends_discard_iff.mpr ((mergeDirectory_confined own).widen ?_)
        rw [leadsTo_joinNames frontValid]
        exact List.prefix_append _ _
      · exact confined_pure

/-- Copying with merging changes nothing but what stands below the target. -/
theorem copyVisitor_confined (standing : start.stands target)
    (outside : start.keepsOut target (start.leadsTo target))
    (plain : neverMerged source (target.joinNames [])) :
    (copyVisitor target .merge).Keeps source (start.ChangesBelow (start.leadsTo target)) where
  before := by
    intro names state valid changed
    have confined := makeDirectories_joinNames_confined valid (changed.stands outside standing)
    rw [changed.setting.leadsTo] at confined
    exact Confined.bind (Confined.trans changed (attempt_confined confined)) fun _ _ further =>
      further
  file := by
    intro names state valid strict changed
    have confined := @replaceFile_confined state (Spot.path ⟨source, names⟩) target names valid strict
    rw [changed.setting.leadsTo] at confined
    exact Confined.trans changed confined
  after := by
    intro names state valid changed
    have confined := @finishDirectory_confined state source target names valid plain
    rw [changed.setting.leadsTo] at confined
    exact Confined.trans changed confined

end Copying

/-! ### Laying over -/

/-- A repository and a folder of backups lie apart, and the path of the repository passes nothing
below it. -/
structure Apart (target root : Path) (disk : Disk) : Prop where
  targetApart : ¬ disk.leadsTo target <+: disk.leadsTo root
  rootApart : ¬ disk.leadsTo root <+: disk.leadsTo target
  targetOutside : disk.keepsOut target (disk.leadsTo target)

section Overlay

variable {repository component backups : Path}

/-- The directories that receive files have names, and are not the root of the backup. -/
theorem valid_of_mem_receivingDirectories {place : List String}
    (member : place ∈ receivingDirectories disk component) :
    place.all isEntryName = true ∧ place ≠ [] := by
  unfold receivingDirectories at member
  cases found : disk.locate? component with
  | none =>
      rw [found] at member
      cases member
  | some top =>
      rw [found] at member
      dsimp only at member
      rw [mem_foldr_insertNames, List.mem_filterMap] at member
      obtain ⟨names, listed, goes⟩ := member
      obtain ⟨strict, content, file⟩ := mem_filesBelow.mp listed
      obtain ⟨inner, rest, rfl⟩ := receivingDirectory?_eq_some goes
      have all := namesValid_below (by rw [file]; simp)
      exact ⟨(all_isEntryName_append.mp all).1, inner⟩

theorem overlayComponent_confined (isRepository : disk.stands repository)
    (outside : disk.keepsOut repository (disk.leadsTo repository))
    (plain : neverMerged component (repository.joinNames [])) :
    Confined disk (disk.leadsTo repository) (overlayComponent repository component disk) := by
  unfold overlayComponent
  apply confined_of_get
  refine Confined.bind (confined_forM fun path member state changed => ?_)
    fun _ cleared changed => Confined.trans changed ?_
  · obtain ⟨place, listed, rfl⟩ := List.mem_map.mp member
    obtain ⟨valid, inner⟩ := valid_of_mem_receivingDirectories listed
    rw [← changed.setting.leadsTo]
    exact removeExisting_confined fun _ found => locate?_joinNames_below valid inner found
  · rw [← changed.setting.leadsTo]
    unfold copyTree walkTree
    apply confined_of_get
    refine (copyVisitor_confined (changed.stands outside isRepository) ?_ plain).walkWithin rfl (.refl _ _)
    rw [changed.setting.keepsOut, changed.setting.leadsTo]
    exact outside

theorem Apart.folder (apart : Apart repository backups disk) (rest : Location) :
    ¬ disk.leadsTo repository <+: disk.leadsTo backups ++ rest := by
  intro within
  rcases List.prefix_or_prefix_of_prefix within (List.prefix_append _ rest) with below | above
  · exact apart.targetApart below
  · exact apart.rootApart above

/-- Whatever has changed in the repository, no other directories are backups, as long as their folder
can still be reached. -/
theorem Apart.isDirectory_iff (apart : Apart repository backups disk) {state : Disk} {name : String}
    (changed : disk.ChangesBelow (disk.leadsTo repository) state) (stood : disk.stands backups)
    (valid : isEntryName name = true) :
    state.isDirectory (backups.joinName name) = true ↔
      state.stands backups ∧ disk.isDirectory (backups.joinName name) = true := by
  have all : [name].all isEntryName = true := by simpa using valid
  rw [Disk.isDirectory_iff, Disk.isDirectory_iff, changed.setting.permits, Path.joinName_eq_joinNames,
    stands_joinNames all, stands_joinNames all, changed.setting.leadsTo,
    changed.outside (apart.folder _)]
  tauto

theorem Apart.kept (apart : Apart repository backups disk) {state : Disk}
    (setting : disk.SameSetting state) : Apart repository backups state := by
  refine ⟨?_, ?_, ?_⟩
  · rw [setting.leadsTo, setting.leadsTo]
    exact apart.targetApart
  · rw [setting.leadsTo, setting.leadsTo]
    exact apart.rootApart
  · rw [setting.keepsOut, setting.leadsTo]
    exact apart.targetOutside

theorem overlayComponents_confined {start : Disk} {names : List String}
    (valid : ∀ name ∈ names, isEntryName name = true) (isRepository : start.stands repository)
    (isBackups : start.stands backups) (apart : Apart repository backups start)
    (plain : ∀ name ∈ names, start.isDirectory (backups.joinName name) = true →
      neverMerged (backups.joinName name) repository)
    (changed : start.ChangesBelow (start.leadsTo repository) disk) :
    Confined start (start.leadsTo repository) (overlayComponents repository backups names disk) := by
  induction names generalizing disk with
  | nil => exact Confined.trans changed confined_pure
  | cons name rest ih =>
      have others := fun other member => valid other (List.mem_cons_of_mem name member)
      have plainOthers := fun other member => plain other (List.mem_cons_of_mem name member)
      unfold overlayComponents
      apply confined_of_get
      split
      · rename_i isComponent
        have own := (apart.isDirectory_iff changed isBackups (valid name List.mem_cons_self)).mp
          isComponent
        have laid := overlayComponent_confined (changed.stands apart.targetOutside isRepository)
          (apart.kept changed.setting).targetOutside
          (neverMerged_joinNames_nil.mpr (plain name List.mem_cons_self own.2))
        rw [changed.setting.leadsTo] at laid
        refine Confined.bind (Confined.trans changed laid) fun _ state further => ?_
        exact Confined.bind (ih others plainOthers further) fun _ last after =>
          Confined.trans after confined_pure
      · exact ih others plainOthers changed

/-- Laying all backups of a folder over a repository leaves everything else alone, even if it fails
on the way. -/
theorem overlay_confined (apart : Apart repository backups disk)
    (plain : ∀ name ∈ disk.childNames (disk.leadsTo backups),
      disk.isDirectory (backups.joinName name) = true →
        neverMerged (backups.joinName name) repository) :
    Confined disk (disk.leadsTo repository) (overlay repository backups disk) := by
  unfold overlay
  apply confined_of_get
  cases isRepository : disk.isDirectory repository with
  | false => exact confined_throw
  | true =>
      cases isBackups : disk.isDirectory backups with
      | false => exact confined_throw
      | true =>
          cases listed : disk.list? backups with
          | none => exact confined_throw
          | some names =>
              obtain ⟨-, rfl⟩ := list?_eq_some_iff.mp listed
              refine overlayComponents_confined (fun name member => ?_)
                (isDirectory_iff.mp isRepository).2 (isDirectory_iff.mp isBackups).2 apart plain
                (.refl disk _)
              obtain ⟨entry, there⟩ := mem_childNames.mp member
              exact isEntryName_of_entryAt? there

end Overlay

end Steps

end CrossBuild.Artifacts
