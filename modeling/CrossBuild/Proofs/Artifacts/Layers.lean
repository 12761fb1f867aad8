/-
Backups laid over one another.

The backups of a folder go over a repository in the order of their names. Each of them either decides
what stands at a place afterwards, whatever stood there before, or leaves the place alone. So the last
one that decides about a place counts, and doing all of it again changes nothing.
-/

import CrossBuild.Proofs.Artifacts.Reach

namespace CrossBuild.Artifacts

open Files Files.Disk Runs

/-- The tree has something at the place, or a directory around the place is emptied for it. -/
def decides (image : Location → Option Entry) (place : Location) : Prop :=
  image place ≠ none ∨ ∃ directory, receives image directory ∧ directory <+: place

/-- The tree has a file at the place, or directly in a directory above the place. -/
def settles (image : Location → Option Entry) (place : Location) : Prop :=
  (∃ content, image place = some (.file content)) ∨
    ∃ directory name content, directory <+: place ∧ directory ≠ place ∧
      image (directory ++ [name]) = some (.file content)

section LaidOver

variable {image : Location → Option Entry} {top place : Location} {before after : Disk}

theorem LaidOver.decided (laid : LaidOver image top before after) (decided : decides image place) :
    after.entryAt? (top ++ place) = image place := by
  cases own : image place with
  | some entry => exact laid.own place entry own
  | none => exact laid.stale place own (decided.resolve_left fun there => there own)

theorem LaidOver.undecided (laid : LaidOver image top before after)
    (undecided : ¬ decides image place) :
    after.entryAt? (top ++ place) = before.entryAt? (top ++ place) := by
  unfold decides at undecided
  rw [not_or, Classical.not_not] at undecided
  exact laid.kept place undecided.1 fun directory receiving within =>
    undecided.2 ⟨directory, receiving, within⟩

/-- A tree that has something at a place without settling it has a directory there that holds no
file, nor does a directory above. -/
private theorem directory_of_not_settles (tree : isTree image) (decided : decides image place)
    (open_ : ¬ settles image place) : image place = some .directory ∧
      ∀ directory, receives image directory → directory <+: place → directory = place := by
  have only : ∀ directory, receives image directory → directory <+: place → directory = place := by
    rintro directory ⟨-, name, content, file⟩ within
    by_contra different
    exact open_ (.inr ⟨directory, name, content, within, different, file⟩)
  refine ⟨?_, only⟩
  have there : image place ≠ none := by
    rcases decided with there | ⟨directory, receiving, within⟩
    · exact there
    · have same := only directory receiving within
      obtain ⟨-, name, content, file⟩ := receiving
      rw [← same, tree directory name (by rw [file]; simp)]
      simp
  cases own : image place with
  | none => exact absurd own there
  | some entry =>
      cases entry with
      | directory => rfl
      | file content => exact absurd (.inl ⟨content, own⟩) open_

theorem LaidOver.settled (laid : LaidOver image top before after)
    (rootless : ∀ name content, image [name] ≠ some (.file content))
    (settled : settles image place) :
    contentOf? (after.entryAt? (top ++ place)) = contentOf? (image place) := by
  rw [laid.decided]
  rcases settled with ⟨content, file⟩ | ⟨directory, name, content, within, -, file⟩
  · left
    rw [file]
    simp
  · refine .inr ⟨directory, ⟨?_, name, content, file⟩, within⟩
    rintro rfl
    exact rootless name content file

/-- What a tree does not settle has the content it had: a directory may be new, but not in place of
a file. -/
theorem LaidOver.unsettled (laid : LaidOver image top before after) (tree : isTree image)
    (open_ : ¬ settles image place) :
    contentOf? (after.entryAt? (top ++ place)) = contentOf? (before.entryAt? (top ++ place)) := by
  by_cases decided : decides image place
  · obtain ⟨isDirectory, only⟩ := directory_of_not_settles tree decided open_
    rw [laid.decided decided, isDirectory]
    cases found : contentOf? (before.entryAt? (top ++ place)) with
    | none => rfl
    | some content =>
        exact absurd (contentOf?_eq_some_iff.mp found) (laid.noFile place isDirectory only content)
  · rw [laid.undecided decided]

end LaidOver

/-! ### One after the other -/

/-- Trees are laid over a place one after the other. -/
inductive Layered (top : Location) : List (Location → Option Entry) → Disk → Disk → Prop where
  | nothing (disk : Disk) : Layered top [] disk disk
  | layer {image : Location → Option Entry} {others : List (Location → Option Entry)}
      {before middle after : Disk} :
      LaidOver image top before middle → Layered top others middle after →
      Layered top (image :: others) before after

section Layered

variable {images earlier later : List (Location → Option Entry)} {image : Location → Option Entry}
  {top place : Location} {start middle after : Disk}

theorem Layered.setting (layered : Layered top images start after) : start.SameSetting after := by
  induction layered with
  | nothing disk => exact .refl disk
  | layer laid _ ih => exact laid.setting.trans ih

theorem Layered.outside (layered : Layered top images start after) {other : Location}
    (apart : ¬ top <+: other) : after.entryAt? other = start.entryAt? other := by
  induction layered with
  | nothing disk => rfl
  | layer laid _ ih => rw [ih, laid.outside other apart]

theorem Layered.undecided (layered : Layered top images start after)
    (undecided : ∀ image ∈ images, ¬ decides image place) :
    after.entryAt? (top ++ place) = start.entryAt? (top ++ place) := by
  induction layered with
  | nothing disk => rfl
  | layer laid _ ih =>
      rw [ih fun image member => undecided image (List.mem_cons_of_mem _ member),
        laid.undecided (undecided _ List.mem_cons_self)]

/-- When one of the trees decides about a place, what stands there in the end does not depend on
what stood there. -/
theorem Layered.decided (decided : ∃ image ∈ images, decides image place) :
    ∃ fate, ∀ start after, Layered top images start after →
      after.entryAt? (top ++ place) = fate := by
  induction images with
  | nil =>
      obtain ⟨image, absent, -⟩ := decided
      cases absent
  | cons first rest ih =>
      by_cases further : ∃ image ∈ rest, decides image place
      · obtain ⟨fate, always⟩ := ih further
        refine ⟨fate, fun start after layered => ?_⟩
        cases layered with
        | layer _ others => exact always _ after others
      · refine ⟨first place, fun start after layered => ?_⟩
        have own : decides first place := by
          obtain ⟨image, member, deciding⟩ := decided
          rcases List.mem_cons.mp member with rfl | later
          · exact deciding
          · exact absurd ⟨image, later, deciding⟩ further
        cases layered with
        | layer laid others =>
            rw [others.undecided fun image member deciding => further ⟨image, member, deciding⟩,
              laid.decided own]

/-- Laying the same trees over again changes nothing. -/
theorem Layered.again (first : Layered top images start middle)
    (second : Layered top images middle after) (location : Location) :
    after.entryAt? location = middle.entryAt? location := by
  by_cases within : top <+: location
  · obtain ⟨place, rfl⟩ := within
    by_cases decided : ∃ image ∈ images, decides image place
    · obtain ⟨fate, always⟩ := @Layered.decided images top place decided
      rw [always _ _ second, always _ _ first]
    · exact second.undecided fun image member deciding => decided ⟨image, member, deciding⟩
  · exact second.outside within

/-- The last tree that decides about a place says what stands there in the end. -/
theorem Layered.last (layered : Layered top (earlier ++ image :: later) start after)
    (own : decides image place) (others : ∀ other ∈ later, ¬ decides other place) :
    after.entryAt? (top ++ place) = image place := by
  induction earlier generalizing start with
  | nil =>
      cases layered with
      | layer laid rest => rw [rest.undecided others, laid.decided own]
  | cons first rest ih =>
      cases layered with
      | layer _ rest => exact ih rest

theorem Layered.unsettled (layered : Layered top images start after)
    (trees : ∀ image ∈ images, isTree image) (open_ : ∀ image ∈ images, ¬ settles image place) :
    contentOf? (after.entryAt? (top ++ place)) = contentOf? (start.entryAt? (top ++ place)) := by
  induction layered with
  | nothing disk => rfl
  | layer laid _ ih =>
      rw [ih (fun image member => trees image (List.mem_cons_of_mem _ member))
          fun image member => open_ image (List.mem_cons_of_mem _ member),
        laid.unsettled (trees _ List.mem_cons_self) (open_ _ List.mem_cons_self)]

/-- The last tree that settles a place says what file is there in the end. -/
theorem Layered.settled (layered : Layered top (earlier ++ image :: later) start after)
    (trees : ∀ other ∈ later, isTree other)
    (rootless : ∀ name content, image [name] ≠ some (.file content))
    (settled : settles image place) (open_ : ∀ other ∈ later, ¬ settles other place) :
    contentOf? (after.entryAt? (top ++ place)) = contentOf? (image place) := by
  induction earlier generalizing start with
  | nil =>
      cases layered with
      | layer laid others => rw [others.unsettled trees open_, laid.settled rootless settled]
  | cons first rest ih =>
      cases layered with
      | layer _ others => exact ih others

end Layered

/-! ### Laying all backups of a folder over a repository -/

/-- What stands in a backup. -/
def heldBy (root : Path) (name : String) (disk : Disk) : Location → Option Entry := fun place =>
  disk.entryAt? (disk.leadsTo root ++ [name] ++ place)

/-- What backing up makes of a tree: large files in parts, and no other names of directories of
parts. -/
def isBackup (held : Location → Option Entry) : Prop :=
  ∃ threshold image, Storable threshold image ∧ ∀ place, held place = stow threshold image place

/-- The backups in a folder, in the order of their names. -/
def backupNames (root : Path) (disk : Disk) : List String :=
  (disk.childNames (disk.leadsTo root)).filter fun name => disk.isDirectory (root.joinName name)

/-- The tree that a backup makes up, its large files put together. -/
def backupTree (root : Path) (disk : Disk) (name : String) : Location → Option Entry :=
  reassembled (heldBy root name disk)

/-- A backup is what is kept of the tree that it makes up. -/
theorem isBackup.storable {held : Location → Option Entry} (made : isBackup held)
    (top : held [] = some .directory) :
    ∃ threshold, Storable threshold (reassembled held) ∧
      ∀ place, held place = stow threshold (reassembled held) place := by
  obtain ⟨threshold, image, storable, kept⟩ := made
  have imageTop : image [] = some .directory := by
    rw [kept, stow_plain isPlain_nil] at top
    exact wholeEntryAt?_eq_directory top
  have same : reassembled held = image := by
    rw [funext kept]
    exact funext (reassembled_stow imageTop storable.named storable.free storable.fits)
  rw [same]
  exact ⟨threshold, storable, kept⟩

section Overlay

variable {target root : Path} {start disk after : Disk} {names : List String} {name : String}
  {applied : List Path}

theorem heldBy_top (valid : isEntryName name = true)
    (isComponent : disk.isDirectory (root.joinName name) = true) :
    heldBy root name disk [] = some .directory := by
  have own := entryAt?_leadsTo_of_stands (isDirectory_iff.mp isComponent).2
  rw [leadsTo_joinName _ _ valid] at own
  unfold heldBy
  rw [List.append_nil]
  exact own

/-- What has changed in the repository has not changed what stands in the backups. -/
theorem Apart.heldBy (apart : Apart target root start)
    (changed : start.ChangesBelow (start.leadsTo target) disk) (name : String) :
    heldBy root name disk = heldBy root name start := by
  funext place
  unfold Artifacts.heldBy
  rw [changed.setting.leadsTo, List.append_assoc]
  exact changed.outside (apart.folder _)

/-- Laying one backup over the repository. -/
theorem Apart.overlayComponent_ok (apart : Apart target root start)
    (isTarget : start.isDirectory target = true)
    (changed : start.ChangesBelow (start.leadsTo target) disk) (valid : isEntryName name = true)
    (made : isBackup (Artifacts.heldBy root name start))
    (isComponent : disk.isDirectory (root.joinName name) = true)
    (unmerged : neverMerged (root.joinName name) (target.joinNames []))
    (done : overlayComponent target (root.joinName name) disk = .ok () after) :
    LaidOver (backupTree root start name) (start.leadsTo target) disk after ∧
      start.ChangesBelow (start.leadsTo target) after ∧ after.stands root := by
  have setting := changed.setting
  have now := apart.kept setting
  have aim := leadsTo_joinName disk root valid
  have held := apart.heldBy changed name
  obtain ⟨permitted, standing⟩ := Disk.isDirectory_iff.mp isTarget
  have standing := changed.stands apart.targetOutside standing
  obtain ⟨threshold, storable, kept⟩ := made.storable (by
    rw [← held]
    exact heldBy_top valid isComponent)
  have all : [name].all isEntryName = true := by simpa using valid
  obtain ⟨laid, there⟩ := Artifacts.overlayComponent_ok
    (Disk.isDirectory_iff.mpr ⟨(setting.permits _).mpr permitted, standing⟩) isComponent
    now.targetOutside (by rw [aim]; exact now.folder _)
    (by rw [aim]; exact fun within => now.rootApart ((List.prefix_append _ _).trans within))
    (by
      intro place
      rw [aim, ← kept, ← held]
      rfl)
    storable unmerged done
  have further := (overlayComponent_confined standing now.targetOutside unmerged).ok done
  rw [setting.leadsTo] at laid further
  rw [Path.joinName_eq_joinNames, stands_joinNames all] at there
  exact ⟨laid, changed.trans further, there.1⟩

theorem overlayComponents_ok (apart : Apart target root start)
    (isTarget : start.isDirectory target = true) (isRoot : start.stands root)
    (valid : ∀ name ∈ names, isEntryName name = true)
    (made : ∀ name ∈ names, start.isDirectory (root.joinName name) = true →
      isBackup (heldBy root name start) ∧ neverMerged (root.joinName name) (target.joinNames []))
    (changed : start.ChangesBelow (start.leadsTo target) disk) (standing : disk.stands root)
    (done : overlayComponents target root names disk = .ok applied after) :
    applied = (names.filter fun name => start.isDirectory (root.joinName name)).map root.joinName ∧
      Layered (start.leadsTo target)
        ((names.filter fun name => start.isDirectory (root.joinName name)).map
          (backupTree root start)) disk after := by
  induction names generalizing disk applied with
  | nil =>
      unfold overlayComponents at done
      rw [pure_ok_iff] at done
      obtain ⟨rfl, rfl⟩ := done
      exact ⟨rfl, .nothing disk⟩
  | cons name rest ih =>
      have nameValid := valid name List.mem_cons_self
      have restValid := fun other inside => valid other (List.mem_cons_of_mem name inside)
      have restMade := fun other inside => made other (List.mem_cons_of_mem name inside)
      unfold overlayComponents at done
      simp only [bind_ok_iff, get_ok_iff] at done
      obtain ⟨_, _, ⟨rfl, rfl⟩, done⟩ := done
      split at done
      · rename_i isComponent
        have listed := ((apart.isDirectory_iff changed isRoot nameValid).mp isComponent).2
        simp only [bind_ok_iff, pure_ok_iff] at done
        obtain ⟨_, middle, laidOver, further, last, overlaid, rfl, rfl⟩ := done
        obtain ⟨backup, unmerged⟩ := made name List.mem_cons_self listed
        obtain ⟨laid, next, there⟩ := apart.overlayComponent_ok isTarget changed nameValid backup
          isComponent unmerged laidOver
        obtain ⟨rfl, layered⟩ := ih restValid restMade next there overlaid
        rw [List.filter_cons_of_pos (p := fun name => start.isDirectory (root.joinName name)) listed]
        exact ⟨rfl, .layer laid layered⟩
      · rename_i noComponent
        have skipped : ¬ start.isDirectory (root.joinName name) = true :=
          fun listed => noComponent
            ((apart.isDirectory_iff changed isRoot nameValid).mpr ⟨standing, listed⟩)
        rw [List.filter_cons_of_neg (p := fun name => start.isDirectory (root.joinName name)) skipped]
        exact ih restValid restMade changed standing done

theorem mem_backupNames : name ∈ backupNames root disk ↔
    name ∈ disk.childNames (disk.leadsTo root) ∧ disk.isDirectory (root.joinName name) = true :=
  List.mem_filter

theorem valid_of_mem_backupNames (member : name ∈ backupNames root disk) :
    isEntryName name = true := by
  obtain ⟨entry, there⟩ := mem_childNames.mp (mem_backupNames.mp member).1
  exact isEntryName_of_entryAt? there

theorem backupTree_storable (member : name ∈ backupNames root start)
    (made : isBackup (heldBy root name start)) :
    ∃ threshold, Storable threshold (backupTree root start name) := by
  have top := heldBy_top (valid_of_mem_backupNames member) (mem_backupNames.mp member).2
  obtain ⟨threshold, storable, -⟩ := made.storable top
  exact ⟨threshold, storable⟩

/-- Laying all backups over a repository lays the trees that they make up over it, in the order of
their names. -/
theorem overlay_layers (apart : Apart target root start)
    (made : ∀ name ∈ backupNames root start, isBackup (heldBy root name start))
    (unmerged : ∀ name ∈ backupNames root start, neverMerged (root.joinName name) target)
    (done : overlay target root start = .ok applied after) :
    applied = (backupNames root start).map root.joinName ∧
      Layered (start.leadsTo target) ((backupNames root start).map (backupTree root start)) start
        after := by
  obtain ⟨isTarget, isRoot, overlaid⟩ := overlay_steps done
  have standing := (isDirectory_iff.mp isRoot).2
  refine overlayComponents_ok apart isTarget standing (fun name member => ?_)
    (fun name member listed => ?_) (.refl start _) standing overlaid
  · obtain ⟨entry, there⟩ := mem_childNames.mp member
    exact isEntryName_of_entryAt? there
  · have own := mem_backupNames.mpr ⟨member, listed⟩
    exact ⟨made name own, neverMerged_joinNames_nil.mpr (unmerged name own)⟩

/-- What changes in the repository changes none of the backups, as long as their folder can still be
reached. -/
theorem Apart.backupNames_eq (apart : Apart target root start)
    (changed : start.ChangesBelow (start.leadsTo target) disk) (stood : start.stands root)
    (standing : disk.stands root) : backupNames root disk = backupNames root start := by
  have children : disk.childNames (disk.leadsTo root) = start.childNames (start.leadsTo root) := by
    rw [changed.setting.leadsTo]
    exact childNames_congr fun name => changed.outside (apart.folder [name])
  unfold backupNames
  rw [children]
  refine List.filter_congr fun name member => ?_
  obtain ⟨entry, there⟩ := mem_childNames.mp member
  rw [Bool.eq_iff_iff, apart.isDirectory_iff changed stood (isEntryName_of_entryAt? there)]
  exact ⟨fun both => both.2, fun listed => ⟨standing, listed⟩⟩

theorem Apart.backupTree_eq (apart : Apart target root start)
    (changed : start.ChangesBelow (start.leadsTo target) disk) (name : String) :
    backupTree root disk name = backupTree root start name := by
  unfold backupTree
  rw [apart.heldBy changed]

end Overlay

end CrossBuild.Artifacts
