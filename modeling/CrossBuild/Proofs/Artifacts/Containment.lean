/-
What backing up leaves alone.

However a backup ends, and wherever its folder lies, the disk changes in the folder only; outside
there are at most new directories on the way to it. Nothing comes into the folder but what was in
the repository, or in the folder before. All this takes projects with plain names. A name is any
text of a manifest, though, and at the end a version leads out of the folder and the repository.
-/

import CrossBuild.Proofs.Artifacts.ExactBackup
import CrossBuild.Proofs.Artifacts.Walks
import CrossBuild.Proofs.Files.Confined

namespace CrossBuild.Artifacts

open Files Files.Disk Runs

/-- A file of the repository or of the folder, or the script of a directory of parts, or a piece of
one of these. -/
def isDrawn (repository folder : Path) (disk : Disk) (content : ByteArray) : Prop :=
  ∃ whole,
    ((∃ place, (disk.leadsTo repository <+: place ∨ disk.leadsTo folder <+: place) ∧
      disk.entryAt? place = some (.file whole)) ∨ ∃ name, whole = (reassembleScript name).toUTF8) ∧
    ∃ first last, content = whole.extract first last

/-- Only the folder has changed, and the files that are new there come from the repository. -/
structure StaysWithin (repository folder : Path) (before after : Disk) : Prop where
  setting : before.SameSetting after
  elsewhere : ∀ other, ¬ before.leadsTo folder <+: other →
    after.entryAt? other = before.entryAt? other ∨
      before.entryAt? other = none ∧ after.entryAt? other = some .directory ∧
        other ∈ before.way folder
  contents : ∀ place content, after.entryAt? place = some (.file content) →
    before.entryAt? place = some (.file content) ∨ isDrawn repository folder before content

/-- However the run ends, only the folder has changed. -/
structure KeepsWithin {α : Type} (repository folder : Path) (before : Disk)
    (result : EStateM.Result Error Disk α) : Prop where
  ends : Ends (fun _ => StaysWithin repository folder before)
    (fun _ => StaysWithin repository folder before) result

/-- The path leads into the folder, and passes nothing but what lies there or on the way to it. -/
structure LeadsInto (folder : Path) (disk : Disk) (path : Path) : Prop where
  aim : disk.leadsTo folder <+: disk.leadsTo path
  passed : ∀ place ∈ disk.way path, place ∈ disk.way folder ∨ disk.leadsTo folder <+: place

section Paths

variable {folder path : Path} {disk : Disk} {name : String}

theorem LeadsInto.refl (folder : Path) (disk : Disk) : LeadsInto folder disk folder :=
  ⟨List.prefix_rfl, fun _ onWay => .inl onWay⟩

theorem LeadsInto.joinNames (into : LeadsInto folder disk path) {names : List String}
    (valid : names.all isEntryName = true) : LeadsInto folder disk (path.joinNames names) := by
  constructor
  · rw [leadsTo_joinNames valid]
    exact into.aim.trans (List.prefix_append _ _)
  · intro place member
    rcases (mem_way_joinNames valid).mp member with onWay | ⟨front, -, rfl⟩
    · exact into.passed place onWay
    · exact .inr (into.aim.trans (List.prefix_append _ _))

theorem LeadsInto.joinName (into : LeadsInto folder disk path) (valid : isEntryName name = true) :
    LeadsInto folder disk (path.joinName name) := by
  rw [Path.joinName_eq_joinNames]
  exact into.joinNames (by simpa using valid)

theorem LeadsInto.splitDirectory (into : LeadsInto folder disk path) (valid : isEntryName name = true) :
    LeadsInto folder disk (splitDirectory (path.joinName name)) := by
  obtain ⟨aim, passed⟩ := way_of_tidied disk path
  rw [splitDirectory_joinName path valid]
  have beside : LeadsInto folder disk path.tidied := by
    constructor
    · rw [aim]
      exact into.aim
    · exact fun place member => into.passed place ((passed place).mp member)
  exact beside.joinName (isEntryName_append_splitSuffix valid)

end Paths

section Contents

variable {repository folder : Path} {disk : Disk} {content : ByteArray}

theorem isDrawn.extract (drawn : isDrawn repository folder disk content) (first last : Nat) :
    isDrawn repository folder disk (content.extract first last) := by
  obtain ⟨whole, source, start, stop, rfl⟩ := drawn
  exact ⟨whole, source, _, _, ByteArray.extract_extract⟩

theorem isDrawn_script (name : String) :
    isDrawn repository folder disk (reassembleScript name).toUTF8 :=
  ⟨_, .inr ⟨name, rfl⟩, 0, _, ByteArray.extract_zero_size.symm⟩

theorem isDrawn_empty : isDrawn repository folder disk .empty := by
  refine ⟨_, .inr ⟨"", rfl⟩, 0, 0, ?_⟩
  rw [eq_comm, ByteArray.extract_eq_empty_iff]
  omega

theorem isDrawn.parts (drawn : isDrawn repository folder disk content) (threshold : Threshold) :
    ∀ part ∈ threshold.parts content, isDrawn repository folder disk part := by
  intro part member
  obtain ⟨index, -, rfl⟩ := List.mem_map.mp member
  exact drawn.extract _ _

end Contents

section Changes

variable {repository folder : Path} {start state after : Disk} {location : Location}
  (held : StaysWithin repository folder start state)

theorem StaysWithin.refl (disk : Disk) : StaysWithin repository folder disk disk :=
  ⟨.refl disk, fun _ _ => .inl rfl, fun _ _ file => .inl file⟩

include held

/-- What can be read in the repository or in the folder may be stored in the folder. -/
theorem StaysWithin.drawn {content : ByteArray}
    (source : start.leadsTo repository <+: location ∨ start.leadsTo folder <+: location)
    (file : state.entryAt? location = some (.file content)) :
    isDrawn repository folder start content := by
  rcases held.contents location content file with before | fresh
  · exact ⟨content, .inl ⟨location, source, before⟩, 0, _, ByteArray.extract_zero_size.symm⟩
  · exact fresh

/-- Places outside stay as they are, and others lose what they hold or get a drawn file. -/
theorem StaysWithin.change (setting : state.SameSetting after)
    (outside : ∀ other, ¬ start.leadsTo folder <+: other →
      after.entryAt? other = state.entryAt? other)
    (files : ∀ place content, after.entryAt? place = some (.file content) →
      state.entryAt? place = some (.file content) ∨ isDrawn repository folder start content) :
    StaysWithin repository folder start after := by
  constructor
  case setting => exact held.setting.trans setting
  case elsewhere =>
    intro other apart
    rw [outside other apart]
    exact held.elsewhere other apart
  case contents =>
    intro place content file
    rcases files place content file with before | fresh
    · exact held.contents place content before
    · exact .inr fresh

theorem StaysWithin.place {content : ByteArray} (inside : start.leadsTo folder <+: location)
    (drawn : isDrawn repository folder start content) :
    StaysWithin repository folder start (state.place location (.file content)) := by
  by_cases room : state.hasRoom location (.file content)
  · refine held.change (place_sameSetting state location _) (fun other apart => ?_)
      fun place other file => ?_
    · rw [entryAt?_place room, if_neg]
      rintro rfl
      exact apart inside
    · rw [entryAt?_place room] at file
      split at file
      · cases file
        exact .inr drawn
      · exact .inl file
  · unfold Disk.place
    rw [dif_neg room]
    exact held

theorem StaysWithin.erase (inside : start.leadsTo folder <+: location) (some : location ≠ []) :
    StaysWithin repository folder start (state.erase location) := by
  refine held.change (erase_sameSetting state location) (fun other apart => ?_)
    fun place content file => ?_
  · rw [entryAt?_erase state some, if_neg]
    exact fun within => apart (inside.trans within)
  · rw [entryAt?_erase state some] at file
    split at file
    · cases file
    · exact .inl file

theorem StaysWithin.clear (inside : start.leadsTo folder <+: location) :
    StaysWithin repository folder start (state.clear location) := by
  refine held.change (clear_sameSetting state location) (fun other apart => ?_)
    fun place content file => ?_
  · rw [entryAt?_clear, if_neg]
    exact fun within => apart (inside.trans within.1)
  · rw [entryAt?_clear] at file
    split at file
    · cases file
    · exact .inl file

theorem StaysWithin.grow {path : Path} (into : LeadsInto folder start path)
    (grown : state.Grows (fun place => place ∈ state.way path) after) :
    StaysWithin repository folder start after := by
  constructor
  case setting => exact held.setting.trans grown.setting
  case elsewhere =>
    intro other apart
    rcases grown.entries other with same | ⟨absent, made, passed⟩
    · rw [same]
      exact held.elsewhere other apart
    · rw [held.setting.way] at passed
      rcases into.passed other passed with onWay | inside
      · rcases held.elsewhere other apart with before | ⟨-, there, -⟩
        · rw [absent] at before
          exact .inr ⟨before.symm, made, onWay⟩
        · rw [absent] at there
          cases there
      · exact absurd inside apart
  case contents =>
    intro place content file
    rcases grown.entries place with same | ⟨-, made, -⟩
    · rw [same] at file
      exact held.contents place content file
    · rw [made] at file
      cases file

end Changes

section Steps

variable {α β : Type} {repository folder path source target directory : Path}
  {start state : Disk} {operation : Operation} {content : ByteArray} {name : String}

theorem KeepsWithin.bind {first : Action α} {next : α → Action β}
    (here : KeepsWithin repository folder start (first state))
    (further : ∀ value middle, StaysWithin repository folder start middle →
      KeepsWithin repository folder start (next value middle)) :
    KeepsWithin repository folder start ((first >>= next) state) :=
  ⟨ends_bind_iff.mpr (here.ends.mono (fun value middle held => (further value middle held).ends)
    fun _ _ held => held)⟩

theorem KeepsWithin.attempt {access : Access α}
    (ends : Ends (fun _ => StaysWithin repository folder start)
      (fun _ => StaysWithin repository folder start) (access state)) :
    KeepsWithin repository folder start (attempt operation path access state) :=
  ⟨ends_adaptExcept_iff.mpr ends⟩

theorem keepsWithin_of_get {next : Disk → Action α}
    (here : KeepsWithin repository folder start (next state state)) :
    KeepsWithin repository folder start ((get >>= next) state) := ⟨here.ends⟩

theorem keepsWithin_forM {action : α → Action PUnit} {items : List α}
    (held : StaysWithin repository folder start state)
    (step : ∀ item ∈ items, ∀ middle, StaysWithin repository folder start middle →
      KeepsWithin repository folder start (action item middle)) :
    KeepsWithin repository folder start (items.forM action state) := by
  refine ⟨ends_forM (fun _ => StaysWithin repository folder start) held ?_⟩
  intro before item rest middle whole kept
  refine (step item ?_ middle kept).ends
  rw [whole]
  exact List.mem_append_right _ List.mem_cons_self

section Operations

variable (held : StaysWithin repository folder start state)

include held

private theorem located_inside (into : LeadsInto folder start path) {location : Location}
    (found : state.locate? path = some location) : start.leadsTo folder <+: location := by
  rw [leadsTo_of_locate? found, held.setting.leadsTo]
  exact into.aim

private theorem writeFile_ends (into : LeadsInto folder start path)
    (drawn : isDrawn repository folder start content) :
    Ends (fun _ => StaysWithin repository folder start) (fun _ => StaysWithin repository folder start)
      (writeFile path content state) := by
  unfold writeFile
  rw [ends_bind_iff, ends_get_iff]
  cases found : state.locate? path with
  | none => exact held
  | some location =>
      dsimp only
      split
      · exact held
      · exact held.place (located_inside held into found) drawn

theorem writeFile_keepsWithin (into : LeadsInto folder start path)
    (drawn : isDrawn repository folder start content) :
    KeepsWithin repository folder start (attempt operation path (writeFile path content) state) :=
  KeepsWithin.attempt (writeFile_ends held into drawn)

theorem removeFile_keepsWithin (into : LeadsInto folder start path) :
    KeepsWithin repository folder start (attempt operation path (removeFile path) state) := by
  apply KeepsWithin.attempt
  unfold removeFile
  rw [ends_bind_iff, ends_get_iff]
  split
  · rename_i isFile
    cases found : state.locate? path with
    | none => exact held
    | some location =>
        apply held.erase (located_inside held into found)
        -- the root is a directory, and here stands a file
        rintro rfl
        obtain ⟨content, file⟩ := Option.isSome_iff_exists.mp isFile
        obtain ⟨place, same, there⟩ := read?_eq_some_iff.mp file
        rw [found] at same
        rw [← Option.some.inj same] at there
        cases there
  · exact held

theorem removeTree_keepsWithin (into : LeadsInto folder start path) :
    KeepsWithin repository folder start (attempt operation path (removeTree path) state) := by
  apply KeepsWithin.attempt
  unfold removeTree
  rw [ends_bind_iff, ends_get_iff]
  cases found : state.locate? path with
  | none => exact held
  | some location =>
      have inside := located_inside held into found
      dsimp only
      split
      · exact held
      · rw [ends_bind_iff, ends_set_iff]
        split
        · split
          · exact held.clear inside
          · rename_i inner
            apply held.erase inside
            rintro rfl
            exact inner (by simp)
        · exact held.clear inside

theorem makeDirectories_keepsWithin (into : LeadsInto folder start path) :
    KeepsWithin repository folder start (attempt .makeDirectories path (makeDirectories path) state) := by
  apply KeepsWithin.attempt
  exact (makeDirectories_growing path state).mono (fun _ _ grown => held.grow into grown)
    fun _ _ grown => held.grow into grown

theorem copyFile_keepsWithin (inside : start.leadsTo repository <+: start.leadsTo source)
    (into : LeadsInto folder start target) :
    KeepsWithin repository folder start (attempt operation path (copyFile source target) state) := by
  apply KeepsWithin.attempt
  unfold copyFile
  rw [ends_bind_iff, ends_get_iff]
  cases found : state.read? source with
  | none => exact held
  | some content =>
      apply writeFile_ends held into
      split
      · exact isDrawn_empty
      · obtain ⟨place, located, file⟩ := read?_eq_some_iff.mp found
        refine held.drawn (.inl ?_) file
        rw [leadsTo_of_locate? located, held.setting.leadsTo]
        exact inside

theorem removeExisting_keepsWithin (into : LeadsInto folder start path) :
    KeepsWithin repository folder start (removeExisting path state) := by
  unfold removeExisting
  apply keepsWithin_of_get
  split
  · exact removeTree_keepsWithin held into
  · exact ⟨held⟩

theorem replaceFile_keepsWithin (inside : start.leadsTo repository <+: start.leadsTo source)
    (into : LeadsInto folder start target) :
    KeepsWithin repository folder start (replaceFile source target state) := by
  unfold replaceFile
  apply keepsWithin_of_get
  split
  · exact KeepsWithin.bind (removeFile_keepsWithin held into) fun _ middle kept =>
      copyFile_keepsWithin kept inside into
  · exact copyFile_keepsWithin held inside into

/-! ### Splitting -/

theorem writeParts_keepsWithin (into : LeadsInto folder start directory) {parts : List ByteArray}
    {index : Nat} (drawn : ∀ part ∈ parts, isDrawn repository folder start part) :
    KeepsWithin repository folder start (writeParts directory index parts state) := by
  induction parts generalizing index state with
  | nil => exact ⟨held⟩
  | cons part rest ih =>
      unfold writeParts
      refine KeepsWithin.bind (writeFile_keepsWithin held (into.joinName (isEntryName_partName index))
        (drawn part List.mem_cons_self)) fun _ middle kept => ih kept fun other member => ?_
      exact drawn other (List.mem_cons_of_mem _ member)

theorem storeParts_keepsWithin {threshold : Threshold} (own : LeadsInto folder start path)
    (into : LeadsInto folder start directory) :
    KeepsWithin repository folder start (storeParts threshold path directory state) := by
  unfold storeParts
  apply keepsWithin_of_get
  cases found : state.find? path with
  | none => exact ⟨held⟩
  | some entry =>
      cases entry with
      | directory =>
          exact KeepsWithin.bind (writeFile_keepsWithin held (into.joinName (isEntryName_partName 0))
            isDrawn_empty) fun _ _ kept => ⟨kept⟩
      | file content =>
          obtain ⟨place, located, there⟩ := Option.bind_eq_some_iff.mp found
          have drawn := held.drawn (.inr (located_inside held own located)) there
          exact writeParts_keepsWithin held into (drawn.parts threshold)

theorem splitFile_keepsWithin {threshold : Threshold} (into : LeadsInto folder start directory)
    (valid : isEntryName name = true) :
    KeepsWithin repository folder start (splitFile threshold (directory.joinName name) state) := by
  have own := into.joinName valid
  have box := into.splitDirectory valid
  have script := box.joinName (by decide : isEntryName scriptName = true)
  unfold splitFile
  apply keepsWithin_of_get
  cases state.find? (directory.joinName name) with
  | none => exact ⟨held⟩
  | some entry =>
      dsimp only
      split
      · exact ⟨held⟩
      split
      · exact ⟨held⟩
      · refine KeepsWithin.bind (removeExisting_keepsWithin held box) fun _ _ kept => ?_
        refine KeepsWithin.bind (makeDirectories_keepsWithin kept box) fun _ _ kept => ?_
        refine KeepsWithin.bind (writeFile_keepsWithin kept script (isDrawn_script _)) fun _ _ kept => ?_
        refine KeepsWithin.bind (storeParts_keepsWithin kept own box) fun _ _ kept => ?_
        exact KeepsWithin.bind (removeFile_keepsWithin kept own) fun _ _ kept => ⟨kept⟩

theorem splitChildren_keepsWithin {threshold : Threshold} (into : LeadsInto folder start directory) :
    KeepsWithin repository folder start (splitChildren threshold directory state) := by
  unfold splitChildren
  apply keepsWithin_of_get
  cases listed : state.list? directory with
  | none => exact ⟨held⟩
  | some names =>
      obtain ⟨-, rfl⟩ := list?_eq_some_iff.mp listed
      refine keepsWithin_forM held fun name member middle kept => ?_
      obtain ⟨entry, there⟩ := mem_childNames.mp member
      apply keepsWithin_of_get
      split
      · exact ⟨ends_discard_iff.mpr
          (splitFile_keepsWithin kept into (isEntryName_of_entryAt? there)).ends⟩
      · exact ⟨kept⟩

end Operations

/-! ### Backing up -/

variable {threshold : Threshold} {largeFiles : LargeFiles}

/-- Nothing is merged outside, since nothing is merged. -/
theorem copyVisitor_keepsWithin (unmerged : largeFiles ≠ .merge)
    (inside : start.leadsTo repository <+: start.leadsTo source) (into : LeadsInto folder start target) :
    (copyVisitor target largeFiles).Keeps source (StaysWithin repository folder start) where
  before := by
    intro names state valid held
    exact ends_bind_iff.mpr (makeDirectories_keepsWithin held (into.joinNames valid)).ends
  file := by
    intro names state valid strict held
    refine (replaceFile_keepsWithin held ?_ (into.joinNames valid)).ends
    rw [Spot.path_of_names valid strict, leadsTo_joinNames valid]
    exact inside.trans (List.prefix_append _ _)
  after := by
    intro names state valid held
    cases largeFiles with
    | keep => exact held
    | split threshold => exact (splitChildren_keepsWithin held (into.joinNames valid)).ends
    | merge => exact absurd rfl unmerged

theorem copyTree_keepsWithin (unmerged : largeFiles ≠ .merge)
    (held : StaysWithin repository folder start state)
    (inside : start.leadsTo repository <+: start.leadsTo source)
    (into : LeadsInto folder start target) :
    KeepsWithin repository folder start (copyTree source target largeFiles state) := by
  unfold copyTree walkTree
  apply keepsWithin_of_get
  exact ⟨(copyVisitor_keepsWithin unmerged inside into).walkWithin rfl held⟩

theorem backupProject_keepsWithin {project : Coordinates}
    (held : StaysWithin repository folder start state)
    (named : project.names.all isEntryName = true) :
    KeepsWithin repository folder start (backupProject threshold repository folder project state) := by
  have into := (LeadsInto.refl folder start).joinNames named
  have inside : start.leadsTo repository <+: start.leadsTo (repository.joinNames project.names) := by
    rw [leadsTo_joinNames named]
    exact List.prefix_append _ _
  unfold backupProject
  rw [join_relativePath repository named, join_relativePath folder named]
  apply keepsWithin_of_get
  split
  · refine KeepsWithin.bind (makeDirectories_keepsWithin held into) fun _ _ kept => ?_
    exact KeepsWithin.bind (copyTree_keepsWithin (by simp) kept inside into) fun _ _ kept => ⟨kept⟩
  · exact ⟨held⟩

theorem backupProjects_keepsWithin {projects : List Coordinates}
    (held : StaysWithin repository folder start state)
    (named : ∀ project ∈ projects, project.names.all isEntryName = true) :
    KeepsWithin repository folder start
      (backupProjects threshold repository folder projects state) := by
  induction projects generalizing state with
  | nil => exact ⟨held⟩
  | cons project rest ih =>
      have others := fun other member => named other (List.mem_cons_of_mem project member)
      unfold backupProjects
      refine KeepsWithin.bind (backupProject_keepsWithin held (named project List.mem_cons_self))
        fun installed _ kept => KeepsWithin.bind (ih kept others) fun report _ kept => ?_
      cases installed with
      | true => exact ⟨kept⟩
      | false => exact ⟨kept⟩

end Steps

/-- A backup of projects with plain names changes the disk in its folder only, whether it ends well
or fails, and puts nothing there but what was in the repository or in the folder. -/
theorem backup_keepsWithin {threshold : Threshold} {manifest repository folder : Path} {disk : Disk}
    (named : PlainProjects manifest disk) :
    KeepsWithin repository folder disk (backup threshold manifest repository folder disk) := by
  have unchanged := @StaysWithin.refl repository folder disk
  unfold backup
  apply keepsWithin_of_get
  cases isFile : disk.isFile manifest with
  | false => exact ⟨unchanged⟩
  | true =>
      cases isDirectory : disk.isDirectory repository with
      | false => exact ⟨unchanged⟩
      | true =>
          cases collected : collectCoordinates disk manifest with
          | error cause => exact ⟨unchanged⟩
          | ok projects =>
              have into := LeadsInto.refl folder disk
              refine KeepsWithin.bind (removeExisting_keepsWithin unchanged into) fun _ _ kept => ?_
              refine KeepsWithin.bind (makeDirectories_keepsWithin kept into) fun _ _ kept => ?_
              exact backupProjects_keepsWithin kept (named projects collected)

/-- Even where its path goes through the folder itself, nothing else changes. -/
theorem backup_of_nested_keepsWithin : PlainProjects ⟨"p"⟩ nestedDisk ∧
    KeepsWithin ⟨"/m"⟩ ⟨"c/x/.."⟩ nestedDisk
      (backup .default ⟨"p"⟩ ⟨"/m"⟩ ⟨"c/x/.."⟩ nestedDisk) :=
  ⟨nested_plain, backup_keepsWithin nested_plain⟩

/-! ### A version that leads away -/

/-- A project with a path for a version, and a file beside the repository. -/
def strayEntries : List (Location × Entry) :=
  [(["p"], .file ("<p><groupId>a</groupId><artifactId>a</artifactId>".toUTF8 ++
      "<version>../../../s</version></p>".toUTF8)),
    (["m"], .directory), (["m", "a"], .directory), (["m", "a", "a"], .directory),
    (["s"], .directory), (["s", "a"], .file ⟨#[1]⟩)]

def strayDisk : Disk :=
  { entries := strayEntries
    workingDirectory := []
    limits := none
    keysDistinct := by decide +kernel
    parentsThere := by decide +kernel
    namesValid := by decide +kernel }

/-- The file is copied from beside the repository to beside the folder. -/
theorem backup_strays : ∃ report next,
    backup .default ⟨"p"⟩ ⟨"m"⟩ ⟨"k/b"⟩ strayDisk = .ok report next ∧
      strayDisk.entryAt? ["k", "s", "a"] = none ∧
      next.entryAt? ["k", "s", "a"] = strayDisk.entryAt? ["s", "a"] ∧
      ¬ StaysWithin ⟨"m"⟩ ⟨"k/b"⟩ strayDisk next := by
  have checked : endsWell (backup .default ⟨"p"⟩ ⟨"m"⟩ ⟨"k/b"⟩ strayDisk) (fun _ next => decide
      (strayDisk.leadsTo ⟨"k/b"⟩ = ["k", "b"] ∧
        next.entryAt? ["k", "s", "a"] = some (.file ⟨#[1]⟩))) = true := by
    decide +kernel
  obtain ⟨report, next, done, checked⟩ := exists_of_endsWell checked
  obtain ⟨aim, there⟩ := of_decide_eq_true checked
  have absent : strayDisk.entryAt? ["k", "s", "a"] = none := by decide +kernel
  refine ⟨report, next, done, absent, ?_, fun held => ?_⟩
  · rw [there]
    decide +kernel
  · rcases held.elsewhere ["k", "s", "a"] (by rw [aim]; decide) with same | ⟨-, made, -⟩
    · rw [there, absent] at same
      cases same
    · rw [there] at made
      cases made

end CrossBuild.Artifacts
