/-
Changes that stay below a place.

An operation that is refused may have done a part of its work, so what it leaves alone has to be
said for both ends of a run. Here an operation on a disk changes nothing but what stands below a
place, if that is where its path leads.
-/

import CrossBuild.Proofs.Files.Effects

namespace CrossBuild.Files

open Runs

/-- Nothing has changed but what stands below a place. -/
structure Disk.ChangesBelow (before : Disk) (top : Location) (after : Disk) : Prop where
  setting : before.SameSetting after
  kept : ∀ other, ¬ (top <+: other ∧ other ≠ top) → after.entryAt? other = before.entryAt? other

/-- However the run ends, nothing has changed but what stands below a place. -/
def Confined {ε α : Type} (before : Disk) (top : Location) :
    EStateM.Result ε Disk α → Prop :=
  Ends (fun _ => before.ChangesBelow top) fun _ => before.ChangesBelow top

namespace Disk

variable {before middle after : Disk} {top : Location}

theorem ChangesBelow.refl (disk : Disk) (top : Location) : disk.ChangesBelow top disk :=
  ⟨.refl disk, fun _ _ => rfl⟩

theorem ChangesBelow.trans (first : before.ChangesBelow top middle)
    (second : middle.ChangesBelow top after) : before.ChangesBelow top after :=
  ⟨first.setting.trans second.setting, fun other apart =>
    (second.kept other apart).trans (first.kept other apart)⟩

/-- What stands below a place also stands below one above it. -/
theorem ChangesBelow.widen {inner : Location} (changed : before.ChangesBelow inner after)
    (within : top <+: inner) : before.ChangesBelow top after := by
  refine ⟨changed.setting, fun other apart => changed.kept other fun below => apart ?_⟩
  refine ⟨within.trans below.1, ?_⟩
  rintro rfl
  exact below.2 (within.eq_of_length_le below.1.length_le)

theorem ChangesBelow.atTop (changed : before.ChangesBelow top after) :
    after.entryAt? top = before.entryAt? top :=
  changed.kept top fun within => within.2 rfl

theorem ChangesBelow.outside (changed : before.ChangesBelow top after) {other : Location}
    (apart : ¬ top <+: other) : after.entryAt? other = before.entryAt? other :=
  changed.kept other fun within => apart within.1

/-- A path that passes nothing below the place is as open as it was. -/
theorem ChangesBelow.stands {path : Path} (changed : before.ChangesBelow top after)
    (outside : before.keepsOut path top) (standing : before.stands path) : after.stands path := by
  refine changed.setting.stands (fun place member => changed.kept place fun within => ?_) standing
  exact within.2 (outside place member within.1)

theorem changesBelow_place {location : Location} (entry : Entry) (within : top <+: location)
    (below : location ≠ top) : before.ChangesBelow top (before.place location entry) := by
  refine ⟨place_sameSetting before location entry, fun other apart => ?_⟩
  by_cases room : before.hasRoom location entry
  · rw [entryAt?_place room, if_neg]
    rintro rfl
    exact apart ⟨within, below⟩
  · unfold place
    rw [dif_neg room]

theorem changesBelow_erase {location : Location} (within : top <+: location)
    (below : location ≠ top) : before.ChangesBelow top (before.erase location) := by
  refine ⟨erase_sameSetting before location, fun other apart => ?_⟩
  have inside : location ≠ [] := by
    rintro rfl
    exact below (List.prefix_nil.mp within).symm
  rw [entryAt?_erase before inside, if_neg]
  intro further
  refine apart ⟨within.trans further, ?_⟩
  rintro rfl
  exact below (further.eq_of_length_le within.length_le)

theorem changesBelow_clear {location : Location} (within : top <+: location) :
    before.ChangesBelow top (before.clear location) := by
  refine ⟨clear_sameSetting before location, fun other apart => ?_⟩
  rw [entryAt?_clear, if_neg]
  rintro ⟨further, different⟩
  refine apart ⟨within.trans further, ?_⟩
  rintro rfl
  exact different (within.eq_of_length_le further.length_le)

end Disk

section Confined

open Disk

variable {ε : Type} {α β : Type} {start disk : Disk} {top : Location} {path : Path}

theorem Confined.bind {first : EStateM ε Disk α} {next : α → EStateM ε Disk β}
    (here : Confined start top (first disk))
    (further : ∀ value middle, start.ChangesBelow top middle → Confined start top (next value middle)) :
    Confined start top ((first >>= next) disk) :=
  ends_bind_iff.mpr (Ends.mono here further fun _ _ changed => changed)

theorem Confined.trans {result : EStateM.Result ε Disk α} (changed : start.ChangesBelow top disk)
    (confined : Confined disk top result) : Confined start top result :=
  Ends.mono confined (fun _ _ further => changed.trans further) fun _ _ further =>
    changed.trans further

theorem Confined.widen {result : EStateM.Result ε Disk α} {inner : Location}
    (confined : Confined disk inner result) (within : top <+: inner) : Confined disk top result :=
  Ends.mono confined (fun _ _ changed => changed.widen within) fun _ _ changed =>
    changed.widen within

theorem confined_pure {value : α} : Confined disk top ((pure value : EStateM ε Disk α) disk) :=
  .refl disk top

theorem confined_throw {cause : ε} :
    Confined disk top ((throw cause : EStateM ε Disk α) disk) := .refl disk top

theorem confined_refuse : Confined disk top ((refuse : Access α) disk) := .refl disk top

/-- An operation that looks at the disk first. -/
theorem confined_of_get {next : Disk → EStateM ε Disk α} (here : Confined start top (next disk disk)) :
    Confined start top ((get >>= next) disk) := here

theorem confined_forM {action : α → EStateM ε Disk PUnit} {items : List α}
    (step : ∀ item ∈ items, ∀ state, disk.ChangesBelow top state →
      Confined state top (action item state)) : Confined disk top (items.forM action disk) := by
  refine ends_forM (fun _ => disk.ChangesBelow top) (.refl disk top) ?_
  intro before item rest state whole changed
  refine Confined.trans changed (step item ?_ state changed)
  rw [whole]
  exact List.mem_append_right _ List.mem_cons_self

/-! ### The operations -/

theorem writeFile_confined {content : ByteArray} (inside : ∀ location,
    disk.locate? path = some location → disk.entryAt? location ≠ some .directory →
      top <+: location ∧ location ≠ top) : Confined disk top (writeFile path content disk) := by
  unfold writeFile
  apply confined_of_get
  cases found : disk.locate? path with
  | none => exact confined_refuse
  | some location =>
      dsimp only
      split
      · exact confined_refuse
      · rename_i other
        obtain ⟨within, below⟩ := inside location found fun there =>
          other (isDirectoryAt_iff.mpr there)
        exact changesBelow_place (.file content) within below

theorem removeFile_confined (inside : ∀ location,
    disk.locate? path = some location → top <+: location ∧ location ≠ top) :
    Confined disk top (removeFile path disk) := by
  unfold removeFile
  apply confined_of_get
  split
  · cases found : disk.locate? path with
    | none => exact confined_refuse
    | some location =>
        obtain ⟨within, below⟩ := inside location found
        exact changesBelow_erase within below
  · exact confined_refuse

theorem copyFile_confined {source : Path} (inside : ∀ location,
    disk.locate? path = some location → top <+: location ∧ location ≠ top) :
    Confined disk top (copyFile source path disk) := by
  unfold copyFile
  apply confined_of_get
  cases disk.read? source with
  | none => exact confined_refuse
  | some content => exact writeFile_confined fun location found _ => inside location found

theorem removeTree_confined (inside : ∀ location,
    disk.locate? path = some location → top <+: location ∧ location ≠ top) :
    Confined disk top (removeTree path disk) := by
  unfold removeTree
  apply confined_of_get
  cases found : disk.locate? path with
  | none => exact confined_refuse
  | some location =>
      obtain ⟨within, below⟩ := inside location found
      dsimp only
      split
      · exact confined_refuse
      · have cleared : Confined disk top ((set (disk.clear location) : Access PUnit) disk) :=
          changesBelow_clear within
        refine cleared.bind fun _ middle changed => ?_
        split
        · split
          · exact Confined.trans changed confined_refuse
          · exact changesBelow_erase within below
        · exact Confined.trans changed confined_pure

/-! ### Making directories -/

/-- However a run ends that makes directories, there are only more of them at places of a kind. -/
abbrev Growing (before : Disk) (kind : Location → Prop) :
    EStateM.Result Refused Disk Unit → Prop :=
  Ends (fun _ => before.Grows kind) fun _ => before.Grows kind

private theorem makeDirectory_growing (path : Path) (disk : Disk) :
    Growing disk (fun location => location = disk.leadsTo path) (makeDirectory path disk) := by
  cases made : makeDirectory path disk with
  | ok value after => exact (makeDirectory_ok made).2
  | error cause after =>
      have unchanged : Ends (fun _ _ => True) (fun _ after => after = disk) (makeDirectory path disk) := by
        unfold makeDirectory
        rw [ends_bind_iff, ends_get_iff]
        split
        · exact rfl
        · cases disk.locate? path.withoutSlash with
          | none => exact rfl
          | some location =>
              dsimp only
              cases disk.entryAt? location with
              | some entry => exact rfl
              | none => trivial
      rw [unchanged.error made]
      exact .refl disk _

private theorem ensureDirectory_growing (path : Path) (disk : Disk) :
    Growing disk (fun location => location = disk.leadsTo path) (ensureDirectory path disk) := by
  unfold ensureDirectory
  rw [Growing, ends_bind_iff, ends_get_iff]
  split
  · exact .refl disk _
  · exact makeDirectory_growing path disk

private theorem makeChain_growing (paths : List Path) (disk : Disk) :
    Growing disk (fun location => ∃ path ∈ paths, location = disk.leadsTo path)
      (makeChain paths disk) := by
  induction paths generalizing disk with
  | nil => exact .refl disk _
  | cons path above ih =>
      have own : ∀ location, location = disk.leadsTo path →
          ∃ other ∈ path :: above, location = disk.leadsTo other :=
        fun location same => ⟨path, List.mem_cons_self, same⟩
      have later : ∀ location, (∃ other ∈ above, location = disk.leadsTo other) →
          ∃ other ∈ path :: above, location = disk.leadsTo other := by
        rintro location ⟨other, member, same⟩
        exact ⟨other, List.mem_cons_of_mem _ member, same⟩
      unfold makeChain
      rw [Growing, ends_bind_iff, ends_get_iff]
      split
      · exact .refl disk _
      · split
        · exact .refl disk _
        · cases made : (makeDirectory path).run disk with
          | ok value result => exact (makeDirectory_ok made).2.mono own
          | error cause rest =>
              dsimp only
              rw [ends_bind_iff]
              refine (ih disk).mono (fun _ middle grown => ?_) fun _ _ grown => grown.mono later
              have whole : ∀ after, middle.Grows (fun location => location = middle.leadsTo path) after →
                  disk.Grows (fun location => ∃ other ∈ path :: above,
                    location = disk.leadsTo other) after := by
                intro after further
                refine (grown.mono later).trans (further.mono fun location same => own location ?_)
                rw [same, grown.setting.leadsTo]
              exact (ensureDirectory_growing path middle).mono (fun _ => whole) fun _ => whole

theorem makeDirectories_growing (path : Path) (disk : Disk) :
    Growing disk (fun location => location ∈ disk.way path) (makeDirectories path disk) := by
  have passed : ∀ after, disk.Grows (fun location => ∃ other ∈ path.ancestors,
      location = disk.leadsTo other) after → disk.Grows (fun location => location ∈ disk.way path) after := by
    intro after grown
    refine grown.mono ?_
    rintro location ⟨other, member, rfl⟩
    exact way_of_mem_ancestors member _ (destination_mem_trail _ _)
  exact (makeChain_growing path.ancestors disk).mono (fun _ => passed) fun _ => passed

theorem makeDirectories_confined (inside : ∀ place ∈ disk.way path,
    disk.entryAt? place ≠ none ∨ top <+: place ∧ place ≠ top) :
    Confined disk top (makeDirectories path disk) := by
  have confined : ∀ after, disk.Grows (fun location => location ∈ disk.way path) after →
      disk.ChangesBelow top after := by
    intro after grown
    refine ⟨grown.setting, fun location apart => ?_⟩
    rcases grown.entries location with same | ⟨absent, -, passed⟩
    · exact same
    · rcases inside _ passed with there | below
      · exact absurd absent there
      · exact absurd below apart
  exact (makeDirectories_growing path disk).mono (fun _ => confined) fun _ => confined

/-! ### Names behind a path -/

section JoinNames

variable {target : Path} {names : List String} (valid : names.all isEntryName = true)

include valid

/-- Names behind a path lead below where the path leads. -/
theorem locate?_joinNames_below (some : names ≠ []) {location : Location}
    (found : disk.locate? (target.joinNames names) = Option.some location) :
    disk.leadsTo target <+: location ∧ location ≠ disk.leadsTo target := by
  rw [leadsTo_of_locate? found, leadsTo_joinNames valid]
  exact ⟨List.prefix_append _ _, by simpa using some⟩

theorem makeDirectories_joinNames_confined (standing : disk.stands target) :
    Confined disk (disk.leadsTo target) (makeDirectories (target.joinNames names) disk) := by
  refine makeDirectories_confined fun place member => ?_
  rcases (mem_way_joinNames valid).mp member with onWay | ⟨front, -, rfl⟩
  · left
    rw [standing place onWay]
    simp
  · by_cases atTop : front = []
    · left
      rw [atTop, List.append_nil, entryAt?_leadsTo_of_stands standing]
      simp
    · exact .inr ⟨List.prefix_append _ _, by simpa using atTop⟩

end JoinNames

end Confined

end CrossBuild.Files
