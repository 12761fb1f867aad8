/-
What a backup holds.

A backup that ends well holds the installed directories of the projects it reports as copied, with
large files in parts, and nothing else: what the folder held before is gone. Projects may be listed
twice, and the directory of one may lie below that of another. Outside the folder only directories
on the way to it appear.
-/

import CrossBuild.Artifacts.Backup
import CrossBuild.Proofs.Artifacts.Stowing

namespace CrossBuild.Artifacts

open Files Files.Disk Runs

/-! ### Where projects are installed -/

/-- The names that lead to what a project has installed. -/
def Coordinates.names (coordinates : Coordinates) : List String :=
  Text.split '.' coordinates.group ++ Text.split '.' coordinates.artifact ++ [coordinates.version]

theorem Coordinates.names_ne_nil (coordinates : Coordinates) : coordinates.names ≠ [] := by
  unfold names
  simp

theorem join_relativePath {coordinates : Coordinates} (path : Path)
    (valid : coordinates.names.all isEntryName = true) :
    path.join coordinates.relativePath = path.joinNames coordinates.names := by
  have whole : coordinates.relativePath = Path.joinNames ⟨""⟩ coordinates.names :=
    Path.foldl_joinName ⟨""⟩ valid coordinates.names_ne_nil
  rw [whole, Path.joinNames_empty valid]
  rfl

/-- What of a repository belongs to some directories: themselves, what they hold and what leads to
them. -/
def reachOf (image : Location → Option Entry) (tops : List Location) (place : Location) :
    Option Entry :=
  if place = [] ∨ ∃ top ∈ tops, place <+: top ∨ top <+: place then image place else none

section ReachOf

variable {image : Location → Option Entry} {tops : List Location} {top place : Location}

theorem reachOf_within (place : Location) :
    reachOf image tops place = none ∨ reachOf image tops place = image place := by
  unfold reachOf
  split
  · exact .inr rfl
  · exact .inl rfl

theorem reachOf_append (member : top ∈ tops) (rest : Location) :
    reachOf image tops (top ++ rest) = image (top ++ rest) := by
  unfold reachOf
  rw [if_pos (.inr ⟨top, member, .inr (List.prefix_append top rest)⟩)]

theorem reachOf_concat_above (above : place <+: top) :
    reachOf image (tops ++ [top]) place = image place := by
  unfold reachOf
  rw [if_pos (.inr ⟨top, List.mem_append_right _ (List.mem_singleton.mpr rfl), .inl above⟩)]

theorem reachOf_concat_apart (notAbove : ¬ place <+: top) (notBelow : ¬ top <+: place) :
    reachOf image (tops ++ [top]) place = reachOf image tops place := by
  unfold reachOf
  simp only [List.mem_append, List.mem_singleton, or_and_right, exists_or, exists_eq_left,
    notAbove, notBelow, or_false]

/-- What leads to a directory of a tree is a directory. -/
theorem isTree.directory_above (tree : isTree image) (isDirectory : image top = some .directory)
    (above : place <+: top) : image place = some .directory := by
  obtain ⟨rest, rfl⟩ := above
  induction rest using List.reverseRecOn with
  | nil =>
      rw [List.append_nil] at isDirectory
      exact isDirectory
  | append_singleton front last ih =>
      rw [← List.append_assoc] at isDirectory
      exact ih (tree (place ++ front) last (by rw [isDirectory]; simp))

theorem isTree.reachOf (tree : isTree image) : isTree (reachOf image tops) := by
  intro place name there
  have within : place = [] ∨ ∃ top ∈ tops, place <+: top ∨ top <+: place := by
    unfold Artifacts.reachOf at there
    split at there
    · rename_i reached
      rcases reached with atTop | ⟨top, member, above | below⟩
      · simp at atTop
      · exact .inr ⟨top, member, .inl ((List.prefix_append _ _).trans above)⟩
      · rcases List.prefix_concat_iff.mp below with whole | inside
        · exact .inr ⟨top, member, .inl (whole ▸ List.prefix_append _ _)⟩
        · exact .inr ⟨top, member, .inr inside⟩
    · exact absurd rfl there
  rcases @reachOf_within image tops (place ++ [name]) with absent | same
  · exact absurd absent there
  · rw [same] at there
    unfold Artifacts.reachOf
    rw [if_pos within]
    exact tree place name there

theorem unsuffixed_reachOf (there : ∀ top ∈ tops, image top ≠ none)
    (free : ∀ top ∈ tops, ∀ place, image (top ++ place) ≠ none →
      ∀ name ∈ top ++ place, Text.endsWith splitSuffix name = false) :
    unsuffixed (reachOf image tops) := by
  intro place present name member
  rcases @reachOf_within image tops place with absent | same
  · exact absurd absent present
  · have reached : place = [] ∨ ∃ top ∈ tops, place <+: top ∨ top <+: place := by
      unfold reachOf at present
      split at present
      · assumption
      · exact absurd rfl present
    rw [same] at present
    rcases reached with atTop | ⟨top, listed, above | ⟨rest, rfl⟩⟩
    · rw [atTop] at member
      cases member
    · have own := free top listed []
      rw [List.append_nil] at own
      exact own (there top listed) name (above.subset member)
    · exact free top listed rest present name member

/-- The files that belong to some directories stand below them. -/
theorem reachOf_file {content : ByteArray} (tree : isTree image) (top : image [] = some .directory)
    (directories : ∀ top ∈ tops, image top = some .directory)
    (file : reachOf image tops place = some (.file content)) :
    image place = some (.file content) ∧ ∃ top ∈ tops, ∃ rest, rest ≠ [] ∧ place = top ++ rest := by
  unfold reachOf at file
  split at file
  · rename_i reached
    refine ⟨file, ?_⟩
    rcases reached with atTop | ⟨top, member, above | below⟩
    · rw [atTop, top] at file
      cases file
    · rw [tree.directory_above (directories top member) above] at file
      cases file
    · obtain ⟨rest, rfl⟩ := below
      refine ⟨top, member, rest, ?_, rfl⟩
      rintro rfl
      rw [List.append_nil, directories top member] at file
      cases file
  · cases file

end ReachOf

theorem apart_append {left right : Location} (apart : ¬ left <+: right) (other : ¬ right <+: left)
    (names : List String) : ¬ left ++ names <+: right ++ names := by
  intro within
  rcases List.prefix_or_prefix_of_prefix ((List.prefix_append left names).trans within)
    (List.prefix_append right names) with below | above
  · exact apart below
  · exact other above

/-! ### Backing up one project -/

/-- What has to be known of a backup folder while projects are backed up: what the repository holds,
and that neither holds the other. -/
structure Filling (repository folder : Path) (image : Location → Option Entry) (disk : Disk) :
    Prop where
  standing : disk.stands folder
  outside : disk.keepsOut folder (disk.leadsTo folder)
  folderApart : ¬ disk.leadsTo folder <+: disk.leadsTo repository
  sourceApart : ¬ disk.leadsTo repository <+: disk.leadsTo folder
  source : ∀ place, disk.entryAt? (disk.leadsTo repository ++ place) = image place
  top : image [] = some .directory

section BackupProject

variable {threshold : Threshold} {repository folder : Path} {image : Location → Option Entry}
  {tops : List Location} {coordinates : Coordinates} {disk state next : Disk}

theorem Filling.tree (known : Filling repository folder image disk) : isTree image := by
  have tree := isTree_below_top disk (disk.leadsTo repository)
  intro place name there
  have parent := tree place name (by simpa only [known.source] using there)
  simpa only [known.source] using parent

/-- While a folder is filled, the repository stays as it is. -/
theorem Filling.kept {view : Location → Option Entry} (known : Filling repository folder image disk)
    (filled : disk.Plants (disk.leadsTo folder) view state) (open_ : view [] = some .directory) :
    Filling repository folder image state := by
  have there := filled.atTop
  rw [open_] at there
  refine ⟨filled.setting.stands_of_outside known.outside filled.outside there known.standing,
    ?_, ?_, ?_, fun place => ?_, known.top⟩
  · rw [filled.setting.keepsOut, filled.setting.leadsTo]
    exact known.outside
  · rw [filled.setting.leadsTo, filled.setting.leadsTo]
    exact known.folderApart
  · rw [filled.setting.leadsTo, filled.setting.leadsTo]
    exact known.sourceApart
  · rw [filled.setting.leadsTo, filled.outside, known.source]
    intro within
    rcases List.prefix_or_prefix_of_prefix within (List.prefix_append _ place) with below | above
    · exact known.folderApart below
    · exact known.sourceApart above

/-- Whether a place belongs to the directory of one more project decides what is kept of it. -/
private theorem stow_reachOf_concat {top : Location} (tree : isTree image) (plain : isPlain top)
    (isDirectory : image top = some .directory) (place : Location) :
    stow threshold (reachOf image (tops ++ [top])) place =
      if top <+: place then
        stow threshold (fun rest => image (top ++ rest)) (place.drop top.length)
      else if place <+: top then some .directory
      else stow threshold (reachOf image tops) place := by
  split
  · rename_i below
    obtain ⟨rest, rfl⟩ := below
    have member : top ∈ tops ++ [top] := List.mem_append_right _ (List.mem_singleton.mpr rfl)
    have same : (fun rest => reachOf image (tops ++ [top]) (top ++ rest)) =
        fun rest => image (top ++ rest) := funext (reachOf_append member)
    rw [stow_append plain, same, List.drop_left]
  · rename_i notBelow
    split
    · rename_i above
      have plainPlace : isPlain place := fun name member => plain name (above.subset member)
      rw [stow_plain plainPlace, reachOf_concat_above above, tree.directory_above isDirectory above]
      rfl
    · rename_i notAbove
      apply stow_congr
      · intro _
        exact reachOf_concat_apart notAbove notBelow
      · rintro front base rest rfl -
        by_cases onWay : front ++ [base] <+: top
        · have directory := tree.directory_above isDirectory onWay
          rw [reachOf_concat_above onWay, directory]
          rcases @reachOf_within image tops (front ++ [base]) with absent | same
          · rw [absent]
            rfl
          · rw [same, directory]
        · by_cases inside : top <+: front ++ [base]
          · exfalso
            rcases List.prefix_concat_iff.mp inside with whole | within
            · exact onWay (whole ▸ List.prefix_rfl)
            · exact notBelow (within.trans (List.prefix_append _ _))
          · rw [reachOf_concat_apart onWay inside]

private theorem stow_reachOf_top (known : Filling repository folder image disk) :
    stow threshold (reachOf image tops) [] = some .directory := by
  rw [stow_plain isPlain_nil, reachOf, if_pos (.inl rfl), known.top]
  rfl

private theorem fitsParts_reachOf_concat {top : Location} (tree : isTree image)
    (isDirectory : image top = some .directory) (fits : fitsParts threshold (reachOf image tops))
    (own : fitsParts threshold fun rest => image (top ++ rest)) :
    fitsParts threshold (reachOf image (tops ++ [top])) := by
  intro place content file large
  by_cases below : top <+: place
  · obtain ⟨rest, rfl⟩ := below
    rw [reachOf_append (List.mem_append_right _ (List.mem_singleton.mpr rfl))] at file
    exact own rest content file large
  · by_cases above : place <+: top
    · rw [reachOf_concat_above above, tree.directory_above isDirectory above] at file
      cases file
    · rw [reachOf_concat_apart above below] at file
      exact fits place content file large

/-- Directories on the way to a place in the folder are made. -/
private theorem Filling.makeDirectories_ok {names : Location} {view : Location → Option Entry}
    (known : Filling repository folder image disk)
    (filled : disk.Plants (disk.leadsTo folder) view state) (open_ : view [] = some .directory)
    (valid : names.all isEntryName = true) (inner : names ≠ [])
    (prepared : makeDirectories (folder.joinNames names) state = .ok () next) :
    disk.Plants (disk.leadsTo folder)
      (fun place => if place <+: names then some .directory else view place) next := by
  have standing := (known.kept filled open_).standing
  obtain ⟨-, -, effect⟩ := makeDirectories_joinNames_ok valid (.inr inner) standing prepared
  rw [filled.setting.leadsTo] at effect
  refine filled.becomes effect (fun place => ?_) fun other apart => ?_
  · rw [← filled.inside]
    simp only [List.prefix_append, true_and, List.prefix_append_right_inj]
  · rw [if_neg]
    exact fun between => apart between.1

/-- A directory in the folder is ready for a copy of the same directory of the repository. -/
private theorem Filling.stowing {names : Location} (known : Filling repository folder image disk)
    (valid : names.all isEntryName = true) (inner : names ≠ [])
    (there : disk.entryAt? (disk.leadsTo folder ++ names) = some .directory)
    (plain : ∀ place, image (names ++ place) ≠ none → isPlain place)
    (allowed : ∀ place, disk.entryAt? (disk.leadsTo folder ++ names ++ place) = none ∨
      disk.entryAt? (disk.leadsTo folder ++ names ++ place) =
        stow threshold (fun rest => image (names ++ rest)) place) :
    Stowing threshold (folder.joinNames names) ⟨repository.joinNames names, []⟩
      (fun place => image (names ++ place))
      (fun place => disk.entryAt? (disk.leadsTo folder ++ names ++ place)) disk := by
  have standing := (stands_joinNames valid).mpr ⟨known.standing, there⟩
  have sourceAim : Spot.source ⟨repository.joinNames names, []⟩ disk =
      disk.leadsTo repository ++ names := by
    unfold Spot.source
    rw [leadsTo_joinNames valid, List.append_nil]
  have targetAim : Spot.target ⟨repository.joinNames names, []⟩ (folder.joinNames names) disk =
      disk.leadsTo folder ++ names := by
    unfold Spot.target
    rw [leadsTo_joinNames valid, List.append_nil]
  refine
    { valid := rfl
      spelled := Path.joinNames_text_ne_empty valid (.inr inner)
      standing := standing
      outside := (known.outside.append _).joinNames valid
      sourceApart := ?_
      targetApart := ?_
      parent := ?_
      source := fun place => ?_
      held := fun place => ?_
      tree := fun place name child => ?_
      plain := plain
      allowed := allowed }
  · rw [sourceAim, targetAim]
    exact apart_append known.sourceApart known.folderApart _
  · rw [sourceAim, targetAim]
    exact apart_append known.folderApart known.sourceApart _
  · rw [List.dropLast_nil, List.append_nil]
    exact entryAt?_leadsTo_of_stands standing
  · rw [sourceAim, List.append_assoc, known.source]
  · rw [targetAim]
  · exact known.tree (names ++ place) name (by rw [List.append_assoc]; exact child)

/-- Where only the directories on the way to a project were made, its directory is ready. -/
private theorem Filling.stowingProject (known : Filling repository folder image disk)
    (ready : disk.Plants (disk.leadsTo folder)
      (fun place => if place <+: coordinates.names then some .directory
        else stow threshold (reachOf image tops) place) next)
    (valid : coordinates.names.all isEntryName = true)
    (top : image coordinates.names = some .directory)
    (plain : ∀ place, image (coordinates.names ++ place) ≠ none → isPlain (coordinates.names ++ place)) :
    Stowing threshold (folder.joinNames coordinates.names) ⟨repository.joinNames coordinates.names, []⟩
      (fun place => image (coordinates.names ++ place))
      (fun place => next.entryAt? (next.leadsTo folder ++ coordinates.names ++ place)) next := by
  have plainTop : isPlain coordinates.names := by
    have whole := plain []
    rw [List.append_nil] at whole
    exact whole (by rw [top]; simp)
  have aim := ready.setting.leadsTo folder
  refine (known.kept ready (if_pos List.nil_prefix)).stowing valid coordinates.names_ne_nil ?there ?plain
    ?allowed
  case there =>
    rw [aim, ready.inside, if_pos List.prefix_rfl]
  case plain => exact fun place there => (isPlain_append.mp (plain place there)).2
  case allowed =>
    intro place
    rw [aim, List.append_assoc, ready.inside]
    by_cases atTop : place = []
    · right
      rw [atTop, List.append_nil, if_pos List.prefix_rfl, stow_plain isPlain_nil, List.append_nil, top]
      rfl
    · rw [if_neg, stow_append plainTop]
      · exact stow_of_part (fun rest => reachOf_within _) place
      · intro within
        have lengths := within.length_le
        rw [List.length_append] at lengths
        exact atTop (List.eq_nil_of_length_eq_zero (by omega))

/-- A project that is installed is added to what the folder keeps; for another nothing changes. -/
theorem backupProject_ok {installed : Bool} (known : Filling repository folder image disk)
    (filled : disk.Plants (disk.leadsTo folder) (stow threshold (reachOf image tops)) state)
    (fits : fitsParts threshold (reachOf image tops))
    (named : installed = true → coordinates.names.all isEntryName = true)
    (plain : installed = true → ∀ place, image (coordinates.names ++ place) ≠ none →
      isPlain (coordinates.names ++ place))
    (done : backupProject threshold repository folder coordinates state = .ok installed next) :
    installed = false ∧ next = state ∨
      installed = true ∧ image coordinates.names = some .directory ∧
        disk.Plants (disk.leadsTo folder)
          (stow threshold (reachOf image (tops ++ [coordinates.names]))) next ∧
        fitsParts threshold (reachOf image (tops ++ [coordinates.names])) := by
  unfold backupProject at done
  simp only [bind_ok_iff, get_ok_iff] at done
  obtain ⟨_, _, ⟨rfl, rfl⟩, done⟩ := done
  split at done
  · rename_i isDirectory
    right
    simp only [bind_ok_iff, attempt_ok_iff, pure_ok_iff] at done
    obtain ⟨_, made, prepared, _, copied, walked, rfl, rfl⟩ := done
    have valid := named rfl
    have inner := coordinates.names_ne_nil
    rw [join_relativePath _ valid] at isDirectory prepared walked
    rw [join_relativePath _ valid] at walked
    have open_ := @stow_reachOf_top threshold _ _ _ tops _ known
    have top : image coordinates.names = some .directory := by
      have there := entryAt?_leadsTo_of_stands (isDirectory_iff.mp isDirectory).2
      rw [leadsTo_joinNames valid, (known.kept filled open_).source] at there
      exact there
    have plainTop : isPlain coordinates.names := by
      have whole := plain rfl []
      rw [List.append_nil] at whole
      exact whole (by rw [top]; simp)
    have ready := known.makeDirectories_ok filled open_ valid inner prepared
    have aim := ready.setting.leadsTo folder
    obtain ⟨levels, walked⟩ := copyTree_ok walked
    obtain ⟨planted, own⟩ := (known.stowingProject ready valid top (plain rfl)).copyWithin_ok walked
    have targetAim : Spot.target ⟨repository.joinNames coordinates.names, []⟩
        (folder.joinNames coordinates.names) made = disk.leadsTo folder ++ coordinates.names := by
      unfold Spot.target
      rw [leadsTo_joinNames valid, aim, List.append_nil]
    rw [targetAim] at planted
    exact ⟨rfl, top, (ready.within planted).congr fun place =>
      (stow_reachOf_concat known.tree plainTop top place).symm,
      fitsParts_reachOf_concat known.tree top fits own⟩
  · rename_i absent
    rw [pure_ok_iff] at done
    exact .inl ⟨done.1.symm, done.2.symm⟩

end BackupProject

/-! ### Backing up all projects -/

section Backup

variable {threshold : Threshold} {repository folder manifest : Path}
  {image : Location → Option Entry} {tops : List Location} {projects : List Coordinates}
  {report : BackupReport} {disk state next : Disk}

theorem backupProjects_ok (known : Filling repository folder image disk)
    (filled : disk.Plants (disk.leadsTo folder) (stow threshold (reachOf image tops)) state)
    (fits : fitsParts threshold (reachOf image tops))
    (named : ∀ project ∈ report.copied, project.names.all isEntryName = true)
    (plain : ∀ project ∈ report.copied, ∀ place, image (project.names ++ place) ≠ none →
      isPlain (project.names ++ place))
    (done : backupProjects threshold repository folder projects state = .ok report next) :
    disk.Plants (disk.leadsTo folder)
        (stow threshold (reachOf image (tops ++ report.copied.map Coordinates.names))) next ∧
      fitsParts threshold (reachOf image (tops ++ report.copied.map Coordinates.names)) ∧
      ∀ project ∈ report.copied, image project.names = some .directory := by
  induction projects generalizing tops state report with
  | nil =>
      unfold backupProjects at done
      rw [pure_ok_iff] at done
      obtain ⟨rfl, rfl⟩ := done
      rw [List.map_nil, List.append_nil]
      exact ⟨filled, fits, fun _ absent => nomatch absent⟩
  | cons project others ih =>
      unfold backupProjects at done
      simp only [bind_ok_iff] at done
      obtain ⟨installed, middle, first, later, last, rest, done⟩ := done
      cases installed with
      | true =>
          rw [if_pos rfl, pure_ok_iff] at done
          obtain ⟨rfl, rfl⟩ := done
          have head : project ∈ project :: later.copied := List.mem_cons_self
          rcases backupProject_ok known filled fits (fun _ => named project head)
            (fun _ => plain project head) first with ⟨absent, -⟩ | ⟨-, top, grown, fitting⟩
          · cases absent
          · obtain ⟨planted, fitsAll, tops_⟩ := ih grown fitting
              (fun other member => named other (List.mem_cons_of_mem _ member))
              (fun other member => plain other (List.mem_cons_of_mem _ member)) rest
            rw [List.append_assoc] at planted fitsAll
            refine ⟨planted, fitsAll, fun other member => ?_⟩
            rcases List.mem_cons.mp member with rfl | behind
            · exact top
            · exact tops_ other behind
      | false =>
          rw [if_neg (by simp), pure_ok_iff] at done
          obtain ⟨rfl, rfl⟩ := done
          rcases backupProject_ok known filled fits (fun absent => by cases absent)
            (fun absent => by cases absent) first with ⟨-, rfl⟩ | ⟨absent, -⟩
          · exact @ih _ later _ filled fits named plain rest
          · cases absent

/-- What a backup into a folder has done. -/
structure BackedUp (threshold : Threshold) (image : Location → Option Entry) (folder : Path)
    (copied : List Coordinates) (before after : Disk) : Prop where
  setting : before.SameSetting after
  permitted : before.permits folder
  top : image [] = some .directory
  kept : ∀ place, after.entryAt? (before.leadsTo folder ++ place) =
    stow threshold (reachOf image (copied.map Coordinates.names)) place
  fits : fitsParts threshold (reachOf image (copied.map Coordinates.names))
  installed : ∀ project ∈ copied, image project.names = some .directory
  elsewhere : ∀ other, ¬ before.leadsTo folder <+: other →
    after.entryAt? other = before.entryAt? other ∨
      before.entryAt? other = none ∧ after.entryAt? other = some .directory ∧
        other ∈ before.way folder

theorem backup_steps (done : backup threshold manifest repository folder disk = .ok report next) :
    disk.isDirectory repository = true ∧
      ∃ cleared made projects, collectCoordinates disk manifest = .ok projects ∧
        removeExisting folder disk = .ok () cleared ∧ makeDirectories folder cleared = .ok () made ∧
        backupProjects threshold repository folder projects made = .ok report next := by
  unfold backup at done
  simp only [bind_ok_iff, get_ok_iff] at done
  obtain ⟨_, _, ⟨rfl, rfl⟩, done⟩ := done
  split at done
  · simp only [bind_ok_iff, throw_ok_iff, false_and, exists_false] at done
  · split at done
    · simp only [bind_ok_iff, throw_ok_iff, false_and, exists_false] at done
    · rename_i isDirectory
      rw [Bool.not_eq_true', Bool.not_eq_false] at isDirectory
      refine ⟨isDirectory, ?_⟩
      cases collected : collectCoordinates disk manifest with
      | error cause =>
          rw [collected] at done
          cases done
      | ok projects =>
          rw [collected] at done
          simp only [bind_ok_iff, attempt_ok_iff] at done
          obtain ⟨_, cleared, removed, _, made, prepared, rest⟩ := done
          exact ⟨cleared, made, projects, rfl, removed, prepared, rest⟩

/-- Nothing is kept as long as no project is copied. -/
private theorem stow_reachOf_nil (place : Location) (below : place ≠ []) :
    stow threshold (reachOf image []) place = none := by
  have nothing : ∀ other, other ≠ [] → reachOf image [] other = none := by
    intro other some
    rw [reachOf, if_neg (by simp [some])]
  rcases isPlain_or_split place with plain | ⟨front, base, rest, rfl, plain, some⟩
  · rw [stow_plain plain, nothing place below]
    rfl
  · rw [stow_split plain some, nothing _ (by simp)]
    rfl

/-- An empty folder holds what is kept when no project is copied. -/
private theorem Filling.start (known : Filling repository folder image disk)
    (renewed : ∀ place, disk.entryAt? (disk.leadsTo folder ++ place) =
      if place = [] then some .directory else none) :
    disk.Plants (disk.leadsTo folder) (stow threshold (reachOf image [])) disk ∧
      fitsParts threshold (reachOf image []) := by
  constructor
  · refine ⟨.refl disk, fun place => ?_, fun _ _ => rfl⟩
    rw [renewed]
    split
    · rename_i atTop
      rw [atTop, stow_reachOf_top known]
    · rename_i below
      exact (stow_reachOf_nil place below).symm
  · intro place content file
    exfalso
    unfold reachOf at file
    split at file
    · rename_i atTop
      rw [atTop.resolve_right (by simp), known.top] at file
      cases file
    · cases file

/-- What a backup finds once its folder is renewed, and what it has changed by then. -/
structure Renewed (repository folder : Path) (image : Location → Option Entry)
    (before made : Disk) : Prop where
  permitted : before.permits folder
  setting : before.SameSetting made
  known : Filling repository folder image made
  empty : ∀ place, made.entryAt? (made.leadsTo folder ++ place) =
    if place = [] then some .directory else none
  elsewhere : ∀ other, ¬ before.leadsTo folder <+: other →
    made.entryAt? other = before.entryAt? other ∨
      before.entryAt? other = none ∧ made.entryAt? other = some .directory ∧
        other ∈ before.way folder

theorem renewed_of_steps {cleared made : Disk} (detours : disk.detoursStand folder)
    (outside : disk.keepsOut folder (disk.leadsTo folder)) (spelled : folder.text ≠ "")
    (folderApart : ¬ disk.leadsTo folder <+: disk.leadsTo repository)
    (sourceApart : ¬ disk.leadsTo repository <+: disk.leadsTo folder)
    (source : ∀ place, disk.entryAt? (disk.leadsTo repository ++ place) = image place)
    (isDirectory : disk.isDirectory repository = true)
    (removed : removeExisting folder disk = .ok () cleared)
    (prepared : makeDirectories folder cleared = .ok () made) :
    Renewed repository folder image disk made := by
  obtain ⟨setting, renewed, elsewhere⟩ := renewPath_ok detours outside spelled removed prepared
  obtain ⟨permitted, standing⟩ :=
    isDirectory_iff.mp ((makeDirectories_ok prepared).1.resolve_left spelled)
  refine
    { permitted := (setting.permits _).mp permitted
      setting := setting
      known := ?_
      empty := fun place => by rw [setting.leadsTo, renewed]
      elsewhere := elsewhere }
  refine
    { standing := standing
      outside := ?_
      folderApart := ?_
      sourceApart := ?_
      source := fun place => ?_
      top := ?_ }
  · rw [setting.keepsOut, setting.leadsTo]
    exact outside
  · rw [setting.leadsTo, setting.leadsTo]
    exact folderApart
  · rw [setting.leadsTo, setting.leadsTo]
    exact sourceApart
  · rw [setting.leadsTo, ← source]
    have apart : ¬ disk.leadsTo folder <+: disk.leadsTo repository ++ place := by
      intro within
      rcases List.prefix_or_prefix_of_prefix within (List.prefix_append _ place) with below | above
      · exact folderApart below
      · exact sourceApart above
    rcases elsewhere _ apart with same | ⟨absent, -, onWay⟩
    · exact same
    · exfalso
      rcases detours _ onWay with above | standing
      · exact sourceApart ((List.prefix_append _ place).trans above)
      · rw [absent] at standing
        cases standing
  · have there := entryAt?_leadsTo_of_stands (isDirectory_iff.mp isDirectory).2
    rw [← source, List.append_nil]
    exact there

theorem backup_ok (detours : disk.detoursStand folder)
    (outside : disk.keepsOut folder (disk.leadsTo folder)) (spelled : folder.text ≠ "")
    (folderApart : ¬ disk.leadsTo folder <+: disk.leadsTo repository)
    (sourceApart : ¬ disk.leadsTo repository <+: disk.leadsTo folder)
    (source : ∀ place, disk.entryAt? (disk.leadsTo repository ++ place) = image place)
    (named : ∀ project ∈ report.copied, project.names.all isEntryName = true)
    (plain : ∀ project ∈ report.copied, ∀ place, image (project.names ++ place) ≠ none →
      isPlain (project.names ++ place))
    (done : backup threshold manifest repository folder disk = .ok report next) :
    BackedUp threshold image folder report.copied disk next := by
  obtain ⟨isDirectory, cleared, made, projects, -, removed, prepared, filled⟩ := backup_steps done
  have renewed : Renewed repository folder image disk made := renewed_of_steps detours outside spelled
    folderApart sourceApart source isDirectory removed prepared
  obtain ⟨start, fits⟩ := @Filling.start threshold _ _ _ _ renewed.known renewed.empty
  obtain ⟨planted, fitsAll, installed⟩ :=
    backupProjects_ok renewed.known start fits named plain filled
  rw [List.nil_append] at planted fitsAll
  rw [renewed.setting.leadsTo] at planted
  refine ⟨renewed.setting.trans planted.setting, renewed.permitted, renewed.known.top,
    planted.inside, fitsAll, installed, fun other apart => ?_⟩
  rw [planted.outside other apart]
  exact renewed.elsewhere other apart

/-! ### Which projects are copied -/

/-- While the folder is filled, the same directories of the repository can be reached. -/
private theorem Filling.isDirectory_eq {view : Location → Option Entry} {names : List String}
    (known : Filling repository folder image disk)
    (filled : disk.Plants (disk.leadsTo folder) view state) (top : view [] = some .directory)
    (open_ : disk.stands repository) (outside : disk.keepsOut repository (disk.leadsTo folder))
    (valid : names.all isEntryName = true) :
    state.isDirectory (repository.joinNames names) = disk.isDirectory (repository.joinNames names) := by
  have there := filled.atTop
  rw [top] at there
  have still := filled.setting.stands_of_outside outside filled.outside there open_
  have kept := known.kept filled top
  rw [Bool.eq_iff_iff, isDirectory_iff, isDirectory_iff, filled.setting.permits,
    stands_joinNames valid, stands_joinNames valid, kept.source, known.source]
  simp only [open_, still]

theorem backupProject_installed {installed : Bool} {coordinates : Coordinates}
    (done : backupProject threshold repository folder coordinates state = .ok installed next) :
    installed = state.isDirectory (repository.join coordinates.relativePath) := by
  unfold backupProject at done
  simp only [bind_ok_iff, get_ok_iff] at done
  obtain ⟨_, _, ⟨rfl, rfl⟩, done⟩ := done
  split at done
  · rename_i isDirectory
    simp only [bind_ok_iff, attempt_ok_iff, pure_ok_iff] at done
    obtain ⟨_, _, -, _, _, -, rfl, -⟩ := done
    exact isDirectory.symm
  · rename_i absent
    rw [pure_ok_iff] at done
    rw [← done.1]
    exact (Bool.eq_false_iff.mpr absent).symm

/-- Each project is reported once, in order: as copied if the repository has its directory. -/
theorem backupProjects_partition (known : Filling repository folder image disk)
    (filled : disk.Plants (disk.leadsTo folder) (stow threshold (reachOf image tops)) state)
    (fits : fitsParts threshold (reachOf image tops)) (open_ : disk.stands repository)
    (outside : disk.keepsOut repository (disk.leadsTo folder))
    (named : ∀ project ∈ projects, project.names.all isEntryName = true)
    (plain : ∀ project ∈ report.copied, ∀ place, image (project.names ++ place) ≠ none →
      isPlain (project.names ++ place))
    (done : backupProjects threshold repository folder projects state = .ok report next) :
    report.copied = projects.filter
        (fun project => disk.isDirectory (repository.join project.relativePath)) ∧
      report.skipped = projects.filter
        (fun project => !disk.isDirectory (repository.join project.relativePath)) := by
  induction projects generalizing tops state report with
  | nil =>
      unfold backupProjects at done
      rw [pure_ok_iff] at done
      obtain ⟨rfl, -⟩ := done
      exact ⟨rfl, rfl⟩
  | cons project others ih =>
      unfold backupProjects at done
      simp only [bind_ok_iff] at done
      obtain ⟨installed, middle, first, later, last, rest, done⟩ := done
      rw [List.forall_mem_cons] at named
      have found := backupProject_installed first
      rw [join_relativePath _ named.1, known.isDirectory_eq filled (stow_reachOf_top known) open_
        outside named.1, ← join_relativePath _ named.1] at found
      cases installed with
      | true =>
          rw [if_pos rfl, pure_ok_iff] at done
          obtain ⟨rfl, rfl⟩ := done
          rcases backupProject_ok known filled fits (fun _ => named.1)
            (fun _ => plain project List.mem_cons_self) first with ⟨absent, -⟩ | ⟨-, -, grown, fitting⟩
          · cases absent
          · obtain ⟨copied, skipped⟩ := ih grown fitting named.2
              (fun other member => plain other (List.mem_cons_of_mem _ member)) rest
            simp only [List.filter_cons, ← found, if_true, Bool.not_true, Bool.false_eq_true, if_false,
              copied, skipped, and_self]
      | false =>
          rw [if_neg (by simp), pure_ok_iff] at done
          obtain ⟨rfl, rfl⟩ := done
          rcases backupProject_ok known filled fits (fun absent => by cases absent)
            (fun absent => by cases absent) first with ⟨-, rfl⟩ | ⟨absent, -⟩
          · obtain ⟨copied, skipped⟩ := @ih _ later _ filled fits named.2 plain rest
            simp only [List.filter_cons, ← found, if_true, Bool.not_false, Bool.false_eq_true, if_false,
              copied, skipped, and_self]
          · cases absent

theorem backup_partition (detours : disk.detoursStand folder)
    (outside : disk.keepsOut folder (disk.leadsTo folder)) (spelled : folder.text ≠ "")
    (folderApart : ¬ disk.leadsTo folder <+: disk.leadsTo repository)
    (sourceApart : ¬ disk.leadsTo repository <+: disk.leadsTo folder)
    (source : ∀ place, disk.entryAt? (disk.leadsTo repository ++ place) = image place)
    (passes : disk.keepsOut repository (disk.leadsTo folder))
    (collected : collectCoordinates disk manifest = .ok projects)
    (named : ∀ project ∈ projects, project.names.all isEntryName = true)
    (plain : ∀ project ∈ report.copied, ∀ place, image (project.names ++ place) ≠ none →
      isPlain (project.names ++ place))
    (done : backup threshold manifest repository folder disk = .ok report next) :
    report.copied = projects.filter
        (fun project => disk.isDirectory (repository.join project.relativePath)) ∧
      report.skipped = projects.filter
        (fun project => !disk.isDirectory (repository.join project.relativePath)) := by
  obtain ⟨isDirectory, cleared, made, _, found, removed, prepared, filled⟩ := backup_steps done
  rw [collected, Except.ok.injEq] at found
  subst found
  have renewed : Renewed repository folder image disk made := renewed_of_steps detours outside spelled
    folderApart sourceApart source isDirectory removed prepared
  obtain ⟨permitted, standing⟩ := isDirectory_iff.mp isDirectory
  have open_ : made.stands repository := by
    intro place member
    rw [renewed.setting.way] at member
    by_cases within : disk.leadsTo folder <+: place
    · have top := renewed.empty []
      rw [if_pos rfl, List.append_nil, renewed.setting.leadsTo] at top
      rw [passes place member within]
      exact top
    · rcases renewed.elsewhere place within with same | ⟨absent, -⟩
      · rw [same]
        exact standing place member
      · rw [standing place member] at absent
        cases absent
  have still : made.keepsOut repository (made.leadsTo folder) := by
    rw [renewed.setting.keepsOut, renewed.setting.leadsTo]
    exact passes
  obtain ⟨start, fits⟩ := @Filling.start threshold _ _ _ _ renewed.known renewed.empty
  have parts := backupProjects_partition renewed.known start fits open_ still named plain filled
  have same : ∀ project ∈ projects, made.isDirectory (repository.join project.relativePath) =
      disk.isDirectory (repository.join project.relativePath) := by
    intro project member
    have valid := named project member
    rw [join_relativePath _ valid, Bool.eq_iff_iff, isDirectory_iff, isDirectory_iff,
      renewed.setting.permits, stands_joinNames valid, stands_joinNames valid,
      renewed.known.source, source]
    simp only [open_, standing]
  have otherwise := fun project member => congrArg not (same project member)
  rw [List.filter_congr same, List.filter_congr otherwise] at parts
  exact parts

end Backup

end CrossBuild.Artifacts
