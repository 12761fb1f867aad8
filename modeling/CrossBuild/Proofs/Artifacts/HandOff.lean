/-
Handing artifacts over from one build to another.

Backups of several components are gathered below one root, each by a run of its own, and laid over a
repository later. A file that a component had installed arrives there as it was, whatever its size.
The components may have been built at different times, on a disk that changes in between anywhere but
below the root.
-/

import CrossBuild.Proofs.Artifacts.Backups
import CrossBuild.Proofs.Artifacts.Layers

namespace CrossBuild.Artifacts

open Files Files.Disk Runs

/-- A backup that was made: the name of its folder, the disk it was made on, the repository it was
made from, and what it copied. -/
structure Delivery where
  name : String
  before : Disk
  repository : Path
  threshold : Threshold
  report : BackupReport

/-- What the repository of a component held. -/
def Delivery.image (delivery : Delivery) : Location → Option Entry := fun place =>
  delivery.before.entryAt? (delivery.before.leadsTo delivery.repository ++ place)

/-- What of it belongs to the projects that were copied. -/
def Delivery.goods (delivery : Delivery) : Location → Option Entry :=
  reachOf delivery.image (delivery.report.copied.map Coordinates.names)

/-- Backups are made into different folders below a root. Between them anything may happen to the
disk, but not at the root or below it. -/
inductive Gathered (root : Path) : List Delivery → Disk → Prop where
  | nothing (disk : Disk) : Gathered root [] disk
  | elsewhere {deliveries : List Delivery} {disk after : Disk} :
      Gathered root deliveries disk → disk.SameSetting after →
      (∀ location, disk.leadsTo root <+: location → after.entryAt? location = disk.entryAt? location) →
      Gathered root deliveries after
  | backup {deliveries : List Delivery} {disk after : Disk} {name : String} {manifest repository : Path}
      {threshold : Threshold} {report : BackupReport} :
      Gathered root deliveries disk → isEntryName name = true →
      (∀ delivery ∈ deliveries, delivery.name ≠ name) →
      Artifacts.backup threshold manifest repository (root.joinName name) disk = .ok report after →
      Gathered root (deliveries ++ [⟨name, disk, repository, threshold, report⟩]) after

/-- What has to be known of a backup: its projects are installed under plain names, of which none
ends like that of a directory of parts, its folder and the repository lie apart, and the path of the
root passes nothing below the root and only directories that were there, up to those above it. -/
structure Delivery.Sound (root : Path) (delivery : Delivery) : Prop where
  folder : Text.endsWith splitSuffix delivery.name = false
  named : ∀ project ∈ delivery.report.copied, project.names.all isEntryName = true
  free : ∀ project ∈ delivery.report.copied, ∀ place, delivery.image (project.names ++ place) ≠ none →
    ∀ name ∈ project.names ++ place, Text.endsWith splitSuffix name = false
  folderApart : ¬ delivery.before.leadsTo root ++ [delivery.name] <+:
    delivery.before.leadsTo delivery.repository
  sourceApart : ¬ delivery.before.leadsTo delivery.repository <+:
    delivery.before.leadsTo root ++ [delivery.name]
  detours : delivery.before.detoursStand root
  outside : delivery.before.keepsOut root (delivery.before.leadsTo root)

/-- What the folder of a delivery holds on a disk. -/
structure Delivered (root : Path) (delivery : Delivery) (disk : Disk) : Prop where
  valid : isEntryName delivery.name = true
  permitted : disk.permits (root.joinName delivery.name)
  top : delivery.image [] = some .directory
  kept : ∀ place, disk.entryAt? (disk.leadsTo root ++ [delivery.name] ++ place) =
    stow delivery.threshold delivery.goods place
  fits : fitsParts delivery.threshold delivery.goods
  installed : ∀ project ∈ delivery.report.copied, delivery.image project.names = some .directory

section Gathered

variable {root : Path} {deliveries : List Delivery} {delivery other : Delivery} {disk after : Disk}

theorem Gathered.distinct (gathered : Gathered root deliveries disk) :
    (deliveries.map Delivery.name).Nodup := by
  induction gathered with
  | nothing disk => exact List.nodup_nil
  | elsewhere _ _ _ ih => exact ih
  | backup _ _ fresh _ ih =>
      rw [List.map_append, List.map_singleton, List.nodup_append]
      refine ⟨ih, by simp, ?_⟩
      intro name member last isLast
      obtain ⟨earlier, inside, rfl⟩ := List.mem_map.mp member
      rw [List.mem_singleton.mp isLast]
      exact fresh earlier inside

/-- What happens elsewhere leaves the folders alone. -/
private theorem Delivered.elsewhere (there : Delivered root delivery disk)
    (setting : disk.SameSetting after)
    (same : ∀ place, after.entryAt? (disk.leadsTo root ++ [delivery.name] ++ place) =
      disk.entryAt? (disk.leadsTo root ++ [delivery.name] ++ place)) :
    Delivered root delivery after := by
  refine ⟨there.valid, (setting.permits _).mpr there.permitted, there.top, fun place => ?_,
    there.fits, there.installed⟩
  rw [setting.leadsTo, same]
  exact there.kept place

/-- Every folder holds what was backed up into it, also after later backups. -/
theorem Gathered.delivered (gathered : Gathered root deliveries disk)
    (sound : ∀ delivery ∈ deliveries, delivery.Sound root) :
    ∀ delivery ∈ deliveries, Delivered root delivery disk := by
  induction gathered with
  | nothing disk => exact fun _ absent => nomatch absent
  | elsewhere _ setting same ih =>
      intro delivery member
      refine (ih sound delivery member).elsewhere setting fun place => same _ ?_
      rw [List.append_assoc]
      exact List.prefix_append _ _
  | @backup earlier before after name manifest repository threshold report _ valid fresh done ih =>
      have own := sound ⟨name, before, repository, threshold, report⟩
        (List.mem_append_right _ (List.mem_singleton.mpr rfl))
      have all : [name].all isEntryName = true := by simpa using valid
      have spelled : (root.joinName name).text ≠ "" := by
        rw [Path.joinName_eq_joinNames]
        exact Path.joinNames_text_ne_empty all (.inr (List.cons_ne_nil _ _))
      have aim := leadsTo_joinName before root valid
      obtain ⟨detours, outside, passed⟩ := passes_of_joinName valid own.detours (own.outside.append _)
      have made : BackedUp threshold _ (root.joinName name) report.copied before after :=
        backup_ok detours outside spelled (by rw [aim]; exact own.folderApart)
          (by rw [aim]; exact own.sourceApart) (fun _ => rfl) own.named
          (fun project member place there other inside =>
            mergedName?_of_endsWith (own.free project member place there other inside)) done
      have kept := made.kept
      have elsewhere := made.elsewhere
      rw [aim] at kept elsewhere
      intro delivery member
      rcases List.mem_append.mp member with before_ | last
      · have there := ih (fun delivery inside => sound delivery (List.mem_append_left _ inside))
          delivery before_
        refine there.elsewhere made.setting fun place => ?_
        have apart : ¬ before.leadsTo root ++ [name] <+:
            before.leadsTo root ++ [delivery.name] ++ place := by
          rw [List.append_assoc, List.singleton_append, concat_prefix_iff]
          exact fun same => fresh delivery before_ same.symm
        rcases elsewhere _ apart with same | ⟨-, -, onWay⟩
        · exact same
        · exfalso
          have atRoot := own.outside _ (passed _ onWay apart) (by rw [List.append_assoc]; exact List.prefix_append _ _)
          simp at atRoot
      · rw [List.mem_singleton.mp last]
        refine ⟨valid, (made.setting.permits _).mpr made.permitted, made.top, fun place => ?_,
          made.fits, made.installed⟩
        rw [made.setting.leadsTo]
        exact kept place

/-- What a delivery holds can be kept in parts and put together again. -/
theorem Delivered.storable (there : Delivered root delivery disk) (sound : delivery.Sound root) :
    Storable delivery.threshold delivery.goods := by
  have tree : isTree delivery.image := isTree_below_top delivery.before _
  have within : ∀ place, delivery.goods place ≠ none → delivery.image place ≠ none := by
    intro place present
    rcases @reachOf_within delivery.image
      (delivery.report.copied.map Coordinates.names) place with absent | same
    · exact absurd absent present
    · rw [← same]
      exact present
  refine ⟨tree.reachOf, fun place present => ?_, ?_, there.fits, fun name content file => ?_⟩
  · exact namesValid_below (within place present)
  · apply unsuffixed_reachOf
    · intro top listed
      obtain ⟨project, copied, rfl⟩ := List.mem_map.mp listed
      rw [there.installed project copied]
      simp
    · intro top listed
      obtain ⟨project, copied, rfl⟩ := List.mem_map.mp listed
      exact sound.free project copied
  · obtain ⟨-, top, listed, rest, strict, whole⟩ := reachOf_file tree there.top (by
      intro top listed
      obtain ⟨project, copied, rfl⟩ := List.mem_map.mp listed
      exact there.installed project copied) file
    obtain ⟨project, -, rfl⟩ := List.mem_map.mp listed
    have lengths := congrArg List.length whole
    rw [List.length_append, List.length_singleton] at lengths
    have front := List.length_pos_iff.mpr project.names_ne_nil
    have back := List.length_pos_iff.mpr strict
    omega

/-- Projects of two deliveries are installed apart. -/
def Delivery.apartFrom (delivery other : Delivery) : Prop :=
  ∀ project ∈ delivery.report.copied, ∀ another ∈ other.report.copied,
    ¬ project.names <+: another.names ∧ ¬ another.names <+: project.names

/-- A delivery has nothing to do with what lies below a project of another. -/
theorem Delivered.goods_apart (there : Delivered root other disk) (apart : delivery.apartFrom other)
    {project : Coordinates} (copied : project ∈ delivery.report.copied) (rest : Location) :
    other.goods (project.names ++ rest) = none ∧
      ∀ directory, receives other.goods directory → ¬ directory <+: project.names ++ rest := by
  have away : ∀ another ∈ other.report.copied, ¬ another.names <+: project.names ++ rest := by
    intro another listed within
    obtain ⟨left, right⟩ := apart project copied another listed
    rcases List.prefix_or_prefix_of_prefix within (List.prefix_append _ rest) with below | above
    · exact right below
    · exact left above
  constructor
  · unfold Delivery.goods reachOf
    rw [if_neg]
    rintro (atTop | ⟨top, listed, reached⟩)
    · exact project.names_ne_nil (List.append_eq_nil_iff.mp atTop).1
    · obtain ⟨another, inside, rfl⟩ := List.mem_map.mp listed
      rcases reached with above | below
      · exact (apart project copied another inside).1 ((List.prefix_append _ rest).trans above)
      · exact away another inside below
  · rintro directory ⟨-, name, content, file⟩ within
    have tree : isTree other.image := isTree_below_top other.before _
    obtain ⟨-, top, listed, below, strict, whole⟩ := reachOf_file tree there.top (by
      intro top listed
      obtain ⟨another, inside, rfl⟩ := List.mem_map.mp listed
      exact there.installed another inside) file
    obtain ⟨another, inside, rfl⟩ := List.mem_map.mp listed
    apply away another inside
    have shorter : another.names <+: directory := by
      rcases List.prefix_concat_iff.mp (show another.names <+: directory ++ [name] from
        ⟨below, whole.symm⟩) with all | front
      · exfalso
        rw [all] at whole
        exact strict (List.append_right_eq_self.mp whole.symm)
      · exact front
    exact shorter.trans within

end Gathered

/-! ### Laying all deliveries over a repository -/

/-- What has to be known where deliveries are laid over a repository: it and the root of the
deliveries lie apart, their paths pass nothing below the repository, and the root holds no other
directories. -/
structure Handover (target root : Path) (deliveries : List Delivery) (disk : Disk) : Prop where
  targetApart : ¬ disk.leadsTo target <+: disk.leadsTo root
  rootApart : ¬ disk.leadsTo root <+: disk.leadsTo target
  targetOutside : disk.keepsOut target (disk.leadsTo target)
  rootOutside : disk.keepsOut root (disk.leadsTo target)
  onlyDeliveries : ∀ name, disk.entryAt? (disk.leadsTo root ++ [name]) = some .directory →
    ∃ delivery ∈ deliveries, delivery.name = name

section Handover

variable {target root : Path} {deliveries : List Delivery} {delivery : Delivery}
  {start after : Disk} {name : String} {applied : List Path} {place : Location}

theorem Handover.apart (handover : Handover target root deliveries start) :
    Apart target root start :=
  ⟨handover.targetApart, handover.rootApart, handover.targetOutside⟩

/-- The backups below the root are the deliveries. -/
theorem Handover.delivery_of_mem (handover : Handover target root deliveries start)
    (member : name ∈ backupNames root start) : ∃ delivery ∈ deliveries, delivery.name = name := by
  have there := heldBy_top (valid_of_mem_backupNames member) (mem_backupNames.mp member).2
  unfold heldBy at there
  rw [List.append_nil] at there
  exact handover.onlyDeliveries name there

theorem Delivered.goods_nil (there : Delivered root delivery start) :
    delivery.goods [] = some .directory := by
  unfold Delivery.goods reachOf
  rw [if_pos (.inl rfl), there.top]

theorem Delivered.mem_backupNames (there : Delivered root delivery start)
    (rootStands : start.stands root) : delivery.name ∈ backupNames root start := by
  have all : [delivery.name].all isEntryName = true := by simpa using there.valid
  have own := there.kept []
  rw [List.append_nil, stow_plain isPlain_nil, there.goods_nil] at own
  refine Artifacts.mem_backupNames.mpr
    ⟨mem_childNames.mpr ⟨_, own⟩, isDirectory_iff.mpr ⟨there.permitted, ?_⟩⟩
  rw [Path.joinName_eq_joinNames]
  exact (stands_joinNames all).mpr ⟨rootStands, own⟩

theorem Delivered.isBackup (there : Delivered root delivery start) (sound : delivery.Sound root) :
    Artifacts.isBackup (heldBy root delivery.name start) :=
  ⟨delivery.threshold, delivery.goods, there.storable sound, there.kept⟩

theorem Delivered.backupTree_eq (there : Delivered root delivery start)
    (sound : delivery.Sound root) : backupTree root start delivery.name = delivery.goods := by
  have storable := there.storable sound
  have held : heldBy root delivery.name start = stow delivery.threshold delivery.goods :=
    funext there.kept
  unfold backupTree
  rw [held]
  exact funext (reassembled_stow there.goods_nil storable.named storable.free storable.fits)

theorem Delivery.Sound.neverMerged (sound : delivery.Sound root)
    (valid : isEntryName delivery.name = true) :
    Artifacts.neverMerged (root.joinName delivery.name) target := by
  left
  rw [Path.fileName?_joinName root valid, Option.bind_some, mergedName?_of_endsWith sound.folder]

/-- What backups make up is what the deliveries of these names hold. -/
theorem Gathered.goods_of_names (gathered : Gathered root deliveries start)
    (sound : ∀ delivery ∈ deliveries, delivery.Sound root)
    (handover : Handover target root deliveries start) {names : List String}
    (listed : ∀ name ∈ names, name ∈ backupNames root start ∧ name ≠ delivery.name) :
    ∃ found : List Delivery, names.map (backupTree root start) = found.map Delivery.goods ∧
      ∀ other ∈ found, other ∈ deliveries ∧ other.name ≠ delivery.name := by
  induction names with
  | nil => exact ⟨[], rfl, fun _ absent => nomatch absent⟩
  | cons name rest ih =>
      rw [List.forall_mem_cons] at listed
      obtain ⟨⟨own, different⟩, further⟩ := listed
      obtain ⟨found, trees, known⟩ := ih further
      obtain ⟨other, inside, rfl⟩ := handover.delivery_of_mem own
      refine ⟨other :: found, ?_, List.forall_mem_cons.mpr ⟨⟨inside, different⟩, known⟩⟩
      rw [List.map_cons, List.map_cons, trees,
        (gathered.delivered sound other inside).backupTree_eq (sound other inside)]

/-- Laying all backups over a repository lays over it what each delivery holds. -/
theorem overlay_deliveries (gathered : Gathered root deliveries start)
    (sound : ∀ delivery ∈ deliveries, delivery.Sound root)
    (handover : Handover target root deliveries start)
    (done : overlay target root start = .ok applied after) (member : delivery ∈ deliveries) :
    ∃ earlier later : List Delivery,
      (∀ other ∈ earlier ++ later, other ∈ deliveries ∧ other.name ≠ delivery.name) ∧
        Layered (start.leadsTo target)
          (earlier.map Delivery.goods ++ delivery.goods :: later.map Delivery.goods) start after := by
  have delivered := gathered.delivered sound
  obtain ⟨-, layered⟩ := overlay_layers handover.apart (fun name listed => by
      obtain ⟨other, inside, rfl⟩ := handover.delivery_of_mem listed
      exact (delivered other inside).isBackup (sound other inside))
    (fun name listed => by
      obtain ⟨other, inside, rfl⟩ := handover.delivery_of_mem listed
      exact (sound other inside).neverMerged (delivered other inside).valid) done
  obtain ⟨-, isRoot, -⟩ := overlay_steps done
  have listed := (delivered delivery member).mem_backupNames (isDirectory_iff.mp isRoot).2
  obtain ⟨before, behind, whole⟩ := List.append_of_mem listed
  have distinct : (backupNames root start).Nodup := (nodup_childNames _ _).filter _
  rw [whole, List.nodup_append, List.nodup_cons] at distinct
  obtain ⟨earlier, trees, fromBefore⟩ :=
    @Gathered.goods_of_names _ _ _ delivery _ gathered sound handover before (by
      intro name inside
      refine ⟨whole ▸ List.mem_append_left _ inside, ?_⟩
      rintro rfl
      exact distinct.2.2 _ inside _ List.mem_cons_self rfl)
  obtain ⟨later, trees', fromBehind⟩ :=
    @Gathered.goods_of_names _ _ _ delivery _ gathered sound handover behind (by
      intro name inside
      refine ⟨whole ▸ List.mem_append_right _ (List.mem_cons_of_mem _ inside), ?_⟩
      rintro rfl
      exact distinct.2.1.1 inside)
  rw [whole, List.map_append, List.map_cons, trees, trees',
    (delivered delivery member).backupTree_eq (sound delivery member)] at layered
  exact ⟨earlier, later, List.forall_mem_append.mpr ⟨fromBefore, fromBehind⟩, layered⟩

/-- What a delivery decides about a place below one of its projects stays, whatever is laid over the
repository later. -/
private theorem overlay_decided (gathered : Gathered root deliveries start)
    (sound : ∀ delivery ∈ deliveries, delivery.Sound root)
    (apart : ∀ delivery ∈ deliveries, ∀ other ∈ deliveries, other.name ≠ delivery.name →
      delivery.apartFrom other)
    (handover : Handover target root deliveries start)
    (done : overlay target root start = .ok applied after) (member : delivery ∈ deliveries)
    {project : Coordinates} (copied : project ∈ delivery.report.copied)
    (decided : decides delivery.goods (project.names ++ place)) :
    after.entryAt? (start.leadsTo target ++ (project.names ++ place)) =
      delivery.goods (project.names ++ place) := by
  obtain ⟨earlier, later, others, layered⟩ := overlay_deliveries gathered sound handover done member
  refine layered.last decided fun image behind => ?_
  obtain ⟨other, after_, rfl⟩ := List.mem_map.mp behind
  obtain ⟨inside, different⟩ := others other (List.mem_append_right _ after_)
  obtain ⟨absent, notStale⟩ := (gathered.delivered sound other inside).goods_apart
    (apart delivery member other inside different) copied place
  rintro (there | ⟨directory, receiving, within⟩)
  · exact there absent
  · exact notStale directory receiving within

end Handover

/-- One project is backed up into a folder below a root whose path goes straight down to it. -/
theorem Delivery.sound_of_straight {root : Path} {delivery : Delivery} {project : Coordinates}
    (straight : ∀ place ∈ delivery.before.way root, place <+: delivery.before.leadsTo root)
    (folder : Text.endsWith splitSuffix delivery.name = false)
    (copied : delivery.report.copied = [project]) (named : project.names.all isEntryName = true)
    (free : ∀ place,
      delivery.before.entryAt? (delivery.before.leadsTo delivery.repository ++ place) ≠ none →
        ∀ name ∈ place, Text.endsWith splitSuffix name = false)
    (folderApart : ¬ delivery.before.leadsTo root ++ [delivery.name] <+:
      delivery.before.leadsTo delivery.repository)
    (sourceApart : ¬ delivery.before.leadsTo delivery.repository <+:
      delivery.before.leadsTo root ++ [delivery.name]) : delivery.Sound root where
  folder := folder
  named := by simp only [copied, List.mem_singleton, forall_eq, named]
  free := fun _ _ place => free _
  folderApart := folderApart
  sourceApart := sourceApart
  detours := fun place member => .inl (straight place member)
  outside := fun place member within => (straight place member).eq_of_length_le within.length_le

/-! ### A small disk -/

/-- Two projects with their manifests, what they have installed, and a repository with leftovers. -/
def sampleEntries : List (Location × Entry) :=
  [(["p"], .file "<p><groupId>a</groupId><artifactId>a</artifactId><version>a</version></p>".toUTF8),
    (["q"], .file "<p><groupId>b</groupId><artifactId>b</artifactId><version>b</version></p>".toUTF8),
    (["m"], .directory), (["m", "a"], .directory), (["m", "a", "a"], .directory),
    (["m", "a", "a", "a"], .directory), (["m", "a", "a", "a", "a"], .directory),
    (["m", "a", "a", "a", "a", "a"], .file ⟨#[1]⟩), (["m", "a", "a", "a", "b"], .directory),
    (["m", "a", "a", "a", "b", "a"], .file ⟨#[2]⟩), (["m", "b"], .directory),
    (["m", "b", "b"], .directory), (["m", "b", "b", "b"], .directory),
    (["m", "b", "b", "b", "a"], .file ⟨#[3]⟩), (["r"], .directory), (["r", "a"], .directory),
    (["r", "a", "a"], .directory), (["r", "a", "a", "a"], .directory),
    (["r", "a", "a", "a", "a"], .directory), (["r", "a", "a", "a", "b"], .directory),
    (["r", "a", "a", "a", "b", "a.split.file.dir"], .directory),
    (["s"], .file ("<p><groupId>b</groupId><artifactId>b</artifactId>".toUTF8 ++
      "<version>1.split.file.dir</version></p>".toUTF8)),
    (["n"], .directory), (["n", "b"], .directory), (["n", "b", "b"], .directory),
    (["n", "b", "b", "1.split.file.dir"], .directory),
    (["n", "b", "b", "1.split.file.dir", "a"], .file ⟨#[4]⟩)]

def sampleDisk : Disk :=
  { entries := sampleEntries
    workingDirectory := []
    limits := none
    keysDistinct := by decide +kernel
    parentsThere := by decide +kernel
    namesValid := by decide +kernel }

private theorem sample_names : ∀ name ∈ ["m", "a", "b"], Text.endsWith splitSuffix name = false := by
  decide +kernel

private theorem sample_free (place : Location) (there : sampleDisk.entryAt? (["m"] ++ place) ≠ none) :
    ∀ name ∈ place, Text.endsWith splitSuffix name = false := by
  have listed : ∀ item ∈ sampleDisk.entries, ["m"] <+: item.1 → ∀ name ∈ item.1,
      name ∈ ["m", "a", "b"] := by decide +kernel
  exact fun name member => sample_names name (mem_of_entries listed there name member)

private theorem sample_ways : sampleDisk.leadsTo ⟨"b"⟩ = ["b"] ∧ sampleDisk.leadsTo ⟨"m"⟩ = ["m"] ∧
    sampleDisk.leadsTo ⟨"r"⟩ = ["r"] ∧ sampleDisk.way ⟨"b"⟩ = [[], ["b"]] ∧
    sampleDisk.way ⟨"r"⟩ = [[], ["r"]] := by
  decide +kernel

private theorem sample_sound {disk : Disk} {name : String} {report : BackupReport}
    {project : Coordinates} (setting : sampleDisk.SameSetting disk)
    (folder : Text.endsWith splitSuffix name = false) (copied : report.copied = [project])
    (named : project.names.all isEntryName = true)
    (free : ∀ place, disk.entryAt? (["m"] ++ place) ≠ none →
      ∀ name ∈ place, Text.endsWith splitSuffix name = false) :
    Delivery.Sound ⟨"b"⟩ ⟨name, disk, ⟨"m"⟩, .default, report⟩ := by
  obtain ⟨root, repository, -, way, -⟩ := sample_ways
  rw [← setting.leadsTo] at root repository
  rw [← setting.way] at way
  refine Delivery.sound_of_straight ?_ folder copied named ?_ ?_ ?_
  · rw [way, root]
    decide +kernel
  · rw [repository]
    exact free
  · simp [root, repository]
  · simp [root, repository]

private theorem sample_projects : Coordinates.names ⟨"a", "a", "a"⟩ = ["a", "a", "a"] ∧
    Coordinates.names ⟨"b", "b", "b"⟩ = ["b", "b", "b"] := by
  decide +kernel

private theorem sample_box : "a" ++ splitSuffix = "a.split.file.dir" := by
  decide +kernel

/-- The folders of the two backups stand alone below the root, and apart from the target. -/
private theorem sample_handover {deliveries : List Delivery} {start : Disk}
    (setting : sampleDisk.SameSetting start)
    (folders : ∀ item ∈ start.entries, ["b"] <+: item.1 → item.1.length = 2 →
      item.1 = ["b", "c"] ∨ item.1 = ["b", "d"])
    (backedUp : ∀ name, name = "c" ∨ name = "d" → ∃ delivery ∈ deliveries, delivery.name = name) :
    Handover ⟨"r"⟩ ⟨"b"⟩ deliveries start := by
  obtain ⟨root, -, target, rootWay, targetWay⟩ := sample_ways
  rw [← setting.leadsTo] at root target
  rw [← setting.way] at rootWay targetWay
  refine
    { targetApart := by simp [root, target]
      rootApart := by simp [root, target]
      targetOutside := ?_
      rootOutside := ?_
      onlyDeliveries := fun name there => backedUp name ?_ }
  · unfold Disk.keepsOut
    rw [target, targetWay]
    decide +kernel
  · unfold Disk.keepsOut
    rw [target, rootWay]
    decide +kernel
  · rw [root] at there
    have found := folders _ ((entryAt?_eq_some_iff (by simp)).mp there) (List.prefix_append _ _) rfl
    simpa using found

/-- Both backups come to their end, and so does laying them over the repository. -/
private theorem sample_runs : ∃ first between second start applied after,
    backup .default ⟨"p"⟩ ⟨"m"⟩ (Path.joinName ⟨"b"⟩ "c") sampleDisk = .ok first between ∧
      backup .default ⟨"q"⟩ ⟨"m"⟩ (Path.joinName ⟨"b"⟩ "d") between = .ok second start ∧
      overlay ⟨"r"⟩ ⟨"b"⟩ start = .ok applied after ∧
      (first.copied = [⟨"a", "a", "a"⟩] ∧ second.copied = [⟨"b", "b", "b"⟩]) ∧
      (sampleDisk.SameSetting between ∧ sampleDisk.SameSetting start) ∧
      (∀ item ∈ between.entries, ["m"] <+: item.1 → ∀ name ∈ item.1, name ∈ ["m", "a", "b"]) ∧
      between.entryAt? ["m", "b", "b", "b", "a"] = some (.file ⟨#[3]⟩) ∧
      ∀ item ∈ start.entries, ["b"] <+: item.1 → item.1.length = 2 →
        item.1 = ["b", "c"] ∨ item.1 = ["b", "d"] := by
  have checked : endsWell (backup .default ⟨"p"⟩ ⟨"m"⟩ (Path.joinName ⟨"b"⟩ "c") sampleDisk)
      (fun first between =>
        endsWell (backup .default ⟨"q"⟩ ⟨"m"⟩ (Path.joinName ⟨"b"⟩ "d") between) fun second start =>
          endsWell (overlay ⟨"r"⟩ ⟨"b"⟩ start) fun _ _ => decide (
            (first.copied = [⟨"a", "a", "a"⟩] ∧ second.copied = [⟨"b", "b", "b"⟩]) ∧
            (between.workingDirectory = [] ∧ between.limits = none) ∧
            (start.workingDirectory = [] ∧ start.limits = none) ∧
            (∀ item ∈ between.entries, ["m"] <+: item.1 → ∀ name ∈ item.1,
              name ∈ ["m", "a", "b"]) ∧
            between.entryAt? ["m", "b", "b", "b", "a"] = some (.file ⟨#[3]⟩) ∧
            ∀ item ∈ start.entries, ["b"] <+: item.1 → item.1.length = 2 →
              item.1 = ["b", "c"] ∨ item.1 = ["b", "d"])) = true := by
    decide +kernel
  obtain ⟨first, between, firstRun, checked⟩ := exists_of_endsWell checked
  obtain ⟨second, start, secondRun, checked⟩ := exists_of_endsWell checked
  obtain ⟨applied, after, run, checked⟩ := exists_of_endsWell checked
  obtain ⟨copied, ⟨working, limits⟩, ⟨working', limits'⟩, listed, file, folders⟩ :=
    of_decide_eq_true checked
  exact ⟨first, between, second, start, applied, after, firstRun, secondRun, run, copied,
    ⟨⟨working, limits⟩, working', limits'⟩, listed, file, folders⟩

/-- Laying deliveries over a target gives back every file they hold, in one piece, as long as their
projects have plain names, are installed apart, and hold no names of directories of parts. -/
def RestoresFiles (target root : Path) (deliveries : List Delivery) (start : Disk) : Prop :=
  Gathered root deliveries start →
  (∀ delivery ∈ deliveries, ∀ project ∈ delivery.report.copied,
    project.names.all isEntryName = true) →
  (∀ delivery ∈ deliveries, ∀ project ∈ delivery.report.copied, ∀ place,
    delivery.image (project.names ++ place) ≠ none →
      ∀ name ∈ place, Text.endsWith splitSuffix name = false) →
  (∀ delivery ∈ deliveries, ∀ other ∈ deliveries, other.name ≠ delivery.name →
    delivery.apartFrom other) →
  ∀ applied after, overlay target root start = .ok applied after →
    ∀ delivery ∈ deliveries, ∀ project ∈ delivery.report.copied, ∀ names name content,
      delivery.image (project.names ++ names ++ [name]) = some (.file content) →
        after.entryAt? (start.leadsTo target ++ (project.names ++ names ++ [name])) =
            some (.file content) ∧
          after.entryAt? (start.leadsTo target ++ (project.names ++ names ++ [name ++ splitSuffix])) =
            none

/-- One delivery is made and laid over a target, and a file of its project is not given back. -/
def losesFile (target root manifest repository : Path) (folder : String) (project : Coordinates)
    (names : List String) (name : String) (content : ByteArray) (disk : Disk) : Bool :=
  match backup .default manifest repository (root.joinName folder) disk with
  | .error _ _ => false
  | .ok report start =>
      match overlay target root start with
      | .error _ _ => false
      | .ok _ after =>
          let top := disk.leadsTo repository ++ project.names
          let place := start.leadsTo target ++ (project.names ++ names)
          decide (isEntryName folder = true ∧ report.copied = [project] ∧
            project.names.all isEntryName = true ∧
            (∀ item ∈ disk.entries, top <+: item.1 →
              ∀ name ∈ item.1.drop top.length, Text.endsWith splitSuffix name = false) ∧
            disk.entryAt? (top ++ (names ++ [name])) = some (.file content) ∧
            (after.entryAt? (place ++ [name]) ≠ some (.file content) ∨
              after.entryAt? (place ++ [name ++ splitSuffix]) ≠ none))

theorem exists_not_restoresFiles {target root manifest repository : Path} {folder : String}
    {project : Coordinates} {names : List String} {name : String} {content : ByteArray} {disk : Disk}
    (lost : losesFile target root manifest repository folder project names name content disk = true) :
    ∃ report start,
      ¬ RestoresFiles target root [⟨folder, disk, repository, .default, report⟩] start := by
  unfold losesFile at lost
  split at lost
  · cases lost
  · rename_i report start backedUp
    split at lost
    · cases lost
    · rename_i applied after overlaid
      simp only [decide_eq_true_eq] at lost
      obtain ⟨valid, copied, named, free, file, lost⟩ := lost
      refine ⟨report, start, fun restores => ?_⟩
      have gathered : Gathered root [⟨folder, disk, repository, .default, report⟩] start :=
        .backup (.nothing disk) valid (fun _ absent => nomatch absent) backedUp
      have restored := restores gathered ?named ?free ?apart applied after overlaid _
        (List.mem_singleton.mpr rfl) project (by rw [copied]; exact List.mem_singleton.mpr rfl) names
        name content
        (by
          unfold Delivery.image
          dsimp only
          rw [← file, List.append_assoc, List.append_assoc])
      case named =>
        intro delivery member other inside
        rw [List.mem_singleton.mp member, copied, List.mem_singleton] at inside
        rw [inside]
        exact named
      case free =>
        intro delivery member other inside place there
        rw [List.mem_singleton.mp member, copied, List.mem_singleton] at inside
        rw [List.mem_singleton.mp member, inside] at there
        unfold Delivery.image at there
        dsimp only at there
        rw [← List.append_assoc] at there
        obtain ⟨entry, found⟩ := Option.ne_none_iff_exists'.mp there
        have inner : disk.leadsTo repository ++ project.names ++ place ≠ [] := by
          rw [List.append_assoc]
          exact fun empty => project.names_ne_nil
            (List.append_eq_nil_iff.mp (List.append_eq_nil_iff.mp empty).2).1
        have listed := free _ ((entryAt?_eq_some_iff inner).mp found) (List.prefix_append _ place)
        dsimp only at listed
        rw [List.drop_left] at listed
        exact listed
      case apart =>
        intro delivery member other listed different
        rw [List.mem_singleton.mp member, List.mem_singleton.mp listed] at different
        exact absurd rfl different
      simp only [← List.append_assoc] at restored lost
      exact lost.elim (fun other => other restored.1) fun there => there restored.2

/-- The directory of the project itself has the name of a directory of parts. -/
private theorem loses_suffixed_project : losesFile ⟨"r"⟩ ⟨"b"⟩ ⟨"s"⟩ ⟨"n"⟩ "c"
    ⟨"b", "b", "1.split.file.dir"⟩ [] "a" ⟨#[4]⟩ sampleDisk = true := by
  decide +kernel

/-- A target that is named through a directory below it is entered there only while that directory
stands: what overlaying removes first is then not removed. -/
private theorem loses_named_from_below : losesFile ⟨"r/a/a/a/a/../../../.."⟩ ⟨"b"⟩ ⟨"p"⟩ ⟨"m"⟩ "c"
    ⟨"a", "a", "a"⟩ ["b"] "a" ⟨#[2]⟩ sampleDisk = true := by
  decide +kernel

/-- The target is the folder of the delivery. -/
private theorem loses_onto_itself : losesFile ⟨"b/c"⟩ ⟨"b"⟩ ⟨"p"⟩ ⟨"m"⟩ "c" ⟨"a", "a", "a"⟩ ["b"] "a"
    ⟨#[2]⟩ sampleDisk = true := by
  decide +kernel

/-- The root is the repository, so directories that are no deliveries are laid over the target. -/
private theorem loses_among_others : losesFile ⟨"r"⟩ ⟨"m"⟩ ⟨"p"⟩ ⟨"m"⟩ "0" ⟨"a", "a", "a"⟩ ["b"] "a"
    ⟨#[2]⟩ sampleDisk = true := by
  decide +kernel

end CrossBuild.Artifacts
