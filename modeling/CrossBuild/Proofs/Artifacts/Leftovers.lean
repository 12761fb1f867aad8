/-
What is left of an earlier build.

Where a delivery is laid over a repository, a directory is emptied when the delivery has a file
directly in it, and nothing else is. So a file of an earlier build stays below a project as long as
no directory around it receives a file. There is none when the directory of the project receives one
itself, which is where projects usually have theirs.
-/

import CrossBuild.Proofs.Artifacts.LastBackup

namespace CrossBuild.Artifacts

open Files Files.Disk Runs

section Leftovers

variable {target root : Path} {deliveries : List Delivery} {delivery other : Delivery}
  {project : Coordinates} {start after : Disk} {applied : List Path} {place : Location}

/-- A delivery settles nothing below a project of another. -/
theorem Delivered.not_settles_apart (there : Delivered root other start) (sound : other.Sound root)
    (apart : delivery.apartFrom other) (copied : project ∈ delivery.report.copied) :
    ¬ settles other.goods (project.names ++ place) := by
  obtain ⟨absent, untouched⟩ := there.goods_apart apart copied place
  rintro (⟨content, file⟩ | ⟨directory, name, content, within, -, file⟩)
  · rw [absent] at file
    cases file
  · refine untouched directory ⟨?_, name, content, file⟩ within
    rintro rfl
    exact (there.storable sound).rootless name content file

/-- What a delivery holds below a project is what was installed there. -/
theorem Delivery.goods_below (copied : project ∈ delivery.report.copied) (rest : Location) :
    delivery.goods (project.names ++ rest) = delivery.image (project.names ++ rest) := by
  unfold Delivery.goods
  rw [reachOf_append (List.mem_map_of_mem copied)]

variable (gathered : Gathered root deliveries start)
  (sound : ∀ delivery ∈ deliveries, delivery.Sound root)
  (apart : ∀ delivery ∈ deliveries, ∀ other ∈ deliveries, other.name ≠ delivery.name →
    delivery.apartFrom other)
  (handover : Handover target root deliveries start)
  (done : overlay target root start = .ok applied after) (member : delivery ∈ deliveries)
  (copied : project ∈ delivery.report.copied)

include gathered sound apart handover done member copied

/-- Below a project only its own delivery counts. -/
theorem overlay_content_below_project :
    (settles delivery.goods (project.names ++ place) →
      contentOf? (after.entryAt? (start.leadsTo target ++ (project.names ++ place))) =
        contentOf? (delivery.goods (project.names ++ place))) ∧
    (¬ settles delivery.goods (project.names ++ place) →
      contentOf? (after.entryAt? (start.leadsTo target ++ (project.names ++ place))) =
        contentOf? (start.entryAt? (start.leadsTo target ++ (project.names ++ place)))) := by
  have delivered := gathered.delivered sound
  obtain ⟨earlier, later, others, layered⟩ := overlay_deliveries gathered sound handover done member
  have storable := fun other inside => (delivered other inside).storable (sound other inside)
  have open_ : ∀ other ∈ earlier ++ later, ¬ settles other.goods (project.names ++ place) := by
    intro other inside
    obtain ⟨listed, different⟩ := others other inside
    exact (delivered other listed).not_settles_apart (sound other listed)
      (apart delivery member other listed different) copied
  constructor
  · intro settled
    refine layered.settled (fun image behind => ?_) (storable delivery member).rootless settled
      fun image behind => ?_
    · obtain ⟨other, inside, rfl⟩ := List.mem_map.mp behind
      exact (storable other (others other (List.mem_append_right _ inside)).1).tree
    · obtain ⟨other, inside, rfl⟩ := List.mem_map.mp behind
      exact open_ other (List.mem_append_right _ inside)
  · intro unsettled
    have among : ∀ image ∈ earlier.map Delivery.goods ++ delivery.goods :: later.map Delivery.goods,
        ∃ other, image = other.goods ∧ (other = delivery ∨ other ∈ earlier ++ later) := by
      intro image listed
      rw [List.mem_append, List.mem_cons, List.mem_map, List.mem_map] at listed
      rcases listed with ⟨other, inside, rfl⟩ | rfl | ⟨other, inside, rfl⟩
      · exact ⟨other, rfl, .inr (List.mem_append_left _ inside)⟩
      · exact ⟨delivery, rfl, .inl rfl⟩
      · exact ⟨other, rfl, .inr (List.mem_append_right _ inside)⟩
    refine layered.unsettled (fun image listed => ?_) fun image listed => ?_
    · obtain ⟨other, rfl, rfl | inside⟩ := among image listed
      · exact (storable _ member).tree
      · exact (storable other (others other inside).1).tree
    · obtain ⟨other, rfl, rfl | inside⟩ := among image listed
      · exact unsettled
      · exact open_ other inside

/-- Below a project there is nothing but the files of its delivery, when one of these stands in the
directory of the project. -/
theorem overlay_replaces_project {name : String} {content : ByteArray}
    (direct : delivery.image (project.names ++ [name]) = some (.file content)) (below : place ≠ []) :
    contentOf? (after.entryAt? (start.leadsTo target ++ (project.names ++ place))) =
      contentOf? (delivery.image (project.names ++ place)) := by
  rw [← Delivery.goods_below copied]
  refine (overlay_content_below_project gathered sound apart handover done member copied).1 (.inr ?_)
  exact ⟨project.names, name, content, List.prefix_append _ _, by simpa using below,
    (Delivery.goods_below copied [name]).trans direct⟩

/-- Below a project stands a file of its delivery, or one that was there before, where no directory
around it receives a file. -/
theorem overlay_leaves_unsettled (content : ByteArray) :
    after.entryAt? (start.leadsTo target ++ (project.names ++ place)) = some (.file content) ↔
      delivery.image (project.names ++ place) = some (.file content) ∨
        start.entryAt? (start.leadsTo target ++ (project.names ++ place)) = some (.file content) ∧
          ¬ settles delivery.goods (project.names ++ place) := by
  obtain ⟨own, old⟩ := @overlay_content_below_project _ _ _ _ _ _ _ _ place gathered sound apart
    handover done member copied
  simp only [← contentOf?_eq_some_iff]
  rw [← Delivery.goods_below copied]
  by_cases settled : settles delivery.goods (project.names ++ place)
  · rw [own settled]
    constructor
    · exact .inl
    · rintro (there | ⟨-, open_⟩)
      · exact there
      · exact absurd settled open_
  · rw [old settled]
    constructor
    · exact fun there => .inr ⟨there, settled⟩
    · rintro (there | ⟨there, -⟩)
      · exact absurd (.inl ⟨content, contentOf?_eq_some_iff.mp there⟩) settled
      · exact there

end Leftovers

/-! ### A build that installs into a subdirectory -/

/-- A project with a file in a subdirectory only, and a repository with two files of an earlier
build of it: one beside that subdirectory, and one in it. -/
def rebuiltEntries : List (Location × Entry) :=
  [(["p"], .file "<p><groupId>a</groupId><artifactId>a</artifactId><version>a</version></p>".toUTF8),
    (["m"], .directory), (["m", "a"], .directory), (["m", "a", "a"], .directory),
    (["m", "a", "a", "a"], .directory), (["m", "a", "a", "a", "x"], .directory),
    (["m", "a", "a", "a", "x", "a"], .file ⟨#[1]⟩), (["r"], .directory), (["r", "a"], .directory),
    (["r", "a", "a"], .directory), (["r", "a", "a", "a"], .directory),
    (["r", "a", "a", "a", "old"], .file ⟨#[2]⟩), (["r", "a", "a", "a", "x"], .directory),
    (["r", "a", "a", "a", "x", "old"], .file ⟨#[3]⟩)]

def rebuiltDisk : Disk :=
  { entries := rebuiltEntries
    workingDirectory := []
    limits := none
    keysDistinct := by decide +kernel
    parentsThere := by decide +kernel
    namesValid := by decide +kernel }

private theorem rebuilt_run :
    endsWell (backup .default ⟨"p"⟩ ⟨"m"⟩ (Path.joinName ⟨"b"⟩ "c") rebuiltDisk) (fun report start =>
      endsWell (overlay ⟨"r"⟩ ⟨"b"⟩ start) fun _ after => decide (
        report.copied = [⟨"a", "a", "a"⟩] ∧
        (start.workingDirectory = [] ∧ start.limits = none) ∧
        (∀ item ∈ start.entries, ["b"] <+: item.1 → item.1.length = 2 → item.1 = ["b", "c"]) ∧
        (start.entryAt? ["r", "a", "a", "a", "old"] = some (.file ⟨#[2]⟩) ∧
          start.entryAt? ["r", "a", "a", "a", "x", "old"] = some (.file ⟨#[3]⟩)) ∧
        after.entryAt? ["r", "a", "a", "a", "old"] = some (.file ⟨#[2]⟩))) = true := by
  decide +kernel

theorem exists_rebuilt : ∃ report start applied after,
    backup .default ⟨"p"⟩ ⟨"m"⟩ (Path.joinName ⟨"b"⟩ "c") rebuiltDisk = .ok report start ∧
      overlay ⟨"r"⟩ ⟨"b"⟩ start = .ok applied after ∧
      report.copied = [⟨"a", "a", "a"⟩] ∧
      rebuiltDisk.SameSetting start ∧
      (∀ item ∈ start.entries, ["b"] <+: item.1 → item.1.length = 2 → item.1 = ["b", "c"]) ∧
      (start.entryAt? ["r", "a", "a", "a", "old"] = some (.file ⟨#[2]⟩) ∧
        start.entryAt? ["r", "a", "a", "a", "x", "old"] = some (.file ⟨#[3]⟩)) ∧
      after.entryAt? ["r", "a", "a", "a", "old"] = some (.file ⟨#[2]⟩) := by
  obtain ⟨report, start, backedUp, checked⟩ := exists_of_endsWell rebuilt_run
  obtain ⟨applied, after, overlaid, checked⟩ := exists_of_endsWell checked
  obtain ⟨copied, setting, rest⟩ := of_decide_eq_true checked
  exact ⟨report, start, applied, after, backedUp, overlaid, copied, ⟨setting.1, setting.2⟩, rest⟩

private theorem rebuilt_ways : (rebuiltDisk.leadsTo ⟨"b"⟩ = ["b"] ∧
    rebuiltDisk.leadsTo ⟨"m"⟩ = ["m"] ∧ rebuiltDisk.leadsTo ⟨"r"⟩ = ["r"]) ∧
      rebuiltDisk.way ⟨"b"⟩ = [[], ["b"]] ∧ rebuiltDisk.way ⟨"r"⟩ = [[], ["r"]] := by
  decide +kernel

private theorem rebuilt_project : Coordinates.names ⟨"a", "a", "a"⟩ = ["a", "a", "a"] := by
  decide +kernel

private theorem rebuilt_free (place : Location)
    (there : rebuiltDisk.entryAt? (["m"] ++ place) ≠ none) :
    ∀ name ∈ place, Text.endsWith splitSuffix name = false := by
  have listed : ∀ item ∈ rebuiltDisk.entries, ["m"] <+: item.1 → ∀ name ∈ item.1,
      name ∈ ["m", "a", "x"] := by
    decide +kernel
  have plain : ∀ name ∈ ["m", "a", "x"], Text.endsWith splitSuffix name = false := by decide +kernel
  exact fun name member => plain name (mem_of_entries listed there name member)

private theorem rebuilt_alone (report : BackupReport) :
    ∀ delivery ∈ [Delivery.mk "c" rebuiltDisk ⟨"m"⟩ .default report],
      ∀ other ∈ [Delivery.mk "c" rebuiltDisk ⟨"m"⟩ .default report], other.name ≠ delivery.name →
        delivery.apartFrom other := by
  intro delivery member other listed different
  rw [List.mem_singleton.mp member, List.mem_singleton.mp listed] at different
  exact absurd rfl different

/-- The earlier file in the subdirectory is gone. -/
theorem overlay_empties_subdirectory : ∃ deliveries start applied after,
    Gathered ⟨"b"⟩ deliveries start ∧ overlay ⟨"r"⟩ ⟨"b"⟩ start = .ok applied after ∧
      start.entryAt? ["r", "a", "a", "a", "x", "old"] = some (.file ⟨#[3]⟩) ∧
      ∀ content, after.entryAt? ["r", "a", "a", "a", "x", "old"] ≠ some (.file content) := by
  obtain ⟨report, start, applied, after, backedUp, overlaid, copied, setting, folders, ⟨-, before⟩, -⟩ :=
    exists_rebuilt
  obtain ⟨⟨root, repository, target⟩, way, targetWay⟩ := rebuilt_ways
  have gathered : Gathered ⟨"b"⟩ [⟨"c", rebuiltDisk, ⟨"m"⟩, .default, report⟩] start :=
    .backup (.nothing rebuiltDisk) (by decide +kernel) (fun _ absent => nomatch absent) backedUp
  refine ⟨_, start, applied, after, gathered, overlaid, before, fun content left => ?_⟩
  have aim := setting.leadsTo ⟨"r"⟩
  rw [target] at aim
  have left_ : after.entryAt? (start.leadsTo ⟨"r"⟩ ++
      (Coordinates.names ⟨"a", "a", "a"⟩ ++ ["x", "old"])) = some (.file content) := by
    rw [aim, rebuilt_project]
    exact left
  rw [overlay_leaves_unsettled gathered ?sound (rebuilt_alone report) ?handover overlaid
    (List.mem_singleton.mpr rfl) (by rw [copied]; exact List.mem_singleton.mpr rfl) content] at left_
  case sound =>
    intro delivery member
    rw [List.mem_singleton.mp member]
    have folder : Text.endsWith splitSuffix "c" = false := by decide +kernel
    refine Delivery.sound_of_straight ?_ folder copied ?_ ?_ ?_ ?_
    · rw [way, root]
      decide +kernel
    · rw [rebuilt_project]
      decide +kernel
    · rw [repository]
      exact rebuilt_free
    · simp [root, repository]
    · simp [root, repository]
  case handover =>
    rw [← setting.leadsTo] at root target
    rw [← setting.way] at way targetWay
    constructor
    · simp [root, target]
    · simp [root, target]
    · unfold Disk.keepsOut
      rw [target, targetWay]
      decide
    · unfold Disk.keepsOut
      rw [target, way]
      decide
    · intro name there
      rw [root] at there
      have found := folders _ ((entryAt?_eq_some_iff (by simp)).mp there) (List.prefix_append _ _) rfl
      simpa [eq_comm] using found
  rcases left_ with own | ⟨-, open_⟩
  · rw [rebuilt_project] at own
    unfold Delivery.image at own
    dsimp only at own
    rw [repository] at own
    have absent : rebuiltDisk.entryAt? (["m"] ++ (["a", "a", "a"] ++ ["x", "old"])) = none := by
      decide +kernel
    rw [absent] at own
    cases own
  · refine open_ (.inr ⟨["a", "a", "a", "x"], "a", ⟨#[1]⟩, ?_, ?_, ?_⟩)
    · rw [rebuilt_project]
      decide
    · rw [rebuilt_project]
      decide
    · have below := @Delivery.goods_below ⟨"c", rebuiltDisk, ⟨"m"⟩, .default, report⟩
        ⟨"a", "a", "a"⟩ (by rw [copied]; exact List.mem_singleton.mpr rfl) ["x", "a"]
      rw [rebuilt_project] at below
      refine below.trans ?_
      unfold Delivery.image
      dsimp only
      rw [repository]
      decide +kernel

/-- Laying deliveries over a repository leaves nothing of an earlier build below their projects. -/
def ReplacesProjects (target root : Path) (deliveries : List Delivery) (start : Disk) : Prop :=
  Gathered root deliveries start →
  (∀ delivery ∈ deliveries, ∀ project ∈ delivery.report.copied,
    project.names.all isEntryName = true) →
  (∀ delivery ∈ deliveries, ∀ other ∈ deliveries, other.name ≠ delivery.name →
    delivery.apartFrom other) →
  ∀ applied after, overlay target root start = .ok applied after →
    ∀ delivery ∈ deliveries, ∀ project ∈ delivery.report.copied, ∀ place stale content,
      start.entryAt? (start.leadsTo target ++ (project.names ++ place)) = some (.file stale) →
      after.entryAt? (start.leadsTo target ++ (project.names ++ place)) = some (.file content) →
        ∃ own, delivery.image (project.names ++ place) = some (.file own)

/-- The earlier file beside the subdirectory stays. -/
theorem overlay_leaves_stale_file : ∃ report start,
    ¬ ReplacesProjects ⟨"r"⟩ ⟨"b"⟩ [⟨"c", rebuiltDisk, ⟨"m"⟩, .default, report⟩] start := by
  obtain ⟨report, start, applied, after, backedUp, overlaid, copied, setting, -, ⟨before, -⟩, left⟩ :=
    exists_rebuilt
  obtain ⟨⟨-, repository, target⟩, -, -⟩ := rebuilt_ways
  have aim := setting.leadsTo ⟨"r"⟩
  rw [target] at aim
  refine ⟨report, start, fun replaces => ?_⟩
  have gathered : Gathered ⟨"b"⟩ [⟨"c", rebuiltDisk, ⟨"m"⟩, .default, report⟩] start :=
    .backup (.nothing rebuiltDisk) (by decide +kernel) (fun _ absent => nomatch absent) backedUp
  have named : ∀ delivery ∈ [Delivery.mk "c" rebuiltDisk ⟨"m"⟩ .default report],
      ∀ project ∈ delivery.report.copied, project.names.all isEntryName = true := by
    intro delivery member project inside
    rw [List.mem_singleton.mp member, copied, List.mem_singleton] at inside
    rw [inside, rebuilt_project]
    decide +kernel
  obtain ⟨own, file⟩ := replaces gathered named (rebuilt_alone report) applied after overlaid _
    (List.mem_singleton.mpr rfl) ⟨"a", "a", "a"⟩ (by rw [copied]; exact List.mem_singleton.mpr rfl)
    ["old"] ⟨#[2]⟩ ⟨#[2]⟩ (by rw [aim, rebuilt_project]; exact before)
    (by rw [aim, rebuilt_project]; exact left)
  rw [rebuilt_project] at file
  unfold Delivery.image at file
  dsimp only at file
  rw [repository] at file
  have absent : rebuiltDisk.entryAt? (["m"] ++ (["a", "a", "a"] ++ ["old"])) = none := by
    decide +kernel
  rw [absent] at file
  cases file

end CrossBuild.Artifacts
