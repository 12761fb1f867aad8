/-
Backups that cannot start.

A backup takes the place of the one before it, which is removed first. What can be known to go wrong is
found out before that: whether the root manifest and the repository are there, and whether each manifest
of the project can be read and says what it has to. A backup that stops there has not changed anything.
-/

import CrossBuild.Artifacts.Backup
import CrossBuild.Proofs.Artifacts.Circles

namespace CrossBuild.Artifacts

open Files (Path Disk Location Entry)

/-- The coordinates a manifest has to give, in the order in which they are looked for. -/
def coordinateNames : List String :=
  ["groupId", "artifactId", "version"]

/-- Why a manifest cannot be used. -/
inductive Unusable (disk : Disk) (path : Path) : Error → Prop
  | unreadable (unread : disk.readText? path = none) :
      Unusable disk path (.refused .readFile path)
  | malformed {text : String} (read : disk.readText? path = some text) (broken : Xml.read? text = none) :
      Unusable disk path (.malformedManifest path)
  | incomplete {text name : String} {project : Xml.Node} {before after : List String}
      (read : disk.readText? path = some text) (parsed : Xml.read? text = some project)
      (order : coordinateNames = before ++ name :: after)
      (given : ∀ other ∈ before, Manifest.coordinate? project other ≠ none)
      (missing : Manifest.coordinate? project name = none) :
      Unusable disk path (.incompleteManifest path name)

/-- Why a backup cannot start. The last case is that of a project without end, which is never reported. -/
inductive CannotStart (disk : Disk) (root repository : Path) : Error → Prop
  | noRoot (absent : disk.isFile root = false) :
      CannotStart disk root repository (.invalidPath noRootManifest root)
  | noRepository (there : disk.isFile root = true) (absent : disk.isDirectory repository = false) :
      CannotStart disk root repository (.invalidPath noRepository repository)
  | manifest {path : Path} {cause : Error} (reached : Reaches disk root path)
      (unusable : Unusable disk path cause) : CannotStart disk root repository cause
  | endless (endless : ∀ reads, collectWithin disk reads [root] = none) :
      CannotStart disk root repository (.endlessModules root)

/-- The kinds of causes that keep a backup from starting. -/
def Error.isOfStart : Error → Bool
  | .invalidPath _ _ | .malformedManifest _ | .incompleteManifest _ _ | .endlessModules _ => true
  | .refused operation _ => operation = .readFile
  | .capacity _ _ _ | .missingPart _ _ _ => false

/-- An action that fails for other causes only. -/
structure Working {α : Type} (action : Action α) : Prop where
  ends : ∀ disk, Runs.Ends (fun _ _ => True) (fun cause _ => cause.isOfStart = false) (action disk)

section Starting

variable {disk : Disk} {path root repository folder : Path} {cause : Error} {threshold : Threshold}

theorem requireCoordinate_ok_iff {project : Xml.Node} {name text : String} :
    Manifest.requireCoordinate path project name = .ok text ↔
      Manifest.coordinate? project name = some text := by
  unfold Manifest.requireCoordinate
  cases Manifest.coordinate? project name with
  | none => simp
  | some other => simp

theorem requireCoordinate_error_iff {project : Xml.Node} {name : String} :
    Manifest.requireCoordinate path project name = .error cause ↔
      Manifest.coordinate? project name = none ∧ cause = .incompleteManifest path name := by
  unfold Manifest.requireCoordinate
  cases Manifest.coordinate? project name with
  | none => simp [eq_comm]
  | some other => simp

/-- A project is refused for the first of its coordinates that is missing. -/
theorem ofText_error_iff {project : Xml.Node} {text : String} (parsed : Xml.read? text = some project) :
    Manifest.ofText path text = .error cause ↔
      coordinateNames.mapM (Manifest.requireCoordinate path project) = .error cause := by
  unfold Manifest.ofText coordinateNames
  rw [parsed]
  have same : ∀ other, (Except.error other : Except Error Manifest) = .error cause ↔
      (Except.error other : Except Error (List String)) = .error cause := by
    simp
  simp only [List.mapM_cons, List.mapM_nil]
  cases Manifest.requireCoordinate path project "groupId" with
  | error other => exact same other
  | ok group =>
      cases Manifest.requireCoordinate path project "artifactId" with
      | error other => exact same other
      | ok artifact =>
          cases Manifest.requireCoordinate path project "version" with
          | error other => exact same other
          | ok version =>
              constructor
              · intro failed
                cases failed
              · intro failed
                cases failed

theorem load_error_iff : Manifest.load disk path = .error cause ↔ Unusable disk path cause := by
  unfold Manifest.load
  cases read : disk.readText? path with
  | none =>
      constructor
      · intro failed
        cases failed
        exact .unreadable read
      · intro unusable
        cases unusable with
        | unreadable => rfl
        | malformed given => rw [read] at given; cases given
        | incomplete given => rw [read] at given; cases given
  | some text =>
      cases parsed : Xml.read? text with
      | none =>
          have broken : Manifest.ofText path text = .error (.malformedManifest path) := by
            unfold Manifest.ofText
            rw [parsed]
            rfl
          constructor
          · intro failed
            cases broken.symm.trans failed
            exact .malformed read parsed
          · intro unusable
            cases unusable with
            | unreadable unread => rw [read] at unread; cases unread
            | malformed => exact broken
            | incomplete given known =>
                cases read.symm.trans given
                cases parsed.symm.trans known
      | some project =>
          dsimp only
          rw [ofText_error_iff parsed, Runs.mapM_error_iff]
          constructor
          · rintro ⟨before, name, after, order, given, failed⟩
            obtain ⟨missing, rfl⟩ := requireCoordinate_error_iff.mp failed
            refine .incomplete read parsed order (fun other member => ?_) missing
            obtain ⟨value, found⟩ := given other member
            rw [requireCoordinate_ok_iff.mp found]
            exact Option.some_ne_none value
          · intro unusable
            cases unusable with
            | unreadable unread => rw [read] at unread; cases unread
            | malformed given broken =>
                cases read.symm.trans given
                cases parsed.symm.trans broken
            | @incomplete other name _ before after given known order earlier missing =>
                cases read.symm.trans given
                cases parsed.symm.trans known
                refine ⟨before, name, after, order, fun other member => ?_,
                  requireCoordinate_error_iff.mpr ⟨missing, rfl⟩⟩
                obtain ⟨value, found⟩ := Option.ne_none_iff_exists'.mp (earlier other member)
                exact ⟨value, requireCoordinate_ok_iff.mpr found⟩

/-! ### What is found out first -/

/-- When a manifest that is reached cannot be used, collecting fails. -/
theorem collecting_fails (reached : Reaches disk root path) (unusable : Unusable disk path cause) :
    ∃ other, CannotStart disk root repository other ∧ collectCoordinates disk root = .error other := by
  rw [collectCoordinates_eq]
  cases collected : (Unread.mk disk [root]).collect? with
  | none =>
      refine ⟨_, .endless fun reads => ?_, Option.getD_none⟩
      cases counted : collectWithin disk reads [root] with
      | none => rfl
      | some result =>
          rw [collect?_eq_some_iff.mpr ⟨reads, counted⟩] at collected
          cases collected
  | some result =>
      obtain ⟨reads, counted⟩ := collect?_eq_some_iff.mp collected
      cases result with
      | ok found =>
          obtain ⟨manifest, loaded⟩ := (collected_of_ok counted root List.mem_cons_self).2 path reached
          rw [load_error_iff.mpr unusable] at loaded
          cases loaded
      | error other =>
          obtain ⟨outer, member, first, before, failed⟩ := reached_of_error counted
          rw [List.mem_singleton.mp member] at before
          exact ⟨other, .manifest before (load_error_iff.mp failed), rfl⟩

/-- A backup looks at these before it removes anything. -/
theorem backup_eq : backup threshold root repository folder disk =
    if disk.isFile root = false then .error (.invalidPath noRootManifest root) disk
    else if disk.isDirectory repository = false then .error (.invalidPath noRepository repository) disk
    else match collectCoordinates disk root with
      | .error cause => .error cause disk
      | .ok projects => (do
          removeExisting folder
          attempt .makeDirectories folder (Files.makeDirectories folder)
          backupProjects threshold repository folder projects : Action BackupReport) disk := by
  unfold backup
  rw [Runs.get_bind]
  cases disk.isFile root with
  | false => rfl
  | true =>
      cases disk.isDirectory repository with
      | false => rfl
      | true =>
          cases collectCoordinates disk root with
          | error cause => rfl
          | ok projects => rfl

/-! ### What is done then -/

theorem Working.bind {α β : Type} {first : Action α} {next : α → Action β} (working : Working first)
    (further : ∀ value, Working (next value)) : Working (first >>= next) := by
  refine ⟨fun disk => ?_⟩
  rw [Runs.ends_bind_iff]
  exact (working.ends disk).mono (fun value middle _ => (further value).ends middle) fun _ _ other => other

theorem Working.get_bind {β : Type} {next : Disk → Action β} (further : ∀ disk, Working (next disk)) :
    Working (get >>= next) := ⟨fun disk => (further disk).ends disk⟩

theorem Working.pure {α : Type} (value : α) : Working (pure value : Action α) := ⟨fun _ => trivial⟩

theorem Working.throw {α : Type} (other : cause.isOfStart = false) : Working (throw cause : Action α) :=
  ⟨fun _ => other⟩

theorem Working.discard {α : Type} {action : Action α} (working : Working action) :
    Working (discard action) := by
  refine ⟨fun disk => ?_⟩
  rw [Runs.ends_discard_iff]
  exact working.ends disk

theorem Working.attempt {α : Type} {operation : Operation} {access : Files.Access α}
    (other : operation ≠ .readFile) : Working (attempt operation path access) := by
  refine ⟨fun disk => ?_⟩
  unfold Artifacts.attempt
  rw [Runs.ends_adaptExcept_iff]
  refine .of_results (fun _ _ _ => trivial) fun _ _ _ => ?_
  simpa [Error.isOfStart] using other

theorem Working.forM {α : Type} {action : α → Action PUnit} {items : List α}
    (working : ∀ item, Working (action item)) : Working (items.forM action) :=
  ⟨fun _ => Runs.ends_forM (fun _ _ => True) trivial fun _ item _ state _ _ => (working item).ends state⟩

theorem working_removeExisting : Working (removeExisting path) := by
  refine .get_bind fun disk => ?_
  split
  · exact .attempt (by decide)
  · exact .pure ()

theorem working_writeParts {parts : List ByteArray} {index : Nat} : Working (writeParts path index parts) := by
  induction parts generalizing index with
  | nil => exact .pure ()
  | cons part rest ih => exact .bind (.attempt (by decide)) fun _ => ih

theorem working_storeParts {directory : Path} : Working (storeParts threshold path directory) := by
  refine .get_bind fun disk => ?_
  split
  · exact working_writeParts
  · exact .bind (.attempt (by decide)) fun _ => .throw rfl
  · exact .throw rfl

theorem working_splitFile : Working (splitFile threshold path) := by
  refine .get_bind fun disk => ?_
  split
  · exact .throw rfl
  · dsimp only
    split
    · exact .pure none
    · split
      · exact .throw rfl
      · refine .bind working_removeExisting fun _ => ?_
        refine .bind (.attempt (by decide)) fun _ => ?_
        refine .bind (.attempt (by decide)) fun _ => ?_
        refine .bind working_storeParts fun _ => ?_
        exact .bind (.attempt (by decide)) fun _ => .pure _

theorem working_splitChildren : Working (splitChildren threshold path) := by
  refine .get_bind fun disk => ?_
  split
  · exact .throw rfl
  · refine .forM fun name => .get_bind fun disk => ?_
    split
    · exact .discard working_splitFile
    · exact .pure ()

theorem working_replaceFile {source target : Path} : Working (replaceFile source target) := by
  refine .get_bind fun disk => ?_
  split
  · exact .bind (.attempt (by decide)) fun _ => .attempt (by decide)
  · exact .attempt (by decide)

/-- A visitor whose actions do not fail for causes of the start makes walks that do not. -/
theorem working_walkWithin {visitor : Visitor Disk} {levels : Nat} {spot : Spot}
    (before : ∀ spot, Working (visitor.before spot)) (file : ∀ spot, Working (visitor.file spot))
    (after : ∀ spot, Working (visitor.after spot)) :
    Working (visitor.walkWithin id levels spot) := by
  induction levels generalizing spot with
  | zero => exact .throw rfl
  | succ levels ih =>
      refine .bind (before spot) fun descent => ?_
      cases descent with
      | skip => exact .pure ()
      | enter =>
          refine .get_bind fun disk => ?_
          split
          · exact .throw rfl
          · refine .bind (.forM fun name => .get_bind fun disk => ?_) fun _ => after spot
            split
            · exact ih
            · exact file (spot.child name)

theorem working_copyTree {source target : Path} : Working (copyTree source target (.split threshold)) := by
  refine .get_bind fun disk => working_walkWithin (fun spot => ?_) (fun spot => working_replaceFile)
    fun spot => working_splitChildren
  exact .bind (.attempt (by decide)) fun _ => .pure _

theorem working_backupProject {coordinates : Coordinates} :
    Working (backupProject threshold repository folder coordinates) := by
  refine .get_bind fun disk => ?_
  split
  · refine .bind (.attempt (by decide)) fun _ => ?_
    exact .bind working_copyTree fun _ => .pure true
  · exact .pure false

theorem working_backupProjects {projects : List Coordinates} :
    Working (backupProjects threshold repository folder projects) := by
  induction projects with
  | nil => exact .pure _
  | cons coordinates rest ih =>
      refine .bind working_backupProject fun installed => .bind ih fun report => ?_
      split
      · exact .pure _
      · exact .pure _

/-- A cause of such a kind is found before anything is removed. -/
theorem unchanged_of_start {after : Disk} (kind : cause.isOfStart = true)
    (failed : backup threshold root repository folder disk = .error cause after) : after = disk := by
  rw [backup_eq] at failed
  split at failed
  · cases failed
    rfl
  · split at failed
    · cases failed
      rfl
    · split at failed
      · cases failed
        rfl
      · rename_i projects collected
        have working : Working (do
            removeExisting folder
            attempt .makeDirectories folder (Files.makeDirectories folder)
            backupProjects threshold repository folder projects) := by
          refine .bind working_removeExisting fun _ => ?_
          exact .bind (.attempt (by decide)) fun _ => working_backupProjects
        rw [(working.ends disk).error failed] at kind
        cases kind

end Starting

/-- Without a root manifest, a repository or one of the manifests of the project, a backup fails and
leaves everything as it was, and so does each backup that reports such a cause. -/
theorem failed_start_changes_nothing (threshold : Threshold) (root repository folder : Path) (disk : Disk) :
    ((disk.isFile root = false ∨ disk.isDirectory repository = false ∨
        ∃ path cause, Reaches disk root path ∧ Unusable disk path cause) →
      ∃ cause, CannotStart disk root repository cause ∧
        backup threshold root repository folder disk = .error cause disk) ∧
    ∀ cause after, cause.isOfStart = true →
      backup threshold root repository folder disk = .error cause after → after = disk := by
  refine ⟨fun cannot => ?_, fun cause after kind failed => unchanged_of_start kind failed⟩
  rw [backup_eq]
  cases rootThere : disk.isFile root with
  | false => exact ⟨_, .noRoot rootThere, rfl⟩
  | true =>
      cases repositoryThere : disk.isDirectory repository with
      | false => exact ⟨_, .noRepository rootThere repositoryThere, rfl⟩
      | true =>
          rw [rootThere, repositoryThere] at cannot
          rcases cannot with absent | absent | ⟨path, cause, reached, unusable⟩
          · cases absent
          · cases absent
          · obtain ⟨other, known, failed⟩ := @collecting_fails disk path root repository cause reached unusable
            refine ⟨other, known, ?_⟩
            rw [failed]
            rfl

/-- A project with a module whose own module has no version, a repository and an older backup. -/
def unfinishedEntries : List (Location × Entry) :=
  [(["p"], .file ("<p><groupId>a</groupId><artifactId>a</artifactId><version>a</version>".toUTF8 ++
      "<modules><module>n</module></modules></p>".toUTF8)),
    (["n"], .directory), (["n", "pom.xml"],
      .file ("<p><groupId>b</groupId><artifactId>b</artifactId><version>b</version>".toUTF8 ++
        "<modules><module>../k</module></modules></p>".toUTF8)),
    (["k"], .directory), (["k", "pom.xml"],
      .file "<p><groupId>c</groupId><artifactId>c</artifactId></p>".toUTF8),
    (["m"], .directory), (["c"], .directory), (["c", "f"], .file ⟨#[1]⟩)]

def unfinishedDisk : Disk :=
  { entries := unfinishedEntries
    workingDirectory := []
    limits := none
    keysDistinct := by decide +kernel
    parentsThere := by decide +kernel
    namesValid := by decide +kernel }

/-- The older backup stays. -/
theorem backup_of_unfinished_changes_nothing :
    (∃ path cause, Reaches unfinishedDisk ⟨"p"⟩ path ∧ Unusable unfinishedDisk path cause) ∧
      ∃ cause, CannotStart unfinishedDisk ⟨"p"⟩ ⟨"m"⟩ cause ∧
        backup (.ofBytes 2) ⟨"p"⟩ ⟨"m"⟩ ⟨"c"⟩ unfinishedDisk = .error cause unfinishedDisk := by
  have outer : IsModuleOf unfinishedDisk ⟨"n/pom.xml"⟩ ⟨"p"⟩ := by
    unfold IsModuleOf
    decide +kernel
  have inner : IsModuleOf unfinishedDisk ⟨"n/../k/pom.xml"⟩ ⟨"n/pom.xml"⟩ := by
    unfold IsModuleOf
    decide +kernel
  have failed : Manifest.load unfinishedDisk ⟨"n/../k/pom.xml"⟩ =
      .error (.incompleteManifest ⟨"n/../k/pom.xml"⟩ "version") := by
    decide +kernel
  have broken : ∃ path cause, Reaches unfinishedDisk ⟨"p"⟩ path ∧ Unusable unfinishedDisk path cause :=
    ⟨_, _, .head outer (.single inner), load_error_iff.mp failed⟩
  exact ⟨broken, (failed_start_changes_nothing (.ofBytes 2) ⟨"p"⟩ ⟨"m"⟩ ⟨"c"⟩ unfinishedDisk).1
    (.inr (.inr broken))⟩

end CrossBuild.Artifacts
