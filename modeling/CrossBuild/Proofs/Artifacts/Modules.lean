/-
Projects with their modules.

The manifests of a project form a tree: each is followed by those of its modules. Collecting goes through
a list of pending manifests instead, and is shown here to visit the tree in preorder, up to the first
manifest that cannot be loaded. Nothing keeps a manifest from leading back to itself, so the tree has to
be known to be finite.
-/

import CrossBuild.Artifacts.Manifest
import CrossBuild.Proofs.Files.Entries
import CrossBuild.Proofs.Runs
import Mathlib.Logic.Relation

namespace CrossBuild.Artifacts

open Files (Path Disk Location Entry)

/-- The manifests of the modules of a manifest; there are none where it cannot be loaded. -/
def modulesAt (disk : Disk) (path : Path) : List Path :=
  match Manifest.load disk path with
  | .ok manifest => manifest.moduleManifests
  | .error _ => []

def IsModuleOf (disk : Disk) (inner outer : Path) : Prop :=
  inner ∈ modulesAt disk outer

/-- A manifest can be loaded. -/
def Loads (disk : Disk) (path : Path) : Prop :=
  ∃ manifest, Manifest.load disk path = .ok manifest

/-- From a manifest one comes to itself, to its modules and to theirs. -/
def Reaches (disk : Disk) : Path → Path → Prop :=
  Relation.ReflTransGen fun outer inner => IsModuleOf disk inner outer

/-- The coordinates of the project of a manifest alone. -/
def coordinatesAt (disk : Disk) (path : Path) : Except Error Coordinates :=
  (Manifest.load disk path).map Manifest.coordinates

/-- A manifest, then the same for each of its modules in order. -/
noncomputable def preorder (disk : Disk) (path : Path) (finite : Acc (IsModuleOf disk) path) : List Path :=
  Acc.rec (motive := fun _ _ => List Path)
    (fun path _ visits => path :: (modulesAt disk path).attach.flatMap fun inner =>
      visits inner.val inner.property) finite

section Modules

variable {disk : Disk} {path outer inner root : Path} {pending : List Path} {reads : Nat}
  {collected : Except Error (List Coordinates)} {found : List Coordinates}

theorem preorder_eq (finite : Acc (IsModuleOf disk) path) :
    preorder disk path finite = path :: (modulesAt disk path).attach.flatMap fun inner =>
      preorder disk inner.val (finite.inv inner.property) := by
  cases finite
  rfl

theorem modulesAt_of_load {manifest : Manifest} (loaded : Manifest.load disk path = .ok manifest) :
    modulesAt disk path = manifest.moduleManifests := by
  rw [modulesAt, loaded]

theorem reaches_iff :
    Reaches disk root path ↔ root = path ∨ ∃ inner, IsModuleOf disk inner root ∧ Reaches disk inner path :=
  Relation.ReflTransGen.cases_head_iff

/-- What is reached from a manifest is what is visited. -/
theorem mem_preorder_iff (finite : Acc (IsModuleOf disk) root) :
    path ∈ preorder disk root finite ↔ Reaches disk root path := by
  induction finite with
  | intro root inner ih =>
      rw [preorder_eq, List.mem_cons, List.mem_flatMap, reaches_iff]
      constructor
      · rintro (rfl | ⟨⟨child, listed⟩, -, visited⟩)
        · exact .inl rfl
        · exact .inr ⟨child, listed, (ih child listed).mp visited⟩
      · rintro (rfl | ⟨child, listed, further⟩)
        · exact .inl rfl
        · exact .inr ⟨⟨child, listed⟩, List.mem_attach _ _, (ih child listed).mpr further⟩

/-! ### Counting reads -/

theorem collect?_nil : (Unread.mk disk []).collect? = some (.ok []) :=
  Unread.collect?.eq_def _

/-- Reading one manifest more. -/
theorem collect?_cons (path : Path) (rest : List Path) :
    (Unread.mk disk (path :: rest)).collect? =
      match Manifest.load disk path with
      | .error cause => some (.error cause)
      | .ok manifest => (Unread.mk disk (manifest.moduleManifests ++ rest)).collect?.map fun collected =>
          collected.map fun found => manifest.coordinates :: found :=
  Unread.collect?.eq_def _

/-- Collecting comes to an end if it does so after some number of reads. -/
theorem collect?_eq_some_iff :
    (Unread.mk disk pending).collect? = some collected ↔
      ∃ reads, collectWithin disk reads pending = some collected := by
  constructor
  · refine Unread.collect?.partial_correctness
      (fun unread collected => ∃ reads, collectWithin unread.disk reads unread.paths = some collected)
      (fun recurse known unread collected ended => ?_) (Unread.mk disk pending) collected
    split at ended
    · rename_i nothing
      exact ⟨0, by rw [nothing]; exact ended⟩
    · rename_i path rest more
      rw [more]
      split at ended
      · rename_i cause failed
        exact ⟨1, by rw [collectWithin, failed]; exact ended⟩
      · rename_i manifest loaded
        obtain ⟨others, later, same⟩ := Option.map_eq_some_iff.mp ended
        obtain ⟨reads, counted⟩ := known _ _ later
        refine ⟨reads + 1, ?_⟩
        rw [collectWithin, loaded]
        dsimp only at counted ⊢
        rw [counted, Option.map_some, same]
  · rintro ⟨reads, counted⟩
    induction reads generalizing pending collected with
    | zero =>
        cases pending with
        | nil => exact collect?_nil.trans counted
        | cons path rest => cases counted
    | succ reads ih =>
        cases pending with
        | nil => exact collect?_nil.trans counted
        | cons path rest =>
            rw [collectWithin] at counted
            rw [collect?_cons]
            cases loaded : Manifest.load disk path with
            | error cause =>
                rw [loaded] at counted
                exact counted
            | ok manifest =>
                rw [loaded] at counted
                obtain ⟨others, later, same⟩ := Option.map_eq_some_iff.mp counted
                exact Option.map_eq_some_iff.mpr ⟨others, ih later, same⟩

/-- That reads are counted at first makes no difference. -/
theorem collectCoordinates_eq (disk : Disk) (root : Path) :
    collectCoordinates disk root = (Unread.mk disk [root]).collect?.getD (.error (.endlessModules root)) := by
  unfold collectCoordinates
  cases counted : collectWithin disk readAllowance [root] with
  | none => rfl
  | some collected => rw [collect?_eq_some_iff.mpr ⟨readAllowance, counted⟩, Option.getD_some]

/-- A list is only given when all manifests that are reached have been loaded, and none of them has led
back to itself. -/
theorem collected_of_ok (counted : collectWithin disk reads pending = some (.ok found)) :
    ∀ path ∈ pending, Acc (IsModuleOf disk) path ∧ ∀ inner, Reaches disk path inner → Loads disk inner := by
  induction reads generalizing pending found with
  | zero =>
      cases pending with
      | nil => exact fun _ absent => nomatch absent
      | cons path rest => cases counted
  | succ reads ih =>
      cases pending with
      | nil => exact fun _ absent => nomatch absent
      | cons path rest =>
          rw [collectWithin] at counted
          cases loaded : Manifest.load disk path with
          | error cause =>
              rw [loaded] at counted
              cases counted
          | ok manifest =>
              rw [loaded] at counted
              obtain ⟨others, later, same⟩ := Option.map_eq_some_iff.mp counted
              obtain ⟨inside, rfl, -⟩ := Runs.except_map_ok_iff.mp same
              have further := ih later
              have modules : ∀ inner, IsModuleOf disk inner path → inner ∈ manifest.moduleManifests ++ rest := by
                intro inner listed
                rw [IsModuleOf, modulesAt_of_load loaded] at listed
                exact List.mem_append_left _ listed
              rw [List.forall_mem_cons]
              refine ⟨⟨⟨path, fun inner listed => (further inner (modules inner listed)).1⟩, ?_⟩,
                fun other member => further other (List.mem_append_right _ member)⟩
              intro inner reached
              rcases reaches_iff.mp reached with rfl | ⟨child, listed, reached⟩
              · exact ⟨manifest, loaded⟩
              · exact (further child (modules child listed)).2 inner reached

/-! ### The order of visits -/

/-- Behind a manifest whose modules come to an end, collecting goes on as if it had started there. -/
theorem collect?_preorder (finite : Acc (IsModuleOf disk) path) {rest visits : List Path}
    (later : (Unread.mk disk rest).collect? = some (visits.mapM (coordinatesAt disk))) :
    (Unread.mk disk (path :: rest)).collect? =
      some ((preorder disk path finite ++ visits).mapM (coordinatesAt disk)) := by
  induction finite generalizing rest visits with
  | intro path inner ih =>
      rw [collect?_cons, preorder_eq, List.cons_append, List.mapM_cons, coordinatesAt]
      cases loaded : Manifest.load disk path with
      | error cause => rfl
      | ok manifest =>
          have modules : ∀ listed : List { child // child ∈ modulesAt disk path },
              (Unread.mk disk (listed.map Subtype.val ++ rest)).collect? = some
                ((listed.flatMap (fun child => preorder disk child.val (inner child.val child.property)) ++
                  visits).mapM (coordinatesAt disk)) := by
            intro listed
            induction listed with
            | nil => exact later
            | cons child others step =>
                rw [List.map_cons, List.cons_append, List.flatMap_cons, List.append_assoc]
                exact ih child.val child.property step
          have all := modules (modulesAt disk path).attach
          rw [List.attach_map_subtype_val] at all
          dsimp only
          rw [← modulesAt_of_load loaded, all, Option.map_some]
          apply congrArg some
          generalize List.mapM (coordinatesAt disk) _ = result
          cases result with
          | ok found => rfl
          | error cause => rfl

theorem collectCoordinates_preorder (finite : Acc (IsModuleOf disk) root) :
    collectCoordinates disk root = (preorder disk root finite).mapM (coordinatesAt disk) := by
  have collected := @collect?_preorder disk root finite [] [] collect?_nil
  rw [collectCoordinates_eq, collected, List.append_nil, Option.getD_some]

theorem coordinatesAt_ok_iff {coordinates : Coordinates} :
    coordinatesAt disk path = .ok coordinates ↔
      ∃ manifest, Manifest.load disk path = .ok manifest ∧ manifest.coordinates = coordinates :=
  Runs.except_map_ok_iff

theorem coordinatesAt_error_iff {cause : Error} :
    coordinatesAt disk path = .error cause ↔ Manifest.load disk path = .error cause :=
  Runs.except_map_error_iff

theorem exists_coordinatesAt_iff :
    (∃ coordinates, coordinatesAt disk path = .ok coordinates) ↔ Loads disk path := by
  simp only [coordinatesAt_ok_iff, Loads]
  constructor
  · rintro ⟨_, manifest, loaded, -⟩
    exact ⟨manifest, loaded⟩
  · rintro ⟨manifest, loaded⟩
    exact ⟨_, manifest, loaded, rfl⟩

end Modules

/-- Collecting visits manifests in this order: it gives the coordinates of all, if all those reached can
be loaded, and otherwise the cause of the first that cannot. -/
structure CollectsInOrder (disk : Disk) (root : Path) (visits : List Path) : Prop where
  reached : ∀ path, path ∈ visits ↔ Reaches disk root path
  succeeds : (∃ found, collectCoordinates disk root = .ok found) ↔
    ∀ path, Reaches disk root path → Loads disk path
  found : ∀ found, collectCoordinates disk root = .ok found →
    List.Forall₂ (fun path coordinates => ∃ manifest, Manifest.load disk path = .ok manifest ∧
      manifest.coordinates = coordinates) visits found
  failed : ∀ cause, collectCoordinates disk root = .error cause ↔
    ∃ before path after, visits = before ++ path :: after ∧
      (∀ other ∈ before, Loads disk other) ∧ Manifest.load disk path = .error cause

/-- Where modules come to an end, manifests are visited in preorder. -/
theorem manifests_visited_in_preorder {disk : Disk} {root : Path}
    (finite : Acc (IsModuleOf disk) root) :
    CollectsInOrder disk root (preorder disk root finite) where
  reached := fun _ => mem_preorder_iff finite
  succeeds := by
    rw [collectCoordinates_preorder finite, Runs.mapM_exists_iff]
    simp only [exists_coordinatesAt_iff, mem_preorder_iff finite]
  found := by
    intro found collected
    rw [collectCoordinates_preorder finite] at collected
    exact (Runs.mapM_each collected).imp fun _ _ => coordinatesAt_ok_iff.mp
  failed := by
    intro cause
    rw [collectCoordinates_preorder finite, Runs.mapM_error_iff]
    simp only [exists_coordinatesAt_iff, coordinatesAt_error_iff]

/-- A project that lists one module twice, with a module of that module in another directory. -/
def familyEntries : List (Location × Entry) :=
  [(["p"], .file ("<p><groupId>a</groupId><artifactId>a</artifactId><version>a</version><modules>".toUTF8 ++
      "<module>n</module><module>o</module><module>n</module></modules></p>".toUTF8)),
    (["n"], .directory), (["n", "pom.xml"],
      .file ("<p><parent><groupId>b</groupId><version>b</version></parent><artifactId>b</artifactId>".toUTF8 ++
        "<modules><module>../k</module></modules></p>".toUTF8)),
    (["o"], .directory), (["o", "pom.xml"],
      .file "<p><groupId>c</groupId><artifactId>c</artifactId><version>c</version></p>".toUTF8),
    (["k"], .directory), (["k", "pom.xml"],
      .file "<p><groupId>d</groupId><artifactId>d</artifactId><version>d</version></p>".toUTF8)]

def familyDisk : Disk :=
  { entries := familyEntries
    workingDirectory := []
    limits := none
    keysDistinct := by decide +kernel
    parentsThere := by decide +kernel
    namesValid := by decide +kernel }

/-- The repeated module is visited twice, each time before its own module. -/
theorem family_visited_in_preorder : ∃ finite : Acc (IsModuleOf familyDisk) ⟨"p"⟩,
    CollectsInOrder familyDisk ⟨"p"⟩ (preorder familyDisk ⟨"p"⟩ finite) ∧
      collectCoordinates familyDisk ⟨"p"⟩ =
        .ok [⟨"a", "a", "a"⟩, ⟨"b", "b", "b"⟩, ⟨"d", "d", "d"⟩, ⟨"c", "c", "c"⟩, ⟨"b", "b", "b"⟩,
          ⟨"d", "d", "d"⟩] := by
  have counted : collectWithin familyDisk 6 [⟨"p"⟩] =
      some (.ok [⟨"a", "a", "a"⟩, ⟨"b", "b", "b"⟩, ⟨"d", "d", "d"⟩, ⟨"c", "c", "c"⟩, ⟨"b", "b", "b"⟩,
        ⟨"d", "d", "d"⟩]) := by
    decide +kernel
  have finite := (collected_of_ok counted ⟨"p"⟩ List.mem_cons_self).1
  refine ⟨finite, manifests_visited_in_preorder finite, ?_⟩
  rw [collectCoordinates_eq, collect?_eq_some_iff.mpr ⟨6, counted⟩, Option.getD_some]

end CrossBuild.Artifacts
