/-
Projects whose modules lead in a circle.

Nothing remembers which manifests were read before, so collecting a project comes to an end because its
modules do. They do when no manifest leads back to its own file: those on the way down are different
files, and a disk holds only so many. A manifest that leads back to its own path is read again and again.
-/

import CrossBuild.Proofs.Artifacts.Modules
import CrossBuild.Proofs.Files.Effects
import Mathlib.Data.List.Perm.Subperm

namespace CrossBuild.Artifacts

open Files (Path Disk Location Entry)

/-- From one manifest one comes to another over one module at least. -/
def LeadsTo (disk : Disk) : Path → Path → Prop :=
  Relation.TransGen fun outer inner => IsModuleOf disk inner outer

/-- A manifest of the project leads back to its own file, under the same path or under another one. -/
def LeadsBack (disk : Disk) (root : Path) : Prop :=
  ∃ outer path, Reaches disk root outer ∧ LeadsTo disk outer path ∧
    disk.locate? path = disk.locate? outer

/-- Different files that are passed on the way from a root to a manifest. -/
structure Passed (disk : Disk) (root path : Path) (places : List Location) : Prop where
  distinct : places.Nodup
  present : places ⊆ disk.entries.map Prod.fst
  onWay : ∀ place ∈ places, ∃ outer, Reaches disk root outer ∧ LeadsTo disk outer path ∧
    disk.locate? outer = some place

section Circles

variable {disk : Disk} {root path inner : Path} {places : List Location} {pending : List Path}
  {reads : Nat}

/-- A manifest that is loaded is a file somewhere. -/
theorem Loads.located (loads : Loads disk path) :
    ∃ place, disk.locate? path = some place ∧ place ∈ disk.entries.map Prod.fst := by
  obtain ⟨manifest, loaded⟩ := loads
  unfold Manifest.load Disk.readText? at loaded
  cases read : disk.read? path with
  | none =>
      rw [read] at loaded
      cases loaded
  | some content =>
      obtain ⟨place, found, there⟩ := Files.read?_eq_some_iff.mp read
      have inside : place ≠ [] := by
        rintro rfl
        cases there
      exact ⟨place, found, List.mem_map_of_mem ((Files.Disk.entryAt?_eq_some_iff inside).mp there)⟩

/-- What cannot be loaded has no modules. -/
theorem Loads.of_module (listed : IsModuleOf disk inner path) : Loads disk path := by
  unfold IsModuleOf modulesAt at listed
  cases loaded : Manifest.load disk path with
  | ok manifest => exact ⟨manifest, loaded⟩
  | error cause =>
      rw [loaded] at listed
      cases listed

theorem Passed.start : Passed disk root root [] where
  distinct := List.nodup_nil
  present := List.nil_subset _
  onWay := fun _ absent => nomatch absent

/-- There are no more than the disk holds. -/
theorem Passed.length_le (passed : Passed disk root path places) :
    places.length ≤ disk.entries.length := by
  have bound := (List.subperm_of_subset passed.distinct passed.present).length_le
  rwa [List.length_map] at bound

/-- One module further, another file has been passed. -/
theorem Passed.step (onward : ¬ LeadsBack disk root) (reached : Reaches disk root path)
    (passed : Passed disk root path places) (listed : IsModuleOf disk inner path) :
    ∃ place, Passed disk root inner (place :: places) := by
  obtain ⟨place, found, there⟩ := (Loads.of_module listed).located
  have other : place ∉ places := by
    intro again
    obtain ⟨outer, before, leads, same⟩ := passed.onWay place again
    exact onward ⟨outer, path, before, leads, found.trans same.symm⟩
  refine ⟨place, List.nodup_cons.mpr ⟨other, passed.distinct⟩, List.cons_subset.mpr ⟨there, passed.present⟩,
    List.forall_mem_cons.mpr ⟨⟨path, reached, .single listed, found⟩, ?_⟩⟩
  intro earlier member
  obtain ⟨outer, before, leads, same⟩ := passed.onWay earlier member
  exact ⟨outer, before, leads.tail listed, same⟩

/-- Without a way back the modules come to an end. -/
theorem acc_of_onward (onward : ¬ LeadsBack disk root) : Acc (IsModuleOf disk) root := by
  have descends : ∀ room places path, disk.entries.length = places.length + room →
      Reaches disk root path → Passed disk root path places → Acc (IsModuleOf disk) path := by
    intro room
    induction room with
    | zero =>
        intro places path full reached passed
        refine ⟨path, fun inner listed => ?_⟩
        obtain ⟨place, further⟩ := passed.step onward reached listed
        have bound := further.length_le
        rw [List.length_cons] at bound
        omega
    | succ room ih =>
        intro places path full reached passed
        refine ⟨path, fun inner listed => ?_⟩
        obtain ⟨place, further⟩ := passed.step onward reached listed
        refine ih (place :: places) inner ?_ (reached.tail listed) further
        rw [full, List.length_cons]
        omega
  refine descends disk.entries.length [] root ?_ .refl .start
  rw [List.length_nil, Nat.zero_add]

/-- Where modules come to an end, collecting does. -/
theorem collectWithin_of_acc (finite : Acc (IsModuleOf disk) root) :
    ∃ reads, collectWithin disk reads [root] = some (collectCoordinates disk root) := by
  apply collect?_eq_some_iff.mp
  rw [collectCoordinates_preorder finite, @collect?_preorder disk root finite [] [] collect?_nil,
    List.append_nil]

/-- Where modules come to an end, no manifest leads back to its own path. -/
theorem no_circle_of_acc (finite : Acc (IsModuleOf disk) root) (reached : Reaches disk root path) :
    ¬ LeadsTo disk path path := by
  induction finite with
  | intro root inner ih =>
      intro circle
      rcases reaches_iff.mp reached with rfl | ⟨child, listed, further⟩
      · obtain ⟨child, listed, further⟩ := Relation.TransGen.head'_iff.mp circle
        exact ih child listed further circle
      · exact ih child listed further circle

/-- An error is that of a manifest that is reached. -/
theorem reached_of_error {cause : Error} (counted : collectWithin disk reads pending = some (.error cause)) :
    ∃ outer ∈ pending, ∃ path, Reaches disk outer path ∧ Manifest.load disk path = .error cause := by
  induction reads generalizing pending with
  | zero =>
      cases pending with
      | nil => cases counted
      | cons first rest => cases counted
  | succ reads ih =>
      cases pending with
      | nil => cases counted
      | cons first rest =>
          rw [collectWithin] at counted
          cases loaded : Manifest.load disk first with
          | error other =>
              rw [loaded] at counted
              cases counted
              exact ⟨first, List.mem_cons_self, first, .refl, loaded⟩
          | ok manifest =>
              rw [loaded] at counted
              obtain ⟨others, later, same⟩ := Option.map_eq_some_iff.mp counted
              rw [Runs.except_map_error_iff] at same
              rw [same] at later
              obtain ⟨outer, member, path, reached, failed⟩ := ih later
              rcases List.mem_append.mp member with listed | waiting
              · rw [← modulesAt_of_load loaded] at listed
                exact ⟨first, List.mem_cons_self, path, .head listed reached, failed⟩
              · exact ⟨outer, List.mem_cons_of_mem _ waiting, path, reached, failed⟩

/-- When all manifests can be loaded and one leads back to its own path, no number of reads is enough. -/
theorem endless_of_circle (loads : ∀ path, Reaches disk root path → Loads disk path)
    (reached : Reaches disk root path) (circle : LeadsTo disk path path) (reads : Nat) :
    collectWithin disk reads [root] = none := by
  cases counted : collectWithin disk reads [root] with
  | none => rfl
  | some collected =>
      cases collected with
      | ok found =>
          have finite := (collected_of_ok counted root List.mem_cons_self).1
          exact absurd circle (no_circle_of_acc finite reached)
      | error cause =>
          obtain ⟨outer, member, path, reached, failed⟩ := reached_of_error counted
          rw [List.mem_singleton.mp member] at reached
          obtain ⟨manifest, loaded⟩ := loads path reached
          rw [loaded] at failed
          cases failed

/-- What holds of a manifest and is handed on to modules holds of all that is reached. -/
theorem reached_known (known : Path → Prop) (start : known root)
    (closed : ∀ outer, known outer → ∀ inner ∈ modulesAt disk outer, known inner)
    (reached : Reaches disk root path) : known path := by
  induction reached with
  | refl => exact start
  | tail _ listed ih => exact closed _ ih _ listed

/-- Files on deeper and deeper levels do not lead back. -/
theorem onward_of_levels (level : Option Location → Nat) (known : Path → Prop) (start : known root)
    (deeper : ∀ outer, known outer → ∀ inner ∈ modulesAt disk outer,
      known inner ∧ level (disk.locate? outer) < level (disk.locate? inner)) :
    ¬ LeadsBack disk root := by
  have closed : ∀ outer, known outer → ∀ inner ∈ modulesAt disk outer, known inner :=
    fun outer own inner listed => (deeper outer own inner listed).1
  rintro ⟨outer, path, reached, leads, same⟩
  have own := reached_known known start closed reached
  have climbs : level (disk.locate? outer) < level (disk.locate? path) := by
    clear same
    induction leads with
    | single listed => exact (deeper outer own _ listed).2
    | @tail middle inner leads listed ih =>
        have further := reached_known known own closed leads.to_reflTransGen
        exact ih.trans (deeper middle further inner listed).2
  rw [same] at climbs
  exact absurd climbs (Nat.lt_irrefl _)

end Circles

/-- A project comes to an end after some reads, whether paths are limited or not, unless a manifest leads
back to its own file. -/
theorem collecting_ends {disk : Disk} {root : Path} (onward : ¬ LeadsBack disk root) :
    ∃ reads, collectWithin disk reads [root] = some (collectCoordinates disk root) :=
  collectWithin_of_acc (acc_of_onward onward)

/-- In the family of a project, each module lies a level deeper. -/
theorem collecting_of_family_ends : ¬ LeadsBack familyDisk ⟨"p"⟩ ∧
    ∃ reads, collectWithin familyDisk reads [⟨"p"⟩] = some (collectCoordinates familyDisk ⟨"p"⟩) := by
  have onward : ¬ LeadsBack familyDisk ⟨"p"⟩ := by
    refine onward_of_levels (fun place => if place = some ["p"] then 0
      else if place = some ["k", "pom.xml"] then 2 else 1)
      (fun path => path ∈ [⟨"p"⟩, ⟨"n/pom.xml"⟩, ⟨"o/pom.xml"⟩, ⟨"n/../k/pom.xml"⟩]) ?_ ?_
    · decide
    · decide +kernel
  exact ⟨onward, collecting_ends onward⟩

/-- A project that is its own module. -/
def circularEntries : List (Location × Entry) :=
  [(["a"], .directory), (["a", "pom.xml"],
    .file ("<p><groupId>a</groupId><artifactId>a</artifactId><version>a</version>".toUTF8 ++
      "<modules><module>.</module></modules></p>".toUTF8))]

def circularDisk : Disk :=
  { entries := circularEntries
    workingDirectory := []
    limits := none
    keysDistinct := by decide +kernel
    parentsThere := by decide +kernel
    namesValid := by decide +kernel }

/-- The path of the module does not grow, so no limit ends it either. -/
theorem circular_project_endless :
    ¬ ∃ reads collected, collectWithin circularDisk reads [⟨"a/pom.xml"⟩] = some collected := by
  have first : modulesAt circularDisk ⟨"a/pom.xml"⟩ = [⟨"a/./pom.xml"⟩] := by
    decide +kernel
  have again : modulesAt circularDisk ⟨"a/./pom.xml"⟩ = [⟨"a/./pom.xml"⟩] := by
    decide +kernel
  have listed : IsModuleOf circularDisk ⟨"a/./pom.xml"⟩ ⟨"a/pom.xml"⟩ := by
    rw [IsModuleOf, first]
    exact List.mem_cons_self
  have own : IsModuleOf circularDisk ⟨"a/./pom.xml"⟩ ⟨"a/./pom.xml"⟩ := by
    rw [IsModuleOf, again]
    exact List.mem_cons_self
  have loads : ∀ path, Reaches circularDisk ⟨"a/pom.xml"⟩ path → Loads circularDisk path := by
    intro path reached
    have known : path ∈ [⟨"a/pom.xml"⟩, ⟨"a/./pom.xml"⟩] := by
      refine reached_known (fun path => path ∈ [⟨"a/pom.xml"⟩, ⟨"a/./pom.xml"⟩]) (by decide) ?_ reached
      decide +kernel
    rw [List.mem_cons, List.mem_singleton] at known
    rcases known with rfl | rfl
    · exact .of_module listed
    · exact .of_module own
  rintro ⟨reads, collected, counted⟩
  rw [endless_of_circle loads (.single listed) (.single own)] at counted
  cases counted

end CrossBuild.Artifacts
