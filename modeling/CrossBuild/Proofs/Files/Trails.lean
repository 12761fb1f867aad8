/-
Where paths lead.

The place a path leads to is a matter of its pieces alone: the disk decides only whether the path
can be followed. So a path that can be followed after a change leads where it led before, and what
has to be known of the change is which of the directories on the way are still there.
-/

import CrossBuild.Proofs.Files.Entries
import CrossBuild.Proofs.Files.Leading

namespace CrossBuild.Files

/-- The place one piece of a path further. -/
def Location.step (place : Location) (segment : String) : Location :=
  if segment = "" || segment = "." then place
  else if segment = ".." then place.dropLast
  else place ++ [segment]

/-- The places a path passes, from its start to where it leads. -/
def trail (start : Location) : List String → List Location
  | [] => [start]
  | segment :: rest => start :: trail (start.step segment) rest

def destination (start : Location) (segments : List String) : Location :=
  segments.foldl Location.step start

namespace Disk

def origin (disk : Disk) (path : Path) : Location :=
  if path.isAbsolute then [] else disk.workingDirectory

/-- Where a path leads, if it can be followed. -/
def leadsTo (disk : Disk) (path : Path) : Location :=
  destination (disk.origin path) path.segments

/-- The places a path passes. -/
def way (disk : Disk) (path : Path) : List Location :=
  trail (disk.origin path) path.segments

/-- The path and its names keep to the limits. -/
def permits (disk : Disk) (path : Path) : Prop :=
  disk.admits path = true ∧
    ∀ segment ∈ path.segments, Path.isIdle segment = true ∨ segment = ".." ∨
      disk.admitsName segment = true

instance (disk : Disk) (path : Path) : Decidable (disk.permits path) :=
  inferInstanceAs (Decidable (_ ∧ _))

/-- The path passes nothing below a place. -/
def keepsOut (disk : Disk) (path : Path) (top : Location) : Prop :=
  ∀ place ∈ disk.way path, top <+: place → place = top

/-- Wherever the path does not just go down to where it leads, it passes directories. -/
def detoursStand (disk : Disk) (path : Path) : Prop :=
  ∀ place ∈ disk.way path, place <+: disk.leadsTo path ∨ disk.entryAt? place = some .directory

/-- All places on the way are directories, the last one included. -/
def stands (disk : Disk) (path : Path) : Prop :=
  ∀ place ∈ disk.way path, disk.entryAt? place = some .directory

end Disk

section Steps

theorem step_of_idle {segment : String} (idle : Path.isIdle segment = true) (place : Location) :
    place.step segment = place := by
  unfold Path.isIdle at idle
  rw [Location.step, if_pos idle]

theorem step_of_name {name : String} (valid : isEntryName name = true) (place : Location) :
    place.step name = place ++ [name] := by
  obtain ⟨nonempty, dot, dots, -, -⟩ := isEntryName_iff.mp valid
  simp [Location.step, nonempty, dot, dots]

theorem destination_append (start : Location) (front back : List String) :
    destination start (front ++ back) = destination (destination start front) back := by
  unfold destination
  exact List.foldl_append

theorem destination_of_names {names : List String} (valid : names.all isEntryName = true)
    (start : Location) : destination start names = start ++ names := by
  induction names generalizing start with
  | nil => simp [destination]
  | cons name rest ih =>
      rw [List.all_cons, Bool.and_eq_true] at valid
      unfold destination
      rw [List.foldl_cons, step_of_name valid.1]
      have further := ih valid.2 (start ++ [name])
      unfold destination at further
      rw [further, List.append_assoc, List.singleton_append]

theorem destination_of_idle {segments : List String}
    (idle : ∀ segment ∈ segments, Path.isIdle segment = true) (start : Location) :
    destination start segments = start := by
  induction segments generalizing start with
  | nil => rfl
  | cons segment rest ih =>
      unfold destination
      rw [List.foldl_cons, step_of_idle (idle segment List.mem_cons_self)]
      exact ih (fun other member => idle other (List.mem_cons_of_mem _ member)) start

theorem destination_mem_trail (start : Location) (segments : List String) :
    destination start segments ∈ trail start segments := by
  induction segments generalizing start with
  | nil => exact List.mem_singleton.mpr rfl
  | cons segment rest ih => exact List.mem_cons_of_mem _ (ih _)

theorem trail_concat (start : Location) (front : List String) (last : String) :
    trail start (front ++ [last]) = trail start front ++ [destination start (front ++ [last])] := by
  induction front generalizing start with
  | nil => rfl
  | cons segment rest ih =>
      rw [List.cons_append, trail, ih]
      rfl

theorem trail_eq_concat (start : Location) (segments : List String) :
    trail start segments = (trail start segments).dropLast ++ [destination start segments] := by
  cases segments using List.reverseRecOn with
  | nil => rfl
  | append_singleton front last => rw [trail_concat, List.dropLast_concat]

theorem start_mem_trail (start : Location) (segments : List String) :
    start ∈ trail start segments := by
  cases segments <;> exact List.mem_cons_self

theorem mem_trail_append {start place : Location} {front back : List String} :
    place ∈ trail start (front ++ back) ↔
      place ∈ trail start front ∨ place ∈ trail (destination start front) back := by
  induction front generalizing start with
  | nil =>
      constructor
      · exact .inr
      · rintro (atStart | behind)
        · rw [List.mem_singleton.mp atStart]
          exact start_mem_trail start back
        · exact behind
  | cons segment rest ih =>
      have further : destination start (segment :: rest) = destination (start.step segment) rest := rfl
      rw [List.cons_append, trail, trail, List.mem_cons, List.mem_cons, ih, further, or_assoc]

theorem mem_trail_of_idle {start place : Location} {segments : List String}
    (idle : ∀ segment ∈ segments, Path.isIdle segment = true) :
    place ∈ trail start segments ↔ place = start := by
  induction segments generalizing start with
  | nil => exact List.mem_singleton
  | cons segment rest ih =>
      have others : ∀ other ∈ rest, Path.isIdle other = true :=
        fun other member => idle other (List.mem_cons_of_mem _ member)
      rw [trail, List.mem_cons, step_of_idle (idle segment List.mem_cons_self), ih others, or_self]

/-- Segments that lead nowhere add nothing to the places that are passed. -/
theorem mem_trail_append_idle {start place : Location} {front back : List String}
    (idle : ∀ segment ∈ back, Path.isIdle segment = true) :
    place ∈ trail start (front ++ back) ↔ place ∈ trail start front := by
  rw [mem_trail_append, mem_trail_of_idle idle]
  constructor
  · rintro (inside | atEnd)
    · exact inside
    · rw [atEnd]
      exact destination_mem_trail _ _
  · exact .inl

theorem mem_trail_of_names {start place : Location} {names : List String}
    (valid : names.all isEntryName = true) :
    place ∈ trail start names ↔ ∃ front, front <+: names ∧ place = start ++ front := by
  induction names generalizing start with
  | nil =>
      rw [trail, List.mem_singleton]
      constructor
      · rintro rfl
        exact ⟨[], List.prefix_rfl, by simp⟩
      · rintro ⟨front, within, rfl⟩
        rw [List.prefix_nil.mp within, List.append_nil]
  | cons name rest ih =>
      rw [List.all_cons, Bool.and_eq_true] at valid
      rw [trail, List.mem_cons, step_of_name valid.1, ih valid.2]
      constructor
      · rintro (rfl | ⟨front, within, rfl⟩)
        · exact ⟨[], List.nil_prefix, by simp⟩
        · exact ⟨name :: front, List.cons_prefix_cons.mpr ⟨rfl, within⟩, by simp⟩
      · rintro ⟨front, within, rfl⟩
        cases front with
        | nil => exact .inl (List.append_nil start)
        | cons first others =>
            obtain ⟨rfl, inner⟩ := List.cons_prefix_cons.mp within
            exact .inr ⟨others, inner, by simp⟩

end Steps

namespace Disk

/-- A path can be followed when it keeps to the limits and passes directories only. -/
theorem follow?_eq_some_iff {disk : Disk} {start location : Location} {segments : List String} :
    disk.follow? start segments = some location ↔
      (∀ place ∈ (trail start segments).dropLast, disk.entryAt? place = some .directory) ∧
        (∀ segment ∈ segments, Path.isIdle segment = true ∨ segment = ".." ∨
          disk.admitsName segment = true) ∧
        location = destination start segments := by
  induction segments generalizing start with
  | nil =>
      simp only [follow?, trail, destination, List.foldl_nil, Option.some.injEq, List.dropLast_singleton,
        List.not_mem_nil, false_implies, implies_true, true_and]
      exact eq_comm
  | cons segment rest ih =>
      have way : (trail start (segment :: rest)).dropLast =
          start :: (trail (start.step segment) rest).dropLast := by
        cases rest <;> rfl
      have aim : destination start (segment :: rest) = destination (start.step segment) rest := rfl
      rw [way, aim]
      simp only [List.forall_mem_cons]
      unfold follow?
      by_cases there : disk.entryAt? start = some .directory
      · have standing : disk.isDirectoryAt start = true := isDirectoryAt_iff.mpr there
        rw [standing]
        simp only [Bool.not_true, Bool.false_eq_true, if_false, there, true_and]
        by_cases idle : Path.isIdle segment = true
        · have blank : (segment = "" || segment = ".") = true := idle
          rw [if_pos blank, ih, step_of_idle idle]
          simp only [idle, true_or, true_and]
        · have counts : ¬ (segment = "" || segment = ".") = true := idle
          rw [if_neg counts]
          by_cases up : segment = ".."
          · have upward : start.step segment = start.dropLast := by
              rw [Location.step, if_neg counts, if_pos up]
            rw [if_pos up, ih, upward]
            simp only [up, true_or, or_true, true_and]
          · have downward : start.step segment = start ++ [segment] := by
              rw [Location.step, if_neg counts, if_neg up]
            rw [if_neg up, downward]
            by_cases admitted : disk.admitsName segment = true
            · rw [if_pos admitted, ih]
              simp only [admitted, or_true, true_and]
            · rw [if_neg admitted]
              simp only [idle, up, admitted, or_self, false_and, and_false, reduceCtorEq]
      · have missing : disk.isDirectoryAt start = false :=
          Bool.eq_false_iff.mpr fun standing => there (isDirectoryAt_iff.mp standing)
        rw [missing]
        simp only [Bool.not_false, if_true, there, false_and, reduceCtorEq]

theorem locate?_eq_some_iff {disk : Disk} {path : Path} {location : Location} :
    disk.locate? path = some location ↔
      disk.permits path ∧ (∀ place ∈ (disk.way path).dropLast, disk.entryAt? place = some .directory) ∧
        location = disk.leadsTo path := by
  unfold locate? permits way leadsTo origin
  by_cases admitted : disk.admits path = true
  · rw [if_pos admitted, follow?_eq_some_iff]
    constructor
    · rintro ⟨open_, names, aim⟩
      exact ⟨⟨admitted, names⟩, open_, aim⟩
    · rintro ⟨⟨-, names⟩, open_, aim⟩
      exact ⟨open_, names, aim⟩
  · rw [if_neg admitted]
    simp only [admitted, Bool.false_eq_true, false_and, reduceCtorEq]

theorem leadsTo_of_locate? {disk : Disk} {path : Path} {location : Location}
    (found : disk.locate? path = some location) : location = disk.leadsTo path :=
  (locate?_eq_some_iff.mp found).2.2

theorem permits_of_locate? {disk : Disk} {path : Path} {location : Location}
    (found : disk.locate? path = some location) : disk.permits path :=
  (locate?_eq_some_iff.mp found).1

theorem permits.spelled {disk : Disk} {path : Path} (permitted : disk.permits path) :
    path.text ≠ "" := by
  have admitted := permitted.1
  unfold admits at admitted
  simp only [Bool.and_eq_true, decide_eq_true_eq] at admitted
  exact admitted.1.1

/-- A path leads to a directory when it keeps to the limits and all places on the way are
directories. -/
theorem isDirectory_iff {disk : Disk} {path : Path} :
    disk.isDirectory path = true ↔ disk.permits path ∧ disk.stands path := by
  have found : disk.isDirectory path = true ↔
      ∃ location, disk.locate? path = some location ∧ disk.entryAt? location = some .directory := by
    simp [isDirectory, find?, Option.bind_eq_some_iff]
  rw [found]
  unfold stands
  rw [show disk.way path = (disk.way path).dropLast ++ [disk.leadsTo path] from
    trail_eq_concat (disk.origin path) path.segments, List.forall_mem_append]
  simp only [locate?_eq_some_iff, List.mem_singleton, forall_eq]
  constructor
  · rintro ⟨location, ⟨permitted, passed, rfl⟩, there⟩
    exact ⟨permitted, passed, there⟩
  · rintro ⟨permitted, passed, there⟩
    exact ⟨_, ⟨permitted, passed, rfl⟩, there⟩

theorem locate?_of_isDirectory {disk : Disk} {path : Path} (there : disk.isDirectory path = true) :
    disk.locate? path = some (disk.leadsTo path) := by
  obtain ⟨permitted, standing⟩ := isDirectory_iff.mp there
  exact locate?_eq_some_iff.mpr
    ⟨permitted, fun place member => standing place (List.dropLast_subset _ member), rfl⟩

theorem entryAt?_leadsTo_of_stands {disk : Disk} {path : Path} (standing : disk.stands path) :
    disk.entryAt? (disk.leadsTo path) = some .directory :=
  standing _ (destination_mem_trail _ _)

/-- Where such a path cannot be followed there is nothing. -/
theorem entryAt?_below_of_not_stands {disk : Disk} {path : Path} (detours : disk.detoursStand path)
    (missing : ¬ disk.stands path) (names : List String) (some : names ≠ []) :
    disk.entryAt? (disk.leadsTo path ++ names) = none := by
  cases there : disk.entryAt? (disk.leadsTo path ++ names) with
  | none => rfl
  | some entry =>
      exfalso
      apply missing
      intro place member
      rcases detours place member with ⟨rest, down⟩ | standing
      · have above : disk.entryAt? (place ++ (rest ++ names)) = Option.some entry := by
          rw [← List.append_assoc, down]
          exact there
        exact entryAt?_above above (by simp [some])
      · exact standing

theorem keepsOut.append {disk : Disk} {path : Path} {top : Location}
    (outside : disk.keepsOut path top) (names : List String) : disk.keepsOut path (top ++ names) := by
  intro place member within
  have atTop := outside place member ((List.prefix_append top names).trans within)
  rw [atTop] at within ⊢
  have done : names = [] := by
    have lengths := within.length_le
    rw [List.length_append] at lengths
    exact List.eq_nil_of_length_eq_zero (by omega)
  rw [done, List.append_nil]

/-- A path that passes directories only passes nothing below a place that has none below it. -/
theorem stands.keepsOut {disk : Disk} {path : Path} {top : Location} (standing : disk.stands path)
    (flat : ∀ rest, rest ≠ [] → disk.entryAt? (top ++ rest) ≠ some .directory) :
    disk.keepsOut path top := by
  rintro place member ⟨rest, rfl⟩
  by_cases done : rest = []
  · rw [done, List.append_nil]
  · exact absurd (standing _ member) (flat rest done)

theorem list?_eq_some_iff {disk : Disk} {path : Path} {names : List String} :
    disk.list? path = some names ↔
      disk.isDirectory path = true ∧ names = disk.childNames (disk.leadsTo path) := by
  unfold list?
  cases found : disk.locate? path with
  | none => simp [isDirectory, find?, found]
  | some location =>
      have aim := leadsTo_of_locate? found
      subst aim
      simp only [isDirectory, find?, found, Option.bind_some, isDirectoryAt]
      by_cases there : disk.entryAt? (disk.leadsTo path) = some .directory
      · simp only [there, decide_true, if_true, Option.some.injEq, true_and]
        exact eq_comm
      · simp only [there, decide_false, Bool.false_eq_true, if_false, reduceCtorEq, false_and]

/-- The last piece of a path that can be followed does not count, goes up or is a name, and before it
the path comes to a directory. -/
theorem last_of_locate? {disk : Disk} {path : Path} {location : Location} {front : List String}
    {last : String} (whole : path.segments = front ++ [last])
    (found : disk.locate? path = some location) :
    disk.entryAt? (destination (disk.origin path) front) = some .directory ∧
      location = (destination (disk.origin path) front).step last ∧
        (Path.isIdle last = true ∨ last = ".." ∨ isEntryName last = true) := by
  obtain ⟨⟨admitted, -⟩, passed, aim⟩ := locate?_eq_some_iff.mp found
  refine ⟨?_, ?_, ?_⟩
  · apply passed
    unfold way
    rw [whole, trail_concat, List.dropLast_concat]
    exact destination_mem_trail _ _
  · rw [aim, leadsTo, whole, destination_append]
    rfl
  · by_cases idle : Path.isIdle last = true
    · exact .inl idle
    · by_cases up : last = ".."
      · exact .inr (.inl up)
      · have piece : last ∈ Text.split '/' path.text := by
          apply Path.mem_split_of_mem_segments
          rw [whole]
          exact List.mem_append_right _ (List.mem_singleton.mpr rfl)
        have noNull : '\x00' ∉ path.text.toList := by
          unfold admits at admitted
          simp only [Bool.and_eq_true, Bool.not_eq_true', List.contains_eq_mem,
            decide_eq_false_iff_not] at admitted
          exact admitted.1.2
        simp only [Path.isIdle, Bool.or_eq_true, decide_eq_true_eq, not_or] at idle
        exact .inr (.inr (isEntryName_iff.mpr ⟨idle.1, idle.2, up, Text.not_mem_of_mem_split piece,
          fun inside => noNull (Text.mem_of_mem_split piece inside)⟩))

/-- A place that a path leads to can hold an entry: its directory is there, and its names are
names. -/
theorem room_of_locate? {disk : Disk} {path : Path} {location : Location}
    (found : disk.locate? path = some location) :
    disk.entryAt? location.dropLast = some .directory ∧ location.all isEntryName = true := by
  obtain ⟨front, last, whole⟩ : ∃ front last, path.segments = front ++ [last] :=
    ⟨_, _, (List.dropLast_concat_getLast (Path.segments_ne_nil path)).symm⟩
  obtain ⟨before, rfl, kind⟩ := last_of_locate? whole found
  rcases kind with idle | rfl | isName
  · rw [step_of_idle idle]
    exact ⟨entryAt?_dropLast before, namesValid_of_entryAt? before⟩
  · have above := entryAt?_dropLast before
    exact ⟨entryAt?_dropLast above, namesValid_of_entryAt? above⟩
  · rw [step_of_name isName, List.dropLast_concat]
    exact ⟨before, all_isEntryName_concat.mpr ⟨namesValid_of_entryAt? before, isName⟩⟩

/-- A path that leads to a file has the name of the file at its end. -/
theorem exists_joinName_of_file {disk : Disk} {path : Path} {location : Location}
    {content : ByteArray} (found : disk.locate? path = some location)
    (there : disk.entryAt? location = some (.file content)) :
    ∃ (directory : Path) (name : String), isEntryName name = true ∧ path = directory.joinName name := by
  obtain ⟨front, last, whole⟩ : ∃ front last, path.segments = front ++ [last] :=
    ⟨_, _, (List.dropLast_concat_getLast (Path.segments_ne_nil path)).symm⟩
  obtain ⟨before, rfl, kind⟩ := last_of_locate? whole found
  rcases kind with idle | rfl | isName
  · rw [step_of_idle idle, before] at there
    cases there
  · have above := entryAt?_dropLast before
    change disk.entryAt? (destination (disk.origin path) front).dropLast = _ at there
    rw [above] at there
    cases there
  · obtain ⟨directory, same⟩ := Path.exists_eq_joinName whole isName
    exact ⟨directory, last, isName, same⟩

/-- A path that ends in a dot or two leads to a directory, if it can be followed. -/
theorem entryAt?_of_locate?_dots {disk : Disk} {path : Path} {segment : String}
    {location : Location} (dots : segment = "." ∨ segment = "..")
    (found : disk.locate? (path.joinName segment) = some location) :
    disk.entryAt? location = some .directory := by
  have relative : Path.isAbsolute ⟨segment⟩ = false ∧ Path.segments ⟨segment⟩ = [segment] := by
    rcases dots with rfl | rfl <;> decide
  obtain ⟨-, passed, aim⟩ := locate?_eq_some_iff.mp found
  rw [leadsTo, Path.joinName, Path.segments_join relative.1, relative.2] at aim
  rw [way, Path.joinName, Path.segments_join relative.1, relative.2, trail_concat,
    List.dropLast_concat] at passed
  have before := passed _ (destination_mem_trail _ _)
  rw [aim, destination_append]
  rcases dots with rfl | rfl
  · exact before
  · exact entryAt?_dropLast before

/-- A path whose last component is a name leads to an entry with that name. -/
theorem leadsTo_of_fileName? (disk : Disk) {path : Path} {name : String}
    (own : path.fileName? = some name) (nonempty : name ≠ "") :
    ∃ top, disk.leadsTo path = top ++ [name] := by
  unfold Path.fileName? Path.trimmed at own
  simp only [Option.filter_eq_some_iff, Bool.and_eq_true, decide_eq_true_eq] at own
  obtain ⟨last, noDot, noDots⟩ := own
  obtain ⟨front, whole⟩ := List.getLast?_eq_some_iff.mp last
  obtain ⟨rest, split, idle⟩ := Path.trimEnd_append_idle path.isAbsolute path.segments
  refine ⟨destination (disk.origin path) front, ?_⟩
  rw [leadsTo, split, whole, destination_append, destination_of_idle idle, destination_append]
  simp [destination, Location.step, nonempty, noDot, noDots]

/-- A path made of the first pieces of another passes only places that the other one passes. -/
theorem way_of_front {disk : Disk} {path shorter : Path} {front : List String}
    (absolute : shorter.isAbsolute = path.isAbsolute)
    (pieces : shorter.segments = if front = [] then [""] else front) :
    disk.leadsTo shorter = destination (disk.origin path) front ∧
      ∀ place, place ∈ disk.way shorter ↔ place ∈ trail (disk.origin path) front := by
  have same : disk.origin shorter = disk.origin path := by
    unfold origin
    rw [absolute]
  have idle : ∀ segment ∈ [""], Path.isIdle segment = true := by simp [Path.isIdle]
  unfold leadsTo way
  rw [same, pieces]
  split
  · rename_i empty
    rw [empty]
    exact ⟨destination_of_idle idle _, fun place => by
      rw [mem_trail_of_idle idle, trail, List.mem_singleton]⟩
  · exact ⟨rfl, fun _ => .rfl⟩

theorem way_of_leading {disk : Disk} {path : Path} {front back : List String}
    (whole : path.segments = front ++ back) :
    disk.leadsTo (path.leading front) = destination (disk.origin path) front ∧
      ∀ place, place ∈ disk.way (path.leading front) ↔ place ∈ trail (disk.origin path) front := by
  obtain ⟨absolute, pieces⟩ := Path.segments_leading whole
  obtain ⟨aim, passed⟩ := @way_of_front disk _ _ _ absolute pieces
  obtain ⟨rest, split, idle⟩ := Path.trimEnd_append_idle path.isAbsolute front
  generalize Path.trimEnd path.isAbsolute front = kept at split passed aim
  constructor
  · rw [aim, split, destination_append, destination_of_idle idle]
  · intro place
    rw [passed, split, mem_trail_append_idle idle]

/-! ### Names behind a path -/

/-- The stem of a path passes the same places and leads to the same one. -/
theorem way_of_stem (disk : Disk) (path : Path) :
    destination (disk.origin path) path.stem = disk.leadsTo path ∧
      ∀ place, place ∈ trail (disk.origin path) path.stem ↔ place ∈ disk.way path := by
  unfold leadsTo way
  rcases path.segments_eq_stem with whole | whole
  · rw [whole]
    exact ⟨rfl, fun _ => .rfl⟩
  · have idle : ∀ segment ∈ [""], Path.isIdle segment = true := by simp [Path.isIdle]
    rw [whole, destination_append, destination_of_idle idle]
    exact ⟨rfl, fun place => (mem_trail_append_idle idle).symm⟩

/-- A dot or two behind the path of a directory lead to a directory. -/
theorem stands_joinName_dots {disk : Disk} {path : Path} {segment : String}
    (dots : segment = "." ∨ segment = "..") (standing : disk.stands path) :
    disk.stands (path.joinName segment) := by
  have noSlash : '/' ∉ segment.toList := by
    rcases dots with rfl | rfl <;> decide
  obtain ⟨relative, single⟩ := Path.segments_of_noSlash noSlash
  have top := entryAt?_leadsTo_of_stands standing
  intro place member
  rw [way, origin, Path.joinName, Path.isAbsolute_join relative, Path.segments_join relative, single,
    trail_concat, List.mem_append, List.mem_singleton, destination_append] at member
  rcases member with before | rfl
  · exact standing place (((way_of_stem disk path).2 place).mp before)
  · change disk.entryAt? ((destination (disk.origin path) path.stem).step segment) = _
    rw [(way_of_stem disk path).1]
    rcases dots with rfl | rfl
    · exact top
    · exact entryAt?_dropLast top

section JoinNames

variable {disk : Disk} {path : Path} {names : List String} (valid : names.all isEntryName = true)

include valid

theorem origin_joinNames : disk.origin (path.joinNames names) = disk.origin path := by
  unfold origin
  rw [Path.isAbsolute_joinNames valid]

theorem leadsTo_joinNames :
    disk.leadsTo (path.joinNames names) = disk.leadsTo path ++ names := by
  rw [leadsTo, origin_joinNames valid, Path.segments_joinNames valid, destination_append,
    (way_of_stem disk path).1]
  split
  · rename_i empty
    rw [empty, destination_of_idle (by simp [Path.isIdle]), List.append_nil]
  · exact destination_of_names valid _

theorem mem_way_joinNames {place : Location} :
    place ∈ disk.way (path.joinNames names) ↔
      place ∈ disk.way path ∨ ∃ front, front <+: names ∧ place = disk.leadsTo path ++ front := by
  rw [way, origin_joinNames valid, Path.segments_joinNames valid, mem_trail_append,
    (way_of_stem disk path).2, (way_of_stem disk path).1]
  split
  · rename_i empty
    rw [empty, mem_trail_of_idle (by simp [Path.isIdle])]
    simp [List.prefix_nil]
  · rw [mem_trail_of_names valid]

theorem stands_joinNames :
    disk.stands (path.joinNames names) ↔
      disk.stands path ∧ disk.entryAt? (disk.leadsTo path ++ names) = some .directory := by
  unfold stands
  simp only [mem_way_joinNames valid]
  constructor
  · intro all
    exact ⟨fun place member => all place (.inl member),
      all _ (.inr ⟨names, List.prefix_rfl, rfl⟩)⟩
  · rintro ⟨standing, there⟩ place (member | ⟨front, ⟨rest, whole⟩, rfl⟩)
    · exact standing place member
    · by_cases done : rest = []
      · rw [done, List.append_nil] at whole
        rw [whole]
        exact there
      · rw [← whole, ← List.append_assoc] at there
        exact entryAt?_above there done

theorem locate?_joinNames_iff {location : Location} :
    disk.locate? (path.joinNames names) = some location ↔
      disk.permits (path.joinNames names) ∧ disk.stands path ∧
        disk.entryAt? (disk.leadsTo path ++ names.dropLast) = some .directory ∧
          location = disk.leadsTo path ++ names := by
  have passed : (∀ place ∈ (disk.way (path.joinNames names)).dropLast,
      disk.entryAt? place = some .directory) ↔
        disk.stands path ∧ disk.entryAt? (disk.leadsTo path ++ names.dropLast) = some .directory := by
    unfold way
    rw [origin_joinNames valid, Path.segments_joinNames valid]
    by_cases empty : names = []
    · subst empty
      rw [if_pos rfl, trail_concat, List.dropLast_concat]
      simp only [(way_of_stem disk path).2, List.dropLast_nil, List.append_nil]
      exact ⟨fun all => ⟨all, entryAt?_leadsTo_of_stands all⟩, And.left⟩
    · obtain ⟨front, last, whole⟩ : ∃ front last, names = front ++ [last] :=
        ⟨_, _, (List.dropLast_concat_getLast empty).symm⟩
      rw [whole] at valid
      have fine := (all_isEntryName_append.mp valid).1
      rw [if_neg empty, whole, ← List.append_assoc, trail_concat, List.dropLast_concat,
        List.dropLast_concat, ← stands_joinNames fine]
      unfold stands
      simp only [mem_trail_append, (way_of_stem disk path).1, (way_of_stem disk path).2,
        mem_way_joinNames fine, mem_trail_of_names fine]
  rw [locate?_eq_some_iff, leadsTo_joinNames valid, passed, and_assoc]

end JoinNames

theorem keepsOut.joinNames {disk : Disk} {path : Path} {names : List String}
    (outside : disk.keepsOut path (disk.leadsTo path ++ names))
    (valid : names.all isEntryName = true) :
    disk.keepsOut (path.joinNames names) (disk.leadsTo (path.joinNames names)) := by
  rw [leadsTo_joinNames valid]
  intro place member within
  rcases (mem_way_joinNames valid).mp member with before | ⟨front, start, rfl⟩
  · exact outside place before within
  · rw [List.prefix_append_right_inj] at within
    rw [List.IsPrefix.eq_of_length_le within start.length_le]

theorem leadsTo_joinName (disk : Disk) (path : Path) {name : String}
    (valid : isEntryName name = true) :
    disk.leadsTo (path.joinName name) = disk.leadsTo path ++ [name] := by
  have all : [name].all isEntryName = true := by simpa using valid
  rw [Path.joinName_eq_joinNames, leadsTo_joinNames all]

theorem mem_way_joinName {disk : Disk} {path : Path} {name : String} {place : Location}
    (valid : isEntryName name = true) : place ∈ disk.way (path.joinName name) ↔
      place ∈ disk.way path ∨ place = disk.leadsTo path ++ [name] := by
  have all : [name].all isEntryName = true := by simpa using valid
  rw [Path.joinName_eq_joinNames, mem_way_joinNames all]
  constructor
  · rintro (before | ⟨front, within, rfl⟩)
    · exact .inl before
    · rcases List.prefix_concat_iff.mp (show front <+: [] ++ [name] from within) with whole | start
      · rw [whole]
        exact .inr rfl
      · rw [List.prefix_nil.mp start, List.append_nil]
        exact .inl (destination_mem_trail _ _)
  · rintro (before | rfl)
    · exact .inl before
    · exact .inr ⟨_, List.prefix_rfl, rfl⟩

/-- A tidied path passes the same places and leads to the same one. -/
theorem way_of_tidied (disk : Disk) (path : Path) :
    disk.leadsTo path.tidied = disk.leadsTo path ∧
      ∀ place, place ∈ disk.way path.tidied ↔ place ∈ disk.way path := by
  obtain ⟨_, whole⟩ := path.exists_segments_eq_stem
  obtain ⟨aim, passed⟩ := @way_of_leading disk _ _ _ whole
  obtain ⟨stemAim, stemPassed⟩ := way_of_stem disk path
  exact ⟨aim.trans stemAim, fun place => (passed place).trans (stemPassed place)⟩

/-! ### Paths with fewer names -/

section Permitted

variable {disk : Disk} {path : Path}

theorem admits_of_longer {short long : Path} {rest : String} (longer : long.text = short.text ++ rest)
    (spelled : short.text ≠ "") (admitted : disk.admits long = true) : disk.admits short = true := by
  unfold admits at admitted ⊢
  rw [longer, String.toList_append, String.utf8ByteSize_append] at admitted
  simp only [Bool.and_eq_true, decide_eq_true_eq, Bool.not_eq_true', List.contains_eq_mem,
    decide_eq_false_iff_not, List.mem_append, not_or] at admitted ⊢
  obtain ⟨⟨-, noNull⟩, short_⟩ := admitted
  refine ⟨⟨spelled, noNull.1⟩, ?_⟩
  cases limited : disk.limits with
  | none => rfl
  | some limits =>
      rw [limited] at short_
      simp only [decide_eq_true_eq] at short_ ⊢
      omega

theorem permits_joinNames_front {front back : List String}
    (valid : (front ++ back).all isEntryName = true) (some : front ≠ [])
    (permitted : disk.permits (path.joinNames (front ++ back))) :
    disk.permits (path.joinNames front) := by
  have all := all_isEntryName_append.mp valid
  obtain ⟨rest, longer⟩ := Path.text_joinNames_append path valid some
  constructor
  · exact admits_of_longer longer (Path.joinNames_text_ne_empty all.1 (.inr some)) permitted.1
  · intro segment member
    apply permitted.2
    rw [Path.segments_joinNames all.1, if_neg some] at member
    rw [Path.segments_joinNames valid, if_neg (by simp [some])]
    rcases List.mem_append.mp member with stem | name
    · exact List.mem_append_left _ stem
    · exact List.mem_append_right _ (List.mem_append_left _ name)

/-- A name that is no longer than one in a path fits as well. -/
theorem admitsName_shorter {disk : Disk} {short long : String} (fine : isEntryName long = true)
    (shorter : short.utf8ByteSize ≤ long.utf8ByteSize)
    (fits : Path.isIdle long = true ∨ long = ".." ∨ disk.admitsName long = true) :
    disk.admitsName short = true := by
  obtain ⟨nonempty, dot, dots, -⟩ := isEntryName_iff.mp fine
  unfold Path.isIdle at fits
  simp only [nonempty, dot, dots, decide_false, Bool.or_self, Bool.false_eq_true, false_or] at fits
  unfold admitsName at fits ⊢
  cases limited : disk.limits with
  | none => rfl
  | some limits =>
      rw [limited] at fits
      simp only [decide_eq_true_eq] at fits ⊢
      omega

/-- What stands before the last name may be cut short, and so may the last name. -/
private theorem admits_of_shorter {short long : Path} {front middle ending longer : String}
    (spelled : short.text = front ++ ending) (whole : long.text = front ++ middle ++ longer)
    (some : ending ≠ "") (noNull : '\x00' ∉ ending.toList)
    (shorter : ending.utf8ByteSize ≤ longer.utf8ByteSize) (admitted : disk.admits long = true) :
    disk.admits short = true := by
  unfold admits at admitted ⊢
  rw [whole] at admitted
  rw [spelled]
  simp only [String.toList_append, String.utf8ByteSize_append, Bool.and_eq_true,
    decide_eq_true_eq, Bool.not_eq_true', List.contains_eq_mem, decide_eq_false_iff_not,
    List.mem_append, not_or] at admitted ⊢
  obtain ⟨⟨-, fromFront, -⟩, fits⟩ := admitted
  refine ⟨⟨fun empty => some (String.append_eq_empty_iff.mp empty).2, fromFront.1, noNull⟩, ?_⟩
  cases limited : disk.limits with
  | none => rfl
  | some limits =>
      rw [limited] at fits
      simp only [decide_eq_true_eq] at fits ⊢
      omega

/-- A name that is no longer fits as well. -/
theorem permits_joinName_shorter {short long : String} (valid : isEntryName short = true)
    (fine : isEntryName long = true) (shorter : short.utf8ByteSize ≤ long.utf8ByteSize)
    (permitted : disk.permits (path.joinName long)) : disk.permits (path.joinName short) := by
  obtain ⟨front, spelled⟩ := Path.text_joinName path
  obtain ⟨admitted, names⟩ := permitted
  obtain ⟨nonempty, -, -, -, noNull⟩ := isEntryName_iff.mp valid
  constructor
  · have whole : (path.joinName long).text = front ++ "" ++ long := by
      rw [String.append_empty, spelled long fine]
    exact admits_of_shorter (spelled short valid) whole nonempty noNull shorter admitted
  · intro segment member
    rw [Path.segments_joinName path fine] at names
    rw [Path.segments_joinName path valid, List.mem_append, List.mem_singleton] at member
    rcases member with stem | rfl
    · exact names segment (List.mem_append_left _ stem)
    · exact .inr (.inr (admitsName_shorter fine shorter (names long (by simp))))

/-- A name may be cut short. -/
theorem permits_joinName_front {name ending : String} (valid : isEntryName name = true)
    (whole : isEntryName (name ++ ending) = true)
    (permitted : disk.permits (path.joinName (name ++ ending))) :
    disk.permits (path.joinName name) := by
  refine permits_joinName_shorter valid whole ?_ permitted
  rw [String.utf8ByteSize_append]
  omega

/-- A shorter name behind the tidied path keeps to the limits as well. -/
theorem permits_tidied_joinName {name other : String} (valid : isEntryName name = true)
    (kind : isEntryName other = true ∨ other = "." ∨ other = "..")
    (shorter : other.utf8ByteSize ≤ name.utf8ByteSize)
    (permitted : disk.permits (path.joinName name)) :
    disk.permits (path.tidied.joinName other) := by
  obtain ⟨admitted, names⟩ := permitted
  obtain ⟨nonempty, -, -, noSlash, -⟩ := isEntryName_iff.mp valid
  have otherSpelled : other ≠ "" ∧ '/' ∉ other.toList ∧ '\x00' ∉ other.toList := by
    rcases kind with isName | rfl | rfl
    · obtain ⟨some, -, -, slash, null⟩ := isEntryName_iff.mp isName
      exact ⟨some, slash, null⟩
    · decide
    · decide
  obtain ⟨some, otherNoSlash, otherNoNull⟩ := otherSpelled
  obtain ⟨front, middle, spelled⟩ := path.text_tidied_joinName
  constructor
  · exact admits_of_shorter (spelled other otherNoSlash).2 (spelled name noSlash).1 some otherNoNull
      shorter admitted
  · intro segment member
    obtain ⟨relative, single⟩ := Path.segments_of_noSlash otherNoSlash
    rw [Path.segments_joinName path valid] at names
    rw [Path.joinName, Path.segments_join relative, single, Path.stem_tidied, List.mem_append,
      List.mem_singleton] at member
    rcases member with stem | rfl
    · obtain ⟨rest, whole, -⟩ := Path.trimEnd_append_idle path.isAbsolute path.stem
      apply names
      rw [whole]
      exact List.mem_append_left _ (List.mem_append_left _ stem)
    · rcases kind with isName | rfl | rfl
      · exact .inr (.inr (admitsName_shorter valid shorter (names name (by simp))))
      · exact .inl rfl
      · exact .inr (.inl rfl)

/-- A path with a last name goes where that of its directory with the name behind goes, and what stands
in place of the name is put behind the same directory. -/
theorem exists_directory_of_fileName? {name : String} (own : path.fileName? = some name)
    (valid : isEntryName name = true) :
    ∃ directory : Path, (∀ other, path.withFileName other = directory.tidied.joinName other) ∧
      ∀ disk : Disk, disk.leadsTo path = disk.leadsTo directory ++ [name] ∧
        (∀ place, place ∈ disk.way path ↔ place ∈ disk.way (directory.joinName name)) ∧
        (disk.permits path → disk.permits (directory.joinName name)) := by
  obtain ⟨front, rest, directory, whole, idle, short, named⟩ :=
    Path.exists_joinName_of_fileName? own valid
  refine ⟨directory, named, fun disk => ?_⟩
  obtain ⟨aim, passed⟩ := @way_of_leading disk _ _ _ whole
  obtain ⟨longer, text⟩ := Path.text_leading whole
  have spelled : (path.leading (front ++ [name])).text ≠ "" := by
    rw [short, Path.joinName_eq_joinNames]
    exact Path.joinNames_text_ne_empty (by simpa using valid) (.inr (List.cons_ne_nil _ _))
  rw [← leadsTo_joinName disk directory valid, ← short]
  refine ⟨?_, fun place => ?_, fun permitted => ⟨admits_of_longer text spelled permitted.1, ?_⟩⟩
  · rw [aim, leadsTo, whole, destination_append, destination_of_idle idle]
  · rw [passed, way, whole, mem_trail_append_idle idle]
  · intro segment member
    rcases Path.mem_segments_leading whole member with blank | inside
    · exact .inl blank
    · exact permitted.2 segment inside

/-- No path has more names than bytes. -/
theorem length_le_of_permits {names : List String} {limits : Limits}
    (valid : names.all isEntryName = true) (limited : disk.limits = some limits)
    (permitted : disk.permits (path.joinNames names)) : names.length ≤ limits.pathBytes := by
  have admitted := permitted.1
  unfold admits at admitted
  rw [limited] at admitted
  simp only [Bool.and_eq_true, decide_eq_true_eq] at admitted
  exact (Path.length_le_text path valid).trans admitted.2

end Permitted

/-! ### Paths and changes -/

section SameSetting

variable {before after : Disk} (same : before.SameSetting after)

include same

theorem SameSetting.origin (path : Path) : after.origin path = before.origin path := by
  unfold Disk.origin
  rw [same.workingDirectory]

theorem SameSetting.leadsTo (path : Path) : after.leadsTo path = before.leadsTo path := by
  unfold Disk.leadsTo
  rw [same.origin]

theorem SameSetting.way (path : Path) : after.way path = before.way path := by
  unfold Disk.way
  rw [same.origin]

theorem SameSetting.permits (path : Path) : after.permits path ↔ before.permits path := by
  unfold Disk.permits admits admitsName
  rw [same.limits]

theorem SameSetting.keepsOut {path : Path} {top : Location} :
    after.keepsOut path top ↔ before.keepsOut path top := by
  unfold Disk.keepsOut
  rw [same.way]

/-- A path is still open when nothing changed but at a place below which it passes nothing, and
where there is a directory. -/
theorem SameSetting.stands_of_outside {path : Path} {top : Location}
    (outside : before.keepsOut path top)
    (kept : ∀ other, ¬ top <+: other → after.entryAt? other = before.entryAt? other)
    (there : after.entryAt? top = some .directory) (standing : before.stands path) :
    after.stands path := by
  intro place member
  rw [same.way] at member
  by_cases within : top <+: place
  · rw [outside place member within]
    exact there
  · rw [kept place within]
    exact standing place member

theorem SameSetting.stands {path : Path}
    (kept : ∀ place ∈ before.way path, after.entryAt? place = before.entryAt? place)
    (standing : before.stands path) : after.stands path := by
  intro place member
  rw [same.way] at member
  rw [kept place member]
  exact standing place member

end SameSetting

end Disk

end CrossBuild.Files
