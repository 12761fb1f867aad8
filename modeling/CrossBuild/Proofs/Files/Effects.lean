/-
What the operations of a disk change.

For each operation that changes a disk through a path: where the path led, and what stands at every
location afterwards. Only operations that were not refused are described.
-/

import CrossBuild.Files.Access
import CrossBuild.Proofs.Files.Trails
import CrossBuild.Proofs.Runs

namespace CrossBuild.Files

open Runs

/-- After the change the entries are those of `view`, under the same setting. -/
structure Disk.Becomes (before : Disk) (view : Location → Option Entry) (after : Disk) : Prop where
  setting : before.SameSetting after
  entries : ∀ location, after.entryAt? location = view location

/-- At a place and below it stands what is given, and nothing else has changed. -/
structure Disk.Plants (before : Disk) (top : Location) (view : Location → Option Entry)
    (after : Disk) : Prop where
  setting : before.SameSetting after
  inside : ∀ rest, after.entryAt? (top ++ rest) = view rest
  outside : ∀ other, ¬ top <+: other → after.entryAt? other = before.entryAt? other

/-- A view with what stands at a name and below it replaced. -/
def graft (name : String) (inner view : Location → Option Entry) : Location → Option Entry
  | [] => view []
  | first :: rest => if first = name then inner rest else view (first :: rest)

namespace Disk

section Plants

variable {before middle after : Disk} {top : Location} {view inner : Location → Option Entry}

theorem Plants.atTop (planted : before.Plants top view after) : after.entryAt? top = view [] := by
  have own := planted.inside []
  rw [List.append_nil] at own
  exact own

theorem Plants.congr {other : Location → Option Entry} (planted : before.Plants top view after)
    (same : ∀ place, view place = other place) : before.Plants top other after :=
  ⟨planted.setting, fun rest => (planted.inside rest).trans (same rest), planted.outside⟩

/-- A change within a planted tree plants another tree. -/
theorem Plants.becomes {all : Location → Option Entry} (planted : before.Plants top view middle)
    (changed : middle.Becomes all after) (inside : ∀ rest, all (top ++ rest) = inner rest)
    (outside : ∀ other, ¬ top <+: other → all other = middle.entryAt? other) :
    before.Plants top inner after where
  setting := planted.setting.trans changed.setting
  inside rest := (changed.entries _).trans (inside rest)
  outside other apart :=
    (changed.entries other).trans ((outside other apart).trans (planted.outside other apart))

theorem Plants.graft {name : String} (planted : before.Plants top view middle)
    (further : middle.Plants (top ++ [name]) inner after) :
    before.Plants top (Files.graft name inner view) after := by
  refine ⟨planted.setting.trans further.setting, fun rest => ?_, fun other apart => ?_⟩
  · match rest with
    | [] =>
        rw [List.append_nil, further.outside _ (not_concat_prefix_self top name), planted.atTop]
        rfl
    | first :: rest =>
        by_cases same : first = name
        · have own := further.inside rest
          rw [List.append_assoc, List.singleton_append] at own
          rw [same, own, Files.graft, if_pos rfl]
        · rw [further.outside, planted.inside, Files.graft, if_neg same]
          exact fun within => same (concat_prefix_iff.mp within).symm
  · rw [further.outside, planted.outside other apart]
    exact fun within => apart ((List.prefix_append top [name]).trans within)

/-- The same further below. -/
theorem Plants.within {names : Location} (planted : before.Plants top view middle)
    (further : middle.Plants (top ++ names) inner after) :
    before.Plants top
      (fun place => if names <+: place then inner (place.drop names.length) else view place)
      after := by
  refine ⟨planted.setting.trans further.setting, fun place => ?_, fun other apart => ?_⟩
  · split
    · rename_i below
      obtain ⟨rest, rfl⟩ := below
      rw [List.drop_left, ← List.append_assoc, further.inside]
    · rename_i notBelow
      rw [further.outside, planted.inside]
      rw [List.prefix_append_right_inj]
      exact notBelow
  · rw [further.outside, planted.outside other apart]
    exact fun inside => apart ((List.prefix_append _ _).trans inside)

end Plants

/-- What is not in a directory is neither one thing in it nor at or below another. -/
theorem apart_from_children {top other : Location} (apart : ¬ top <+: other) (file box : String) :
    other ≠ top ++ [file] ∧ ¬ top ++ [box] <+: other := by
  constructor
  · rintro rfl
    exact apart (List.prefix_append _ _)
  · exact fun within => apart ((List.prefix_append _ _).trans within)

theorem becomes_place {disk : Disk} {location : Location} {entry : Entry}
    (room : disk.hasRoom location entry) :
    disk.Becomes (fun other => if other = location then some entry else disk.entryAt? other)
      (disk.place location entry) :=
  ⟨place_sameSetting disk location entry, entryAt?_place room⟩

theorem becomes_erase (disk : Disk) {top : Location} (inside : top ≠ []) :
    disk.Becomes (fun other => if top <+: other then none else disk.entryAt? other)
      (disk.erase top) :=
  ⟨erase_sameSetting disk top, entryAt?_erase disk inside⟩

/-- A file has nothing below it. -/
theorem prefix_iff_eq_of_file {disk : Disk} {location other : Location} {content : ByteArray}
    (there : disk.entryAt? location = some (.file content)) (present : disk.entryAt? other ≠ none) :
    location <+: other ↔ other = location := by
  constructor
  · rintro ⟨rest, rfl⟩
    by_cases done : rest = []
    · rw [done, List.append_nil]
    · exact absurd (entryAt?_below rest done (by rw [there]; simp)) present
  · rintro rfl
    exact List.prefix_rfl

end Disk

open Disk

theorem writeFile_ok {path : Path} {content : ByteArray} {disk after : Disk}
    (done : writeFile path content disk = .ok () after) :
    ∃ location, disk.locate? path = some location ∧
      disk.Becomes (fun other =>
        if other = location then some (.file content) else disk.entryAt? other) after := by
  unfold writeFile at done
  simp only [bind_ok_iff, get_ok_iff] at done
  obtain ⟨_, _, ⟨rfl, rfl⟩, done⟩ := done
  cases found : disk.locate? path with
  | none =>
      rw [found] at done
      cases done
  | some location =>
      rw [found] at done
      dsimp only at done
      by_cases directory : disk.isDirectoryAt location = true
      · rw [if_pos directory] at done
        cases done
      · rw [if_neg directory, set_ok_iff] at done
        subst done
        obtain ⟨parent, names⟩ := room_of_locate? found
        refine ⟨location, rfl, becomes_place ⟨parent, names, ?_⟩⟩
        intro there
        exact absurd (isDirectoryAt_iff.mpr there) directory

/-- Nothing but a directory keeps a file from being stored. -/
theorem writeFile_of_locate? {path : Path} {content : ByteArray} {disk : Disk} {location : Location}
    (found : disk.locate? path = some location)
    (noDirectory : disk.entryAt? location ≠ some .directory) :
    writeFile path content disk = .ok () (disk.place location (.file content)) := by
  unfold writeFile
  simp only [bind_ok_iff, get_ok_iff]
  refine ⟨disk, disk, ⟨rfl, rfl⟩, ?_⟩
  have free : ¬ disk.isDirectoryAt location = true := fun there =>
    noDirectory (isDirectoryAt_iff.mp there)
  rw [found]
  dsimp only
  rw [if_neg free]
  rfl

theorem read?_eq_some_iff {disk : Disk} {path : Path} {content : ByteArray} :
    disk.read? path = some content ↔
      ∃ location, disk.locate? path = some location ∧
        disk.entryAt? location = some (.file content) := by
  unfold read? find?
  cases found : disk.locate? path with
  | none => simp
  | some location =>
      simp only [Option.bind_some, Option.some.injEq, exists_eq_left']
      cases disk.entryAt? location with
      | none => simp
      | some entry => cases entry <;> simp

theorem removeFile_ok {path : Path} {disk after : Disk}
    (done : removeFile path disk = .ok () after) :
    ∃ location content, disk.locate? path = some location ∧
      disk.entryAt? location = some (.file content) ∧
        disk.Becomes (fun other => if other = location then none else disk.entryAt? other) after := by
  unfold removeFile at done
  simp only [bind_ok_iff, get_ok_iff] at done
  obtain ⟨_, _, ⟨rfl, rfl⟩, done⟩ := done
  by_cases isFile : disk.isFile path = true
  · rw [if_pos isFile] at done
    obtain ⟨content, read⟩ := Option.isSome_iff_exists.mp isFile
    obtain ⟨location, found, there⟩ := read?_eq_some_iff.mp read
    rw [found] at done
    simp only [set_ok_iff] at done
    subst done
    have inside : location ≠ [] := by
      rintro rfl
      cases there
    refine ⟨location, content, found, there, erase_sameSetting disk location, ?_⟩
    intro other
    rw [entryAt?_erase disk inside]
    by_cases present : disk.entryAt? other = none
    · rw [present, ite_self, ite_self]
    · simp only [prefix_iff_eq_of_file there present]
  · rw [if_neg isFile] at done
    cases done

theorem copyFile_ok {source target : Path} {disk after : Disk}
    (done : copyFile source target disk = .ok () after) :
    ∃ from_ content to_, disk.locate? source = some from_ ∧
      disk.entryAt? from_ = some (.file content) ∧ disk.locate? target = some to_ ∧
        disk.Becomes (fun other => if other = to_ then
          some (.file (if from_ = to_ then .empty else content)) else disk.entryAt? other) after := by
  unfold copyFile at done
  simp only [bind_ok_iff, get_ok_iff] at done
  obtain ⟨_, _, ⟨rfl, rfl⟩, done⟩ := done
  cases read : disk.read? source with
  | none =>
      rw [read] at done
      cases done
  | some content =>
      rw [read] at done
      obtain ⟨from_, found, there⟩ := read?_eq_some_iff.mp read
      obtain ⟨to_, aimed, effect⟩ := writeFile_ok done
      refine ⟨from_, content, to_, found, there, aimed, ?_⟩
      simpa only [found, aimed, Option.some.injEq] using effect

/-! ### Directories that stay -/

/-- Every directory is still there. -/
def Disk.KeepsDirectories (before after : Disk) : Prop :=
  ∀ place, before.entryAt? place = some .directory → after.entryAt? place = some .directory

namespace Disk

theorem KeepsDirectories.trans {first second third : Disk} (left : first.KeepsDirectories second)
    (right : second.KeepsDirectories third) : first.KeepsDirectories third :=
  fun place there => right place (left place there)

theorem KeepsDirectories.isDirectory {before after : Disk} {path : Path}
    (kept : before.KeepsDirectories after) (setting : before.SameSetting after)
    (there : before.isDirectory path = true) : after.isDirectory path = true := by
  obtain ⟨permitted, standing⟩ := isDirectory_iff.mp there
  refine isDirectory_iff.mpr ⟨(setting.permits path).mpr permitted, fun place member => ?_⟩
  rw [setting.way] at member
  exact kept place (standing place member)

end Disk

theorem writeFile_keeps {path : Path} {content : ByteArray} {disk after : Disk}
    (done : writeFile path content disk = .ok () after) : disk.KeepsDirectories after := by
  obtain ⟨location, found, effect⟩ := writeFile_ok done
  intro place there
  rw [effect.entries, if_neg, there]
  rintro rfl
  unfold writeFile at done
  rw [get_bind, found] at done
  dsimp only at done
  rw [if_pos (isDirectoryAt_iff.mpr there)] at done
  cases done

theorem removeFile_keeps {path : Path} {disk after : Disk}
    (done : removeFile path disk = .ok () after) : disk.KeepsDirectories after := by
  obtain ⟨location, content, -, isFile, effect⟩ := removeFile_ok done
  intro place there
  rw [effect.entries, if_neg, there]
  rintro rfl
  rw [isFile] at there
  cases there

/-! ### Removing trees -/

theorem endsInDots_of_segments {path : Path} {front : List String} {last : String}
    (whole : path.segments = front ++ [last]) (valid : isEntryName last = true) :
    path.endsInDots = false := by
  obtain ⟨nonempty, dot, dots, -, -⟩ := isEntryName_iff.mp valid
  unfold Path.endsInDots
  rw [whole, List.filter_append]
  simp [nonempty, dot, dots]

theorem removeTree_ok {path : Path} {disk after : Disk}
    (done : removeTree path disk = .ok () after) :
    ∃ location, disk.locate? path = some location ∧
      disk.entryAt? location = some .directory ∧
        (after = disk.erase location ∧ path.endsInDots = false ∧ location ≠ [] ∨
          after = disk.clear location ∧ (disk.clear location).locate? path = none) := by
  unfold removeTree at done
  simp only [bind_ok_iff, get_ok_iff] at done
  obtain ⟨_, _, ⟨rfl, rfl⟩, done⟩ := done
  cases found : disk.locate? path with
  | none =>
      rw [found] at done
      cases done
  | some location =>
      rw [found] at done
      dsimp only at done
      by_cases directory : disk.isDirectoryAt location = true
      · rw [directory] at done
        simp only [Bool.not_true, Bool.false_eq_true, if_false, bind_ok_iff, set_ok_iff] at done
        obtain ⟨_, _, rfl, done⟩ := done
        refine ⟨location, rfl, isDirectoryAt_iff.mp directory, ?_⟩
        split at done
        · split at done
          · cases done
          · rename_i whole
            rw [set_ok_iff] at done
            rw [Bool.or_eq_true, not_or, Bool.not_eq_true, List.isEmpty_iff] at whole
            exact .inl ⟨done.symm, whole.1, whole.2⟩
        · rename_i vanished
          rw [pure_ok_iff] at done
          rw [Option.not_isSome_iff_eq_none] at vanished
          exact .inr ⟨done.2.symm, vanished⟩
      · rw [Bool.eq_false_iff.mpr directory] at done
        cases done

/-- A path that passes nothing below the place it leads to leads there still when the place is
empty. -/
theorem locate?_clear {path : Path} {disk : Disk} {location : Location}
    (found : disk.locate? path = some location) (outside : disk.keepsOut path location) :
    (disk.clear location).locate? path = some location := by
  have setting := clear_sameSetting disk location
  obtain ⟨permitted, passed, aim⟩ := locate?_eq_some_iff.mp found
  refine locate?_eq_some_iff.mpr ⟨(setting.permits path).mpr permitted, fun place member => ?_, ?_⟩
  · rw [setting.way] at member
    rw [entryAt?_clear, if_neg]
    · exact passed place member
    · exact fun within => within.2 (outside place (List.dropLast_subset _ member) within.1)
  · rw [setting.leadsTo]
    exact aim

/-- A path that passes something below the place it leads to cannot be followed when the place is
empty. -/
theorem locate?_clear_of_passing {path : Path} {disk : Disk} {location : Location}
    (found : disk.locate? path = some location) (passes : ¬ disk.keepsOut path location) :
    (disk.clear location).locate? path = none := by
  have setting := clear_sameSetting disk location
  have aim := leadsTo_of_locate? found
  unfold keepsOut at passes
  simp only [not_forall] at passes
  obtain ⟨place, member, within, below⟩ := passes
  rw [Option.eq_none_iff_forall_ne_some]
  intro other still
  have passed := (locate?_eq_some_iff.mp still).2.1 place (by
    rw [setting.way]
    unfold way at member ⊢
    rw [trail_eq_concat, List.mem_append, List.mem_singleton] at member
    rcases member with before | atEnd
    · exact before
    · exact absurd (atEnd.trans aim.symm) below)
  rw [entryAt?_clear, if_pos ⟨within, below⟩] at passed
  cases passed

/-- A directory is removed by every path that does not end in dots, unless the path cannot be
followed once it is empty. -/
theorem removeTree_eq {path : Path} {disk : Disk} {location : Location}
    (found : disk.locate? path = some location) (there : disk.entryAt? location = some .directory)
    (noDots : path.endsInDots = false) (inside : location ≠ []) :
    removeTree path disk = .ok () (if ((disk.clear location).locate? path).isSome = true then
      disk.erase location else disk.clear location) := by
  have directory : disk.isDirectoryAt location = true := isDirectoryAt_iff.mpr there
  have whole : (path.endsInDots || location.isEmpty) = false := by
    rw [noDots, Bool.false_or]
    exact List.isEmpty_eq_false_iff.mpr inside
  unfold removeTree
  rw [get_bind, found]
  dsimp only
  rw [directory]
  change (if ((disk.clear location).locate? path).isSome = true then
      if path.endsInDots || location.isEmpty then refuse else set (disk.erase location)
    else pure () : Access Unit) (disk.clear location) = _
  rw [whole]
  split <;> rfl

theorem removeTree_of_locate? {path : Path} {disk : Disk} {location : Location}
    (found : disk.locate? path = some location) (there : disk.entryAt? location = some .directory)
    (outside : disk.keepsOut path location) (noDots : path.endsInDots = false)
    (inside : location ≠ []) : removeTree path disk = .ok () (disk.erase location) := by
  rw [removeTree_eq found there noDots inside, locate?_clear found outside, Option.isSome_some,
    if_pos rfl]

theorem removeTree_of_dots {path : Path} {disk : Disk} {location : Location}
    (found : disk.locate? path = some location) (there : disk.entryAt? location = some .directory)
    (outside : disk.keepsOut path location) (dots : path.endsInDots = true) :
    removeTree path disk = .error .refused (disk.clear location) := by
  have directory : disk.isDirectoryAt location = true := isDirectoryAt_iff.mpr there
  unfold removeTree
  rw [get_bind, found]
  dsimp only
  rw [directory]
  change (if ((disk.clear location).locate? path).isSome = true then
      if path.endsInDots || location.isEmpty then refuse else set (disk.erase location)
    else pure () : Access Unit) (disk.clear location) = _
  rw [locate?_clear found outside, dots]
  rfl

/-! ### Making directories -/

/-- Some directories stand at places of a kind where nothing stood before. -/
structure Disk.Grows (before : Disk) (kind : Location → Prop) (after : Disk) : Prop where
  setting : before.SameSetting after
  entries : ∀ location, after.entryAt? location = before.entryAt? location ∨
    before.entryAt? location = none ∧ after.entryAt? location = some .directory ∧ kind location

namespace Disk

theorem Grows.refl (disk : Disk) (kind : Location → Prop) : disk.Grows kind disk :=
  ⟨.refl disk, fun _ => .inl rfl⟩

theorem Grows.trans {first second third : Disk} {kind : Location → Prop}
    (left : first.Grows kind second) (right : second.Grows kind third) : first.Grows kind third := by
  refine ⟨left.setting.trans right.setting, fun location => ?_⟩
  rcases left.entries location with same | ⟨absent, made, fits⟩
  · rcases right.entries location with also | ⟨absent, made, fits⟩
    · exact .inl (also.trans same)
    · rw [same] at absent
      exact .inr ⟨absent, made, fits⟩
  · rcases right.entries location with also | ⟨absent', _, _⟩
    · exact .inr ⟨absent, also.trans made, fits⟩
    · rw [made] at absent'
      cases absent'

theorem Grows.mono {before after : Disk} {kind wider : Location → Prop}
    (grown : before.Grows kind after) (weaker : ∀ location, kind location → wider location) :
    before.Grows wider after := by
  refine ⟨grown.setting, fun location => ?_⟩
  rcases grown.entries location with same | ⟨absent, made, fits⟩
  · exact .inl same
  · exact .inr ⟨absent, made, weaker location fits⟩

theorem Grows.keeps {before after : Disk} {kind : Location → Prop} {location : Location}
    {entry : Entry} (grown : before.Grows kind after) (there : before.entryAt? location = some entry) :
    after.entryAt? location = some entry := by
  rcases grown.entries location with same | ⟨absent, _, _⟩
  · rw [same, there]
  · rw [there] at absent
    cases absent

end Disk

private theorem withoutSlash_spec (path : Path) :
    ∃ front back, path.segments = front ++ back ∧ (∀ segment ∈ back, Path.isIdle segment = true) ∧
      path.withoutSlash.isAbsolute = path.isAbsolute ∧
        path.withoutSlash.segments = if front = [] then [""] else front := by
  have whole : path.segments =
      (path.segments.reverse.dropWhile fun segment => decide (segment = "")).reverse ++
        (path.segments.reverse.takeWhile fun segment => decide (segment = "")).reverse := by
    rw [← List.reverse_append, List.takeWhile_append_dropWhile, List.reverse_reverse]
  have blank : (path.segments.reverse.dropWhile fun segment => decide (segment = "")).reverse ≠
      [""] := by
    intro same
    have kept : path.segments.reverse.dropWhile (fun segment => decide (segment = "")) = [""] := by
      have reversed := congrArg List.reverse same
      rwa [List.reverse_reverse] at reversed
    have counts := List.head?_dropWhile_not (fun segment => decide (segment = ""))
      path.segments.reverse
    rw [kept] at counts
    simp at counts
  have pieces := Path.ofSegments_front whole blank
  refine ⟨_, _, whole, ?_, pieces.1, pieces.2⟩
  intro segment member
  have empty := List.all_eq_true.mp List.all_takeWhile segment (List.mem_reverse.mp member)
  simp only [decide_eq_true_eq] at empty
  simp [Path.isIdle, empty]

/-- Without the slashes at its end a path leads to the same place, on the same way. -/
private theorem way_withoutSlash (disk : Disk) (path : Path) :
    disk.leadsTo path.withoutSlash = disk.leadsTo path ∧
      ∀ place, place ∈ disk.way path ↔ place ∈ disk.way path.withoutSlash := by
  obtain ⟨front, back, whole, idle, absolute, pieces⟩ := withoutSlash_spec path
  obtain ⟨aim, passed⟩ := @way_of_front disk _ _ _ absolute pieces
  refine ⟨by rw [aim, Disk.leadsTo, whole, destination_append, destination_of_idle idle], fun place => ?_⟩
  rw [passed, Disk.way, whole, mem_trail_append_idle idle]

private theorem permits_of_withoutSlash {disk : Disk} {path : Path} (admitted : disk.admits path = true)
    (permitted : disk.permits path.withoutSlash) : disk.permits path := by
  obtain ⟨front, back, whole, idle, -, pieces⟩ := withoutSlash_spec path
  refine ⟨admitted, fun segment member => ?_⟩
  rw [whole, List.mem_append] at member
  rcases member with inside | behind
  · apply permitted.2
    rw [pieces, if_neg (List.ne_nil_of_mem inside)]
    exact inside
  · exact .inl (idle segment behind)

theorem makeDirectory_ok {path : Path} {disk after : Disk}
    (done : makeDirectory path disk = .ok () after) :
    after.isDirectory path = true ∧ disk.Grows (fun location => location = disk.leadsTo path) after := by
  unfold makeDirectory at done
  simp only [bind_ok_iff, get_ok_iff] at done
  obtain ⟨_, _, ⟨rfl, rfl⟩, done⟩ := done
  obtain ⟨target, route⟩ := way_withoutSlash disk path
  have admitted : disk.admits path = true := by
    cases value : disk.admits path with
    | true => rfl
    | false =>
        rw [value] at done
        cases done
  rw [admitted] at done
  simp only [Bool.not_true, Bool.false_eq_true, if_false] at done
  cases found : disk.locate? path.withoutSlash with
  | none =>
      rw [found] at done
      cases done
  | some location =>
      rw [found] at done
      dsimp only at done
      cases there : disk.entryAt? location with
      | some entry =>
          rw [there] at done
          cases done
      | none =>
          rw [there] at done
          simp only [set_ok_iff] at done
          subst done
          obtain ⟨permitted, open_, led⟩ := locate?_eq_some_iff.mp found
          obtain ⟨parent, fine⟩ := room_of_locate? found
          have effect := @becomes_place disk location .directory
            ⟨parent, fine, fun _ => rfl⟩
          refine ⟨isDirectory_iff.mpr ⟨(effect.setting.permits path).mpr
            (permits_of_withoutSlash admitted permitted), ?_⟩, effect.setting, ?_⟩
          · intro place member
            rw [effect.setting.way, route] at member
            rw [effect.entries]
            split
            · rfl
            · rename_i other
              rw [Disk.way, trail_eq_concat, List.mem_append, List.mem_singleton] at member
              rcases member with before | atEnd
              · exact open_ place before
              · exact absurd (atEnd.trans led.symm) other
          · intro other
            rw [effect.entries]
            by_cases same : other = location
            · rw [if_pos same, same]
              exact .inr ⟨there, rfl, led.trans target⟩
            · rw [if_neg same]
              exact .inl rfl

private theorem ensureDirectory_ok {path : Path} {disk after : Disk}
    (done : ensureDirectory path disk = .ok () after) :
    after.isDirectory path = true ∧
      disk.Grows (fun location => location = disk.leadsTo path) after := by
  unfold ensureDirectory at done
  simp only [bind_ok_iff, get_ok_iff] at done
  obtain ⟨_, _, ⟨rfl, rfl⟩, done⟩ := done
  split at done
  · rename_i there
    rw [pure_ok_iff] at done
    rw [← done.2]
    exact ⟨there, .refl disk _⟩
  · exact makeDirectory_ok done

theorem makeChain_ok {paths : List Path} {disk after : Disk}
    (done : makeChain paths disk = .ok () after) :
    (∀ path, paths.head? = some path → path.text = "" ∨ after.isDirectory path = true) ∧
      disk.Grows (fun location => ∃ path ∈ paths, location = disk.leadsTo path) after := by
  induction paths generalizing disk after with
  | nil => cases done
  | cons path above ih =>
      unfold makeChain at done
      simp only [bind_ok_iff, get_ok_iff] at done
      obtain ⟨_, _, ⟨rfl, rfl⟩, done⟩ := done
      simp only [List.head?_cons, Option.some.injEq, forall_eq']
      have own : ∀ location, location = disk.leadsTo path →
          ∃ other ∈ path :: above, location = disk.leadsTo other :=
        fun location same => ⟨path, List.mem_cons_self, same⟩
      split at done
      · rename_i settled
        rw [pure_ok_iff] at done
        rw [← done.2]
        rw [Bool.or_eq_true, decide_eq_true_eq] at settled
        exact ⟨settled, .refl disk _⟩
      · split at done
        · cases done
        · cases made : (makeDirectory path).run disk with
          | ok value result =>
              rw [made] at done
              simp only [set_ok_iff] at done
              subst done
              obtain ⟨there, grown⟩ := makeDirectory_ok made
              exact ⟨.inr there, grown.mono own⟩
          | error cause rest =>
              rw [made] at done
              simp only [bind_ok_iff] at done
              obtain ⟨_, middle, chain, last⟩ := done
              obtain ⟨-, first⟩ := ih chain
              obtain ⟨there, second⟩ := ensureDirectory_ok last
              refine ⟨.inr there, .trans (first.mono ?_) (second.mono ?_)⟩
              · rintro location ⟨other, member, same⟩
                exact ⟨other, List.mem_cons_of_mem _ member, same⟩
              · intro location same
                rw [first.setting.leadsTo] at same
                exact own location same

theorem way_of_mem_ancestors {disk : Disk} {fuel : Nat} {path other : Path}
    (member : other ∈ Path.ancestorsWithin fuel path) :
    ∀ place ∈ disk.way other, place ∈ disk.way path := by
  induction fuel generalizing path with
  | zero =>
      rw [List.mem_singleton.mp member]
      exact fun _ inside => inside
  | succ fuel ih =>
      unfold Path.ancestorsWithin at member
      cases found : path.parent? with
      | none =>
          rw [found] at member
          rw [List.mem_singleton.mp member]
          exact fun _ inside => inside
      | some parent =>
          rw [found] at member
          rcases List.mem_cons.mp member with same | above
          · rw [same]
            exact fun _ inside => inside
          · obtain ⟨front, back, whole, rfl⟩ := Path.parent?_eq_some found
            intro place inside
            have passed := ih above place inside
            rw [(way_of_leading whole).2] at passed
            rw [Disk.way, whole, mem_trail_append]
            exact .inl passed

theorem makeDirectories_ok {path : Path} {disk after : Disk}
    (done : makeDirectories path disk = .ok () after) :
    (path.text = "" ∨ after.isDirectory path = true) ∧
      disk.Grows (fun location => location ∈ disk.way path) after := by
  obtain ⟨there, grown⟩ := makeChain_ok done
  constructor
  · apply there
    unfold Path.ancestors
    cases path.segments.length with
    | zero => rfl
    | succ fuel =>
        unfold Path.ancestorsWithin
        split <;> rfl
  · apply grown.mono
    rintro location ⟨other, member, rfl⟩
    exact way_of_mem_ancestors member _ (destination_mem_trail _ _)

/-- Below a directory that a path leads to, only the directories down to the new one are made. -/
theorem makeDirectories_joinNames_ok {path : Path} {names : List String} {disk after : Disk}
    (valid : names.all isEntryName = true) (some : path.text ≠ "" ∨ names ≠ [])
    (standing : disk.stands path)
    (done : makeDirectories (path.joinNames names) disk = .ok () after) :
    disk.permits (path.joinNames names) ∧
      (∀ content, disk.entryAt? (disk.leadsTo path ++ names) ≠ Option.some (.file content)) ∧
      disk.Becomes (fun location =>
        if disk.leadsTo path <+: location ∧ location <+: disk.leadsTo path ++ names then
          Option.some .directory
        else disk.entryAt? location) after := by
  obtain ⟨there, grown⟩ := makeDirectories_ok done
  have spelled : (path.joinNames names).text ≠ "" := Path.joinNames_text_ne_empty valid some
  obtain ⟨permitted, stood⟩ := isDirectory_iff.mp (there.resolve_left spelled)
  refine ⟨(grown.setting.permits _).mp permitted, fun content file => ?_, grown.setting,
    fun location => ?_⟩
  · have made := entryAt?_leadsTo_of_stands stood
    rw [leadsTo_joinNames valid, grown.setting.leadsTo, grown.keeps file] at made
    cases made
  split
  · rename_i between
    obtain ⟨⟨front, rfl⟩, within⟩ := between
    apply stood
    rw [mem_way_joinNames valid, grown.setting.leadsTo]
    exact .inr ⟨front, (List.prefix_append_right_inj _).mp within, rfl⟩
  · rename_i outside
    rcases grown.entries location with same | ⟨absent, -, passed⟩
    · exact same
    · exfalso
      rcases (mem_way_joinNames valid).mp passed with before | ⟨front, within, rfl⟩
      · rw [standing location before] at absent
        cases absent
      · exact outside ⟨List.prefix_append _ _, (List.prefix_append_right_inj _).mpr within⟩

end CrossBuild.Files
