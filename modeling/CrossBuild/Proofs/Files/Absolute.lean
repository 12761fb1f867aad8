/-
Absolute paths.

A path that has been made absolute and takes no step up names the directories from the root down and
nothing else that counts. Such a path spells one location out: where it leads, what it passes, what
its last name is and which components it has can all be told from that location, however many
slashes it is written with. Making a path absolute never changes where it leads.
-/

import CrossBuild.Proofs.Files.Effects

namespace CrossBuild.Files

open CrossBuild.Files.Path

/-! ### The segments that count -/

namespace Path

/-- The segments of a path without those that stay where they are. -/
def counting (path : Path) : List String :=
  path.segments.filter fun segment => !isIdle segment

theorem mem_counting {path : Path} {segment : String} :
    segment ∈ path.counting ↔ segment ∈ path.segments ∧ isIdle segment = false := by
  simp [counting]

theorem filter_stem (path : Path) :
    path.stem.filter (fun segment => !isIdle segment) = path.counting := by
  unfold counting
  rcases segments_eq_stem path with same | blank
  · rw [same]
  · rw [blank, List.filter_append]
    exact (List.append_nil _).symm

theorem filter_of_names {names : List String} (valid : names.all isEntryName = true) :
    names.filter (fun segment => !isIdle segment) = names := by
  rw [List.filter_eq_self]
  intro name listed
  obtain ⟨nonempty, dot, -⟩ := isEntryName_iff.mp (List.all_eq_true.mp valid name listed)
  simp [isIdle, nonempty, dot]

/-- A path made of names, which may be none, counts them. -/
theorem filter_of_names_or_blank {names : List String} (valid : names.all isEntryName = true) :
    (if names = [] then [""] else names).filter (fun segment => !isIdle segment) = names := by
  by_cases none : names = []
  · rw [if_pos none, none]
    rfl
  · rw [if_neg none, filter_of_names valid]

theorem isIdle_iff {segment : String} : isIdle segment = true ↔ segment = "" ∨ segment = "." := by
  rw [isIdle, Bool.or_eq_true, decide_eq_true_iff, decide_eq_true_iff]

theorem isIdle_eq_false_iff {segment : String} :
    isIdle segment = false ↔ segment ≠ "" ∧ segment ≠ "." := by
  rw [isIdle, Bool.or_eq_false_iff, decide_eq_false_iff_not, decide_eq_false_iff_not]

theorem counting_join {path other : Path} (relative : other.isAbsolute = false) :
    (path.join other).counting = path.counting ++ other.counting := by
  rw [counting, segments_join relative, List.filter_append, filter_stem]
  rfl

theorem counting_joinName (path : Path) {name : String} (noSlash : '/' ∉ name.toList) :
    (path.joinName name).isAbsolute = path.isAbsolute ∧
      (path.joinName name).counting = path.counting ++ [name].filter fun segment => !isIdle segment := by
  obtain ⟨relative, alone⟩ := segments_of_noSlash noSlash
  refine ⟨isAbsolute_join relative, ?_⟩
  unfold joinName
  rw [counting_join relative]
  unfold counting
  rw [alone]

theorem counting_foldl_joinName {names : List String} (noSlash : ∀ name ∈ names, '/' ∉ name.toList)
    (path : Path) : (names.foldl joinName path).isAbsolute = path.isAbsolute ∧
      (names.foldl joinName path).counting =
        path.counting ++ names.filter fun segment => !isIdle segment := by
  induction names generalizing path with
  | nil => exact ⟨rfl, (List.append_nil _).symm⟩
  | cons name rest ih =>
      obtain ⟨kind, further⟩ := counting_joinName path (noSlash name List.mem_cons_self)
      obtain ⟨sameKind, all⟩ :=
        ih (fun other listed => noSlash other (List.mem_cons_of_mem _ listed)) (path.joinName name)
      refine ⟨sameKind.trans kind, ?_⟩
      rw [List.foldl_cons, all, further, List.append_assoc, ← List.filter_append,
        List.singleton_append]

theorem isAbsolute_rootOf (path : Path) : path.rootOf.isAbsolute = true ∧ path.rootOf.counting = [] := by
  unfold rootOf
  split
  · decide
  · decide

theorem counting_absoluteFrom (directory path : Path) :
    (absoluteFrom directory path).isAbsolute = (path.isAbsolute || directory.isAbsolute) ∧
      (absoluteFrom directory path).counting =
        (if path.isAbsolute then [] else directory.counting) ++ path.counting := by
  have noSlash : ∀ name ∈ path.segments.filter (fun segment => segment ≠ "" && segment ≠ "."),
      '/' ∉ name.toList := fun name listed =>
    Text.not_mem_of_mem_split (mem_split_of_mem_segments (List.mem_filter.mp listed).1)
  have again : (path.segments.filter fun segment => segment ≠ "" && segment ≠ ".").filter
      (fun segment => !isIdle segment) = path.counting := by
    unfold counting
    rw [List.filter_filter]
    apply List.filter_congr
    intro segment _
    simp [isIdle]
  have slash : ∀ full : Path, (full.join ⟨""⟩).isAbsolute = full.isAbsolute ∧
      (full.join ⟨""⟩).counting = full.counting := fun full =>
    ⟨isAbsolute_join rfl, (counting_join rfl).trans (List.append_nil _)⟩
  have start : (if path.isAbsolute then path.rootOf else directory).isAbsolute =
      (path.isAbsolute || directory.isAbsolute) ∧
        (if path.isAbsolute then path.rootOf else directory).counting =
          if path.isAbsolute then [] else directory.counting := by
    cases path.isAbsolute with
    | true => exact isAbsolute_rootOf path
    | false => exact ⟨rfl, rfl⟩
  obtain ⟨kind, all⟩ := counting_foldl_joinName noSlash
    (if path.isAbsolute then path.rootOf else directory)
  rw [again, start.2] at all
  rw [start.1] at kind
  unfold absoluteFrom
  dsimp only
  split
  · exact ⟨(slash _).1.trans kind, (slash _).2.trans all⟩
  · exact ⟨kind, all⟩

end Path

/-! ### Paths that spell a location -/

theorem destination_filter (start : Location) (segments : List String) :
    destination start (segments.filter fun segment => !isIdle segment) =
      destination start segments := by
  induction segments generalizing start with
  | nil => rfl
  | cons segment rest ih =>
      cases idle : isIdle segment with
      | true =>
          rw [List.filter_cons_of_neg (by simp [idle]), ih]
          unfold destination
          rw [List.foldl_cons, step_of_idle idle]
      | false =>
          rw [List.filter_cons_of_pos (by simp [idle])]
          exact ih (start.step segment)

theorem mem_trail_filter {start place : Location} {segments : List String} :
    place ∈ trail start (segments.filter fun segment => !isIdle segment) ↔
      place ∈ trail start segments := by
  induction segments generalizing start with
  | nil => rfl
  | cons segment rest ih =>
      cases idle : isIdle segment with
      | true =>
          rw [List.filter_cons_of_neg (by simp [idle]), ih, trail, step_of_idle idle, List.mem_cons]
          exact ⟨.inr, fun either => either.elim
            (fun same => same ▸ start_mem_trail start rest) id⟩
      | false =>
          rw [List.filter_cons_of_pos (by simp [idle]), trail, trail, List.mem_cons, List.mem_cons, ih]

theorem filterMap_componentOf? {segments : List String}
    (valid : (segments.filter fun segment => !isIdle segment).all isEntryName = true) :
    segments.filterMap componentOf? = (segments.filter fun segment => !isIdle segment).map .name := by
  induction segments with
  | nil => rfl
  | cons segment rest ih =>
      cases idle : isIdle segment with
      | true =>
          rw [List.filter_cons_of_neg (by simp [idle])] at valid ⊢
          rw [List.filterMap_cons_none (componentOf?_of_idle idle), ih valid]
      | false =>
          rw [List.filter_cons_of_pos (by simp [idle])] at valid ⊢
          rw [List.all_cons, Bool.and_eq_true] at valid
          obtain ⟨nonempty, dot, dots, -⟩ := isEntryName_iff.mp valid.1
          have name : componentOf? segment = some (.name segment) := by
            simp [componentOf?, nonempty, dot, dots]
          rw [List.filterMap_cons_some name, List.map_cons, ih valid.2]

theorem getLast?_trimEnd_true (segments : List String) : (trimEnd true segments).getLast? =
    (segments.filter fun segment => !isIdle segment).getLast? := by
  induction segments with
  | nil => rfl
  | cons segment rest ih =>
      rw [trimEnd]
      cases kept : trimEnd true rest with
      | nil =>
          rw [kept] at ih
          have nothing := List.getLast?_eq_none_iff.mp ih.symm
          cases idle : isIdle segment with
          | true =>
              rw [List.filter_cons_of_neg (by simp [idle]), nothing]
              simp [isIdle_iff.mp idle]
          | false =>
              rw [List.filter_cons_of_pos (by simp [idle]), nothing]
              simp [isIdle_eq_false_iff.mp idle]
      | cons first others =>
          rw [kept] at ih
          have some : (rest.filter fun segment => !isIdle segment) ≠ [] := by
            intro none
            rw [none] at ih
            exact absurd (List.getLast?_eq_none_iff.mp ih) (by simp)
          rw [List.getLast?_cons_cons, ih]
          cases idle : isIdle segment with
          | true => rw [List.filter_cons_of_neg (by simp [idle])]
          | false =>
              obtain ⟨head, tail, whole⟩ := List.exists_cons_of_ne_nil some
              rw [List.filter_cons_of_pos (by simp [idle]), whole, List.getLast?_cons_cons]

/-- From the root down, the path spells the names of a location. -/
structure Path.Spells (path : Path) (place : Location) : Prop where
  absolute : path.isAbsolute = true
  names : path.counting = place
  valid : place.all isEntryName = true

namespace Path.Spells

variable {path other : Path} {place elsewhere : Location} {disk : Disk} (spelled : path.Spells place)
include spelled

theorem origin : disk.origin path = [] := by
  unfold Disk.origin
  rw [spelled.absolute]
  rfl

theorem leadsTo : disk.leadsTo path = place := by
  unfold Disk.leadsTo
  rw [spelled.origin, ← destination_filter]
  change destination [] path.counting = place
  rw [spelled.names, destination_of_names spelled.valid, List.nil_append]

theorem mem_way {passed : Location} : passed ∈ disk.way path ↔ passed <+: place := by
  unfold Disk.way
  rw [spelled.origin, ← mem_trail_filter]
  change passed ∈ trail [] path.counting ↔ _
  rw [spelled.names, mem_trail_of_names spelled.valid]
  constructor
  · rintro ⟨front, above, rfl⟩
    exact above
  · intro above
    exact ⟨passed, above, rfl⟩

theorem stands_iff : disk.stands path ↔ disk.entryAt? place = some .directory := by
  constructor
  · intro standing
    exact standing place (spelled.mem_way.mpr List.prefix_rfl)
  · intro there passed onWay
    obtain ⟨rest, whole⟩ := spelled.mem_way.mp onWay
    rcases List.eq_nil_or_concat rest with rfl | ⟨front, last, rfl⟩
    · rw [List.append_nil] at whole
      exact whole ▸ there
    · exact Disk.entryAt?_above (whole.symm ▸ there) (by simp)

theorem joinNames {names : List String} (valid : names.all isEntryName = true) :
    (path.joinNames names).Spells (place ++ names) where
  absolute := (isAbsolute_joinNames valid path).trans spelled.absolute
  names := by
    rw [counting, segments_joinNames valid, List.filter_append, filter_stem, spelled.names,
      filter_of_names_or_blank valid]
  valid := all_isEntryName_append.mpr ⟨spelled.valid, valid⟩

theorem components : path.components = .root :: place.map .name := by
  have valid := spelled.valid
  rw [← spelled.names] at valid
  rw [components_eq, spelled.absolute, filterMap_componentOf? valid]
  change Component.root :: path.counting.map Component.name = _
  rw [spelled.names]

/-- Two such paths have the same components exactly when they spell the same location. -/
theorem components_eq_iff (also : other.Spells elsewhere) :
    path.components = other.components ↔ place = elsewhere := by
  rw [spelled.components, also.components, List.cons_inj_right]
  exact (List.map_injective_iff.mpr fun _ _ same => Component.name.inj same).eq_iff

theorem fileName? : path.fileName? = place.getLast? := by
  unfold Path.fileName? trimmed
  rw [spelled.absolute, getLast?_trimEnd_true]
  change path.counting.getLast?.filter _ = _
  rw [spelled.names]
  cases own : place.getLast? with
  | none => rfl
  | some name =>
      obtain ⟨-, dot, dots, -⟩ := isEntryName_iff.mp
        (List.all_eq_true.mp spelled.valid name (List.mem_of_getLast? own))
      simp [Option.filter, dot, dots]

end Path.Spells

/-- Above a name stands the path that the name was put behind. -/
theorem Path.fileName?_tidied (path : Path) : path.tidied.fileName? = path.fileName? := by
  obtain ⟨back, whole⟩ := exists_segments_eq_stem path
  have same : trimEnd path.isAbsolute path.stem = path.trimmed := by
    unfold trimmed
    rcases segments_eq_stem path with alone | blank
    · rw [← alone]
    · rw [blank, trimEnd_concat_blank]
  unfold Path.fileName? tidied
  rw [trimmed_leading whole, same]

/-! ### Making a path absolute -/

section MakeAbsolute

variable {disk : Disk} {path : Path}

theorem counting_workingPath (named : disk.workingDirectory.all isEntryName = true) :
    disk.workingPath.isAbsolute = true ∧ disk.workingPath.counting = disk.workingDirectory := by
  have noSlash : ∀ name ∈ disk.workingDirectory, '/' ∉ name.toList := fun name listed =>
    (isEntryName_iff.mp (List.all_eq_true.mp named name listed)).2.2.2.1
  obtain ⟨absolute, segments⟩ := @segments_ofSegments true _ noSlash (fun never => nomatch never)
  refine ⟨absolute, ?_⟩
  unfold counting Disk.workingPath
  rw [segments, filter_of_names_or_blank named]

section Named

variable (named : path.isAbsolute = true ∨ disk.workingDirectory.all isEntryName = true)
include named

/-- Made absolute, a path counts what it counts behind where it starts. -/
theorem counting_of_absoluteFrom : (absoluteFrom disk.workingPath path).isAbsolute = true ∧
    (absoluteFrom disk.workingPath path).counting = disk.origin path ++ path.counting ∧
      (disk.origin path).all isEntryName = true := by
  obtain ⟨kind, all⟩ := counting_absoluteFrom disk.workingPath path
  rw [kind, all]
  unfold Disk.origin
  cases absolute : path.isAbsolute with
  | true => exact ⟨rfl, rfl, rfl⟩
  | false =>
      have below := named.resolve_left (by rw [absolute]; decide)
      obtain ⟨above, names⟩ := counting_workingPath below
      exact ⟨above, congrArg (· ++ _) names, below⟩

theorem absoluteFrom_text_ne_empty : (absoluteFrom disk.workingPath path).text ≠ "" := by
  intro empty
  have absolute := isAbsolute_iff.mp (counting_of_absoluteFrom named).1
  rw [empty] at absolute
  exact absurd absolute (by decide)

/-- A path without steps up spells where it leads, once it is made absolute. -/
theorem spells_absoluteFrom (noParent : ".." ∉ path.segments)
    (noNull : ∀ segment ∈ path.segments, '\x00' ∉ segment.toList) :
    (absoluteFrom disk.workingPath path).Spells (disk.leadsTo path) := by
  obtain ⟨absolute, all, start⟩ := counting_of_absoluteFrom named
  have valid : path.counting.all isEntryName = true := by
    rw [List.all_eq_true]
    intro segment counts
    obtain ⟨listed, active⟩ := mem_counting.mp counts
    obtain ⟨nonempty, dot⟩ := isIdle_eq_false_iff.mp active
    exact isEntryName_iff.mpr ⟨nonempty, dot, fun same => noParent (same ▸ listed),
      Text.not_mem_of_mem_split (mem_split_of_mem_segments listed), noNull segment listed⟩
  have leads : disk.leadsTo path = disk.origin path ++ path.counting := by
    unfold Disk.leadsTo
    rw [← destination_filter]
    exact destination_of_names valid _
  rw [leads]
  exact ⟨absolute, all, all_isEntryName_append.mpr ⟨start, valid⟩⟩

end Named

theorem noNull_of_admits (admitted : disk.admits path = true) :
    ∀ segment ∈ path.segments, '\x00' ∉ segment.toList := by
  intro segment listed null
  have found := Text.mem_of_mem_split (mem_split_of_mem_segments listed) null
  simp only [Disk.admits, Bool.and_eq_true] at admitted
  have free := admitted.1.2
  simp only [Bool.not_eq_true', List.contains_eq_mem, decide_eq_false_iff_not] at free
  exact free found

/-- A path that can be followed when it is made absolute is itself written without null characters. -/
theorem noNull_of_absoluteFrom {directory : Path}
    (admitted : disk.admits (absoluteFrom directory path) = true) :
    ∀ segment ∈ path.segments, '\x00' ∉ segment.toList := by
  intro segment listed null
  cases idle : isIdle segment with
  | true =>
      rcases isIdle_iff.mp idle with rfl | rfl
      · exact absurd null (by decide)
      · exact absurd null (by decide)
  | false =>
      have inside : segment ∈ (absoluteFrom directory path).counting := by
        rw [(counting_absoluteFrom directory path).2]
        exact List.mem_append_right _ (mem_counting.mpr ⟨listed, idle⟩)
      exact noNull_of_admits admitted segment (mem_counting.mp inside).1 null

end MakeAbsolute

end CrossBuild.Files
