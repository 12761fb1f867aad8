/-
Components of paths.

Two spellings stand for one path when they have the same components. What follows the last slash is
a matter of the spelling: a dot there is no component, so the last component of a path that ends in
a dot is the one before. The last name and the directory of a path can be told from its components,
and so can the place to which it leads.
-/

import CrossBuild.Proofs.Files.Absolute

namespace CrossBuild.Files

namespace Path

/-- The last component is a name. -/
def isNamed (path : Path) : Prop :=
  ∃ name, path.components.getLast? = some (.name name)

/-- What follows the last slash is a name. -/
def endsInName (path : Path) : Prop :=
  ∃ name, path.segments.getLast? = some name ∧ componentOf? name = some (.name name)

/-! ### The last name -/

theorem componentOf?_eq_name_iff {segment name : String} : componentOf? segment = some (.name name) ↔
    segment = name ∧ isIdle segment = false ∧ segment ≠ ".." := by
  unfold componentOf?
  change (if isIdle segment = true then _ else _) = _ ↔ _
  cases isIdle segment with
  | true => simp
  | false =>
      rw [if_neg Bool.false_ne_true]
      split
      · rename_i dots
        simp [dots]
      · rename_i noDots
        simp [noDots]

/-- A dot counts at the end only when it is all there is. -/
theorem trimEnd_eq_of_getLast?_dot {follows : Bool} {segments : List String}
    (dot : (trimEnd follows segments).getLast? = some ".") : trimEnd follows segments = ["."] := by
  cases segments with
  | nil => cases dot
  | cons segment rest =>
      rw [trimEnd] at dot ⊢
      cases kept : trimEnd true rest with
      | nil =>
          rw [kept] at dot
          simp only [] at dot ⊢
          split at dot
          · cases dot
          · rename_i counts
            rw [List.getLast?_singleton, Option.some.injEq] at dot
            rw [if_neg counts, dot]
      | cons first later =>
          have counts := getLast?_trimEnd_true rest
          rw [kept] at dot counts
          simp only [List.getLast?_cons_cons] at dot
          rw [dot] at counts
          have member := List.mem_of_getLast? counts.symm
          exact absurd (List.mem_filter.mp member).2 (by decide)

/-- A path with a last name has a directory, in which the name can be replaced by another one. -/
theorem exists_parent_of_fileName? {path : Path} {name : String} (named : path.fileName? = some name) :
    componentOf? name = some (.name name) ∧ '/' ∉ name.toList ∧
      ∃ parent : Path, path.parent? = some parent ∧
        path.components = parent.components ++ [.name name] ∧
        ∀ other, path.withFileName other = parent.joinName other := by
  have own := named
  unfold fileName? at own
  simp only [Option.filter_eq_some_iff, Bool.and_eq_true, decide_eq_true_eq] at own
  obtain ⟨last, noDot, noDots⟩ := own
  obtain ⟨front, kept⟩ := List.getLast?_eq_some_iff.mp last
  obtain ⟨rest, split, -⟩ := trimEnd_append_idle path.isAbsolute path.segments
  have whole : path.segments = front ++ ([name] ++ rest) := by
    rw [← List.append_assoc, ← kept]
    exact split
  have some : name ≠ "" := fun blank => getLast?_trimEnd _ _ (blank ▸ last)
  have counts : isIdle name = false := isIdle_eq_false_iff.mpr ⟨some, noDot⟩
  have isName : componentOf? name = .some (.name name) :=
    componentOf?_eq_name_iff.mpr ⟨rfl, counts, noDots⟩
  have above : path.parent? = .some (path.leading front) := by
    obtain ⟨first, others, pieces⟩ := List.exists_cons_of_ne_nil (List.concat_ne_nil name front)
    have directory : (first :: others).dropLast = front := by rw [← pieces, List.dropLast_concat]
    unfold parent?
    rw [kept, pieces]
    exact congrArg (fun segments => Option.some (path.leading segments)) directory
  refine ⟨isName, ?_, path.leading front, above, ?_, fun other => ?_⟩
  · apply @Text.not_mem_of_mem_split _ path.text _ (mem_split_of_mem_segments _)
    rw [whole]
    simp
  · rw [components_leading whole, ← componentsOf_trimmed, kept, componentsOf_concat _ _ noDot, isName]
    rfl
  · unfold withFileName
    rw [named, above]
    rfl

/-- A path without a last name ends in nothing, in a dot or in a step up. -/
theorem trimmed_of_fileName?_eq_none {path : Path} (unnamed : path.fileName? = none) :
    path.trimmed = [] ∨ path.trimmed = ["."] ∨ ∃ front, path.trimmed = front ++ [".."] := by
  unfold fileName? at unnamed
  cases ending : path.trimmed.getLast? with
  | none => exact .inl (List.getLast?_eq_none_iff.mp ending)
  | some segment =>
      rw [ending] at unnamed
      by_cases dot : segment = "."
      · rw [dot] at ending
        exact .inr (.inl (trimEnd_eq_of_getLast?_dot ending))
      · by_cases dots : segment = ".."
        · rw [dots] at ending
          exact .inr (.inr (List.getLast?_eq_some_iff.mp ending))
        · simp [Option.filter, dot, dots] at unnamed

/-- The last name is the last component, if that is a name. -/
theorem fileName?_eq_some_iff {path : Path} {name : String} :
    path.fileName? = some name ↔ path.components.getLast? = some (.name name) := by
  have forward : ∀ own, path.fileName? = some own → path.components.getLast? = some (.name own) := by
    intro own named
    obtain ⟨-, -, parent, -, whole, -⟩ := exists_parent_of_fileName? named
    rw [whole, List.getLast?_concat]
  refine ⟨forward name, fun last => ?_⟩
  cases own : path.fileName? with
  | some other =>
      rw [forward other own, Option.some.injEq, Component.name.injEq] at last
      rw [last]
  | none =>
      -- what such a path ends in is no name among its components either
      exfalso
      rw [← componentsOf_trimmed] at last
      rcases trimmed_of_fileName?_eq_none own with empty | dot | ⟨front, dots⟩
      · rw [empty] at last
        cases absolute : path.isAbsolute <;> simp [componentsOf, absolute] at last
      · rw [dot] at last
        cases absolute : path.isAbsolute <;> simp [componentsOf, absolute, componentOf?] at last
      · rw [dots, componentsOf_concat _ _ (by decide)] at last
        simp [componentOf?] at last

theorem isNamed_iff {path : Path} : path.isNamed ↔ ∃ name, path.fileName? = some name := by
  unfold isNamed
  simp only [fileName?_eq_some_iff]

end Path

/-! ### Where the components lead -/

/-- The place one component further. -/
def Location.follow (place : Location) : Path.Component → Location
  | .root => []
  | .current => place
  | .parent => place.dropLast
  | .name name => place ++ [name]

/-- A path leads where its components lead, one after the other. -/
theorem Disk.leadsTo_eq_foldl (disk : Disk) (path : Path) :
    disk.leadsTo path = path.components.foldl Location.follow disk.workingDirectory := by
  have further : ∀ place, (path.segments.filterMap Path.componentOf?).foldl Location.follow place =
      destination place path.segments := by
    intro place
    unfold destination
    rw [List.foldl_filterMap]
    congr 1
    funext current segment
    unfold Path.componentOf? Location.step
    by_cases idle : (segment = "" || segment = ".") = true
    · simp only [if_pos idle]
    · by_cases dots : segment = ".."
      · simp only [if_neg idle, if_pos dots, Location.follow]
      · simp only [if_neg idle, if_neg dots, Location.follow]
  rw [Path.components_eq, List.foldl_append, further]
  unfold leadsTo origin
  cases path.isAbsolute with
  | true => rfl
  | false =>
      simp only [Bool.false_eq_true, if_false]
      split <;> rfl

theorem Disk.leadsTo_of_components_concat (disk : Disk) {path parent : Path} {name : String}
    (whole : path.components = parent.components ++ [.name name]) :
    disk.leadsTo path = disk.leadsTo parent ++ [name] := by
  rw [leadsTo_eq_foldl, leadsTo_eq_foldl, whole, List.foldl_append]
  rfl

end CrossBuild.Files
