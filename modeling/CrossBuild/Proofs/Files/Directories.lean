/-
Making directories that are missing.

What a run leaves that makes directories is described elsewhere; here is when it ends well. On the
way of the path only one place may be missing, but the path may pass it more than once: the directory
is then made by an ancestor, and the path finds it when its turn comes.
-/

import CrossBuild.Proofs.Files.Effects

namespace CrossBuild.Files

open Disk Runs

namespace Path

/-- The parent of a tidy path is tidy, has fewer pieces, and passes what the path passes before its
end. -/
theorem exists_parent {path : Path} (tidy : path.isTidy) (counts : path.segments ≠ [""]) :
    ∃ parent, path.parent? = some parent ∧ parent.isTidy ∧
      parent.trimmed.length < path.trimmed.length ∧ parent.isAbsolute = path.isAbsolute ∧
      (∃ rest, path.text = parent.text ++ rest) ∧
      (∀ segment ∈ parent.segments, isIdle segment = true ∨ segment ∈ path.segments) ∧
      ∀ disk : Disk, ∀ place, place ∈ disk.way parent ↔ place ∈ (disk.way path).dropLast := by
  have trimmed := tidy.resolve_left counts
  obtain ⟨front, last, whole⟩ : ∃ front last, path.segments = front ++ [last] :=
    ⟨_, _, (List.dropLast_concat_getLast path.segments_ne_nil).symm⟩
  have own := parent?_of_tidy trimmed
  rw [whole, List.dropLast_concat] at own
  refine ⟨_, own, isTidy_leading whole, ?_, (segments_leading whole).1, text_leading whole,
    fun _ => mem_segments_leading whole, fun disk place => ?_⟩
  · have shorter := length_trimEnd_le path.isAbsolute front
    rw [trimmed_leading whole, trimmed, whole, List.length_append, List.length_singleton]
    omega
  · rw [(way_of_leading whole).2, Disk.way, whole, trail_concat, List.dropLast_concat]

theorem withoutSlash_of_tidy {path : Path} (tidy : path.isTidy) (counts : path.segments ≠ [""]) :
    path.withoutSlash = path := by
  have noBlank : path.segments.getLast? ≠ some "" := by
    rw [← tidy.resolve_left counts]
    exact getLast?_trimEnd _ _
  have kept : path.segments.reverse.dropWhile (fun segment => decide (segment = "")) =
      path.segments.reverse := by
    rw [← List.head?_reverse] at noBlank
    cases pieces : path.segments.reverse with
    | nil => rfl
    | cons last others =>
        rw [pieces, List.head?_cons, ne_eq, Option.some.injEq] at noBlank
        exact List.dropWhile_cons_of_neg (by simpa using noBlank)
  unfold withoutSlash
  rw [kept, List.reverse_reverse, ofSegments_segments]

theorem isTidy_joinName (path : Path) {name : String} (valid : isEntryName name = true) :
    (path.joinName name).isTidy :=
  .inr (trimmed_joinName path valid)

end Path

section MakeDirectories

variable {path : Path} {top : Location} {disk : Disk}

/-- Where nothing stands a directory can be made, if the one above it is reached. -/
theorem makeDirectory_succeeds (noSlash : path.withoutSlash = path) (permitted : disk.permits path)
    (reached : ∀ place ∈ (disk.way path).dropLast, disk.entryAt? place = some .directory)
    (missing : disk.entryAt? (disk.leadsTo path) = none) :
    makeDirectory path disk = .ok () (disk.place (disk.leadsTo path) .directory) := by
  have found : disk.locate? path = some (disk.leadsTo path) :=
    locate?_eq_some_iff.mpr ⟨permitted, reached, rfl⟩
  unfold makeDirectory
  simp only [bind_ok_iff, get_ok_iff]
  refine ⟨disk, disk, ⟨rfl, rfl⟩, ?_⟩
  rw [permitted.1, noSlash, found]
  simp only [Bool.not_true, Bool.false_eq_true, if_false]
  rw [missing]
  rfl

private theorem way_of_blank (blank : path.segments = [""]) :
    ∀ place ∈ disk.way path, place = disk.origin path := by
  intro place member
  unfold Disk.way at member
  rw [blank] at member
  exact (mem_trail_of_idle (by simp [Path.isIdle])).mp member

theorem Disk.permits.leading {parent : Path} (permitted : disk.permits path)
    (longer : ∃ rest, path.text = parent.text ++ rest)
    (pieces : ∀ segment ∈ parent.segments, Path.isIdle segment = true ∨ segment ∈ path.segments)
    (spelled : parent.text ≠ "") : disk.permits parent := by
  obtain ⟨rest, whole⟩ := longer
  refine ⟨admits_of_longer whole spelled permitted.1, fun segment member => ?_⟩
  rcases pieces segment member with idle | inside
  · exact .inl idle
  · exact permitted.2 segment inside

private theorem makeChain_of_settled {above : List Path}
    (settled : path.text = "" ∨ disk.isDirectory path = true) :
    makeChain (path :: above) disk = .ok () disk := by
  have whole : (decide (path.text = "") || disk.isDirectory path) = true := by
    simpa using settled
  unfold makeChain
  simp only [bind_ok_iff, get_ok_iff]
  refine ⟨disk, disk, ⟨rfl, rfl⟩, ?_⟩
  rw [if_pos whole]
  rfl

/-- Either the first path of a chain can be made, or the others bring it about. -/
private theorem makeChain_cons {above : List Path} (permitted : disk.permits path)
    (others : (∀ after, makeDirectory path disk ≠ .ok () after) →
      ∃ middle, makeChain above disk = .ok () middle ∧ middle.isDirectory path = true) :
    ∃ after, makeChain (path :: above) disk = .ok () after := by
  by_cases settled : path.text = "" ∨ disk.isDirectory path = true
  · exact ⟨disk, makeChain_of_settled settled⟩
  · have open_ : ¬ (decide (path.text = "") || disk.isDirectory path) = true := by
      simpa using settled
    unfold makeChain
    simp only [bind_ok_iff, get_ok_iff]
    cases made : makeDirectory path disk with
    | ok _ after =>
        refine ⟨after, disk, disk, ⟨rfl, rfl⟩, ?_⟩
        rw [if_neg open_, permitted.1]
        simp only [Bool.not_true, Bool.false_eq_true, if_false, EStateM.run, made]
        rfl
    | error cause rest =>
        obtain ⟨middle, chain, there⟩ := others fun after same => by
          rw [made] at same
          cases same
        refine ⟨middle, disk, disk, ⟨rfl, rfl⟩, ?_⟩
        rw [if_neg open_, permitted.1]
        simp only [Bool.not_true, Bool.false_eq_true, if_false, EStateM.run, made, bind_ok_iff]
        refine ⟨(), middle, chain, ?_⟩
        unfold ensureDirectory
        simp only [bind_ok_iff, get_ok_iff]
        refine ⟨middle, middle, ⟨rfl, rfl⟩, ?_⟩
        rw [if_pos there]
        rfl

private theorem exists_ancestorsWithin (fuel : Nat) (path : Path) :
    ∃ above, path.ancestorsWithin fuel = path :: above := by
  cases fuel with
  | zero => exact ⟨[], rfl⟩
  | succ fuel =>
      unfold Path.ancestorsWithin
      cases path.parent? with
      | none => exact ⟨[], rfl⟩
      | some parent => exact ⟨_, rfl⟩

private theorem segments_of_text {path : Path} (empty : path.text = "") : path.segments = [""] := by
  have same : path = ⟨""⟩ := congrArg Path.mk empty
  rw [same]
  rfl

private theorem makeChain_of_blank {fuel : Nat} (blank : path.segments = [""])
    (permitted : path.text ≠ "" → disk.permits path)
    (start : disk.entryAt? (disk.origin path) = some .directory) :
    makeChain (path.ancestorsWithin fuel) disk = .ok () disk := by
  obtain ⟨above, whole⟩ := exists_ancestorsWithin fuel path
  rw [whole]
  apply makeChain_of_settled
  by_cases empty : path.text = ""
  · exact .inl empty
  · refine .inr (isDirectory_iff.mpr ⟨permitted empty, fun place member => ?_⟩)
    rw [way_of_blank blank place member]
    exact start

/-- Before a path that cannot be made another one has passed the missing place. -/
private theorem passed_of_refused {front : List Location} (noSlash : path.withoutSlash = path)
    (permitted : disk.permits path) (before : ∀ place, place ∈ front ↔ place ∈ (disk.way path).dropLast)
    (missing : disk.entryAt? top = none)
    (passes : ∀ place ∈ disk.way path, place = top ∨ disk.entryAt? place = some .directory)
    (refused : ∀ after, makeDirectory path disk ≠ .ok () after) (member : top ∈ disk.way path) :
    top ∈ front := by
  by_contra apart
  have reached : ∀ other ∈ (disk.way path).dropLast, disk.entryAt? other = some .directory := by
    intro other inside
    refine (passes other ((List.dropLast_prefix _).subset inside)).resolve_left ?_
    rintro rfl
    exact apart ((before other).mpr inside)
  have atEnd : top = disk.leadsTo path := by
    rw [Disk.way, trail_eq_concat, List.mem_append, List.mem_singleton] at member
    exact member.resolve_left fun inside => apart ((before top).mpr inside)
  rw [atEnd] at missing
  exact refused _ (makeDirectory_succeeds noSlash permitted reached missing)

private theorem makeChain_succeeds {fuel : Nat} (tidy : path.isTidy)
    (enough : path.trimmed.length ≤ fuel) (permitted : path.text ≠ "" → disk.permits path)
    (start : disk.entryAt? (disk.origin path) = some .directory)
    (missing : disk.entryAt? top = none)
    (passes : ∀ place ∈ disk.way path, place = top ∨ disk.entryAt? place = some .directory) :
    ∃ after, makeChain (path.ancestorsWithin fuel) disk = .ok () after := by
  induction fuel generalizing path with
  | zero =>
      have blank : path.segments = [""] := by
        refine tidy.resolve_right fun same => path.segments_ne_nil ?_
        rw [← same]
        exact List.eq_nil_of_length_eq_zero (Nat.le_zero.mp enough)
      exact ⟨disk, makeChain_of_blank blank permitted start⟩
  | succ fuel ih =>
      by_cases blank : path.segments = [""]
      · exact ⟨disk, makeChain_of_blank blank permitted start⟩
      · have allowed := permitted fun empty => blank (segments_of_text empty)
        obtain ⟨parent, own, parentTidy, shorter, absolute, longer, pieces, around⟩ :=
          Path.exists_parent tidy blank
        have before : ∀ place ∈ disk.way parent, place ∈ disk.way path := fun place member =>
          (List.dropLast_prefix _).subset ((around disk place).mp member)
        have sameStart : disk.origin parent = disk.origin path := by
          unfold Disk.origin
          rw [absolute]
        rw [Path.ancestorsWithin, own]
        apply makeChain_cons allowed
        intro refused
        obtain ⟨middle, chain⟩ := ih parentTidy (by omega) (allowed.leading longer pieces)
          (by rw [sameStart]; exact start) fun place member => passes place (before place member)
        obtain ⟨there, grown⟩ := makeChain_ok chain
        refine ⟨middle, chain, isDirectory_iff.mpr ⟨(grown.setting.permits path).mpr allowed, ?_⟩⟩
        intro place member
        rw [grown.setting.way] at member
        rcases passes place member with rfl | standing
        · have passed := passed_of_refused (Path.withoutSlash_of_tidy tidy blank) allowed
            (around disk) missing passes refused member
          -- the parent is there after the chain above, and with it every place it passes
          obtain ⟨above, chained⟩ := exists_ancestorsWithin fuel parent
          rcases there parent (by rw [chained]; rfl) with empty | found
          · exfalso
            rw [way_of_blank (segments_of_text empty) place passed, sameStart, start] at missing
            cases missing
          · apply (isDirectory_iff.mp found).2
            rw [grown.setting.way]
            exact passed
        · exact grown.keeps standing

/-- A directory can be made if its path passes directories but for one place where nothing stands,
and does not start there. -/
theorem makeDirectories_succeeds (tidy : path.isTidy) (permitted : disk.permits path)
    (start : disk.entryAt? (disk.origin path) = some .directory)
    (missing : disk.entryAt? top = none)
    (passes : ∀ place ∈ disk.way path, place = top ∨ disk.entryAt? place = some .directory) :
    ∃ after, makeDirectories path disk = .ok () after :=
  makeChain_succeeds tidy (Path.length_trimEnd_le _ _) (fun _ => permitted) start missing passes

theorem makeDirectories_of_isDirectory (there : disk.isDirectory path = true) :
    makeDirectories path disk = .ok () disk := by
  obtain ⟨above, whole⟩ := exists_ancestorsWithin path.segments.length path
  unfold makeDirectories Path.ancestors
  rw [whole]
  exact makeChain_of_settled (.inr there)

/-- Below a directory that a path leads to, a directory can be made if the one above it is there and no
file in its place. -/
theorem makeDirectories_joinNames_succeeds {names : List String}
    (valid : names.all isEntryName = true) (standing : disk.stands path)
    (permitted : disk.permits (path.joinNames names))
    (parent : disk.entryAt? (disk.leadsTo path ++ names.dropLast) = some .directory)
    (noFile : ∀ content, disk.entryAt? (disk.leadsTo path ++ names) ≠ some (.file content)) :
    ∃ after, makeDirectories (path.joinNames names) disk = .ok () after := by
  cases present : disk.entryAt? (disk.leadsTo path ++ names) with
  | some entry =>
      cases entry with
      | file content => exact absurd present (noFile content)
      | directory => exact ⟨disk, makeDirectories_of_isDirectory
          (isDirectory_iff.mpr ⟨permitted, (stands_joinNames valid).mpr ⟨standing, present⟩⟩)⟩
  | none =>
      cases names using List.reverseRecOn with
      | nil =>
          rw [List.append_nil, entryAt?_leadsTo_of_stands standing] at present
          cases present
      | append_singleton front name =>
          rw [List.dropLast_concat] at parent
          have nameValid := (all_isEntryName_concat.mp valid).2
          have tidy := Path.isTidy_joinName (path.joinNames front) nameValid
          rw [Path.joinName_joinNames path valid] at tidy
          refine makeDirectories_succeeds tidy permitted ?_ present fun place member => ?_
          · rw [origin_joinNames valid]
            exact standing _ (start_mem_trail _ _)
          · rcases (mem_way_joinNames valid).mp member with before | ⟨start, within, rfl⟩
            · exact .inr (standing place before)
            · rcases List.prefix_concat_iff.mp within with rfl | ⟨rest, rfl⟩
              · exact .inl rfl
              · right
                rw [← List.append_assoc] at parent
                by_cases own : rest = []
                · rw [own, List.append_nil] at parent
                  exact parent
                · exact entryAt?_above parent own

end MakeDirectories

end CrossBuild.Files
