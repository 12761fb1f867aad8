/-
What a collection of logs comes to.

The output is made first, which adds directories to the tree and no files, and then the walk lays the
copies in it. So the files to be collected can be told from the disk before, and of them nothing
depends on what the output held. Two things keep a collection from being more: a directory that
cannot be read under its absolute path is passed over, and a report counts as passed only if the
reader takes it, which refuses documents with a declaration of their type.
-/

import CrossBuild.Proofs.Artifacts.LogFiles
import Mathlib.Data.List.Sort

namespace CrossBuild.Artifacts

open Files Files.Disk Runs

/-! ### A whole collection -/

/-- What a collection comes to, when it is told which files are found. The copies are listed in the
order of their places, compared name by name. What is no copy stays as it is, but for directories that
were missing on the way. -/
structure IsCollection (found : Location → ByteArray → Prop) (output : Path) (start : Disk)
    (copies : List Path) (after : Disk) : Prop where
  setting : start.SameSetting after
  listed : ∃ places : List Location,
    copies = places.map (Path.absoluteFrom start.workingPath output).joinNames ∧
      places.Pairwise (· < ·) ∧ ∀ place, place ∈ places ↔ ∃ content, found place content
  copied : ∀ place content, found place content →
    after.entryAt? (start.leadsTo output ++ place) = some (.file content)
  others : ∀ location,
    (∀ place content, found place content → location ≠ start.leadsTo output ++ place) →
      after.entryAt? location = start.entryAt? location ∨
        start.entryAt? location = none ∧ after.entryAt? location = some .directory ∧
          (location <+: start.leadsTo output ∨
            ∃ place content, found place content ∧ location <+: start.leadsTo output ++ place)

/-- The logs to be collected, told from the disk before. -/
def IsDueLog (input output : Path) (start : Disk) : Location → ByteArray → Prop :=
  IsFound (Path.absoluteFrom start.workingPath input) (start.leadsTo input) (start.leadsTo output) start

theorem resolve_ok {path result : Path} {disk next : Disk}
    (done : resolve path disk = .ok result next) :
    result = Path.absoluteFrom disk.workingPath path ∧ next = disk ∧
      (path.isAbsolute = true ∨ disk.workingDirectory.all isEntryName = true) := by
  unfold resolve at done
  rw [get_bind] at done
  split at done
  · cases done
  · rename_i fine
    obtain ⟨rfl, rfl⟩ := pure_ok_iff.mp done
    refine ⟨rfl, rfl, ?_⟩
    cases absolute : path.isAbsolute with
    | true => exact .inl rfl
    | false =>
        have there : disk.isDirectoryAt disk.workingDirectory = true := by
          by_contra gone
          simp [absolute, gone] at fine
        exact .inr (namesValid_of_entryAt? (isDirectoryAt_iff.mp there))

section Collection

variable {input output : Path} {start made after : Disk} {copies : List Path}

/-- A collection makes the output and then walks through the input, unless they are the same. -/
theorem copyLogs_parts (done : copyLogs input output start = .ok copies after) :
    start.isDirectory input = true ∧
      (input.isAbsolute = true ∨ start.workingDirectory.all isEntryName = true) ∧
      (output.isAbsolute = true ∨ start.workingDirectory.all isEntryName = true) ∧
      ∃ made, makeDirectories (Path.absoluteFrom start.workingPath output) start = .ok () made ∧
        ((Path.absoluteFrom start.workingPath input).components =
            (Path.absoluteFrom start.workingPath output).components ∧ copies = [] ∧ after = made ∨
          (Path.absoluteFrom start.workingPath input).components ≠
            (Path.absoluteFrom start.workingPath output).components ∧
            copyLogsWithin (Path.absoluteFrom start.workingPath output) (levelBound made)
              ⟨Path.absoluteFrom start.workingPath input, []⟩ made = .ok copies after) := by
  unfold copyLogs at done
  rw [get_bind] at done
  split at done
  · cases done
  · rename_i there
    obtain ⟨source, _, fromInput, done⟩ := bind_ok_iff.mp done
    obtain ⟨rfl, rfl, inputNamed⟩ := resolve_ok fromInput
    obtain ⟨target, _, toOutput, done⟩ := bind_ok_iff.mp done
    obtain ⟨rfl, rfl, outputNamed⟩ := resolve_ok toOutput
    obtain ⟨_, made, making, done⟩ := bind_ok_iff.mp done
    refine ⟨by simpa using there, inputNamed, outputNamed, made, adaptExcept_ok_iff.mp making, ?_⟩
    split at done
    · rename_i same
      obtain ⟨rfl, rfl⟩ := pure_ok_iff.mp done
      exact .inl ⟨same, rfl, rfl⟩
    · rename_i different
      exact .inr ⟨different, done⟩

/-- What is found depends on the files below the input that are not in the output. -/
theorem isFound_congr {source : Path} {top away : Location} {other : Disk}
    (setting : start.SameSetting other) (files : ∀ place content, ¬ away <+: top ++ place →
      (other.entryAt? (top ++ place) = some (.file content) ↔
        start.entryAt? (top ++ place) = some (.file content))) (place : Location)
    (content : ByteArray) :
    IsFound source top away other place content ↔ IsFound source top away start place content := by
  have reached : IsReached source other place ↔ IsReached source start place := by
    unfold IsReached
    simp only [setting.permits]
  constructor
  · rintro ⟨⟨file, outside, isLog⟩, there⟩
    exact ⟨⟨(files place content outside).mp file, outside, isLog⟩, reached.mp there⟩
  · rintro ⟨⟨file, outside, isLog⟩, there⟩
    exact ⟨⟨(files place content outside).mpr file, outside, isLog⟩, reached.mpr there⟩

/-- Directories that were made for the output change nothing about what is found. -/
theorem isFound_iff_of_grows {source : Path} {top away : Location} {kind : Location → Prop}
    (grown : start.Grows kind made) (place : Location) (content : ByteArray) :
    IsFound source top away made place content ↔ IsFound source top away start place content := by
  refine isFound_congr grown.setting (fun place content _ => ?_) place content
  rcases grown.entries (top ++ place) with same | ⟨missing, isDirectory, -⟩
  · rw [same]
  · simp [missing, isDirectory]

/-- What was collected from the tree with the output made was collected from the tree before. -/
theorem Collects.isCollection {more : List Location}
    (grown : start.Grows (· <+: start.leadsTo output) made)
    (collects : Collects (Path.absoluteFrom start.workingPath input) (start.leadsTo input)
      (start.leadsTo output) made (fun _ => True) [] more after) :
    IsCollection (IsDueLog input output start) output start
      (more.map (Path.absoluteFrom start.workingPath output).joinNames) after := by
  have mem : ∀ place, place ∈ more ↔ ∃ content, IsDueLog input output start place content := by
    intro place
    rw [collects.exact, true_and]
    exact exists_congr (isFound_iff_of_grows grown place)
  have gathered := collects.gathered
  rw [List.nil_append] at gathered
  refine ⟨grown.setting.trans gathered.setting, ⟨more, rfl, collects.sorted, mem⟩, ?_, ?_⟩
  · intro place content found
    obtain ⟨bytes, source, held⟩ := gathered.laid place ((mem place).mpr ⟨content, found⟩)
    cases source.symm.trans ((isFound_iff_of_grows grown place content).mpr found).file
    exact held
  · intro location noCopy
    have apart : ∀ place ∈ more, location ≠ start.leadsTo output ++ place := by
      intro place listed
      obtain ⟨content, found⟩ := (mem place).mp listed
      exact noCopy place content found
    rcases gathered.others location apart with kept | ⟨missing, new, place, listed, -, above⟩
    · rcases grown.entries location with same | ⟨missing, new, above⟩
      · exact .inl (kept.trans same)
      · exact .inr ⟨missing, kept.trans new, .inl above⟩
    · obtain ⟨content, found⟩ := (mem place).mp listed
      refine .inr ⟨?_, new, .inr ⟨place, content, found, above⟩⟩
      rcases grown.entries location with same | ⟨never, -, -⟩
      · exact same ▸ missing
      · exact never

theorem copyLogs_isCollection (noParent : ".." ∉ input.segments ∧ ".." ∉ output.segments)
    (notAbove : ¬ (start.leadsTo output <+: start.leadsTo input ∧
      start.leadsTo output ≠ start.leadsTo input))
    (done : copyLogs input output start = .ok copies after) :
    IsCollection (IsDueLog input output start) output start copies after := by
  obtain ⟨there, inputNamed, outputNamed, made, making, run⟩ := copyLogs_parts done
  obtain ⟨permitted, standing⟩ := isDirectory_iff.mp there
  obtain ⟨either, grows⟩ := makeDirectories_ok making
  have isReady := either.resolve_left (absoluteFrom_text_ne_empty outputNamed)
  have fromInput := spells_absoluteFrom inputNamed noParent.1 (noNull_of_admits permitted.1)
  have toOutput := spells_absoluteFrom outputNamed noParent.2
    (noNull_of_absoluteFrom (isDirectory_iff.mp isReady).1.1)
  have grown : start.Grows (· <+: start.leadsTo output) made :=
    grows.mono fun location => toOutput.mem_way.mp
  have top := grown.keeps (entryAt?_leadsTo_of_stands standing)
  have ready := entryAt?_leadsTo_of_stands (isDirectory_iff.mp isReady).2
  rw [toOutput.leadsTo] at ready
  rw [ne_eq, fromInput.components_eq_iff toOutput] at run
  rcases run with ⟨same, rfl, rfl⟩ | ⟨different, walk⟩
  · have nothing : Collects (Path.absoluteFrom start.workingPath input) (start.leadsTo input)
        (start.leadsTo output) after (fun _ => True) [] [] after := by
      refine .nil .nil fun place content _ found => found.outside ?_
      rw [same]
      exact List.prefix_append _ place
    exact nothing.isCollection grown
  · have root : made.entryAt? (start.leadsTo input ++ []) = some .directory := by
      rwa [List.append_nil]
    have apart : ¬ start.leadsTo output <+: start.leadsTo input ++ [] := by
      rw [List.append_nil]
      exact fun above => notAbove ⟨above, Ne.symm different⟩
    obtain ⟨more, rfl, collects⟩ := copyLogsWithin_ok fromInput toOutput top ready root apart
      (fun front above other => absurd (List.prefix_nil.mp above) other) (Nat.le_refl _) .nil walk
    exact (collects.congr fun place _ _ => iff_of_true trivial List.nil_prefix).isCollection grown

end Collection

/-! ### Runs on samples -/

/-- The copies of a collection that ends well. -/
def copiesOf : EStateM.Result Error Disk (List Path) → Option (List Path)
  | .ok copies _ => some copies
  | .error _ _ => none

theorem exists_of_copiesOf {run : EStateM.Result Error Disk (List Path)} {copies : List Path}
    (ends : copiesOf run = some copies) : ∃ after, run = .ok copies after := by
  cases run with
  | ok value after =>
      cases ends
      exact ⟨after, rfl⟩
  | error cause after => cases ends

def passingReport : String := "<testsuite failures=\"0\" errors=\"0\"/>"

/-- The output lies in the input and holds a log of its own. -/
def loggedEntries : List (Location × Entry) :=
  [(["i"], .directory), (["i", "a"], .directory), (["i", "a", "x.log"], .file ⟨#[1]⟩),
    (["i", "a", "x.txt"], .file ⟨#[2]⟩), (["i", "b.log"], .file ⟨#[3]⟩), (["i", "o"], .directory),
    (["i", "o", "old.log"], .file ⟨#[4]⟩), (["i", "surefire-reports"], .directory),
    (["i", "surefire-reports", "TEST-bad.xml"], .file ⟨#[5]⟩),
    (["i", "surefire-reports", "TEST-ok.xml"], .file passingReport.toUTF8)]

def loggedDisk : Disk :=
  { entries := loggedEntries
    workingDirectory := []
    limits := none
    keysDistinct := by decide +kernel
    parentsThere := by decide +kernel
    namesValid := by decide +kernel }

private theorem copyLogs_of_logged : ∃ after, copyLogs ⟨"i"⟩ ⟨"i/o"⟩ loggedDisk =
    .ok [⟨"/i/o/a/x.log"⟩, ⟨"/i/o/b.log"⟩, ⟨"/i/o/surefire-reports/TEST-bad.xml"⟩] after :=
  exists_of_copiesOf (by decide +kernel)

/-- Well-formed reports of suites that passed, with a declaration of the document's type allowed in
front. -/
def IsWellFormedPass (content : ByteArray) : Prop :=
  IsPassed content ∨ ∃ body : String, body.startsWith "<testsuite" = true ∧
    IsPassed body.toUTF8 ∧ content = ("<!DOCTYPE testsuite>" ++ body).toUTF8

def declaredReport : ByteArray := ("<!DOCTYPE testsuite>" ++ passingReport).toUTF8

def declaredDisk : Disk :=
  { entries := [(["i"], .directory), (["i", "surefire-reports"], .directory),
      (["i", "surefire-reports", "TEST-a.xml"], .file declaredReport)]
    workingDirectory := []
    limits := none
    keysDistinct := by decide +kernel
    parentsThere := by decide +kernel
    namesValid := by decide +kernel }

/-- The log can be reached from the working directory, but its directory has no absolute path that
keeps to the limits. -/
def deepDisk : Disk :=
  { entries := [(["working-place"], .directory), (["working-place", "i"], .directory),
      (["working-place", "i", "d"], .directory), (["working-place", "i", "d", ".log"], .file ⟨#[1]⟩)]
    workingDirectory := ["working-place"]
    limits := some { nameBytes := 16, pathBytes := 16 }
    keysDistinct := by decide +kernel
    parentsThere := by decide +kernel
    namesValid := by decide +kernel }

private theorem isPassed_passingReport : IsPassed passingReport.toUTF8 := by
  have read : (Xml.read? passingReport).map suitePassed = some true := by decide +kernel
  obtain ⟨suite, found, passed⟩ := Option.map_eq_some_iff.mp read
  have parts := passed
  simp only [suitePassed, Bool.and_eq_true, decide_eq_true_eq, and_assoc] at parts
  exact ⟨passingReport, suite, by decide +kernel, found, parts⟩

/-- No file on the disk is one to collect, if a declaration of the type does no harm. -/
private theorem nothing_of_declared (place : Location) (content : ByteArray) :
    ¬ IsLogBelow IsWellFormedPass ["i"] ["o"] declaredDisk place content := by
  rintro ⟨file, -, isLog⟩
  have listed := (entryAt?_eq_some_iff (by simp)).mp file
  simp only [declaredDisk, List.mem_cons, Prod.mk.injEq, reduceCtorEq, and_false, false_or,
    List.not_mem_nil, or_false, Entry.file.injEq] at listed
  obtain ⟨whole, rfl⟩ := listed
  rw [whole] at isLog
  rcases (@isLogFile_concat IsWellFormedPass ["i", "surefire-reports"] "TEST-a.xml" _).mp isLog with
    ending | ⟨-, failed⟩
  · exact absurd ending (by decide +kernel)
  · exact failed (.inr ⟨passingReport, by decide +kernel, isPassed_passingReport, rfl⟩)

private theorem copyLogs_of_declared : ∃ after, copyLogs ⟨"i"⟩ ⟨"o"⟩ declaredDisk =
    .ok [⟨"/o/surefire-reports/TEST-a.xml"⟩] after := exists_of_copiesOf (by decide +kernel)

private theorem copyLogs_of_deep : ∃ after, copyLogs ⟨"i"⟩ ⟨"o"⟩ deepDisk = .ok [] after :=
  exists_of_copiesOf (by decide +kernel)

end CrossBuild.Artifacts
