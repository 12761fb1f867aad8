/-
Collecting logs, exactly.

Which files are collected is a matter of the tree before the collection: of what stands below the
input and not in the output, of names, and of what reports tell. The walk runs over a tree into which
it writes, so everything is said against the disk it started from: what it has laid so far lies in the
output, where it never looks. One directory is collected by collecting what it holds one by one, each
in a region of its own, and the regions follow each other in the order of names.
-/

import CrossBuild.Artifacts.Logs
import CrossBuild.Proofs.Files.Absolute
import CrossBuild.Proofs.Artifacts.SplitTree

namespace CrossBuild.Artifacts

open Files Files.Disk Runs

/-! ### Logs and reports -/

/-- The content is a report that can be read and tells of a suite that passed. -/
def IsPassed (content : ByteArray) : Prop :=
  ∃ text suite, String.fromUTF8? content = some text ∧ Xml.read? text = some suite ∧
    suite.isNamed "testsuite" = true ∧ (suite.attribute? "failures").map Text.trim = some "0" ∧
      (suite.attribute? "errors").map Text.trim = some "0"

/-- A file of this name in this directory is taken for the report of a test. -/
def IsReportName (directory : Location) (name : String) : Prop :=
  directory.getLast? = some "surefire-reports" ∧ name.startsWith "TEST-" = true ∧
    Text.endsWith ".xml" name = true

/-- The file is a log, or a report that is not one of those which passed. -/
def IsLogFile (passed : ByteArray → Prop) (location : Location) (content : ByteArray) : Prop :=
  ∃ directory name, location = directory ++ [name] ∧ (Text.endsWith ".log" name = true ∨
    IsReportName directory name ∧ ¬ passed content)

theorem isLogFile_concat {passed : ByteArray → Prop} {directory : Location} {name : String}
    {content : ByteArray} : IsLogFile passed (directory ++ [name]) content ↔
      Text.endsWith ".log" name = true ∨ IsReportName directory name ∧ ¬ passed content := by
  constructor
  · rintro ⟨_, _, whole, isLog⟩
    obtain ⟨rfl, same⟩ := List.append_inj' whole rfl
    cases same
    exact isLog
  · exact fun isLog => ⟨directory, name, rfl, isLog⟩

section Wanted

variable {disk : Disk} {directory : Path} {above : Location} {name : String} {content : ByteArray}

theorem reportPassed_iff {path : Path} : reportPassed disk path = true ↔
    ∃ content, disk.read? path = some content ∧ IsPassed content := by
  unfold reportPassed Disk.readText?
  cases held : disk.read? path with
  | none => simp
  | some content =>
      cases decoded : String.fromUTF8? content with
      | none => simp [IsPassed, decoded]
      | some text =>
          cases read : Xml.read? text with
          | none => simp [IsPassed, decoded, read]
          | some suite => simp [IsPassed, decoded, read, suitePassed, and_assoc]

variable (spelled : directory.Spells above) (valid : isEntryName name = true)
include spelled valid

theorem isWanted_iff : isWanted disk (directory.joinName name) = true ↔
    Text.endsWith ".log" name = true ∨
      IsReportName above name ∧ ¬ reportPassed disk (directory.joinName name) = true := by
  have parent : (directory.joinName name).parent?.bind Path.fileName? = above.getLast? := by
    rw [Path.parent?_joinName directory valid]
    exact (Path.fileName?_tidied directory).trans spelled.fileName?
  unfold isWanted IsReportName
  rw [Path.fileName?_joinName directory valid]
  simp only [parent, reportsDirectory, Bool.or_eq_true, Bool.and_eq_true, Bool.not_eq_true',
    decide_eq_true_eq, and_assoc, Bool.not_eq_true]

theorem read?_joinName (permitted : disk.permits (directory.joinName name))
    (there : disk.entryAt? (above ++ [name]) = some (.file content)) :
    disk.read? (directory.joinName name) = some content := by
  have named : [name].all isEntryName = true := by simpa using valid
  have top := entryAt?_above there (by simp)
  rw [Path.joinName_eq_joinNames] at permitted ⊢
  refine read?_eq_some_iff.mpr ⟨above ++ [name], (locate?_joinNames_iff named).mpr
    ⟨permitted, spelled.stands_iff.mpr top, ?_, ?_⟩, there⟩
  · rw [spelled.leadsTo]
    simpa using top
  · rw [spelled.leadsTo]

theorem eq_of_read? {other : ByteArray} (read : disk.read? (directory.joinName name) = some other)
    (there : disk.entryAt? (above ++ [name]) = some (.file content)) : other = content := by
  obtain ⟨location, found, held⟩ := read?_eq_some_iff.mp read
  rw [leadsTo_of_locate? found, leadsTo_joinName disk directory valid, spelled.leadsTo, there] at held
  cases held
  rfl

/-- A log is wanted, also if it cannot be read. -/
theorem isWanted_of_isLogFile (there : disk.entryAt? (above ++ [name]) = some (.file content))
    (isLog : IsLogFile IsPassed (above ++ [name]) content) :
    isWanted disk (directory.joinName name) = true := by
  refine (isWanted_iff spelled valid).mpr ((isLogFile_concat.mp isLog).imp_right ?_)
  rintro ⟨report, failed⟩
  refine ⟨report, fun passed => ?_⟩
  obtain ⟨other, read, own⟩ := reportPassed_iff.mp passed
  exact failed (eq_of_read? spelled valid read there ▸ own)

theorem isLogFile_of_isWanted (read : disk.read? (directory.joinName name) = some content)
    (wanted : isWanted disk (directory.joinName name) = true) :
    IsLogFile IsPassed (above ++ [name]) content := by
  refine isLogFile_concat.mpr (((isWanted_iff spelled valid).mp wanted).imp_right ?_)
  rintro ⟨report, failed⟩
  exact ⟨report, fun passed => failed (reportPassed_iff.mpr ⟨content, read, passed⟩)⟩

end Wanted

/-! ### Copying one file -/

/-- A file has been laid at a place in the output, together with the directories it needed. -/
structure Lays (output place : Location) (content : ByteArray) (before after : Disk) : Prop where
  setting : before.SameSetting after
  laid : after.entryAt? (output ++ place) = some (.file content)
  others : ∀ location, location ≠ output ++ place →
    after.entryAt? location = before.entryAt? location ∨
      before.entryAt? location = none ∧ after.entryAt? location = some .directory ∧
        output <+: location ∧ location <+: output ++ place

theorem spells_spot {source : Path} {input names : Location} (spelled : source.Spells input)
    (valid : names.all isEntryName = true) :
    (Spot.path ⟨source, names⟩).Spells (input ++ names) := by
  by_cases atTop : names = []
  · rw [atTop, List.append_nil]
    exact spelled
  · rw [Spot.path_of_names valid atTop]
    exact spelled.joinNames valid

section CopyLog

variable {source target : Path} {input output names : Location} {name : String} {state next : Disk}

/-- The directories for a file in the output are made where they are missing. -/
theorem makeParent_ok (spelled : target.Spells output) (valid : names.all isEntryName = true)
    (ready : state.entryAt? output = some .directory)
    (done : makeDirectories (target.joinNames names).tidied state = .ok () next) :
    state.Grows (fun location => output <+: location ∧ location <+: output ++ names) next := by
  obtain ⟨setting, entries⟩ := (makeDirectories_ok done).2
  refine ⟨setting, fun location => (entries location).imp_right ?_⟩
  rintro ⟨missing, made, onWay⟩
  have above := (spelled.joinNames valid).mem_way.mp ((way_of_tidied state _).2 _ |>.mp onWay)
  refine ⟨missing, made, ?_, above⟩
  rcases List.prefix_or_prefix_of_prefix above (List.prefix_append output names) with higher | lower
  · obtain ⟨rest, whole⟩ := higher
    by_cases same : rest = []
    · rw [same, List.append_nil] at whole
      exact whole ▸ List.prefix_rfl
    · rw [entryAt?_above (whole.symm ▸ ready) same] at missing
      cases missing
  · exact lower

theorem copyLog_ok {copy : Path} (fromInput : source.Spells input) (toOutput : target.Spells output)
    (valid : (names ++ [name]).all isEntryName = true)
    (ready : state.entryAt? output = some .directory)
    (apart : ¬ output <+: input ++ (names ++ [name]))
    (done : copyLog target ⟨source, names ++ [name]⟩ state = .ok copy next) :
    copy = target.joinNames (names ++ [name]) ∧ ∃ content,
      state.read? (Spot.path ⟨source, names ++ [name]⟩) = some content ∧
        state.entryAt? (input ++ (names ++ [name])) = some (.file content) ∧
          Lays output (names ++ [name]) content state next := by
  obtain ⟨inFront, own⟩ := all_isEntryName_concat.mp valid
  unfold copyLog Spot.below at done
  rw [← Path.joinName_joinNames target valid, Path.parent?_joinName _ own,
    Path.joinName_joinNames target valid] at done
  obtain ⟨_, made, making, done⟩ := bind_ok_iff.mp done
  obtain ⟨_, copied, copying, done⟩ := bind_ok_iff.mp done
  obtain ⟨rfl, rfl⟩ := pure_ok_iff.mp done
  have grown := makeParent_ok toOutput inFront ready (adaptExcept_ok_iff.mp making)
  obtain ⟨place, content, spot, found, held, put, changed⟩ := copyFile_ok (adaptExcept_ok_iff.mp copying)
  have here : place = input ++ (names ++ [name]) := by
    rw [leadsTo_of_locate? found, (spells_spot fromInput valid).leadsTo]
  have there : spot = output ++ (names ++ [name]) := by
    rw [leadsTo_of_locate? put, (toOutput.joinNames valid).leadsTo]
  subst here there
  have different : input ++ (names ++ [name]) ≠ output ++ (names ++ [name]) :=
    fun same => apart (same ▸ List.prefix_append _ _)
  have kept : state.entryAt? (input ++ (names ++ [name])) = some (.file content) := by
    rcases grown.entries (input ++ (names ++ [name])) with same | ⟨_, isDirectory, _⟩
    · exact same ▸ held
    · rw [held] at isDirectory
      cases isDirectory
  have permitted := (grown.setting.permits _).mp (permits_of_locate? found)
  refine ⟨rfl, content, ?_, kept, grown.setting.trans changed.setting, ?_, ?_⟩
  · rw [Spot.path_concat] at permitted ⊢
    refine read?_joinName (spells_spot fromInput inFront) own permitted ?_
    rw [List.append_assoc]
    exact kept
  · rw [changed.entries, if_pos rfl, if_neg different]
  · intro location other
    rw [changed.entries, if_neg other]
    refine (grown.entries location).imp_right ?_
    rintro ⟨missing, isDirectory, below, above⟩
    refine ⟨missing, isDirectory, below, above.trans ?_⟩
    rw [← List.append_assoc]
    exact List.prefix_append _ _

end CopyLog

/-! ### What has been collected so far -/

/-- The files at these places below the input have been laid in the output, and nothing else has
changed. -/
structure GatheredLogs (input output : Location) (start : Disk) (places : List Location)
    (disk : Disk) : Prop where
  setting : start.SameSetting disk
  laid : ∀ place ∈ places, ∃ content, start.entryAt? (input ++ place) = some (.file content) ∧
    disk.entryAt? (output ++ place) = some (.file content)
  others : ∀ location, (∀ place ∈ places, location ≠ output ++ place) →
    disk.entryAt? location = start.entryAt? location ∨
      start.entryAt? location = none ∧ disk.entryAt? location = some .directory ∧
        ∃ place ∈ places, output <+: location ∧ location <+: output ++ place

section GatheredLogs

variable {input output place : Location} {start disk next : Disk} {places : List Location}
  {content : ByteArray}

theorem GatheredLogs.nil : GatheredLogs input output start [] start :=
  ⟨.refl start, (fun _ absent => nomatch absent), fun _ _ => .inl rfl⟩

variable (gathered : GatheredLogs input output start places disk)
include gathered

theorem GatheredLogs.outside {location : Location} (apart : ¬ output <+: location) :
    disk.entryAt? location = start.entryAt? location := by
  have noPlace : ∀ place ∈ places, location ≠ output ++ place :=
    fun place _ same => apart (same ▸ List.prefix_append output place)
  rcases gathered.others location noPlace with same | ⟨-, -, _, -, below, -⟩
  · exact same
  · exact absurd below apart

theorem GatheredLogs.ready (top : start.entryAt? input = some .directory)
    (ready : start.entryAt? output = some .directory) : disk.entryAt? output = some .directory := by
  have noPlace : ∀ place ∈ places, output ≠ output ++ place := by
    intro place listed same
    obtain ⟨content, file, -⟩ := gathered.laid place listed
    rw [List.self_eq_append_right.mp same, List.append_nil, top] at file
    cases file
  rcases gathered.others output noPlace with same | ⟨missing, -⟩
  · rw [same, ready]
  · rw [ready] at missing
    cases missing

/-- One more file. -/
theorem GatheredLogs.lay (file : start.entryAt? (input ++ place) = some (.file content))
    (lays : Lays output place content disk next) :
    GatheredLogs input output start (places ++ [place]) next where
  setting := gathered.setting.trans lays.setting
  laid := by
    intro other listed
    by_cases same : output ++ other = output ++ place
    · rw [List.append_cancel_left same]
      exact ⟨content, file, lays.laid⟩
    · have earlier : other ∈ places := by
        refine (List.mem_append.mp listed).resolve_right fun own => same ?_
        rw [List.mem_singleton.mp own]
      obtain ⟨bytes, source, held⟩ := gathered.laid other earlier
      rcases lays.others _ same with kept | ⟨missing, -⟩
      · exact ⟨bytes, source, kept.trans held⟩
      · rw [held] at missing
        cases missing
  others := by
    intro location noPlace
    have before := gathered.others location fun other listed =>
      noPlace other (List.mem_append_left _ listed)
    have own := noPlace place (List.mem_append_right _ (List.mem_singleton.mpr rfl))
    rcases lays.others location own with same | ⟨missing, made, below, above⟩
    · rcases before with kept | ⟨missing, made, other, listed, way⟩
      · exact .inl (same.trans kept)
      · exact .inr ⟨missing, same.trans made, other, List.mem_append_left _ listed, way⟩
    · rcases before with kept | ⟨-, made, -⟩
      · exact .inr ⟨kept ▸ missing, made, place,
          List.mem_append_right _ (List.mem_singleton.mpr rfl), below, above⟩
      · rw [made] at missing
        cases missing

end GatheredLogs

/-! ### The files that are to be collected -/

/-- Every directory on the way down to the place can be read under its absolute path. -/
def IsReached (source : Path) (disk : Disk) (place : Location) : Prop :=
  ∀ front, front <+: place → front ≠ place → disk.permits (Spot.path ⟨source, front⟩)

/-- A file whose own absolute path keeps to the limits can be reached. -/
theorem isReached_of_permits {source : Path} {disk : Disk} {place : Location}
    (there : disk.isDirectory source = true) (valid : place.all isEntryName = true)
    (permitted : disk.permits (Spot.path ⟨source, place⟩)) : IsReached source disk place := by
  rintro front ⟨behind, rfl⟩ -
  exact permits_above there valid permitted

/-- A log below the input that is not in the output. -/
structure IsLogBelow (passed : ByteArray → Prop) (input output : Location) (disk : Disk)
    (place : Location) (content : ByteArray) : Prop where
  file : disk.entryAt? (input ++ place) = some (.file content)
  outside : ¬ output <+: input ++ place
  isLog : IsLogFile passed (input ++ place) content

/-- A log that a walk from the source comes to. -/
structure IsFound (source : Path) (input output : Location) (disk : Disk) (place : Location)
    (content : ByteArray) : Prop extends IsLogBelow IsPassed input output disk place content where
  reached : IsReached source disk place

/-- The files of a region have been collected behind others, in the order of their places. -/
structure Collects (source : Path) (input output : Location) (start : Disk)
    (region : Location → Prop) (earlier more : List Location) (disk : Disk) : Prop where
  gathered : GatheredLogs input output start (earlier ++ more) disk
  sorted : more.Pairwise (· < ·)
  exact : ∀ place, place ∈ more ↔
    region place ∧ ∃ content, IsFound source input output start place content

section Collects

variable {source target : Path} {input output names : Location} {start disk next : Disk}
  {region other wider : Location → Prop} {earlier more further : List Location}

theorem Collects.nil (gathered : GatheredLogs input output start earlier disk)
    (none : ∀ place content, region place →
      ¬ IsFound source input output start place content) :
    Collects source input output start region earlier [] disk where
  gathered := by rwa [List.append_nil]
  sorted := .nil
  exact := by
    intro place
    constructor
    · exact fun absent => nomatch absent
    · rintro ⟨inside, content, found⟩
      exact absurd found (none place content inside)

theorem Collects.append (first : Collects source input output start region earlier more disk)
    (second : Collects source input output start other (earlier ++ more) further next)
    (ordered : ∀ one two, region one → other two → one < two)
    (covers : ∀ place, wider place ↔ region place ∨ other place) :
    Collects source input output start wider earlier (more ++ further) next where
  gathered := by
    rw [← List.append_assoc]
    exact second.gathered
  sorted := List.pairwise_append.mpr ⟨first.sorted, second.sorted, fun one inFirst two inSecond =>
    ordered one two ((first.exact one).mp inFirst).1 ((second.exact two).mp inSecond).1⟩
  exact := by
    intro place
    rw [List.mem_append, first.exact, second.exact, covers, or_and_right]

theorem Collects.congr (collects : Collects source input output start region earlier more disk)
    (same : ∀ place content, IsFound source input output start place content →
      (wider place ↔ region place)) :
    Collects source input output start wider earlier more disk where
  gathered := collects.gathered
  sorted := collects.sorted
  exact := by
    intro place
    rw [collects.exact]
    constructor
    · rintro ⟨inside, content, found⟩
      exact ⟨(same place content found).mpr inside, content, found⟩
    · rintro ⟨inside, content, found⟩
      exact ⟨(same place content found).mp inside, content, found⟩

/-- Places below an earlier name come before places below a later one. -/
theorem lt_of_names_lt {one two : Location} {first second : String} (less : first < second)
    (left : names ++ [first] <+: one) (right : names ++ [second] <+: two) : one < two := by
  obtain ⟨rest, rfl⟩ := left
  obtain ⟨others, rfl⟩ := right
  rw [List.append_assoc, List.append_assoc]
  exact List.append_left_lt (List.cons_lt_cons_iff.mpr (.inl less))

end Collects

/-! ### Collecting below a directory -/

/-- Copy a file if it is wanted. -/
def collectFile (target : Path) (spot : Spot) : Action (List Path) := do
  if isWanted (← get) spot.path then return [← copyLog target spot]
  else return []

/-- Collect from one entry of a directory. -/
def collectChild (target : Path) (levels : Nat) (held : Spot × Bool) : Action (List Path) :=
  if held.2 then copyLogsWithin target levels held.1 else collectFile target held.1

theorem copyLogsWithin_succ (target : Path) (levels : Nat) (spot : Spot) :
    copyLogsWithin target (levels + 1) spot = (do
      let copied ← ((listing (← get) spot).filter fun held =>
        held.1.path.components ≠ target.components).mapM (collectChild target levels)
      return copied.flatten) := rfl

section Walk

variable {source target : Path} {input output names : Location} {name : String}
  {start state next : Disk} {earlier : List Location} {copies : List Path} {levels : Nat}

theorem listing_of_refused (setting : start.SameSetting state)
    (refused : ¬ start.permits (Spot.path ⟨source, names⟩)) : listing state ⟨source, names⟩ = [] := by
  unfold listing
  cases found : state.locate? (Spot.path ⟨source, names⟩) with
  | none => rfl
  | some location => exact absurd ((setting.permits _).mp (permits_of_locate? found)) refused

theorem not_prefix_child (apart : ¬ output <+: input ++ names)
    (different : input ++ (names ++ [name]) ≠ output) : ¬ output <+: input ++ (names ++ [name]) := by
  rw [← List.append_assoc] at different ⊢
  rw [List.prefix_concat_iff]
  rintro (same | above)
  · exact different same.symm
  · exact apart above

/-- Where something is found below a directory, the directory can be read. -/
theorem permits_of_found {place : Location} {content : ByteArray}
    (directory : start.entryAt? (input ++ names) = some .directory) (below : names <+: place)
    (found : IsFound source input output start place content) :
    start.permits (Spot.path ⟨source, names⟩) := by
  refine found.reached names below ?_
  rintro rfl
  cases directory.symm.trans found.file

/-- Nothing stands below a file, so the file is all that is found there. -/
theorem eq_of_found_below {place : Location} {content bytes : ByteArray}
    (file : start.entryAt? (input ++ names) = some (.file content)) (below : names <+: place)
    (found : IsFound source input output start place bytes) : place = names := by
  refine List.append_cancel_left ((prefix_iff_eq_of_file file ?_).mp
    ((List.prefix_append_right_inj input).mpr below))
  rw [found.file]
  exact fun absent => nomatch absent

/-- The names of what is collected from in a directory, in strict order. -/
theorem sorted_kept (keep : String → Bool) (disk : Disk) (top : Location) :
    ((disk.childNames top).filter keep).Pairwise (· < ·) :=
  (ordered_childNames disk top).filter keep

/-- What is found below a directory is found below one of its entries other than the output. -/
theorem below_iff_of_found {place : Location} {content : ByteArray}
    (directory : start.entryAt? (input ++ names) = some .directory)
    (found : IsFound source input output start place content) :
    names <+: place ↔ ∃ name ∈ (start.childNames (input ++ names)).filter
      (fun name => input ++ (names ++ [name]) ≠ output), names ++ [name] <+: place := by
  constructor
  · rintro ⟨rest, rfl⟩
    cases rest with
    | nil =>
        rw [List.append_nil] at found
        cases directory.symm.trans found.file
    | cons name rest =>
        have whole : input ++ (names ++ name :: rest) = input ++ names ++ [name] ++ rest := by simp
        have file := found.file
        rw [whole] at file
        have there : ∃ entry, start.entryAt? (input ++ names ++ [name]) = some entry := by
          by_cases last : rest = []
          · rw [last, List.append_nil] at file
            exact ⟨_, file⟩
          · exact ⟨_, entryAt?_above file last⟩
        refine ⟨name, List.mem_filter.mpr ⟨mem_childNames.mpr there, ?_⟩, ?_⟩
        · rw [decide_eq_true_eq, ← List.append_assoc]
          intro isOutput
          apply found.outside
          rw [whole, isOutput]
          exact List.prefix_append output rest
        · exact ⟨rest, (List.append_cons names name rest).symm⟩
  · rintro ⟨name, -, below⟩
    exact (List.prefix_append names [name]).trans below

/-- What is collected from one entry after another is collected from all of them. -/
theorem collectAll_ok {action : String → Action (List Path)} {items : List String}
    {results : List (List Path)} (sorted : items.Pairwise (· < ·))
    (each : ∀ name ∈ items, ∀ {earlier copies} {state next : Disk},
      GatheredLogs input output start earlier state → action name state = .ok copies next →
        ∃ more, copies = more.map target.joinNames ∧
          Collects source input output start (names ++ [name] <+: ·) earlier more next)
    (gathered : GatheredLogs input output start earlier state)
    (done : items.mapM action state = .ok results next) :
    ∃ more, results.flatten = more.map target.joinNames ∧ Collects source input output start
      (fun place => ∃ name ∈ items, names ++ [name] <+: place) earlier more next := by
  refine mapM_ok (fun before results state => ∃ more, results.flatten = more.map target.joinNames ∧
    Collects source input output start (fun place => ∃ name ∈ before, names ++ [name] <+: place)
      earlier more state) ?_ ?_ done
  · exact ⟨[], rfl, .nil gathered fun _ _ inside => by simp at inside⟩
  · rintro before name rest collected state copies next whole ⟨more, flat, collects⟩ acted
    have listed : name ∈ items := by
      rw [whole]
      exact List.mem_append_right _ List.mem_cons_self
    have less : ∀ other ∈ before, other < name := by
      rw [whole, List.pairwise_append] at sorted
      exact fun other inside => sorted.2.2 other inside name List.mem_cons_self
    obtain ⟨further, rfl, added⟩ := each name listed collects.gathered acted
    refine ⟨more ++ further, ?_, collects.append added ?_ ?_⟩
    · rw [List.flatten_append, flat, List.flatten_singleton, List.map_append]
    · rintro one two ⟨other, inside, left⟩ right
      exact lt_of_names_lt (less other inside) left right
    · intro place
      simp only [List.mem_append, List.mem_singleton, or_and_right, exists_or, exists_eq_left]

variable (fromInput : source.Spells input) (toOutput : target.Spells output)
  (top : start.entryAt? input = some .directory) (ready : start.entryAt? output = some .directory)
include fromInput toOutput top ready

/-- What a directory is found to hold is what it held at the start, but for the output. -/
theorem kept_eq (gathered : GatheredLogs input output start earlier state)
    (directory : start.entryAt? (input ++ names) = some .directory)
    (apart : ¬ output <+: input ++ names)
    (permitted : start.permits (Spot.path ⟨source, names⟩)) :
    ((listing state ⟨source, names⟩).filter fun held => held.1.path.components ≠ target.components) =
      ((start.childNames (input ++ names)).filter fun name => input ++ (names ++ [name]) ≠ output).map
        fun name => (⟨source, names ++ [name]⟩, start.isDirectoryAt (input ++ (names ++ [name]))) := by
  have valid : names.all isEntryName = true := namesValid_below (by rw [directory]; simp)
  have here : state.entryAt? (input ++ names) = some .directory :=
    (gathered.outside apart).trans directory
  have spelled := spells_spot fromInput valid
  have entered : state.isDirectory (Spot.path ⟨source, names⟩) = true :=
    isDirectory_iff.mpr ⟨(gathered.setting.permits _).mpr permitted, spelled.stands_iff.mpr here⟩
  have held : state.childNames (input ++ names) = start.childNames (input ++ names) := by
    apply childNames_congr
    intro name
    rw [List.append_assoc]
    by_cases isOutput : input ++ (names ++ [name]) = output
    · rw [isOutput, gathered.ready top ready, ready]
    · exact gathered.outside (not_prefix_child apart isOutput)
  unfold listing
  rw [locate?_of_isDirectory entered, spelled.leadsTo]
  dsimp only
  rw [if_pos (isDirectoryAt_iff.mpr here), held, List.filter_map]
  have same : (start.childNames (input ++ names)).filter
      ((fun held : Spot × Bool => decide (held.1.path.components ≠ target.components)) ∘
        fun name => (Spot.child ⟨source, names⟩ name, state.isDirectoryAt (input ++ names ++ [name]))) =
      (start.childNames (input ++ names)).filter fun name => input ++ (names ++ [name]) ≠ output := by
    apply List.filter_congr
    intro name listed
    obtain ⟨entry, there⟩ := mem_childNames.mp listed
    have childValid : (names ++ [name]).all isEntryName = true :=
      namesValid_below (by rw [← List.append_assoc, there]; simp)
    have components := (spells_spot fromInput childValid).components_eq_iff toOutput
    exact decide_eq_decide.mpr (not_congr components)
  rw [same]
  apply List.map_congr_left
  intro name kept
  have different : input ++ (names ++ [name]) ≠ output := by
    simpa using (List.mem_filter.mp kept).2
  unfold Disk.isDirectoryAt Spot.child
  rw [List.append_assoc, gathered.outside (not_prefix_child apart different)]

theorem collectFile_ok {content : ByteArray}
    (file : start.entryAt? (input ++ (names ++ [name])) = some (.file content))
    (apart : ¬ output <+: input ++ (names ++ [name]))
    (reached : ∀ front, front <+: names → start.permits (Spot.path ⟨source, front⟩))
    (gathered : GatheredLogs input output start earlier state)
    (done : collectFile target ⟨source, names ++ [name]⟩ state = .ok copies next) :
    ∃ more, copies = more.map target.joinNames ∧
      Collects source input output start (names ++ [name] <+: ·) earlier more next := by
  have valid : (names ++ [name]).all isEntryName = true := namesValid_below (by rw [file]; simp)
  obtain ⟨inFront, own⟩ := all_isEntryName_concat.mp valid
  have spelled := spells_spot fromInput inFront
  have held := (gathered.outside apart).trans file
  unfold collectFile at done
  rw [get_bind] at done
  split at done
  · rename_i wanted
    obtain ⟨copy, _, copied, done⟩ := bind_ok_iff.mp done
    obtain ⟨rfl, rfl⟩ := pure_ok_iff.mp done
    obtain ⟨rfl, bytes, read, same, lays⟩ :=
      copyLog_ok fromInput toOutput valid (gathered.ready top ready) apart copied
    cases held.symm.trans same
    rw [Spot.path_concat] at read wanted
    have isLog := isLogFile_of_isWanted spelled own read wanted
    rw [List.append_assoc] at isLog
    have isFound : IsFound source input output start (names ++ [name]) content := by
      refine ⟨⟨file, apart, isLog⟩, fun front above other => reached front ?_⟩
      exact (List.prefix_concat_iff.mp above).resolve_left other
    refine ⟨[names ++ [name]], rfl, gathered.lay file lays, List.pairwise_singleton _ _, ?_⟩
    intro place
    rw [List.mem_singleton]
    constructor
    · rintro rfl
      exact ⟨List.prefix_rfl, content, isFound⟩
    · rintro ⟨below, other, found⟩
      exact eq_of_found_below file below found
  · rename_i unwanted
    obtain ⟨rfl, rfl⟩ := pure_ok_iff.mp done
    refine ⟨[], rfl, .nil gathered fun place bytes below found => unwanted ?_⟩
    obtain rfl := eq_of_found_below file below found
    cases file.symm.trans found.file
    have isLog := found.isLog
    rw [← List.append_assoc] at held isLog
    rw [Spot.path_concat]
    exact isWanted_of_isLogFile spelled own held isLog

/-- An entry of a directory is collected from if directories one level down are. -/
theorem collectChild_ok
    (within : ∀ {earlier copies} {state next : Disk},
      start.entryAt? (input ++ (names ++ [name])) = some .directory →
      GatheredLogs input output start earlier state →
      copyLogsWithin target levels ⟨source, names ++ [name]⟩ state = .ok copies next →
        ∃ more, copies = more.map target.joinNames ∧
          Collects source input output start (names ++ [name] <+: ·) earlier more next)
    (there : ∃ entry, start.entryAt? (input ++ (names ++ [name])) = some entry)
    (apart : ¬ output <+: input ++ (names ++ [name]))
    (reached : ∀ front, front <+: names → start.permits (Spot.path ⟨source, front⟩))
    (gathered : GatheredLogs input output start earlier state)
    (done : collectChild target levels
      (⟨source, names ++ [name]⟩, start.isDirectoryAt (input ++ (names ++ [name]))) state =
        .ok copies next) :
    ∃ more, copies = more.map target.joinNames ∧
      Collects source input output start (names ++ [name] <+: ·) earlier more next := by
  unfold collectChild at done
  obtain ⟨entry, found⟩ := there
  cases entry with
  | directory =>
      rw [if_pos (isDirectoryAt_iff.mpr found)] at done
      exact within found gathered done
  | file content =>
      have noDirectory : start.isDirectoryAt (input ++ (names ++ [name])) ≠ true := by
        rw [ne_eq, isDirectoryAt_iff, found]
        exact fun same => nomatch same
      rw [if_neg noDirectory] at done
      exact collectFile_ok fromInput toOutput top ready found apart reached gathered done

theorem copyLogsWithin_ok (directory : start.entryAt? (input ++ names) = some .directory)
    (apart : ¬ output <+: input ++ names)
    (reached : ∀ front, front <+: names → front ≠ names → start.permits (Spot.path ⟨source, front⟩))
    (enough : levelBound start ≤ levels + names.length)
    (gathered : GatheredLogs input output start earlier state)
    (done : copyLogsWithin target levels ⟨source, names⟩ state = .ok copies next) :
    ∃ more, copies = more.map target.joinNames ∧
      Collects source input output start (names <+: ·) earlier more next := by
  induction levels generalizing names earlier state copies next with
  | zero =>
      obtain ⟨rfl, rfl⟩ := pure_ok_iff.mp done
      refine ⟨[], rfl, .nil gathered fun place content below found => ?_⟩
      have deep : names.length < levelBound start := by
        apply length_lt_levelBound (permits_of_found directory below found)
        unfold treeBelow
        rw [fromInput.leadsTo, directory]
        exact fun absent => nomatch absent
      omega
  | succ levels ih =>
      rw [copyLogsWithin_succ, get_bind] at done
      obtain ⟨results, last, mapped, own⟩ := bind_ok_iff.mp done
      obtain ⟨rfl, rfl⟩ := pure_ok_iff.mp own
      by_cases permitted : start.permits (Spot.path ⟨source, names⟩)
      · rw [kept_eq fromInput toOutput top ready gathered directory apart permitted,
          List.mapM_map] at mapped
        have each : ∀ name ∈ (start.childNames (input ++ names)).filter
            (fun name => input ++ (names ++ [name]) ≠ output), ∀ {earlier copies} {state next : Disk},
            GatheredLogs input output start earlier state → collectChild target levels
              (⟨source, names ++ [name]⟩, start.isDirectoryAt (input ++ (names ++ [name]))) state =
                .ok copies next →
              ∃ more, copies = more.map target.joinNames ∧
                Collects source input output start (names ++ [name] <+: ·) earlier more next := by
          intro name kept earlier copies state next gathered acted
          obtain ⟨listed, different⟩ := List.mem_filter.mp kept
          obtain ⟨entry, there⟩ := mem_childNames.mp listed
          rw [decide_eq_true_eq] at different
          have childApart := not_prefix_child apart different
          have open_ : ∀ front, front <+: names → start.permits (Spot.path ⟨source, front⟩) := by
            intro front above
            by_cases own : front = names
            · exact own ▸ permitted
            · exact reached front above own
          rw [List.append_assoc] at there
          refine collectChild_ok fromInput toOutput top ready (fun isDirectory gathered run => ?_)
            ⟨entry, there⟩ childApart open_ gathered acted
          refine ih isDirectory childApart (fun front above other => ?_) ?_ gathered run
          · exact open_ front ((List.prefix_concat_iff.mp above).resolve_left other)
          · rw [List.length_append, List.length_singleton]
            omega
        obtain ⟨more, flat, collects⟩ :=
          collectAll_ok (sorted_kept _ start (input ++ names)) each gathered mapped
        exact ⟨more, flat, collects.congr fun place content => below_iff_of_found directory⟩
      · rw [listing_of_refused gathered.setting permitted] at mapped
        obtain ⟨rfl, rfl⟩ := pure_ok_iff.mp mapped
        exact ⟨[], rfl, .nil gathered fun place content below found =>
          permitted (permits_of_found directory below found)⟩

end Walk

end CrossBuild.Artifacts
