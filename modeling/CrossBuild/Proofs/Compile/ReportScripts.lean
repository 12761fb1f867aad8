/-
The scripts of the reports.

Both reports run one script. What differs between them are three texts, the label that is added, the
label that is removed and the message, and these stand in it as literals, as do the build jobs that a
comment lists. A script is therefore described by its layout, which knows neither the labels nor the
outcome, and by the texts that are put into it. What a reader of the script finds is said with the
reader of literals; the variables that hold the commits are code, named after jobs, so that a whole
comment is read only where these names are plain.
-/

import CrossBuild.Proofs.Compile.Commits
import CrossBuild.Proofs.Text.Literals

namespace CrossBuild.Compile

open Runs Text

variable {trigger : Config.Trigger} {repository : Config.Repository} {templates : TemplateSource}
  {options : Options} {result : Workflow} {settings : Settings} {labels : Config.StatusLabels}
  {texts : ReportTexts} {issue : Nat} {comments : Bool} {builds : List String}

/-! ### Layouts -/

/-- The texts by which the reports differ. -/
structure ReportTexts where
  added : String
  removed : String
  message : String

/-- A part of a line: code, a literal that both reports have, or one of the texts as a literal. -/
inductive Part where
  | code (text : String)
  | shared (text : String)
  | added
  | removed
  | message

/-- The text of a part that is a literal. -/
def Part.literal? (texts : ReportTexts) : Part → Option String
  | .code _ => none
  | .shared text => some text
  | .added => some texts.added
  | .removed => some texts.removed
  | .message => some texts.message

def Part.written (texts : ReportTexts) : Part → String
  | .code text => text
  | .shared text => quote text
  | .added => quote texts.added
  | .removed => quote texts.removed
  | .message => quote texts.message

def lineOf (texts : ReportTexts) (parts : List Part) : String :=
  String.join (parts.map (Part.written texts))

/-- Lines of parts, each ended by a line feed, with the texts put into them. -/
def fill (texts : ReportTexts) (layout : List (List Part)) : String :=
  script (layout.map (lineOf texts))

def codeLines (lines : List String) : List (List Part) :=
  lines.map fun line => [.code line]

def labelLayout (issue : Nat) : List (List Part) :=
  codeLines ("await github.rest.issues.addLabels(\x7b" :: issueLines "  " issue) ++
  [[.code "  labels: [", .added, .code "]"]] ++
  codeLines ("\x7d)" ::
    "const labelsOnIssue = await github.paginate(github.rest.issues.listLabelsOnIssue, \x7b" ::
    issueLines "  " issue ++ ["\x7d)", "for (const label of labelsOnIssue) \x7b"]) ++
  [[.code "  if (label.name === ", .removed, .code ") \x7b"]] ++
  codeLines ("    await github.rest.issues.removeLabel(\x7b" :: issueLines "      " issue ++
    ["      name: label.name", "    \x7d)", "  \x7d", "\x7d"])

def commitHeading : String :=
  "These are the job names and their respective SHA-1 hashes:\n\n"

def commitParts (build : String) : List Part :=
  [.code "    + ", .shared (build ++ ": "), .code " + process.env.", .code (commitVariable build),
   .code " + '\\n'"]

def commitLayout (builds : List String) : List (List Part) :=
  if builds = [] then [] else [.code "    + ", .shared commitHeading] :: builds.map commitParts

def commentLayout (issue : Nat) (builds : List String) : List (List Part) :=
  codeLines ("await github.rest.issues.createComment(\x7b" :: issueLines "  " issue) ++
  [[.code "  body: ", .message]] ++ commitLayout builds ++
  codeLines ["    + '\\n' + process.env.STATUS_TEXT + '\\n'", "\x7d)"]

/-- The layout of a report that sets labels. -/
def reportLayout (issue : Nat) (comments : Bool) (builds : List String) : List (List Part) :=
  labelLayout issue ++ if comments then commentLayout issue builds else []

def reportTexts (labels : Config.StatusLabels) (outcome : Outcome) : ReportTexts :=
  { added := outcome.label labels
    removed := outcome.opposite.label labels
    message := outcome.message ++ "\n\n" }

theorem lines_of_codeLines (lines : List String) : (codeLines lines).map (lineOf texts) = lines := by
  unfold codeLines
  rw [List.map_map]
  conv_rhs => rw [← List.map_id lines]
  refine List.map_congr_left fun line _ => ?_
  simp [lineOf, Part.written]

theorem lines_of_labelLayout : (labelLayout issue).map (lineOf texts) =
    addLabelLines issue texts.added ++ removeLabelLines issue texts.removed := by
  unfold labelLayout addLabelLines removeLabelLines
  simp only [List.map_append, lines_of_codeLines]
  simp [lineOf, Part.written, String.append_assoc]

theorem lines_of_commentLayout {message : String} (same : texts.message = message ++ "\n\n") :
    (commentLayout issue builds).map (lineOf texts) =
      commentLines issue message (builds.map .ofJob) := by
  unfold commentLayout commentLines
  simp only [List.map_append, lines_of_codeLines]
  cases builds with
  | nil => simp [commitLayout, commentBody, lineOf, Part.written, same, statusTextVariable]
  | cons build rest =>
      simp [commitLayout, commitParts, commentBody, commitHeading, lineOf, Part.written, same,
        statusTextVariable, CommitVariable.ofJob, commitVariable, String.append_assoc]

/-- A report's script has its layout, filled with the texts of its outcome. -/
theorem reportScript_eq_fill (outcome : Outcome) :
    reportScript issue outcome { comments, labels := some labels } (builds.map .ofJob) =
      fill (reportTexts labels outcome) (reportLayout issue comments builds) := by
  unfold fill reportLayout reportScript
  rw [List.map_append, lines_of_labelLayout]
  cases comments with
  | false => rfl
  | true =>
      have comment : (commentLayout issue builds).map (lineOf (reportTexts labels outcome)) =
          commentLines issue outcome.message (builds.map .ofJob) := lines_of_commentLayout rfl
      rw [if_pos rfl, if_pos rfl, comment]
      rfl

/-! ### Reading a layout -/

/-- What a part is read as. -/
def Part.lexemes (texts : ReportTexts) (part : Part) : List Lexeme :=
  match part.literal? texts with
  | some text => [.literal text.toList]
  | none => (part.written texts).toList.map .code

def lineLexemes (texts : ReportTexts) (parts : List Part) : List Lexeme :=
  parts.flatMap (Part.lexemes texts) ++ [.code '\n']

/-- Code that leaves the reader in code. -/
def Part.IsClosed : Part → Prop
  | .code text => scan .code text.toList = some (.code, text.toList.map .code)
  | _ => True

theorem scan_part {part : Part} (closed : part.IsClosed) :
    scan .code (part.written texts).toList = some (.code, part.lexemes texts) := by
  cases part with
  | code text => exact closed
  | shared text => exact scan_quote text
  | added => exact scan_quote texts.added
  | removed => exact scan_quote texts.removed
  | message => exact scan_quote texts.message

theorem scan_parts {parts : List Part} (closed : ∀ part ∈ parts, part.IsClosed) :
    scan .code (lineOf texts parts).toList = some (.code, parts.flatMap (Part.lexemes texts)) := by
  unfold lineOf
  induction parts with
  | nil => rfl
  | cons part rest ih =>
      rw [List.forall_mem_cons] at closed
      rw [List.map_cons, String.join_cons, String.toList_append,
        scan_append_of_code (scan_part closed.1), ih closed.2, List.flatMap_cons]
      rfl

theorem scan_fill {layout : List (List Part)}
    (closed : ∀ parts ∈ layout, ∀ part ∈ parts, part.IsClosed) :
    scan .code (fill texts layout).toList = some (.code, layout.flatMap (lineLexemes texts)) := by
  unfold fill script
  induction layout with
  | nil => rfl
  | cons parts rest ih =>
      rw [List.forall_mem_cons] at closed
      have line : scan .code (lineOf texts parts ++ "\n").toList =
          some (.code, lineLexemes texts parts) := by
        rw [String.toList_append, scan_append_of_code (scan_parts closed.1)]
        rfl
      rw [List.map_cons, List.map_cons, String.join_cons, String.toList_append,
        scan_append_of_code line, ih closed.2, List.flatMap_cons]
      rfl

theorem literals_of_code (chars : List Char) : literals (chars.map .code) = [] := by
  unfold literals
  rw [List.filterMap_map]
  exact List.filterMap_eq_nil_iff.mpr fun _ _ => rfl

theorem literals_of_part (part : Part) :
    literals (part.lexemes texts) = (part.literal? texts).toList := by
  unfold Part.lexemes
  cases part.literal? texts with
  | none => exact literals_of_code _
  | some text => simp [literals, Lexeme.literal?]

theorem literals_of_line (parts : List Part) :
    literals (lineLexemes texts parts) = parts.filterMap (Part.literal? texts) := by
  have others : literals (parts.flatMap (Part.lexemes texts)) =
      parts.filterMap (Part.literal? texts) := by
    induction parts with
    | nil => rfl
    | cons part rest ih =>
        rw [List.flatMap_cons, literals_append, ih, literals_of_part, List.filterMap_cons]
        cases part.literal? texts <;> rfl
  unfold lineLexemes
  rw [literals_append, others]
  exact List.append_nil _

theorem literals_of_layout (layout : List (List Part)) :
    literals (layout.flatMap (lineLexemes texts)) =
      layout.flatMap fun parts => parts.filterMap (Part.literal? texts) := by
  induction layout with
  | nil => rfl
  | cons parts rest ih =>
      rw [List.flatMap_cons, List.flatMap_cons, literals_append, literals_of_line, ih]

/-! ### The code of a report -/

/-- Nothing in the text begins or ends a literal. -/
def IsOpen (text : String) : Prop :=
  text.toList.all isOpenCode = true

instance (text : String) : Decidable (IsOpen text) :=
  inferInstanceAs (Decidable (_ = _))

theorem isOpen_append {text other : String} : IsOpen (text ++ other) ↔ IsOpen text ∧ IsOpen other := by
  unfold IsOpen
  rw [String.toList_append, List.all_append, Bool.and_eq_true]

theorem isOpen_number (value : Nat) : IsOpen (toString value) := by
  unfold IsOpen
  rw [Nat.toString_eq_repr, Nat.toList_repr, List.all_eq_true]
  intro digit inside
  have numeral : digit.isDigit = true := Nat.isDigit_of_mem_toDigits (by decide) (by decide) inside
  have apart : ∀ char : Char, char.isDigit = false → digit ≠ char := by
    intro char other same
    rw [same, other] at numeral
    cases numeral
  simp [isOpenCode, isPlainCode, apart '"' rfl, apart '\x27' rfl, apart '/' rfl, apart '\x60' rfl,
    apart '\\' rfl]

/-- The variable of a build job is open code when the name of the job is. -/
theorem isOpen_commitVariable {build : String} (bare : IsOpen build) :
    IsOpen (commitVariable build) := by
  unfold commitVariable
  refine isOpen_append.mpr ⟨?_, by decide⟩
  unfold IsOpen underscored at *
  rw [String.toList_map, List.all_map, List.all_eq_true]
  intro char inside
  rw [Function.comp_apply]
  split
  · rfl
  · exact List.all_eq_true.mp bare char inside

theorem isClosed_of_isOpen {text : String} (bare : IsOpen text) : (Part.code text).IsClosed :=
  scan_of_open bare

theorem isClosed_codeLines {lines : List String} (bare : ∀ line ∈ lines, IsOpen line) :
    ∀ parts ∈ codeLines lines, ∀ part ∈ parts, part.IsClosed := by
  unfold codeLines
  rw [List.forall_mem_map]
  intro line listed part inside
  rw [List.mem_singleton.mp inside]
  exact isClosed_of_isOpen (bare line listed)

theorem isOpen_issueLines {indent : String} (bare : IsOpen indent) :
    ∀ line ∈ issueLines indent issue, IsOpen line := by
  unfold issueLines
  simp only [List.forall_mem_cons, List.not_mem_nil, false_imp_iff, implies_true, and_true,
    isOpen_append, bare, isOpen_number, true_and]
  decide

/-- A line with a literal between two pieces of open code. -/
theorem isClosed_around {front back : String} {part : Part} (closed : part.IsClosed)
    (first : IsOpen front) (last : IsOpen back) :
    ∀ parts ∈ [[Part.code front, part, .code back]], ∀ other ∈ parts, other.IsClosed := by
  simp only [List.forall_mem_cons, List.not_mem_nil, false_imp_iff, implies_true, and_true]
  exact ⟨isClosed_of_isOpen first, closed, isClosed_of_isOpen last⟩

theorem isClosed_labelLayout : ∀ parts ∈ labelLayout issue, ∀ part ∈ parts, part.IsClosed := by
  have two : IsOpen "  " := by decide
  have six : IsOpen "      " := by decide
  unfold labelLayout
  simp only [List.forall_mem_append]
  refine ⟨⟨⟨⟨?_, ?_⟩, ?_⟩, ?_⟩, ?_⟩
  · apply isClosed_codeLines
    exact List.forall_mem_cons.mpr ⟨by decide, isOpen_issueLines two⟩
  · exact isClosed_around trivial (by decide) (by decide)
  · apply isClosed_codeLines
    rw [List.forall_mem_append, List.forall_mem_cons, List.forall_mem_cons]
    exact ⟨⟨by decide, by decide, isOpen_issueLines two⟩, by decide⟩
  · exact isClosed_around trivial (by decide) (by decide)
  · apply isClosed_codeLines
    rw [List.forall_mem_append, List.forall_mem_cons]
    exact ⟨⟨by decide, isOpen_issueLines six⟩, by decide⟩

/-- A comment is closed code where the variables of all commits are open. -/
theorem isClosed_commentLayout (bare : ∀ build ∈ builds, IsOpen build) :
    ∀ parts ∈ commentLayout issue builds, ∀ part ∈ parts, part.IsClosed := by
  have two : IsOpen "  " := by decide
  have commits : ∀ parts ∈ commitLayout builds, ∀ part ∈ parts, part.IsClosed := by
    unfold commitLayout
    split
    · exact fun _ absent => nomatch absent
    · rw [List.forall_mem_cons, List.forall_mem_map]
      constructor
      · simp only [List.forall_mem_cons, List.not_mem_nil, false_imp_iff, implies_true, and_true]
        exact ⟨isClosed_of_isOpen (by decide), trivial⟩
      · intro build listed
        unfold commitParts
        simp only [List.forall_mem_cons, List.not_mem_nil, false_imp_iff, implies_true, and_true]
        exact ⟨isClosed_of_isOpen (by decide), trivial, isClosed_of_isOpen (by decide),
          isClosed_of_isOpen (isOpen_commitVariable (bare build listed)), rfl⟩
  unfold commentLayout
  simp only [List.forall_mem_append]
  refine ⟨⟨⟨?_, ?_⟩, commits⟩, ?_⟩
  · apply isClosed_codeLines
    exact List.forall_mem_cons.mpr ⟨by decide, isOpen_issueLines two⟩
  · simp only [List.forall_mem_cons, List.not_mem_nil, false_imp_iff, implies_true, and_true]
    exact ⟨isClosed_of_isOpen (by decide), trivial⟩
  · unfold codeLines
    simp only [List.map_cons, List.map_nil, List.forall_mem_cons, List.not_mem_nil, false_imp_iff,
      implies_true, and_true]
    exact ⟨rfl, isClosed_of_isOpen (by decide)⟩

/-! ### What a reader finds -/

/-- The texts of a report that sets labels, in the order in which they stand in it. -/
def reportLiterals (texts : ReportTexts) (comments : Bool) (builds : List String) : List String :=
  [texts.added, texts.removed] ++
    if comments then texts.message ::
      if builds = [] then [] else commitHeading :: builds.map fun build => build ++ ": "
    else []

theorem literals_of_codeLines (lines : List String) :
    (codeLines lines).flatMap (fun parts => parts.filterMap (Part.literal? texts)) = [] := by
  unfold codeLines
  rw [List.flatMap_map]
  exact List.flatMap_eq_nil_iff.mpr fun _ _ => rfl

theorem literals_of_reportLayout :
    literals ((reportLayout issue comments builds).flatMap (lineLexemes texts)) =
      reportLiterals texts comments builds := by
  have commits : (commitLayout builds).flatMap (fun parts => parts.filterMap (Part.literal? texts)) =
      if builds = [] then [] else commitHeading :: builds.map fun build => build ++ ": " := by
    unfold commitLayout
    split
    · rfl
    · rw [List.flatMap_cons, List.flatMap_map, List.map_eq_flatMap]
      rfl
  rw [literals_of_layout]
  unfold reportLayout labelLayout commentLayout reportLiterals
  cases comments with
  | false =>
      simp only [List.flatMap_append, literals_of_codeLines, Bool.false_eq_true, if_false]
      rfl
  | true =>
      simp only [List.flatMap_append, literals_of_codeLines, if_true, commits, List.append_nil]
      rfl

/-- From the beginning of the text a reader of code comes to a literal, and reads it as the text
meant. -/
def Quotes (text meant : String) : Prop :=
  ∃ front literal back found, text = front ++ literal ++ back ∧
    scan .code front.toList = some (.code, found) ∧ IsLiteral literal meant

theorem Part.written_of_literal {part : Part} {meant : String}
    (literal : part.literal? texts = some meant) : part.written texts = quote meant := by
  cases part <;> cases literal <;> rfl

theorem fill_append (first second : List (List Part)) :
    fill texts (first ++ second) = fill texts first ++ fill texts second := by
  unfold fill script
  rw [List.map_append, List.map_append, String.join_append]

theorem quotes_fill {before after : List (List Part)} {front back : List Part} {part : Part}
    {meant : String} (earlier : ∀ parts ∈ before, ∀ part ∈ parts, part.IsClosed)
    (first : ∀ part ∈ front, part.IsClosed) (literal : part.literal? texts = some meant) :
    Quotes (fill texts (before ++ (front ++ part :: back) :: after)) meant := by
  refine ⟨fill texts before ++ lineOf texts front, quote meant,
    lineOf texts back ++ "\n" ++ fill texts after,
    before.flatMap (lineLexemes texts) ++ front.flatMap (Part.lexemes texts), ?_, ?_,
    isLiteral_quote meant⟩
  · rw [fill_append]
    unfold fill script lineOf
    simp [Part.written_of_literal literal, String.append_assoc, String.join_append]
  · rw [String.toList_append, scan_append_of_code (scan_fill earlier), scan_parts first]
    rfl

/-- The labels of a report stand in front of everything that is named after a job. -/
theorem quotes_labels : Quotes (fill texts (reportLayout issue comments builds)) texts.added ∧
    Quotes (fill texts (reportLayout issue comments builds)) texts.removed := by
  have closed := @isClosed_labelLayout issue
  unfold reportLayout labelLayout at closed ⊢
  simp only [List.forall_mem_append] at closed
  obtain ⟨⟨⟨⟨request, added⟩, query⟩, _⟩, _⟩ := closed
  have bare : ∀ text, IsOpen text → ∀ part ∈ [Part.code text], part.IsClosed := by
    intro text bare part inside
    rw [List.mem_singleton.mp inside]
    exact isClosed_of_isOpen bare
  constructor
  · rw [List.append_assoc, List.append_assoc, List.append_assoc, List.append_assoc,
      List.singleton_append]
    exact @quotes_fill _ _ _ [_] _ .added _ request (bare _ (by decide)) rfl
  · rw [List.append_assoc, List.append_assoc, List.singleton_append]
    refine @quotes_fill _ _ _ [_] _ .removed _ ?_ (bare _ (by decide)) rfl
    simp only [List.forall_mem_append]
    exact ⟨⟨request, added⟩, query⟩

/-- A line of the script that quotes the text. -/
def HasLineQuoting (text meant : String) : Prop :=
  ∃ front line back, text = script (front ++ line :: back) ∧ Quotes line meant

theorem hasLineQuoting_build {build : String} (listed : build ∈ builds) :
    HasLineQuoting (fill texts (reportLayout issue true builds)) (build ++ ": ") := by
  have inside : commitParts build ∈ reportLayout issue true builds := by
    unfold reportLayout commentLayout commitLayout
    rw [if_pos rfl, if_neg (List.ne_nil_of_mem listed)]
    simp [List.mem_map_of_mem listed]
  obtain ⟨front, back, whole⟩ := List.append_of_mem inside
  refine ⟨front.map (lineOf texts), lineOf texts (commitParts build), back.map (lineOf texts), ?_, ?_⟩
  · unfold fill
    rw [whole, List.map_append, List.map_cons]
  · refine ⟨"    + ", quote (build ++ ": "),
      " + process.env." ++ commitVariable build ++ " + '\\n'", "    + ".toList.map .code, ?_,
      scan_of_open (by decide), isLiteral_quote _⟩
    simp [lineOf, commitParts, Part.written, String.append_assoc]

/-! ### Whole workflows -/

/-- The job does nothing but run a script. -/
def RunsScript (result : Workflow) (id text : String) : Prop :=
  ∃ job step, result.jobs.get? id = some job ∧ job.steps = [step] ∧
    step.inputs.get? "script" = some (.string text)

/-- What a report's script is. It is the layout of all reports with the texts put into it; it sets
and removes labels first. Its labels stand in it as literals, and so do the build jobs in the lines
that list them; where the names of these are open code, a reader finds in the whole script no other
literals than those meant. -/
structure IsReport (text : String) (texts : ReportTexts) (issue : Nat) (comments : Bool)
    (builds : List String) : Prop where
  filled : text = fill texts (reportLayout issue comments builds)
  labels : ∃ rest, text =
    script (addLabelLines issue texts.added ++ removeLabelLines issue texts.removed ++ rest)
  quotesLabels : Quotes text texts.added ∧ Quotes text texts.removed
  quotesBuilds : comments = true → ∀ build ∈ builds, HasLineQuoting text (build ++ ": ")
  whole : (comments = true → ∀ build ∈ builds, IsOpen build) →
    ∃ found, lexemes? text = some found ∧ literals found = reportLiterals texts comments builds

theorem isReport_fill :
    IsReport (fill texts (reportLayout issue comments builds)) texts issue comments builds := by
  constructor
  case filled => rfl
  case labels =>
    refine ⟨(if comments then commentLayout issue builds else []).map (lineOf texts), ?_⟩
    unfold fill reportLayout
    rw [List.map_append, lines_of_labelLayout]
  case quotesLabels => exact quotes_labels
  case quotesBuilds =>
    intro given build listed
    rw [given]
    exact hasLineQuoting_build listed
  case whole =>
    intro bare
    have closed : ∀ parts ∈ reportLayout issue comments builds, ∀ part ∈ parts, part.IsClosed := by
      unfold reportLayout
      rw [List.forall_mem_append]
      refine ⟨isClosed_labelLayout, ?_⟩
      split
      case isTrue given => exact isClosed_commentLayout (bare given)
      case isFalse => exact fun _ absent => nomatch absent
    refine ⟨(reportLayout issue comments builds).flatMap (lineLexemes texts), ?_,
      literals_of_reportLayout⟩
    unfold lexemes?
    rw [scan_fill closed]

theorem reportJob_runs (given : settings.repository.issueReporting.labels = some labels)
    (known : BuildJobs) (needs : List String) (outcome : Outcome) :
    ∃ step, (settings.reportJob known needs outcome).steps = [step] ∧
      step.inputs.get? "script" = some (.string (fill (reportTexts labels outcome)
        (reportLayout settings.options.issueNumber settings.repository.issueReporting.comments
          (known.entries.map Prod.snd)))) := by
  have commits : allCommits known = (known.entries.map Prod.snd).map .ofJob := by
    unfold allCommits
    rw [List.map_map]
    rfl
  refine ⟨_, rfl, ?_⟩
  unfold Step.withTextInput Step.withInput
  rw [OrderedMap.get?_insert, if_pos rfl, commits, ← reportScript_eq_fill, ← given]

theorem get?_report (done : workflow trigger repository templates options = .ok result)
    (enabled : repository.issueReporting.isEnabled = true) :
    ∃ needs, ∀ outcome : Outcome, result.jobs.get? outcome.jobId =
      some (Settings.reportJob { workflowName := trigger.name, repository, options }
        (knownBuildJobs templates trigger.components) needs outcome) := by
  obtain ⟨front, ended, reported, -, laid⟩ := laidOut_of_workflow done
  obtain ⟨earlier, back, entries⟩ := laid.reportEntries enabled
  refine ⟨earlier.map Prod.fst, fun outcome => ?_⟩
  rw [OrderedMap.get?_eq_some_iff, entries]
  cases outcome with
  | success => exact List.mem_append_right _ List.mem_cons_self
  | failure => exact List.mem_append_right _ (List.mem_cons_of_mem _ List.mem_cons_self)

/-- Where labels are configured, whatever they are, both reports run the same script, with the labels
exchanged and another message; and what stands in it between quotes is what was configured. -/
theorem reports_quote_and_mirror
    (given : repository.issueReporting.labels = some labels)
    (done : workflow trigger repository templates options = .ok result) :
    ∃ success failure,
      RunsScript result "issue-report-success" success ∧
      RunsScript result "issue-report-failure" failure ∧
      IsReport success
        { added := labels.success, removed := labels.failure, message := "The job passed!\n\n" }
        options.issueNumber repository.issueReporting.comments
        ((knownBuildJobs templates trigger.components).entries.map Prod.snd) ∧
      IsReport failure
        { added := labels.failure, removed := labels.success, message := "The job failed\n\n" }
        options.issueNumber repository.issueReporting.comments
        ((knownBuildJobs templates trigger.components).entries.map Prod.snd) := by
  have enabled : repository.issueReporting.isEnabled = true := by
    unfold Config.IssueReporting.isEnabled
    rw [given, Option.isSome_some, Bool.or_true]
  obtain ⟨needs, there⟩ := get?_report done enabled
  let settings : Settings := { workflowName := trigger.name, repository, options }
  let known := knownBuildJobs templates trigger.components
  have runs : ∀ outcome : Outcome, RunsScript result outcome.jobId
      (fill (reportTexts labels outcome) (reportLayout options.issueNumber
        repository.issueReporting.comments (known.entries.map Prod.snd))) := by
    intro outcome
    obtain ⟨step, steps, script⟩ := @reportJob_runs settings _ given known needs outcome
    exact ⟨_, step, there outcome, steps, script⟩
  exact ⟨_, _, runs .success, runs .failure, isReport_fill, isReport_fill⟩

/-- Labels with quotes, backslashes, line breaks and other control characters. -/
def quotingRepository : Config.Repository :=
  { Config.Repository.default with
    issueReporting := {
      comments := true
      labels := some { success := "it's \"done\" \\o/", failure := "\"]\x7d)\n\x01\t// \\" } } }

theorem reports_of_sample_quote_and_mirror : ∃ result,
    quotingRepository.issueReporting.labels =
      some { success := "it's \"done\" \\o/", failure := "\"]\x7d)\n\x01\t// \\" } ∧
    workflow sampleTrigger quotingRepository sampleTemplates.load (.ofBranch "side" 7) = .ok result ∧
    ∃ success failure,
      RunsScript result "issue-report-success" success ∧
      RunsScript result "issue-report-failure" failure ∧
      IsReport success
        { added := "it's \"done\" \\o/", removed := "\"]\x7d)\n\x01\t// \\",
          message := "The job passed!\n\n" } 7 true
        ((knownBuildJobs sampleTemplates.load sampleTrigger.components).entries.map Prod.snd) ∧
      IsReport failure
        { added := "\"]\x7d)\n\x01\t// \\", removed := "it's \"done\" \\o/",
          message := "The job failed\n\n" } 7 true
        ((knownBuildJobs sampleTemplates.load sampleTrigger.components).entries.map Prod.snd) := by
  obtain ⟨result, done⟩ : ∃ result, workflow sampleTrigger quotingRepository sampleTemplates.load
      (.ofBranch "side" 7) = .ok result := except_exists_ok (by decide +kernel)
  exact ⟨result, rfl, done, reports_quote_and_mirror rfl done⟩

end CrossBuild.Compile
