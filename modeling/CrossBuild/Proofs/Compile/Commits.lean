/-
The commits that a report lists.

A comment has one line for each build job, which reads the commit from a variable of the report. The
variable is named after the job with dashes as underscores, so two build jobs may have to share one,
and then it holds the commit of the one that is listed last. Here it is said exactly which lines read
the commit they are labelled with. How the comment is written is a matter of the script.
-/

import CrossBuild.Proofs.Compile.LastJobs

namespace CrossBuild.Compile

open Config (Component)
open Runs

variable {trigger : Config.Trigger} {repository : Config.Repository} {templates : TemplateSource}
  {options : Options} {result : Workflow} {settings : Settings}
  {components before after : List Component} {component : Component} {members : List Member}
  {outcome : Outcome} {needs : List String}

/-! ### The lines of a comment -/

def commitVariable (build : String) : String :=
  underscored build ++ "_git_sha"

def commitReference (build : String) : String :=
  expression (neededOutput build "git-sha")

/-- The line of a comment that is labelled with a build job. -/
def commitLine (build : String) : String :=
  "    + " ++ Text.quote (build ++ ": ") ++ " + process.env." ++ commitVariable build ++ " + '\\n'"

/-- The job does nothing but run a script, and among its lines are those of the build jobs. -/
def ListsCommits (job : Job) (builds : List String) : Prop :=
  ∃ step front back, job.steps = [step] ∧
    step.inputs.get? "script" = some (.string (script (front ++ builds.map commitLine ++ back)))

theorem commentBody_lists (message : String) (builds : List String) :
    ∃ front back, commentBody message (builds.map .ofJob) =
      front ++ builds.map commitLine ++ back := by
  cases builds with
  | nil => exact ⟨["  body: " ++ Text.quote (message ++ "\n\n")], _, rfl⟩
  | cons build rest =>
      let heading := "These are the job names and their respective SHA-1 hashes:\n\n"
      refine ⟨["  body: " ++ Text.quote (message ++ "\n\n"), "    + " ++ Text.quote heading],
        ["    + '\\n' + process.env." ++ statusTextVariable ++ " + '\\n'"], ?_⟩
      unfold commentBody
      simp only [List.map_cons, List.map_map]
      rfl

theorem reportScript_lists {reporting : Config.IssueReporting} (comments : reporting.comments = true)
    (issue : Nat) (outcome : Outcome) (builds : List String) :
    ∃ front back, reportScript issue outcome reporting (builds.map .ofJob) =
      script (front ++ builds.map commitLine ++ back) := by
  obtain ⟨front, back, body⟩ := commentBody_lists outcome.message builds
  obtain ⟨labelLines, whole⟩ : ∃ labelLines,
      reportScript issue outcome reporting (builds.map .ofJob) = script (labelLines ++
        if reporting.comments then commentLines issue outcome.message (builds.map .ofJob) else []) :=
    ⟨_, rfl⟩
  rw [if_pos comments, commentLines, body] at whole
  refine ⟨labelLines ++
    (["await github.rest.issues.createComment(\x7b"] ++ issueLines "  " issue ++ front),
    back ++ ["\x7d)"], whole.trans (congrArg script ?_)⟩
  simp only [List.append_assoc]

theorem allCommits_knownBuildJobs (order : Config.ComponentsInOrder components) :
    allCommits (knownBuildJobs templates components) =
      (components.map (buildJobId templates)).map .ofJob := by
  unfold allCommits
  rw [entries_knownBuildJobs order, List.map_map, List.map_map]
  rfl

theorem reportJob_lists (order : Config.ComponentsInOrder components)
    (comments : settings.repository.issueReporting.comments = true) :
    ListsCommits (settings.reportJob (knownBuildJobs templates components) needs outcome)
      (components.map (buildJobId templates)) := by
  obtain ⟨front, back, text⟩ := reportScript_lists comments settings.options.issueNumber outcome
    (components.map (buildJobId templates))
  refine ⟨_, front, back, rfl, ?_⟩
  unfold Step.withTextInput Step.withInput
  rw [allCommits_knownBuildJobs order, text, OrderedMap.get?_insert, if_pos rfl]

/-! ### The variables of a report -/

theorem underscored_of_commitVariable {one other : String}
    (same : commitVariable one = commitVariable other) : underscored one = underscored other := by
  unfold commitVariable at same
  exact (String.append_left_inj _).mp same

theorem commitReference_injective {one other : String}
    (same : commitReference one = commitReference other) : one = other := by
  unfold commitReference expression neededOutput at same
  rw [String.append_left_inj, String.append_right_inj, String.append_left_inj,
    String.append_left_inj, String.append_right_inj] at same
  exact same

theorem commitVariable_ne_statusText (build : String) :
    commitVariable build ≠ statusTextVariable := by
  intro same
  have last := congrArg (fun text => text.toList.getLast?) same
  unfold commitVariable statusTextVariable at last
  rw [String.toList_append] at last
  simp at last

def commitEntries (builds : List String) : List (String × String) :=
  builds.map fun build => (commitVariable build, commitReference build)

/-- A report's variable of a build job is not touched by that of the status text. -/
theorem get?_env_reportJob (order : Config.ComponentsInOrder components) (build : String) :
    (settings.reportJob (knownBuildJobs templates components) needs outcome).env.get?
        (commitVariable build) =
      (OrderedMap.ofList (commitEntries (components.map (buildJobId templates)))).get?
        (commitVariable build) := by
  unfold Settings.reportJob
  dsimp only
  rw [OrderedMap.get?_insert, if_neg (commitVariable_ne_statusText build),
    allCommits_knownBuildJobs order, List.map_map]
  rfl

/-- A build job's variable holds its commit unless a later build job has the same variable. -/
theorem get?_commitEntries_iff {front back : List String} {build : String}
    (distinct : (front ++ build :: back).Nodup) :
    (OrderedMap.ofList (commitEntries (front ++ build :: back))).get? (commitVariable build) =
        some (commitReference build) ↔
      ∀ later ∈ back, underscored later ≠ underscored build := by
  have entries : commitEntries (front ++ build :: back) =
      commitEntries front ++ (commitVariable build, commitReference build) :: commitEntries back := by
    unfold commitEntries
    rw [List.map_append, List.map_cons]
  constructor
  · intro found later listed same
    -- the last build job with this variable decides what it holds
    have alike : ∃ other ∈ back, underscored other = underscored build := ⟨later, listed, same⟩
    obtain ⟨inner, last, rest, rfl, shared, others⟩ := exists_last alike
    have variableOf : commitVariable last = commitVariable build := by
      unfold commitVariable
      rw [shared]
    have held : (OrderedMap.ofList (commitEntries (front ++ build :: (inner ++ last :: rest)))).get?
        (commitVariable build) = some (commitReference last) := by
      have whole : commitEntries (front ++ build :: (inner ++ last :: rest)) =
          commitEntries (front ++ build :: inner) ++
            (commitVariable build, commitReference last) :: commitEntries rest := by
        unfold commitEntries
        rw [← variableOf, ← List.cons_append, ← List.append_assoc, List.map_append, List.map_cons]
      rw [whole]
      apply OrderedMap.get?_insertAll_of_last
      unfold commitEntries
      rw [List.forall_mem_map]
      intro other inside equal
      exact others other inside (underscored_of_commitVariable equal)
    rw [held, Option.some.injEq] at found
    have own := commitReference_injective found
    rw [List.nodup_append, List.nodup_cons] at distinct
    exact distinct.2.1.1 (own ▸ List.mem_append_right _ List.mem_cons_self)
  · intro apart
    rw [entries]
    apply OrderedMap.get?_insertAll_of_last
    unfold commitEntries
    rw [List.forall_mem_map]
    intro other inside equal
    exact apart other inside (underscored_of_commitVariable equal)

/-! ### Whole workflows -/

theorem buildJobId_mem_blockIds {member : Member} (reads : templates.ReadsTexts)
    (loads : member.Loads templates component) :
    buildJobId templates component ∈ blockIds templates component := by
  rw [← buildJob_of_loads loads, ← blockIds_of_loads loads]
  exact Settings.buildJob_mem_jobIds (loads.sound reads)

/-- Different components of a workflow have different build jobs. -/
theorem buildJobs_nodup (reads : templates.ReadsTexts)
    (done : workflow trigger repository templates options = .ok result) :
    (trigger.components.map (buildJobId templates)).Nodup := by
  obtain ⟨members, all, -⟩ := workflow_ok done
  have inside : ∀ component ∈ trigger.components,
      buildJobId templates component ∈ blockIds templates component := by
    intro component listed
    obtain ⟨member, -, loads⟩ := exists_of_mem_left all component listed
    exact buildJobId_mem_blockIds reads loads
  exact nodup_map_of_flatMap inside (List.nodup_cons.mp (frontIds_nodup done)).2

/-- Both reports list a line for the build job of every component. The variable of a line holds the
commit of its build job exactly when no later component has a build job of the same name up to
dashes and underscores. -/
theorem reports_list_commits {document : Yaml.Value}
    (accepted : Config.Trigger.read document = .ok trigger) (reads : templates.ReadsTexts)
    (comments : repository.issueReporting.comments = true)
    (done : workflow trigger repository templates options = .ok result) :
    ∀ outcome : Outcome, ∃ job, result.jobs.get? outcome.jobId = some job ∧
      ListsCommits job (trigger.components.map (buildJobId templates)) ∧
      ∀ before component after, trigger.components = before ++ component :: after →
        (job.env.get? (commitVariable (buildJobId templates component)) =
            some (commitReference (buildJobId templates component)) ↔
          ∀ later ∈ after, underscored (buildJobId templates later) ≠
            underscored (buildJobId templates component)) := by
  intro outcome
  have order := Config.Trigger.read_ok accepted
  have distinct := buildJobs_nodup reads done
  obtain ⟨front, ended, reported, -, laid⟩ := laidOut_of_workflow done
  have enabled : repository.issueReporting.isEnabled = true := by
    unfold Config.IssueReporting.isEnabled
    rw [comments, Bool.true_or]
  obtain ⟨earlier, back, entries⟩ := laid.reportEntries enabled
  let settings : Settings := { workflowName := trigger.name, repository, options }
  let known := knownBuildJobs templates trigger.components
  have there : result.jobs.get? outcome.jobId =
      some (settings.reportJob known (earlier.map Prod.fst) outcome) := by
    rw [OrderedMap.get?_eq_some_iff, entries]
    cases outcome with
    | success => exact List.mem_append_right _ List.mem_cons_self
    | failure => exact List.mem_append_right _ (List.mem_cons_of_mem _ List.mem_cons_self)
  refine ⟨settings.reportJob known (earlier.map Prod.fst) outcome, there, ?_, ?_⟩
  · exact reportJob_lists order comments
  · intro before component after whole
    rw [get?_env_reportJob order]
    rw [whole, List.map_append, List.map_cons] at distinct ⊢
    rw [get?_commitEntries_iff distinct, List.forall_mem_map]

theorem reports_of_sample_list_commits : ∃ result,
    Config.Trigger.read sampleDocument = .ok sampleTrigger ∧ sampleTemplates.load.ReadsTexts ∧
    Config.Repository.default.issueReporting.comments = true ∧
    workflow sampleTrigger .default sampleTemplates.load (.ofBranch "side" 1) = .ok result ∧
      ∀ outcome : Outcome, ∃ job, result.jobs.get? outcome.jobId = some job ∧
        ListsCommits job (sampleTrigger.components.map (buildJobId sampleTemplates.load)) ∧
        ∀ before component after, sampleTrigger.components = before ++ component :: after →
          (job.env.get? (commitVariable (buildJobId sampleTemplates.load component)) =
              some (commitReference (buildJobId sampleTemplates.load component)) ↔
            ∀ later ∈ after, underscored (buildJobId sampleTemplates.load later) ≠
              underscored (buildJobId sampleTemplates.load component)) := by
  have accepted : Config.Trigger.read sampleDocument = .ok sampleTrigger :=
    except_eq_ok (by decide +kernel)
  have reads := MemoryTemplates.readsTexts sampleTemplates
  have comments : Config.Repository.default.issueReporting.comments = true := rfl
  obtain ⟨result, done⟩ := sample_compiles
  exact ⟨result, accepted, reads, comments, done, reports_list_commits accepted reads comments done⟩

/-- Two components whose build jobs differ by an underscore in place of a dash. -/
def alikeTrigger : Config.Trigger :=
  { name := "nightly"
    env := .empty
    components := [
      { name := "a", org := "org", branch := "main", mavenOpts := none
        debug := false, javaVersion := none, dependencies := [] },
      { name := "a-b", org := "org", branch := "main", mavenOpts := none
        debug := false, javaVersion := none, dependencies := [] }] }

def alikeTemplates : MemoryTemplates :=
  .ofList [
    ("a", "build-job: b_c\njobs:\n  b_c:\n    run:\n    - mvn: install\n"),
    ("a-b", "build-job: c\njobs:\n  c:\n    run:\n    - mvn: install\n")]

/-- The commit of the first build job is in no variable of the report: both lines read the commit of
the second one. -/
theorem commit_of_alike_is_lost : ∃ result job,
    workflow alikeTrigger .default alikeTemplates.load (.ofBranch "side" 1) = .ok result ∧
      "a-b_c" ∈ result.jobs.keys ∧ "a-b-c" ∈ result.jobs.keys ∧
      result.jobs.get? "issue-report-success" = some job ∧
      job.env.get? "a_b_c_git_sha" = some (expression "needs.a-b-c.outputs.git-sha") ∧
      ∀ variableName, job.env.get? variableName ≠
        some (expression "needs.a-b_c.outputs.git-sha") := by
  have compiled : (workflow alikeTrigger .default alikeTemplates.load
      (.ofBranch "side" 1)).toOption.map (fun result => (result.jobs.keys,
        (result.jobs.get? "issue-report-success").map fun job => job.env.entries)) =
      some (["cancel-previous-runs", "a-b_c", "a-b-c", "status-read", "issue-report-success",
          "issue-report-failure", "cleanup"],
        some [("a_b_c_git_sha", expression "needs.a-b-c.outputs.git-sha"),
          ("STATUS_TEXT", expression "needs.status-read.outputs.status-text")]) := by
    decide +kernel
  obtain ⟨result, done, same⟩ := Option.map_eq_some_iff.mp compiled
  obtain ⟨keys, report⟩ := Prod.mk.inj same
  obtain ⟨job, there, entries⟩ := Option.map_eq_some_iff.mp report
  refine ⟨result, job, except_eq_ok done, ?_, ?_, there, ?_, ?_⟩
  · rw [keys]
    decide
  · rw [keys]
    decide
  · rw [OrderedMap.get?_eq_some_iff, entries]
    exact List.mem_cons_self
  · intro variableName found
    rw [OrderedMap.get?_eq_some_iff, entries] at found
    simp only [List.mem_cons, List.not_mem_nil, or_false, Prod.mk.injEq] at found
    rcases found with ⟨-, same⟩ | ⟨-, same⟩
    · exact absurd same (by decide)
    · exact absurd same (by decide)

end CrossBuild.Compile
