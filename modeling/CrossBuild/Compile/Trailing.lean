/-
The jobs that end a workflow.

They follow the jobs of all components: the end job of the repository, the job that reads the status
text, the reports, and the removal of the side branch. Each needs the jobs that were there before
it; the two reports need the same ones.
-/

import CrossBuild.Compile.Jobs
import CrossBuild.Compile.Report

namespace CrossBuild.Compile

def endJobId : String := "end-job"

def statusReadJobId : String := "status-read"

def cleanupJobId : String := "cleanup"

def Outcome.jobId : Outcome → String
  | .success => "issue-report-success"
  | .failure => "issue-report-failure"

/-- The variable with the path of the file into which an end job may write a status text. -/
def statusFileVariable : String := "XREPO_STATUS_TEXT_FILE"

def statusDirectory : String := toolsDirectory ++ "/.status"

def statusFile : String := statusDirectory ++ "/status-text.md"

/-- The output that holds the status text. -/
def statusOutput : String := "status-text"

def statusStepId : String := "read-status"

/-- The status text as an output; it may have several lines, or none when there is no file. -/
def readStatusLines : List String :=
  ["\x7b",
   "  echo '" ++ statusOutput ++ "<<XREPO_STATUS_EOF'",
   "  if [ -f " ++ statusFile ++ " ]; then cat " ++ statusFile ++ "; fi",
   "  echo 'XREPO_STATUS_EOF'",
   "\x7d >> \"$GITHUB_OUTPUT\""]

/-- The versions of all components. -/
def allVersionEntries (buildJobs : BuildJobs) : List (String × String) :=
  buildJobs.entries.map fun pair => versionEntry pair.1 pair.2

/-- The commits of all components. -/
def allCommits (buildJobs : BuildJobs) : List CommitVariable :=
  buildJobs.entries.map fun pair => .ofJob pair.2

namespace Settings

/-- The first job of a workflow. -/
def cancelJob (settings : Settings) : Job :=
  { Job.onMachine settings.runsOn with
    steps := [checkoutSelf settings.options.branch none, cancelPreviousRuns] }

/-- The end job of the repository, which sees the versions of all components. -/
def endJob (settings : Settings) (buildJobs : BuildJobs) (needs : List String)
    (endJob : Config.EndJob) : Except Error Job :=
  (userSteps endJobId endJob.steps).map fun steps =>
    let javaVersion :=
      settings.repository.javaVersion.getD settings.options.defaultJavaVersion
    { name := some "End Job"
      runsOn := settings.runsOn
      needs := needs
      condition := endJob.condition
      env := (endJob.env.insertAll (allVersionEntries buildJobs)).insert statusFileVariable
        (expression "github.workspace" ++ "/" ++ statusFile)
      outputs := .empty
      steps :=
        [checkoutSelf settings.options.branch (some toolsDirectory),
         cacheMavenRepository,
         setupJava javaVersion,
         gitRebase toolsDirectory,
         settings.overlayStep,
         makeDirectory statusDirectory] ++ steps ++
        [gitCommitAndPush toolsDirectory "Store the end job status text" .always] }

def statusReadJob (settings : Settings) (needs : List String) : Job :=
  { name := some "Read Status"
    runsOn := settings.runsOn
    needs := needs
    condition := some Condition.always.expression
    env := .empty
    outputs := .ofList [(statusOutput, expression (stepOutput statusStepId statusOutput))]
    steps :=
      [checkoutSelf settings.options.branch (some toolsDirectory),
       ((Step.script (script readStatusLines)).withName "Read status text").withId statusStepId] }

/-- A job that reports one outcome. -/
def reportJob (settings : Settings) (buildJobs : BuildJobs) (needs : List String)
    (outcome : Outcome) : Job :=
  let commits := allCommits buildJobs
  let commitEntries := commits.map fun commit =>
    (commit.variableName, expression (neededOutput commit.job revisionOutput))
  let statusText := expression (neededOutput statusReadJobId statusOutput)
  let text :=
    reportScript settings.options.issueNumber outcome settings.repository.issueReporting commits
  { name := some outcome.title
    runsOn := settings.runsOn
    needs := needs
    condition := some outcome.condition.expression
    env := (OrderedMap.ofList commitEntries).insert statusTextVariable statusText
    outputs := .empty
    steps :=
      [(Step.action "actions/github-script@v7").withName "Report status"
        |>.withTextInput "github-token" token
        |>.withTextInput "script" text] }

def cleanupJob (settings : Settings) (needs : List String) : Job :=
  { name := some "Cleanup"
    runsOn := settings.runsOn
    needs := needs
    condition := some Condition.always.expression
    env := .empty
    outputs := .empty
    steps :=
      [(checkoutSelf settings.options.branch none).withTextInput "token" token,
       gitDeleteRemoteBranch settings.options.branch] }

end Settings

end CrossBuild.Compile
