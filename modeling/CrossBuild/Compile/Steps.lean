/-
The steps that generated jobs are made of.

Each function gives one finished step. Scripts are written for the shell of the build service, and
expressions in double braces are evaluated by the service before a script runs. Which steps a job
has, and in which order, is decided elsewhere.
-/

import CrossBuild.Workflow.Basic

namespace CrossBuild.Compile

/-- Where a job checks out the repository with the tools. -/
def toolsDirectory : String := ".ci-tools"

/-- Where components back up what they built, one folder each. -/
def backupsRoot : String := ".ci-tools/repo-backups"

/-- The local repository of the build tool. -/
def mavenRepository : String := "$\x7bHOME\x7d/.m2/repository"

/-- Where build logs are gathered. -/
def projectLogsDirectory : String := ".project-build-logs"

def versionStepId : String := "grab-version"

def revisionStepId : String := "git-rev-parse"

def revisionOutput : String := "git-sha"

def projectVersionVariable : String := "XREPO_PROJECT_VERSION"

/-- The token that may push to the side branch and report on issues. -/
def token : String := "$\x7b\x7b secrets.MULTI_REPO_CI_PAT \x7d\x7d"

/-- The variable of the current branch, as scripts refer to it. -/
def branchVariable : String := "$\x7bTMP\x7d"

/-- When a step or a job runs. -/
inductive Condition where
  | success
  | failure
  | always
  deriving DecidableEq

def Condition.expression : Condition → String
  | .success => "success()"
  | .failure => "failure()"
  | .always => "always()"

/-- Names with underscores where dashes stood. -/
def underscored (name : String) : String :=
  name.map fun char => if char = '-' then '_' else char

/-- The variable and output that hold the version of a component. -/
def versionVariable (component : String) : String :=
  "version_" ++ underscored component

/-- Text that the build service evaluates. -/
def expression (text : String) : String :=
  "$\x7b\x7b " ++ text ++ " \x7d\x7d"

/-- The output of a job that is needed. -/
def neededOutput (job output : String) : String :=
  "needs." ++ job ++ ".outputs." ++ output

/-- The output of an earlier step of the same job. -/
def stepOutput (step output : String) : String :=
  "steps." ++ step ++ ".outputs." ++ output

/-- Lines of a script, each ended by a line feed. -/
def script (lines : List String) : String :=
  String.join (lines.map fun line => line ++ "\n")

/-- Find out the current branch. -/
def currentBranchLine : String :=
  "TMP=$(git branch | sed -n -e 's/^\\* \\(.*\\)/\\1/p')"

/-- Fetch the current branch and put local commits on top of it. -/
def rebaseLines : List String :=
  [currentBranchLine,
   "git fetch origin " ++ branchVariable,
   "git rebase origin/" ++ branchVariable]

def checkoutRepository (org repository branch : String) : Step :=
  (Step.action "actions/checkout@v4").withName ("Checkout " ++ org ++ "/" ++ repository)
    |>.withTextInput "repository" (org ++ "/" ++ repository)
    |>.withTextInput "ref" branch

/-- Check out the repository of the workflow itself, into a folder of its own if one is given. -/
def checkoutSelf (branch : String) (path : Option String) : Step :=
  let step := (Step.action "actions/checkout@v4").withName "Checkout CI tools"
    |>.withTextInput "ref" branch
  match path with
  | some path => step.withTextInput "path" path
  | none => step

def cacheMavenRepository : Step :=
  (Step.action "actions/cache@v4").withName "Cache Maven repository"
    |>.withTextInput "path" "~/.m2/repository"
    |>.withTextInput "key"
      ("$\x7b\x7b runner.os \x7d\x7d-maven-$\x7b\x7b hashFiles('**/pom.xml') \x7d\x7d")
    |>.withTextInput "restore-keys" "$\x7b\x7b runner.os \x7d\x7d-maven-"

def setupJava (version : String) : Step :=
  (Step.action "actions/setup-java@v4").withName ("Set up JDK " ++ version)
    |>.withTextInput "distribution" "temurin"
    |>.withTextInput "java-version" version

/-- Bring the tools checkout up to date with its remote branch. -/
def gitRebase (directory : String) : Step :=
  (Step.script (script rebaseLines)).withName "Update CI tools checkout"
    |>.withWorkingDirectory directory

/-- Commit all changes and push them on top of the remote branch. -/
def gitCommitAndPush (directory message : String) (condition : Condition) : Step :=
  let lines :=
    ["git config --local user.name \"CI Action\"",
     "git config --local user.email \"ci@example.com\"",
     "git add -A",
     "branch_status=$(git status --porcelain)",
     "[[ ! -z \"$\x7bbranch_status\x7d\" ]] && git commit -m \"" ++ message ++
       "\" || echo \"No changes\""] ++ rebaseLines ++ ["git push origin " ++ branchVariable]
  (Step.script (script lines)).withName "Commit and push"
    |>.withWorkingDirectory directory
    |>.withCondition condition.expression

def makeDirectory (directory : String) : Step :=
  (Step.script (script ["mkdir -p " ++ directory])).withName ("Create " ++ directory)

def gitDeleteRemoteBranch (branch : String) : Step :=
  (Step.script (script ["git push origin :" ++ branch])).withName "Delete side branch"

/-- Run a command of this tool. -/
def toolCommand (tool command : String) (arguments : List String) : Step :=
  let line := tool ++ " " ++ command ++ String.join (arguments.map fun word => " " ++ word)
  (Step.script (script [line])).withName ("Run xrepo '" ++ command ++ "'")

/-- Evaluate the version of the project and make it an output under the given name. The first run
loads a plugin whose log lines would spoil the value. -/
def grabVersion (output : String) : Step :=
  let evaluate := "mvn -B help:evaluate -Dexpression=project.version -pl ."
  let lines :=
    [evaluate,
     "TMP=\"$(" ++ evaluate ++ " | grep -v '^\\[')\"",
     "echo \"version: " ++ branchVariable ++ "\"",
     "echo \"" ++ output ++ "=" ++ branchVariable ++ "\" >> \"$GITHUB_OUTPUT\"",
     "echo \"" ++ projectVersionVariable ++ "=" ++ branchVariable ++ "\" >> \"$GITHUB_ENV\""]
  (Step.script (script lines)).withName "Grab project version" |>.withId versionStepId

/-- Make the commit hash an output. -/
def revParse : Step :=
  let lines :=
    ["TMP=$(git rev-parse HEAD)",
     "echo \"" ++ revisionOutput ++ "=" ++ branchVariable ++ "\" >> \"$GITHUB_OUTPUT\""]
  (Step.script (script lines)).withName "Parse SHA-1 into output variable"
    |>.withId revisionStepId

def ipv6Localhost : Step :=
  (Step.script "sudo bash -c 'echo ::1 localhost >> /etc/hosts'").withName
    "Add '::1 localhost' to hosts file"

def mavenBuild (commands : String) : Step :=
  (Step.script commands).withName "Maven Build"

/-- Stop for an interactive session. -/
def tmateDebug : Step :=
  (Step.action "mxschmitt/action-tmate@v3").withName "Set up tmate for SSH debugging"

/-- Replace a folder by its archive. -/
def zipFolder (containing child : String) : Step :=
  let lines :=
    ["cd " ++ containing, "zip -r " ++ child ++ ".zip " ++ child, "rm -rf " ++ child]
  (Step.script (script lines)).withName "Zip build logs"

def uploadArtifact (name path : String) : Step :=
  (Step.action "actions/upload-artifact@v4").withName "Upload build logs"
    |>.withTextInput "name" name
    |>.withTextInput "path" path

def cancelPreviousRuns : Step :=
  (Step.action "n1hility/cancel-previous-runs@v2").withName "Cancel previous runs"
    |>.withTextInput "token" "$\x7b\x7b secrets.GITHUB_TOKEN \x7d\x7d"

end CrossBuild.Compile
