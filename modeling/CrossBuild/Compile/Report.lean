/-
The scripts that report the outcome of a workflow on an issue.

A script sets one label and removes the other, or writes a comment, or does both. Names and texts
stand in it as literals, so nothing in them is read as code.
-/

import CrossBuild.Compile.Steps
import CrossBuild.Config.Repository
import CrossBuild.Text.Quoted

namespace CrossBuild.Compile

/-- The variable that holds the status text in a report. -/
def statusTextVariable : String := "STATUS_TEXT"

/-- The entries that name the issue in a request. -/
def issueLines (indent : String) (issue : Nat) : List String :=
  [indent ++ "issue_number: " ++ toString issue ++ ",",
   indent ++ "owner: context.repo.owner,",
   indent ++ "repo: context.repo.repo,"]

def addLabelLines (issue : Nat) (label : String) : List String :=
  ["await github.rest.issues.addLabels(\x7b"] ++ issueLines "  " issue ++
  ["  labels: [" ++ Text.quote label ++ "]",
   "\x7d)"]

/-- A label that is not there is not an error. -/
def removeLabelLines (issue : Nat) (label : String) : List String :=
  ["const labelsOnIssue = await github.paginate(github.rest.issues.listLabelsOnIssue, \x7b"] ++
  issueLines "  " issue ++
  ["\x7d)",
   "for (const label of labelsOnIssue) \x7b",
   "  if (label.name === " ++ Text.quote label ++ ") \x7b",
   "    await github.rest.issues.removeLabel(\x7b"] ++
  issueLines "      " issue ++
  ["      name: label.name",
   "    \x7d)",
   "  \x7d",
   "\x7d"]

/-- A commit to be listed: the job that built it, and the variable that holds its hash. -/
structure CommitVariable where
  job : String
  variableName : String
  deriving DecidableEq

def CommitVariable.ofJob (job : String) : CommitVariable :=
  { job := job
    variableName := underscored job ++ "_git_sha" }

/-- The lines of the comment's text: the message, the commits if there are any, the status text. -/
def commentBody (message : String) (commits : List CommitVariable) : List String :=
  let heading := "These are the job names and their respective SHA-1 hashes:\n\n"
  let listing := match commits with
    | [] => []
    | commits => ("    + " ++ Text.quote heading) :: commits.map fun commit =>
        "    + " ++ Text.quote (commit.job ++ ": ") ++ " + process.env." ++ commit.variableName ++
          " + '\\n'"
  ("  body: " ++ Text.quote (message ++ "\n\n")) :: listing ++
    ["    + '\\n' + process.env." ++ statusTextVariable ++ " + '\\n'"]

def commentLines (issue : Nat) (message : String) (commits : List CommitVariable) : List String :=
  ["await github.rest.issues.createComment(\x7b"] ++ issueLines "  " issue ++
    commentBody message commits ++ ["\x7d)"]

/-- The outcome a report is about. -/
inductive Outcome where
  | success
  | failure
  deriving DecidableEq

namespace Outcome

def condition : Outcome → Condition
  | .success => .success
  | .failure => .failure

def title : Outcome → String
  | .success => "Issue Status Report - Success"
  | .failure => "Issue Status Report - Failure"

def message : Outcome → String
  | .success => "The job passed!"
  | .failure => "The job failed"

/-- The label of this outcome. -/
def label (outcome : Outcome) (labels : Config.StatusLabels) : String :=
  match outcome with
  | .success => labels.success
  | .failure => labels.failure

def opposite : Outcome → Outcome
  | .success => .failure
  | .failure => .success

end Outcome

/-- The script of a report: labels first, then the comment. -/
def reportScript (issue : Nat) (outcome : Outcome) (reporting : Config.IssueReporting)
    (commits : List CommitVariable) : String :=
  let labelLines := match reporting.labels with
    | some labels =>
        addLabelLines issue (outcome.label labels) ++
          removeLabelLines issue (outcome.opposite.label labels)
    | none => []
  let comment :=
    if reporting.comments then commentLines issue outcome.message commits else []
  script (labelLines ++ comment)

end CrossBuild.Compile
