/-
Job graphs.

A graph is built by inserting jobs one after the other. A job may need only jobs that are already
there, and its identifier must be new, so the order of insertion is an order in which the jobs can
run, and no job waits for itself. A refused insertion changes nothing.
-/

import CrossBuild.Workflow.Basic

namespace CrossBuild

structure JobGraph where
  jobs : OrderedMap Job

inductive GraphError where
  | duplicateJob (name : String)
  | missingDependency (job dependency : String)
  deriving DecidableEq

namespace JobGraph

def empty : JobGraph :=
  { jobs := .empty }

def contains (graph : JobGraph) (name : String) : Bool :=
  graph.jobs.contains name

def get? (graph : JobGraph) (name : String) : Option Job :=
  graph.jobs.get? name

def size (graph : JobGraph) : Nat :=
  graph.jobs.size

def isEmpty (graph : JobGraph) : Bool :=
  graph.jobs.isEmpty

/-- Identifiers in the order of insertion. -/
def jobNames (graph : JobGraph) : List String :=
  graph.jobs.keys

/-- The graph with one job more, or the reason for which the job cannot be added. -/
def insert (graph : JobGraph) (name : String) (job : Job) : Except GraphError JobGraph :=
  if graph.contains name then .error (.duplicateJob name)
  else match job.needs.find? fun need => !graph.contains need with
    | some missing => .error (.missingDependency name missing)
    | none => .ok { jobs := graph.jobs.insert name job }

end JobGraph

end CrossBuild
