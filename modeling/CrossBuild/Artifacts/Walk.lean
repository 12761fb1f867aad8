/-
Walking a directory tree.

A visitor is told of a directory before and after what it holds, and of everything else in between,
in the order of names. It may change the disk: what a directory holds is looked up when the
directory is entered, and whether an entry is a directory when its turn comes. The first failure
ends the walk.
-/

import CrossBuild.Artifacts.Error

namespace CrossBuild.Artifacts

open Files (Path Disk)

/-- A place in a walk: the names from its root to the place. -/
structure Spot where
  root : Path
  names : List String
  deriving DecidableEq

def Spot.path (spot : Spot) : Path :=
  spot.names.foldl Path.joinName spot.root

def Spot.child (spot : Spot) (name : String) : Spot :=
  { spot with names := spot.names ++ [name] }

/-- The same place below another root. -/
def Spot.below (spot : Spot) (target : Path) : Path :=
  target.joinNames spot.names

/-- What to do with a directory: walk through it, or leave it out, in which case the visitor does
not hear of it again. -/
inductive Descent where
  | enter
  | skip
  deriving DecidableEq

/-- What is done on the way, in a state of the visitor's own. -/
structure Visitor (σ : Type) where
  before : Spot → EStateM Error σ Descent
  file : Spot → EStateM Error σ Unit
  after : Spot → EStateM Error σ Unit

namespace Visitor

/-- The visitor that does nothing. -/
def idle {σ : Type} : Visitor σ :=
  { before := fun _ => pure .enter
    file := fun _ => pure ()
    after := fun _ => pure () }

/-- Walk through a directory, at most so many levels deep. `view` is the disk in the state. -/
def walkWithin {σ : Type} (visitor : Visitor σ) (view : σ → Disk) :
    Nat → Spot → EStateM Error σ Unit
  | 0, spot => throw (.refused .readDirectory spot.path)
  | levels + 1, spot => do
      match ← visitor.before spot with
      | .skip => pure ()
      | .enter =>
          match (view (← get)).list? spot.path with
          | none => throw (.refused .readDirectory spot.path)
          | some names => do
              names.forM fun name => do
                let inner := spot.child name
                if (view (← get)).isDirectory inner.path then
                  walkWithin visitor view levels inner
                else visitor.file inner
              visitor.after spot

end Visitor

/-- More levels than any path can lead down, or, where paths are not limited, than there are. -/
def levelBound (disk : Disk) : Nat :=
  match disk.limits with
  | some limits => limits.pathBytes + 1
  | none => disk.height + 1

/-- Walk through the directory at a path. -/
def walkTree {σ : Type} (visitor : Visitor σ) (view : σ → Disk) (root : Path) :
    EStateM Error σ Unit := do
  let levels := levelBound (view (← get))
  visitor.walkWithin view levels { root, names := [] }

end CrossBuild.Artifacts
