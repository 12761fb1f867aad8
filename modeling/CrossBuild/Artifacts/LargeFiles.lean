/-
Splitting and merging in a whole directory tree.

Splitting leaves directories of parts alone, so nothing is split twice. Merging goes from the inside
out. Both count what they changed.
-/

import CrossBuild.Artifacts.Chunk
import CrossBuild.Artifacts.Walk

namespace CrossBuild.Artifacts

open Files (Path Disk)

/-- A disk and how many files were changed on it. -/
structure Tally where
  disk : Disk
  count : Nat

/-- Do something to the disk, and count it if it gives a path. -/
def counting (action : Action (Option Path)) : EStateM Error Tally Unit := fun tally =>
  match action tally.disk with
  | .ok result disk =>
      .ok () { disk := disk, count := if result.isSome then tally.count + 1 else tally.count }
  | .error cause disk => .error cause { tally with disk := disk }

def splitVisitor (threshold : Threshold) : Visitor Tally :=
  { before := fun spot => do
      if isSplitDirectory (← get).disk spot.path then return .skip else return .enter
    file := fun spot => counting (splitFile threshold spot.path)
    after := fun _ => pure () }

def mergeVisitor : Visitor Tally :=
  { before := fun _ => pure .enter
    file := fun _ => pure ()
    after := fun spot => counting (mergeDirectory spot.path) }

/-- Walk through a directory with a visitor that counts. -/
def countingWalk (visitor : Visitor Tally) (directory : Path) : Action Nat := fun disk =>
  match walkTree visitor Tally.disk directory { disk := disk, count := 0 } with
  | .ok _ tally => .ok tally.count tally.disk
  | .error cause tally => .error cause tally.disk

/-- Split every file above the threshold below a directory, and count them. -/
def splitLargeFiles (threshold : Threshold) (directory : Path) : Action Nat :=
  countingWalk (splitVisitor threshold) directory

/-- Merge every directory of parts below a directory, and count them. -/
def mergeLargeFiles (directory : Path) : Action Nat :=
  countingWalk mergeVisitor directory

end CrossBuild.Artifacts
