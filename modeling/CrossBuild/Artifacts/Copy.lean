/-
Copying directory trees.

What a directory holds is copied into another one, which may hold things of its own; files that are
there already are replaced. On the way large files can be split or put together again, directory by
directory.
-/

import CrossBuild.Artifacts.Chunk
import CrossBuild.Artifacts.Walk

namespace CrossBuild.Artifacts

open Files (Path Disk)

/-- What happens to large files: nothing, splitting those above a threshold once their directory is
copied, or merging directories of parts once they are copied. -/
inductive LargeFiles where
  | keep
  | split (threshold : Threshold)
  | merge

/-- Copy one file, in place of the one that is there. -/
def replaceFile (source target : Path) : Action Unit := do
  let disk ← get
  if disk.isThere target then attempt .removeFile target (Files.removeFile target)
  attempt .copyFile target (Files.copyFile source target)

/-- Split the files that stand directly in a directory. -/
def splitChildren (threshold : Threshold) (directory : Path) : Action Unit := do
  match (← get).list? directory with
  | none => throw (.refused .readDirectory directory)
  | some names =>
      names.forM fun name => do
        let path := directory.joinName name
        if (← get).isFile path then discard (splitFile threshold path)

/-- What is left to do when a directory is copied. -/
def finishDirectory (largeFiles : LargeFiles) (source target : Path) : Action Unit := do
  match largeFiles with
  | .keep => pure ()
  | .merge => if isSplitDirectory (← get) source then discard (mergeDirectory target)
  | .split threshold => splitChildren threshold target

def copyVisitor (target : Path) (largeFiles : LargeFiles) : Visitor Disk :=
  { before := fun spot => do
      let directory := spot.below target
      attempt .makeDirectories directory (Files.makeDirectories directory)
      return .enter
    file := fun spot => replaceFile spot.path (spot.below target)
    after := fun spot => finishDirectory largeFiles spot.path (spot.below target) }

/-- Copy what a directory holds into another one. -/
def copyTree (source target : Path) (largeFiles : LargeFiles) : Action Unit :=
  walkTree (copyVisitor target largeFiles) id source

end CrossBuild.Artifacts
