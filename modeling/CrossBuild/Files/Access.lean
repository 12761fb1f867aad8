/-
Changing a disk through paths.

An operation either succeeds or is refused, and some leave a part of their work behind when they are
refused: the state after a refusal is therefore a result as well. Why the disk refuses does not
matter to anyone, so it gives no reason.
-/

import CrossBuild.Files.Disk

namespace CrossBuild.Files

/-- The disk does not do it. -/
inductive Refused where
  | refused
  deriving DecidableEq, Inhabited

/-- An operation on a disk. -/
abbrev Access (α : Type) := EStateM Refused Disk α

def refuse {α : Type} : Access α :=
  throw .refused

/-- A path without the slashes at its end. -/
def Path.withoutSlash (path : Path) : Path :=
  Path.ofSegments path.isAbsolute
    (path.segments.reverse.dropWhile fun segment => segment = "").reverse

/-- Make one directory where nothing stands. -/
def makeDirectory (path : Path) : Access Unit := do
  let disk ← get
  if !disk.admits path then refuse
  match disk.locate? path.withoutSlash with
  | none => refuse
  | some location =>
      match disk.entryAt? location with
      | some _ => refuse
      | none => set (disk.place location .directory)

/-- Make one directory, unless it is there already. -/
def ensureDirectory (path : Path) : Access Unit := do
  let disk ← get
  if disk.isDirectory path then pure () else makeDirectory path

/-- Make directories from the path to its ancestors, as far up as needed; those above are made
first. -/
def makeChain : List Path → Access Unit
  | [] => refuse
  | path :: above => do
      let disk ← get
      if path.text = "" || disk.isDirectory path then pure ()
      else if !disk.admits path then refuse
      else match (makeDirectory path).run disk with
        | .ok _ made => set made
        | .error _ _ => do
            makeChain above
            ensureDirectory path

/-- Make a directory and all directories above it that are missing. -/
def makeDirectories (path : Path) : Access Unit :=
  makeChain path.ancestors

/-- The path ends with a dot or two, so what it leads to is emptied first and cannot be taken away
through it. -/
def Path.endsInDots (path : Path) : Bool :=
  match (path.segments.filter fun segment => segment ≠ "").getLast? with
  | some segment => segment = "." || segment = ".."
  | none => false

/-- Take away a directory with all it holds. It is emptied first and then taken away through the
path; a path that no longer leads anywhere once the directory is empty leaves it there. -/
def removeTree (path : Path) : Access Unit := do
  let disk ← get
  match disk.locate? path with
  | none => refuse
  | some location =>
      if !disk.isDirectoryAt location then refuse
      else do
        let cleared := disk.clear location
        set cleared
        if (cleared.locate? path).isSome then
          if path.endsInDots || location.isEmpty then refuse
          else set (disk.erase location)

/-- Take away a file. -/
def removeFile (path : Path) : Access Unit := do
  let disk ← get
  if disk.isFile path then
    match disk.locate? path with
    | some location => set (disk.erase location)
    | none => refuse
  else refuse

/-- Store a file, in place of the one that is there. -/
def writeFile (path : Path) (content : ByteArray) : Access Unit := do
  let disk ← get
  match disk.locate? path with
  | none => refuse
  | some location =>
      if disk.isDirectoryAt location then refuse
      else set (disk.place location (.file content))

/-- Copy a file. The target is emptied first, so a file copied onto itself ends up empty. -/
def copyFile (source target : Path) : Access Unit := do
  let disk ← get
  match disk.read? source with
  | none => refuse
  | some content =>
      let same := disk.locate? source = disk.locate? target
      writeFile target (if same then .empty else content)

end CrossBuild.Files
