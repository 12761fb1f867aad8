/-
Large files in parts.

A file above a threshold becomes a directory next to it, whose name is that of the file with a
suffix. The directory holds the parts in order and a script that joins them. Merging joins the parts
and takes the directory away; it refuses to start when a part is missing between others. Both leave
everything else alone.
-/

import CrossBuild.Artifacts.Error

namespace CrossBuild.Artifacts

open Files (Path Entry)

/-- What the name of a directory of parts ends with. -/
def splitSuffix : String := ".split.file.dir"

def scriptName : String := "reassemble.sh"

/-- The size that a directory reports. -/
def directorySize : Nat := 4096

def entrySize : Entry → Nat
  | .directory => directorySize
  | .file content => content.size

/-- The largest size of a file left whole, and of a part. -/
structure Threshold where
  bytes : Nat
  positive : 0 < bytes

namespace Threshold

/-- Nothing can be cut into parts of no bytes, so zero counts as one. -/
def ofBytes (bytes : Nat) : Threshold :=
  { bytes := max bytes 1
    positive := by omega }

/-- Forty-nine mebibytes. -/
def default : Threshold :=
  ofBytes (49 * 1024 * 1024)

instance : Inhabited Threshold := ⟨default⟩

def partCount (threshold : Threshold) (size : Nat) : Nat :=
  (size + threshold.bytes - 1) / threshold.bytes

/-- The parts of a content in order. -/
def parts (threshold : Threshold) (content : ByteArray) : List ByteArray :=
  (List.range (threshold.partCount content.size)).map fun index =>
    content.extract (index * threshold.bytes) ((index + 1) * threshold.bytes)

end Threshold

/-- The content that parts in order make up. -/
def joinParts (parts : List ByteArray) : ByteArray :=
  parts.foldl (fun joined part => joined ++ part) .empty

def partName (index : Nat) : String :=
  "xx." ++ twoDigits index

/-- The directory for the parts of a file. -/
def splitDirectory (file : Path) : Path :=
  file.withFileName (file.fileName?.getD "" ++ splitSuffix)

/-- The name of the file that a directory of parts stands for. -/
def mergedName? (name : String) : Option String :=
  (Text.dropEnding? splitSuffix name).filter fun base => base ≠ ""

/-- The file that a directory of parts stands for. -/
def mergedPath? (directory : Path) : Option Path :=
  (directory.fileName?.bind mergedName?).map directory.withFileName

/-- The path leads to a directory with the name of a directory of parts. -/
def isSplitDirectory (disk : Files.Disk) (path : Path) : Bool :=
  disk.isDirectory path && (path.fileName?.bind mergedName?).isSome

/-- The script that joins the parts of a file. -/
def reassembleScript (name : String) : String :=
  "#!/bin/sh\n" ++
  "# " ++ name ++ " was split because of its size. Run this script to reassemble it.\n" ++
  "WORKING_DIR=$(dirname \"$0\")\n" ++
  "cat \"$\x7bWORKING_DIR\x7d\"/xx.?? > \"$\x7bWORKING_DIR\x7d/../" ++ name ++ "\"\n" ++
  "echo \"Reassembled $\x7bWORKING_DIR\x7d/../" ++ name ++ "\"\n"

/-- Write the parts into a directory, counted from an index. -/
def writeParts (directory : Path) (index : Nat) : List ByteArray → Action Unit
  | [] => pure ()
  | part :: rest => do
      let path := directory.joinName (partName index)
      attempt .createFile path (Files.writeFile path part)
      writeParts directory (index + 1) rest

/-- Store the parts of what a path leads to. Only files have content that can be read. -/
def storeParts (threshold : Threshold) (file directory : Path) : Action Unit := do
  let disk ← get
  match disk.find? file with
  | some (.file content) => writeParts directory 0 (threshold.parts content)
  | some .directory => do
      let path := directory.joinName (partName 0)
      attempt .createFile path (Files.writeFile path .empty)
      throw (.refused .writeFile path)
  | none => throw (.refused .openFile file)

/-- Take away what stands at a path, if anything does. -/
def removeExisting (path : Path) : Action Unit := do
  let disk ← get
  if disk.isThere path then attempt .removeTree path (Files.removeTree path) else pure ()

/-- Replace a file above the threshold by a directory of parts, and give its path. A directory of
parts that is there already is replaced. -/
def splitFile (threshold : Threshold) (file : Path) : Action (Option Path) := do
  let disk ← get
  match disk.find? file with
  | none => throw (.refused .readSize file)
  | some entry =>
      let size := entrySize entry
      let count := threshold.partCount size
      if size ≤ threshold.bytes then return none
      else if maxParts < count then throw (.capacity file size count)
      else do
        let directory := splitDirectory file
        let script := directory.joinName scriptName
        removeExisting directory
        attempt .makeDirectories directory (Files.makeDirectories directory)
        attempt .writeFile script
          (Files.writeFile script (reassembleScript (file.fileName?.getD "")).toUTF8)
        storeParts threshold file directory
        attempt .removeFile file (Files.removeFile file)
        return some directory

/-- The first index whose part is missing and the first one after it whose part is there. -/
def gapIn? (present : List Bool) : Option (Nat × Nat) :=
  let count := (present.takeWhile fun there => there).length
  match (present.drop count).findIdx? fun there => there with
  | some offset => some (count, count + offset)
  | none => none

/-- Which of the parts that can be named are there. -/
def presentParts (disk : Files.Disk) (directory : Path) : List Bool :=
  (List.range maxParts).map fun index => disk.isFile (directory.joinName (partName index))

/-- The contents of the first parts of a directory. -/
def partContents (disk : Files.Disk) (directory : Path) (count : Nat) : List ByteArray :=
  (List.range count).filterMap fun index => disk.read? (directory.joinName (partName index))

/-- Replace a directory of parts by its file, and give the path of the file; any other path is left
alone. -/
def mergeDirectory (directory : Path) : Action (Option Path) := do
  let disk ← get
  if !isSplitDirectory disk directory then return none
  else match mergedPath? directory with
    | none => return none
    | some target =>
        let present := presentParts disk directory
        match gapIn? present with
        | some (missing, found) => throw (.missingPart directory missing found)
        | none => do
            let count := (present.takeWhile fun there => there).length
            let content := joinParts (partContents disk directory count)
            attempt .createFile target (Files.writeFile target content)
            attempt .removeTree directory (Files.removeTree directory)
            return some target

end CrossBuild.Artifacts
