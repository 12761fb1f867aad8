/-
Paths as texts.

A path is kept as it was written: joining paths never tidies them. What a path consists of is a
matter of its components, for which repeated slashes and dots between them do not count. Where a
path leads is decided elsewhere, with a disk at hand.
-/

import CrossBuild.Text.Split

namespace CrossBuild.Files

/-- What can be the name of a file or of a directory. -/
def isEntryName (name : String) : Bool :=
  name ≠ "" && name ≠ "." && name ≠ ".." &&
    name.toList.all fun char => char ≠ '/' && char ≠ '\x00'

structure Path where
  text : String
  deriving DecidableEq, Inhabited

namespace Path

/-- Components. A dot counts only at the start of a relative path. -/
inductive Component where
  | root
  | current
  | parent
  | name (text : String)
  deriving DecidableEq

def isAbsolute (path : Path) : Bool :=
  path.text.toList.head? = some '/'

/-- What stands between slashes, without the empty piece before the first slash of an absolute
path. -/
def segments (path : Path) : List String :=
  let pieces := Text.split '/' path.text
  if path.isAbsolute then pieces.tail else pieces

/-- The path of given segments. -/
def ofSegments (absolute : Bool) (segments : List String) : Path :=
  ⟨(if absolute then "/" else "") ++ "/".intercalate segments⟩

/-- Leave out empty segments and dots at the end. A dot that stands alone stays, unless it follows
something. -/
def trimEnd (follows : Bool) : List String → List String
  | [] => []
  | segment :: rest =>
      match trimEnd true rest with
      | [] => if segment = "" || (segment = "." && follows) then [] else [segment]
      | kept => segment :: kept

/-- The segments without those at the end that are no components. -/
def trimmed (path : Path) : List String :=
  trimEnd path.isAbsolute path.segments

def componentOf? (segment : String) : Option Component :=
  if segment = "" || segment = "." then none
  else if segment = ".." then some .parent
  else some (.name segment)

def components (path : Path) : List Component :=
  if path.isAbsolute then .root :: path.segments.filterMap componentOf?
  else match path.segments with
    | "." :: rest => .current :: rest.filterMap componentOf?
    | segments => segments.filterMap componentOf?

/-- The path without its last component, if it has one. -/
def parent? (path : Path) : Option Path :=
  match path.trimmed with
  | [] => none
  | kept => some (ofSegments path.isAbsolute (trimEnd path.isAbsolute kept.dropLast))

/-- The last component, if it is a name. -/
def fileName? (path : Path) : Option String :=
  path.trimmed.getLast?.filter fun segment => segment ≠ "." && segment ≠ ".."

/-- Put a path behind another. An absolute one stands alone, and an empty one leaves a slash. -/
def join (path other : Path) : Path :=
  if other.isAbsolute then other
  else if path.text.toList.getLast?.all fun char => char = '/' then ⟨path.text ++ other.text⟩
  else ⟨path.text ++ "/" ++ other.text⟩

def joinName (path : Path) (name : String) : Path :=
  path.join ⟨name⟩

/-- Put names behind a path, with slashes between them. -/
def joinNames (path : Path) (names : List String) : Path :=
  path.join (ofSegments false names)

/-- Replace the last component if it is a name, else add one. -/
def withFileName (path : Path) (name : String) : Path :=
  let base := if path.fileName?.isSome then path.parent?.getD path else path
  base.joinName name

/-- The path itself and those of which it consists, up to the first. The fuel is at least the number
of components. -/
def ancestorsWithin : Nat → Path → List Path
  | 0, path => [path]
  | fuel + 1, path =>
      match path.parent? with
      | some parent => path :: ancestorsWithin fuel parent
      | none => [path]

def ancestors (path : Path) : List Path :=
  ancestorsWithin path.segments.length path

/-- What an absolute path starts with: a slash, or two of them when it is written with exactly two. -/
def rootOf (path : Path) : Path :=
  if path.text.startsWith "//" && !path.text.startsWith "///" then ⟨"//"⟩ else ⟨"/"⟩

/-- The path seen from a directory, without dots and repeated slashes; a slash at its end stays. -/
def absoluteFrom (directory path : Path) : Path :=
  let names := path.segments.filter fun segment => segment ≠ "" && segment ≠ "."
  let start := if path.isAbsolute then path.rootOf else directory
  let full := names.foldl joinName start
  if path.text.toList.getLast? = some '/' then full.join ⟨""⟩ else full

end Path

end CrossBuild.Files
