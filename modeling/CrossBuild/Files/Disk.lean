/-
Disks: files and directories at locations.

A location is the list of names from the root down, and a disk says what stands at each. The
directory of every entry is there, so nothing hangs in the air, and every entry has a name that a
path can spell; the type carries both, and the three operations that change a disk keep them. There
are no links, no access rights and no times. How a path leads to a location is decided here, what a
program does with it is not.
-/

import CrossBuild.Files.Path

namespace CrossBuild.Files

abbrev Location := List String

inductive Entry where
  | directory
  | file (content : ByteArray)
  deriving Inhabited

/-- Files are equal when their bytes are. -/
instance : DecidableEq Entry
  | .directory, .directory => isTrue rfl
  | .directory, .file _ => isFalse nofun
  | .file _, .directory => isFalse nofun
  | .file ⟨left⟩, .file ⟨right⟩ =>
      if same : left = right then isTrue (by rw [same])
      else isFalse fun equal => same (by injection equal with bytes; injection bytes)

/-- How long names and paths may be, counted in bytes. -/
structure Limits where
  nameBytes : Nat
  pathBytes : Nat
  deriving DecidableEq

/-- What a list of entries says of a location; the root is always a directory. -/
def entryIn? (entries : List (Location × Entry)) (location : Location) : Option Entry :=
  if location = [] then some .directory else entries.lookup location

structure Disk where
  entries : List (Location × Entry)
  workingDirectory : Location
  limits : Option Limits
  keysDistinct : (entries.map Prod.fst).Nodup
  parentsThere : ∀ item ∈ entries, entryIn? entries item.1.dropLast = some .directory
  namesValid : ∀ item ∈ entries, item.1.all isEntryName = true

theorem lookup_filter {entries : List (Location × Entry)} {keep : Location → Bool}
    {location : Location} (kept : keep location = true) :
    (entries.filter fun item => keep item.1).lookup location = entries.lookup location := by
  induction entries with
  | nil => rfl
  | cons item rest ih =>
      obtain ⟨place, entry⟩ := item
      by_cases same : location = place
      · subst same
        simp only [List.filter_cons, kept, if_true, List.lookup_cons_self]
      · have different : (location == place) = false := by simpa using same
        cases keepsItem : keep place with
        | true => simp only [List.filter_cons, keepsItem, if_true, List.lookup_cons, different, ih]
        | false =>
            simp only [List.filter_cons, keepsItem, Bool.false_eq_true, if_false,
              List.lookup_cons, different, ih]

theorem entryIn?_filter {entries : List (Location × Entry)} {keep : Location → Bool}
    {location : Location} (kept : keep location = true) :
    entryIn? (entries.filter fun item => keep item.1) location = entryIn? entries location := by
  unfold entryIn?
  rw [lookup_filter kept]

namespace Disk

/-- The disk with nothing on it. -/
def empty (limits : Option Limits) : Disk :=
  { entries := []
    workingDirectory := []
    limits := limits
    keysDistinct := List.nodup_nil
    parentsThere := fun _ absent => nomatch absent
    namesValid := fun _ absent => nomatch absent }

instance : Inhabited Disk := ⟨empty none⟩

/-- What stands at a location. -/
def entryAt? (disk : Disk) (location : Location) : Option Entry :=
  entryIn? disk.entries location

def isDirectoryAt (disk : Disk) (location : Location) : Bool :=
  disk.entryAt? location = some .directory

/-- An entry may stand at a location when its directory is there, its names can be names, and no
directory with all it holds would turn into a file. -/
def hasRoom (disk : Disk) (location : Location) (entry : Entry) : Prop :=
  disk.entryAt? location.dropLast = some .directory ∧ location.all isEntryName = true ∧
    (disk.entryAt? location = some .directory → entry = .directory)

instance (disk : Disk) (location : Location) (entry : Entry) :
    Decidable (disk.hasRoom location entry) :=
  inferInstanceAs (Decidable (_ ∧ _ ∧ _))

/-- Let an entry stand at a location, in place of what is there; without room nothing changes. -/
def place (disk : Disk) (location : Location) (entry : Entry) : Disk :=
  if room : disk.hasRoom location entry then
    { disk with
      entries := (location, entry) :: disk.entries.filter fun item => item.1 ≠ location
      keysDistinct := by
        have others : ((disk.entries.filter fun item => item.1 ≠ location).map Prod.fst).Nodup :=
          List.Nodup.sublist (List.Sublist.map _ List.filter_sublist) disk.keysDistinct
        refine List.nodup_cons.mpr ⟨?_, others⟩
        intro present
        obtain ⟨item, member, same⟩ := List.mem_map.mp present
        simpa [same] using (List.mem_filter.mp member).2
      parentsThere := by
        have found : ∀ parent : Location, disk.entryAt? parent = some .directory →
            entryIn? ((location, entry) :: disk.entries.filter fun item => item.1 ≠ location)
              parent = some .directory := by
          intro parent there
          by_cases isRoot : parent = []
          · simp [entryIn?, isRoot]
          · by_cases same : parent = location
            · have kept := room.2.2 (same ▸ there)
              subst same
              simp [entryIn?, isRoot, List.lookup_cons_self, kept]
            · have different : (parent == location) = false := by simpa using same
              have stays : decide (parent ≠ location) = true := by simpa using same
              have filtered :=
                @entryIn?_filter disk.entries (fun other => decide (other ≠ location)) parent stays
              unfold entryAt? at there
              unfold entryIn? at filtered there ⊢
              simp only [isRoot, if_false] at filtered there ⊢
              simp only [List.lookup_cons, different]
              rw [filtered]
              exact there
        intro item member
        rcases List.mem_cons.mp member with same | old
        · subst same
          exact found _ room.1
        · exact found _ (disk.parentsThere item (List.mem_filter.mp old).1)
      namesValid := by
        intro item member
        rcases List.mem_cons.mp member with same | old
        · subst same
          exact room.2.1
        · exact disk.namesValid item (List.mem_filter.mp old).1 }
  else disk

/-- Take away the entries that do not stay. What stays keeps its directory. -/
def keepOnly (disk : Disk) (stays : Location → Bool)
    (closed : ∀ location, stays location = true → stays location.dropLast = true) : Disk :=
  { disk with
    entries := disk.entries.filter fun item => stays item.1
    keysDistinct :=
      List.Nodup.sublist (List.Sublist.map _ List.filter_sublist) disk.keysDistinct
    parentsThere := by
      intro item member
      obtain ⟨old, kept⟩ := List.mem_filter.mp member
      rw [entryIn?_filter (closed item.1 kept)]
      exact disk.parentsThere item old
    namesValid := fun item member => disk.namesValid item (List.mem_filter.mp member).1 }

theorem isPrefixOf_of_dropLast {top location : Location}
    (above : top.isPrefixOf location.dropLast = true) : top.isPrefixOf location = true := by
  have found := List.isPrefixOf_iff_prefix.mp above
  exact List.isPrefixOf_iff_prefix.mpr (found.trans (List.dropLast_prefix location))

/-- Take away what stands at a location and below it. -/
def erase (disk : Disk) (top : Location) : Disk :=
  disk.keepOnly (fun location => !top.isPrefixOf location) (by
    intro location stays
    cases above : top.isPrefixOf location.dropLast with
    | false => rfl
    | true => simp [isPrefixOf_of_dropLast above] at stays)

/-- A location lies below another. -/
def isBelow (top location : Location) : Bool :=
  top.isPrefixOf location && location ≠ top

/-- Take away what stands below a location. -/
def clear (disk : Disk) (top : Location) : Disk :=
  disk.keepOnly (fun location => !isBelow top location) (by
    intro location stays
    cases above : isBelow top location.dropLast with
    | false => rfl
    | true =>
        exfalso
        have parts : top.isPrefixOf location.dropLast = true ∧ location.dropLast ≠ top := by
          simpa [isBelow] using above
        have within := isPrefixOf_of_dropLast parts.1
        have shorter : location ≠ top := by
          intro same
          have lengths := (List.isPrefixOf_iff_prefix.mp parts.1).length_le
          subst same
          cases location with
          | nil => exact parts.2 rfl
          | cons first others =>
              rw [List.length_dropLast] at lengths
              simp only [List.length_cons] at lengths
              omega
        simp [isBelow, within, shorter] at stays)

/-- Insert a name into a list in byte order. -/
def insertName (name : String) : List String → List String
  | [] => [name]
  | first :: rest =>
      if name ≤ first then name :: first :: rest else first :: insertName name rest

/-- The names of what stands directly in a directory, in byte order. -/
def childNames (disk : Disk) (top : Location) : List String :=
  (disk.entries.filterMap fun item =>
    if item.1.dropLast = top then item.1.getLast? else none).foldr insertName []

/-- No location is longer than this. -/
def height (disk : Disk) : Nat :=
  disk.entries.foldl (fun height item => max height item.1.length) 0

/-- A name that fits the limits. -/
def admitsName (disk : Disk) (name : String) : Bool :=
  match disk.limits with
  | some limits => name.utf8ByteSize ≤ limits.nameBytes
  | none => true

/-- A path that can be followed at all. -/
def admits (disk : Disk) (path : Path) : Bool :=
  path.text ≠ "" && !path.text.toList.contains '\x00' &&
    match disk.limits with
    | some limits => path.text.utf8ByteSize ≤ limits.pathBytes
    | none => true

/-- Follow segments down from a location. Each step starts at a directory, so a slash or a dot at
the end of a path asks for one. -/
def follow? (disk : Disk) (start : Location) : List String → Option Location
  | [] => some start
  | segment :: rest =>
      if !disk.isDirectoryAt start then none
      else if segment = "" || segment = "." then disk.follow? start rest
      else if segment = ".." then disk.follow? start.dropLast rest
      else if disk.admitsName segment then disk.follow? (start ++ [segment]) rest
      else none

/-- Where a path leads; something may stand there or nothing, but its directory is there. -/
def locate? (disk : Disk) (path : Path) : Option Location :=
  if disk.admits path then
    disk.follow? (if path.isAbsolute then [] else disk.workingDirectory) path.segments
  else none

/-- What a path leads to. -/
def find? (disk : Disk) (path : Path) : Option Entry :=
  (disk.locate? path).bind disk.entryAt?

def isThere (disk : Disk) (path : Path) : Bool :=
  (disk.find? path).isSome

def isDirectory (disk : Disk) (path : Path) : Bool :=
  disk.find? path = some .directory

/-- The content of a file. -/
def read? (disk : Disk) (path : Path) : Option ByteArray :=
  match disk.find? path with
  | some (.file content) => some content
  | _ => none

def isFile (disk : Disk) (path : Path) : Bool :=
  (disk.read? path).isSome

/-- The content of a file as text. -/
def readText? (disk : Disk) (path : Path) : Option String :=
  (disk.read? path).bind String.fromUTF8?

/-- The names of what stands in a directory, in byte order. -/
def list? (disk : Disk) (path : Path) : Option (List String) :=
  match disk.locate? path with
  | some location =>
      if disk.isDirectoryAt location then some (disk.childNames location) else none
  | none => none

/-- The working directory as a path. -/
def workingPath (disk : Disk) : Path :=
  Path.ofSegments true disk.workingDirectory

end Disk

end CrossBuild.Files
