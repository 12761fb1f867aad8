/-
How a tree is kept with its large files in parts.

A tree is seen as a function from places to entries, and what is kept of it is another one. A place
belongs either to the tree itself or to the directory of parts of one of its files; the first name
on the way that is the name of such a directory decides.
-/

import CrossBuild.Proofs.Artifacts.Parts
import CrossBuild.Proofs.Files.Entries
import Mathlib.Data.List.TakeWhile

namespace CrossBuild.Artifacts

open Files

/-- No name on the way is that of a directory of parts. -/
def isPlain (place : Location) : Prop :=
  ∀ name ∈ place, mergedName? name = none

/-- What is kept of an entry in one piece. -/
def wholeEntryAt? (threshold : Threshold) : Option Entry → Option Entry
  | some (.file content) =>
      if content.size ≤ threshold.bytes then some (.file content) else none
  | other => other

/-- What is kept of an entry in a directory of parts. -/
def splitEntryAt? (threshold : Threshold) (name : String) (place : Location) :
    Option Entry → Option Entry
  | some (.file content) =>
      if content.size ≤ threshold.bytes then none else partEntryAt? threshold name content place
  | _ => none

/-- The name is not that of a directory of parts. -/
def isPlainName (name : String) : Bool :=
  (mergedName? name).isNone

/-- What is kept of a tree. -/
def stow (threshold : Threshold) (image : Location → Option Entry) (place : Location) :
    Option Entry :=
  match place.dropWhile isPlainName with
  | [] => wholeEntryAt? threshold (image place)
  | name :: rest =>
      let base := (mergedName? name).getD name
      splitEntryAt? threshold base rest (image (place.takeWhile isPlainName ++ [base]))

/-- The file to which a name in a directory belongs: its own, or the one whose parts it holds. -/
def ownerName (name : String) : String :=
  (mergedName? name).getD name

/-- What stands somewhere in a tree stands in directories. -/
def isTree (image : Location → Option Entry) : Prop :=
  ∀ place name, image (place ++ [name]) ≠ none → image place = some .directory

/-- Every large file has so few parts that all can be named. -/
def fitsParts (threshold : Threshold) (image : Location → Option Entry) : Prop :=
  ∀ place content, image place = some (.file content) → threshold.bytes < content.size →
    threshold.partCount content.size ≤ maxParts

/-- No name of the tree ends like that of a directory of parts. -/
def unsuffixed (image : Location → Option Entry) : Prop :=
  ∀ place, image place ≠ none → ∀ name ∈ place, Text.endsWith splitSuffix name = false

theorem unsuffixed.plain {image : Location → Option Entry} (free : unsuffixed image)
    (place : Location) (there : image place ≠ none) : isPlain place := fun name member =>
  mergedName?_of_endsWith (free place there name member)

theorem isTree_below_top (disk : Disk) (top : Location) :
    isTree fun place => disk.entryAt? (top ++ place) := by
  intro place name there
  obtain ⟨entry, found⟩ := Option.ne_none_iff_exists'.mp there
  have whole : disk.entryAt? (top ++ place ++ [name]) = some entry := by
    rw [List.append_assoc]
    exact found
  have parent := Disk.entryAt?_dropLast whole
  rw [List.dropLast_concat] at parent
  exact parent

/-- What stands below a name stands in the directory of that name. -/
theorem isTree.directory_of_cons {image : Location → Option Entry} (tree : isTree image)
    {name : String} {rest : Location} (strict : rest ≠ []) (there : image (name :: rest) ≠ none) :
    image [name] = some .directory := by
  induction rest using List.reverseRecOn with
  | nil => exact absurd rfl strict
  | append_singleton front last ih =>
      have parent := tree (name :: front) last there
      by_cases atTop : front = []
      · rw [atTop] at parent
        exact parent
      · exact ih atTop (by rw [parent]; simp)

theorem ownerName_of_plain {name : String} (plain : mergedName? name = none) :
    ownerName name = name := by
  unfold ownerName
  rw [plain, Option.getD_none]

theorem ownerName_append {base : String} (some : base ≠ "") :
    ownerName (base ++ splitSuffix) = base := by
  unfold ownerName
  rw [mergedName?_append_splitSuffix some, Option.getD_some]

theorem isPlain_nil : isPlain [] := fun _ absent => nomatch absent

theorem isPlain_append {front back : Location} :
    isPlain (front ++ back) ↔ isPlain front ∧ isPlain back := by
  unfold isPlain
  rw [List.forall_mem_append]

theorem isPlain_cons {name : String} {rest : Location} :
    isPlain (name :: rest) ↔ mergedName? name = none ∧ isPlain rest := by
  unfold isPlain
  rw [List.forall_mem_cons]

/-- No name of a plain place is that of a directory of parts. -/
theorem isPlain.notMem {place : Location} {base : String} (plain : isPlain place) (nonempty : base ≠ "") :
    base ++ splitSuffix ∉ place := by
  intro member
  have stands := plain _ member
  rw [mergedName?_append_splitSuffix nonempty] at stands
  cases stands

theorem unsuffixed.nothing_in_parts {image : Location → Option Entry} {front rest : Location}
    {base : String} (free : unsuffixed image) (nonempty : base ≠ "") :
    image (front ++ (base ++ splitSuffix) :: rest) = none := by
  by_contra there
  exact (free.plain _ there).notMem nonempty (by simp)

/-- Either no name is that of a directory of parts, or there is a first one. -/
theorem isPlain_or_split (place : Location) :
    isPlain place ∨ ∃ front base rest, place = front ++ (base ++ splitSuffix) :: rest ∧
      isPlain front ∧ base ≠ "" := by
  induction place with
  | nil => exact .inl isPlain_nil
  | cons name rest ih =>
      cases found : mergedName? name with
      | some base =>
          obtain ⟨rfl, some⟩ := mergedName?_eq_some_iff.mp found
          exact .inr ⟨[], base, rest, rfl, isPlain_nil, some⟩
      | none =>
          rcases ih with plain | ⟨front, base, later, rfl, plain, some⟩
          · exact .inl (isPlain_cons.mpr ⟨found, plain⟩)
          · exact .inr ⟨name :: front, base, later, rfl, isPlain_cons.mpr ⟨found, plain⟩, some⟩

section Stow

variable {threshold : Threshold} {image : Location → Option Entry}

private theorem forall_isPlainName_iff {place : Location} :
    (∀ name ∈ place, isPlainName name = true) ↔ isPlain place := by
  unfold isPlainName isPlain
  simp only [Option.isNone_iff_eq_none]

theorem stow_plain {place : Location} (plain : isPlain place) :
    stow threshold image place = wholeEntryAt? threshold (image place) := by
  have nothing : place.dropWhile isPlainName = [] :=
    List.dropWhile_eq_nil_iff.mpr (forall_isPlainName_iff.mpr plain)
  unfold stow
  rw [nothing]

theorem stow_split {front : Location} {base : String} (plain : isPlain front) (some : base ≠ "")
    (rest : Location) : stow threshold image (front ++ (base ++ splitSuffix) :: rest) =
      splitEntryAt? threshold base rest (image (front ++ [base])) := by
  have stands := mergedName?_append_splitSuffix some
  have noPlain : isPlainName (base ++ splitSuffix) = false := by
    unfold isPlainName
    rw [stands, Option.isNone_some]
  have front_ := forall_isPlainName_iff.mpr plain
  have after : (front ++ (base ++ splitSuffix) :: rest).dropWhile isPlainName =
      (base ++ splitSuffix) :: rest := by
    rw [List.dropWhile_append_of_pos front_, List.dropWhile_cons_of_neg (by simp [noPlain])]
  have before : (front ++ (base ++ splitSuffix) :: rest).takeWhile isPlainName = front := by
    rw [List.takeWhile_append_of_pos front_, List.takeWhile_cons_of_neg (by simp [noPlain]),
      List.append_nil]
  unfold stow
  rw [after, before]
  dsimp only
  rw [stands, Option.getD_some]

theorem stow_append {front : Location} (plain : isPlain front) (rest : Location) :
    stow threshold image (front ++ rest) = stow threshold (fun place => image (front ++ place)) rest := by
  rcases isPlain_or_split rest with fine | ⟨start, base, later, rfl, fine, some⟩
  · rw [stow_plain fine, stow_plain (isPlain_append.mpr ⟨plain, fine⟩)]
  · rw [stow_split fine some, ← List.append_assoc,
      stow_split (isPlain_append.mpr ⟨plain, fine⟩) some, List.append_assoc]

theorem stow_cons {name : String} (plain : mergedName? name = none) (rest : Location) :
    stow threshold image (name :: rest) = stow threshold (fun place => image (name :: place)) rest :=
  stow_append (isPlain_cons.mpr ⟨plain, isPlain_nil⟩) rest

theorem stow_name {name : String} (plain : mergedName? name = none) :
    stow threshold image [name] = wholeEntryAt? threshold (image [name]) :=
  stow_plain (isPlain_cons.mpr ⟨plain, isPlain_nil⟩)

theorem stow_box {base : String} (some : base ≠ "") (rest : Location) :
    stow threshold image ((base ++ splitSuffix) :: rest) =
      splitEntryAt? threshold base rest (image [base]) :=
  stow_split isPlain_nil some rest

theorem wholeEntryAt?_none : wholeEntryAt? threshold none = none := rfl

theorem wholeEntryAt?_eq_file {entry : Option Entry} {content : ByteArray}
    (kept : wholeEntryAt? threshold entry = some (.file content)) : entry = some (.file content) := by
  unfold wholeEntryAt? at kept
  split at kept
  · split at kept
    · exact kept
    · cases kept
  · exact kept

theorem wholeEntryAt?_eq_directory {entry : Option Entry}
    (kept : wholeEntryAt? threshold entry = some .directory) : entry = some .directory := by
  unfold wholeEntryAt? at kept
  split at kept
  · split at kept <;> cases kept
  · exact kept

theorem splitEntryAt?_eq_some {entry : Option Entry} {name : String} {place : Location}
    {found : Entry} (kept : splitEntryAt? threshold name place entry = some found) :
    ∃ content, entry = some (.file content) ∧ threshold.bytes < content.size ∧
      partEntryAt? threshold name content place = some found := by
  unfold splitEntryAt? at kept
  split at kept
  · rename_i content
    split at kept
    · cases kept
    · rename_i large
      exact ⟨content, rfl, Nat.not_le.mp large, kept⟩
  · cases kept

theorem stow_congr {other : Location → Option Entry} {place : Location}
    (same : isPlain place → image place = other place)
    (files : ∀ front base rest, place = front ++ (base ++ splitSuffix) :: rest → isPlain front →
      splitEntryAt? threshold base rest (image (front ++ [base])) =
        splitEntryAt? threshold base rest (other (front ++ [base]))) :
    stow threshold image place = stow threshold other place := by
  rcases isPlain_or_split place with plain | ⟨front, base, rest, rfl, plain, some⟩
  · rw [stow_plain plain, stow_plain plain, same plain]
  · rw [stow_split plain some, stow_split plain some, files front base rest rfl plain]

/-- Of a part of a tree nothing else is kept than of the tree. -/
theorem stow_of_part {part : Location → Option Entry}
    (within : ∀ place, part place = none ∨ part place = image place) (place : Location) :
    stow threshold part place = none ∨ stow threshold part place = stow threshold image place := by
  rcases isPlain_or_split place with plain | ⟨front, base, rest, rfl, plain, some⟩
  · rw [stow_plain plain, stow_plain plain]
    rcases within place with absent | same
    · rw [absent]
      exact .inl rfl
    · exact .inr (by rw [same])
  · rw [stow_split plain some, stow_split plain some]
    rcases within (front ++ [base]) with absent | same
    · rw [absent]
      exact .inl rfl
    · exact .inr (by rw [same])

/-- Below a name that is no directory of the tree nothing is kept, its own directory of parts
apart. -/
theorem stow_below (tree : isTree image) {name : String} (plainName : mergedName? name = none)
    (noDirectory : image [name] ≠ some .directory) (rest : Location) (strict : rest ≠ []) :
    stow threshold image (name :: rest) = none := by
  have nothing : ∀ place, place ≠ [] → image (name :: place) = none := fun place below => by
    by_contra there
    exact noDirectory (tree.directory_of_cons below there)
  rcases isPlain_or_split rest with plain | ⟨front, base, later, rfl, plain, some⟩
  · rw [stow_plain (isPlain_cons.mpr ⟨plainName, plain⟩), nothing rest strict]
    rfl
  · have whole : name :: (front ++ (base ++ splitSuffix) :: later) =
        (name :: front) ++ (base ++ splitSuffix) :: later := rfl
    rw [whole, stow_split (isPlain_cons.mpr ⟨plainName, plain⟩) some]
    rw [List.cons_append, nothing _ (by simp)]
    rfl

/-- A tree of small files is kept as it is. -/
theorem stow_of_small (free : unsuffixed image) (small : ∀ place content,
    image place = some (.file content) → content.size ≤ threshold.bytes) (place : Location) :
    stow threshold image place = image place := by
  rcases isPlain_or_split place with plain | ⟨front, base, rest, rfl, plain, some⟩
  · rw [stow_plain plain]
    unfold wholeEntryAt?
    split
    · rename_i content found
      rw [if_pos (small place content found), found]
    · rfl
  · have absent : image (front ++ (base ++ splitSuffix) :: rest) = none := by
      by_contra there
      have suffixed := free _ there _ (List.mem_append_right _ List.mem_cons_self)
      rw [endsWith_append] at suffixed
      cases suffixed
    rw [stow_split plain some, absent]
    unfold splitEntryAt?
    split
    · rename_i content found
      rw [if_pos (small _ content found)]
    · rfl

end Stow

/-! ### Putting together -/

/-- The content of what stands somewhere, if that is a file. -/
def contentOf? : Option Entry → Option ByteArray
  | some (.file content) => some content
  | _ => none

theorem contentOf?_eq_some_iff {entry : Option Entry} {content : ByteArray} :
    contentOf? entry = some content ↔ entry = some (.file content) := by
  constructor
  · intro found
    unfold contentOf? at found
    split at found
    · rw [Option.some.injEq] at found
      rw [found]
    · cases found
  · rintro rfl
    rfl

/-- The parts that stand in a directory, in order. -/
def partsIn (held : Location → Option Entry) (box : Location) : List ByteArray :=
  (List.range maxParts).filterMap fun index => contentOf? (held (box ++ [partName index]))

/-- A tree with every directory of parts replaced by the file that its parts make up. -/
def reassembled (held : Location → Option Entry) (place : Location) : Option Entry :=
  if place.all isPlainName then
    match place.getLast? with
    | some name =>
        let box := place.dropLast ++ [name ++ splitSuffix]
        if held box = some .directory then some (.file (joinParts (partsIn held box)))
        else held place
    | none => held place
  else none

private theorem filterMap_range_getElem? {α : Type} (items : List α) (count : Nat) :
    (List.range count).filterMap (fun index => items[index]?) = items.take count := by
  induction count with
  | zero => rfl
  | succ count ih =>
      rw [List.range_succ, List.filterMap_append, ih, List.take_add_one]
      cases found : items[count]? <;> simp [found]

section Reassembled

variable {threshold : Threshold} {image : Location → Option Entry} {front : Location} {name : String}
  {content : ByteArray}

private theorem partsIn_stow (plain : isPlain front) (nonempty : name ≠ "")
    (file : image (front ++ [name]) = some (.file content)) (large : threshold.bytes < content.size)
    (fits : threshold.partCount content.size ≤ maxParts) :
    partsIn (stow threshold image) (front ++ [name ++ splitSuffix]) = threshold.parts content := by
  rw [← Threshold.length_parts] at fits
  have kept : ∀ index ∈ List.range maxParts,
      contentOf? (stow threshold image (front ++ [name ++ splitSuffix] ++ [partName index])) =
        (threshold.parts content)[index]? := by
    intro index member
    have bound := List.mem_range.mp member
    rw [List.append_assoc, List.singleton_append, stow_split plain nonempty, file, splitEntryAt?,
      if_neg (Nat.not_le.mpr large)]
    by_cases within : index < (threshold.parts content).length
    · rw [partEntryAt?_part fits within, List.getElem?_eq_getElem within]
      rfl
    · rw [partEntryAt?_other (partName_ne_scriptName bound), List.getElem?_eq_none (Nat.not_lt.mp within)]
      · rfl
      · intro other before same
        have equal := partName_inj (by omega) bound same
        omega
  unfold partsIn
  rw [List.filterMap_congr kept, filterMap_range_getElem?, List.take_of_length_le fits]

/-- What is kept of a tree makes up the tree. -/
theorem reassembled_stow (top : image [] = some .directory)
    (named : ∀ place, image place ≠ none → place.all isEntryName = true) (free : unsuffixed image)
    (fits : fitsParts threshold image) (place : Location) : reassembled (stow threshold image) place = image place := by
  by_cases fine : isPlain place
  · have all : place.all isPlainName = true :=
      List.all_eq_true.mpr (forall_isPlainName_iff.mpr fine)
    unfold reassembled
    rw [if_pos all]
    cases place using List.reverseRecOn with
    | nil =>
        change stow threshold image [] = _
        rw [stow_plain isPlain_nil, top]
        rfl
    | append_singleton front name =>
        rw [List.getLast?_concat]
        dsimp only
        rw [List.dropLast_concat]
        by_cases large : ∃ content, image (front ++ [name]) = some (.file content) ∧
            threshold.bytes < content.size
        · obtain ⟨content, file, large⟩ := large
          have nonempty : name ≠ "" := by
            have valid := named (front ++ [name]) (by rw [file]; simp)
            exact (isEntryName_iff.mp (all_isEntryName_concat.mp valid).2).1
          have box : stow threshold image (front ++ [name ++ splitSuffix]) = some .directory := by
            rw [stow_split (isPlain_append.mp fine).1 nonempty, file, splitEntryAt?,
              if_neg (Nat.not_le.mpr large), partEntryAt?]
          rw [if_pos box, partsIn_stow (isPlain_append.mp fine).1 nonempty file large
            (fits _ content file large), Threshold.joinParts_parts, file]
        · have noBox : stow threshold image (front ++ [name ++ splitSuffix]) ≠ some .directory := by
            intro box
            by_cases nonempty : name = ""
            · rw [nonempty, String.empty_append] at box
              have whole : isPlain (front ++ [splitSuffix]) :=
                isPlain_append.mpr ⟨(isPlain_append.mp fine).1, isPlain_cons.mpr ⟨by decide, isPlain_nil⟩⟩
              rw [stow_plain whole] at box
              have there : image (front ++ [splitSuffix]) ≠ none := by
                intro absent
                rw [absent] at box
                cases box
              have suffixed := free _ there splitSuffix (List.mem_append_right _ List.mem_cons_self)
              have own := endsWith_append splitSuffix ""
              rw [String.empty_append, suffixed] at own
              cases own
            · rw [stow_split (isPlain_append.mp fine).1 nonempty] at box
              obtain ⟨content, file, size, -⟩ := splitEntryAt?_eq_some box
              exact large ⟨content, file, size⟩
          rw [if_neg noBox, stow_plain fine]
          unfold wholeEntryAt?
          split
          · rename_i content file
            rw [if_pos (Nat.not_lt.mp fun size => large ⟨content, file, size⟩), file]
          · rfl
  · have absent : image place = none := by
      by_contra there
      exact fine (free.plain place there)
    unfold reassembled
    rw [if_neg, absent]
    rw [List.all_eq_true]
    exact fun all => fine (forall_isPlainName_iff.mp all)

end Reassembled

end CrossBuild.Artifacts
