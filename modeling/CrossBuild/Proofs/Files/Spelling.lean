/-
How paths are spelled.

A path is a text, and what it consists of are the pieces of that text. The statements here say what
joining and the last name of a path are in terms of its pieces: joining puts the pieces of both
behind each other, and the last name is the last piece that counts. No disk is involved.
-/

import CrossBuild.Files.Path
import Mathlib.Data.List.Induction

namespace CrossBuild.Text

theorem splitChars_ne_nil (separator : Char) (chars : List Char) :
    splitChars separator chars ≠ [] := by
  cases chars with
  | nil => simp [splitChars]
  | cons char rest =>
      unfold splitChars
      split
      · simp
      · split <;> simp

theorem splitChars_append (separator : Char) (left right : List Char) :
    splitChars separator (left ++ separator :: right) =
      splitChars separator left ++ splitChars separator right := by
  induction left with
  | nil => simp [splitChars]
  | cons char rest ih =>
      by_cases same : char = separator
      · simp [splitChars, same, ih]
      · have nonempty := splitChars_ne_nil separator rest
        simp only [List.cons_append, splitChars, if_neg same, ih]
        cases found : splitChars separator rest with
        | nil => exact absurd found nonempty
        | cons piece pieces => rfl

theorem splitChars_of_not_mem {separator : Char} {chars : List Char}
    (absent : separator ∉ chars) : splitChars separator chars = [chars] := by
  induction chars with
  | nil => rfl
  | cons char rest ih =>
      rw [List.mem_cons, not_or] at absent
      have different : char ≠ separator := fun same => absent.1 same.symm
      simp only [splitChars, if_neg different, ih absent.2]

theorem not_mem_of_mem_splitChars {separator : Char} {chars piece : List Char}
    (member : piece ∈ splitChars separator chars) : separator ∉ piece := by
  induction chars generalizing piece with
  | nil =>
      rw [List.mem_singleton.mp member]
      exact List.not_mem_nil
  | cons char rest ih =>
      by_cases same : char = separator
      · rw [splitChars, if_pos same] at member
        rcases List.mem_cons.mp member with first | later
        · rw [first]
          exact List.not_mem_nil
        · exact ih later
      · rw [splitChars, if_neg same] at member
        cases found : splitChars separator rest with
        | nil => exact absurd found (splitChars_ne_nil separator rest)
        | cons first others =>
            rw [found] at ih member
            rcases List.mem_cons.mp member with isFirst | later
            · rw [isFirst, List.mem_cons, not_or]
              exact ⟨fun equal => same equal.symm, ih List.mem_cons_self⟩
            · exact ih (List.mem_cons_of_mem first later)

theorem mem_of_mem_splitChars {separator char : Char} {chars piece : List Char}
    (member : piece ∈ splitChars separator chars) (inside : char ∈ piece) : char ∈ chars := by
  induction chars generalizing piece with
  | nil =>
      rw [List.mem_singleton.mp member] at inside
      cases inside
  | cons first rest ih =>
      by_cases same : first = separator
      · rw [splitChars, if_pos same] at member
        rcases List.mem_cons.mp member with empty | later
        · rw [empty] at inside
          cases inside
        · exact List.mem_cons_of_mem _ (ih later inside)
      · rw [splitChars, if_neg same] at member
        cases found : splitChars separator rest with
        | nil => exact absurd found (splitChars_ne_nil separator rest)
        | cons initial others =>
            rw [found] at ih member
            rcases List.mem_cons.mp member with isFirst | later
            · rw [isFirst, List.mem_cons] at inside
              rcases inside with head | tail
              · exact head ▸ List.mem_cons_self
              · exact List.mem_cons_of_mem _ (ih List.mem_cons_self tail)
            · exact List.mem_cons_of_mem _ (ih (List.mem_cons_of_mem _ later) inside)

theorem split_ne_nil (separator : Char) (text : String) : split separator text ≠ [] := by
  unfold split
  rw [ne_eq, List.map_eq_nil_iff]
  exact splitChars_ne_nil separator text.toList

theorem split_append (left right : String) :
    split '/' (left ++ "/" ++ right) = split '/' left ++ split '/' right := by
  have slash : "/".toList = ['/'] := rfl
  unfold split
  rw [String.toList_append, String.toList_append, slash, List.append_assoc,
    List.singleton_append, splitChars_append, List.map_append]

theorem split_of_not_mem {separator : Char} {text : String} (absent : separator ∉ text.toList) :
    split separator text = [text] := by
  unfold split
  rw [splitChars_of_not_mem absent, List.map_singleton, String.ofList_toList]

theorem mem_of_mem_split {separator char : Char} {text piece : String}
    (member : piece ∈ split separator text) (inside : char ∈ piece.toList) :
    char ∈ text.toList := by
  obtain ⟨chars, found, rfl⟩ := List.mem_map.mp member
  rw [String.toList_ofList] at inside
  exact mem_of_mem_splitChars found inside

theorem not_mem_of_mem_split {separator : Char} {text piece : String}
    (member : piece ∈ split separator text) : separator ∉ piece.toList := by
  obtain ⟨chars, found, rfl⟩ := List.mem_map.mp member
  rw [String.toList_ofList]
  exact not_mem_of_mem_splitChars found

end CrossBuild.Text

namespace CrossBuild.Files

theorem isEntryName_iff {name : String} :
    isEntryName name = true ↔
      name ≠ "" ∧ name ≠ "." ∧ name ≠ ".." ∧ '/' ∉ name.toList ∧ '\x00' ∉ name.toList := by
  have chars : (∀ char ∈ name.toList, ¬char = '/' ∧ ¬char = '\x00') ↔
      '/' ∉ name.toList ∧ '\x00' ∉ name.toList := by
    constructor
    · intro all
      exact ⟨fun member => (all _ member).1 rfl, fun member => (all _ member).2 rfl⟩
    · rintro ⟨slash, null⟩ char member
      exact ⟨fun same => slash (same ▸ member), fun same => null (same ▸ member)⟩
  simp only [isEntryName, Bool.and_eq_true, decide_eq_true_eq, List.all_eq_true, and_assoc, ne_eq,
    chars]

theorem all_isEntryName_append {front back : List String} :
    (front ++ back).all isEntryName = true ↔
      front.all isEntryName = true ∧ back.all isEntryName = true := by
  rw [List.all_append, Bool.and_eq_true]

theorem all_isEntryName_concat {front : List String} {name : String} :
    (front ++ [name]).all isEntryName = true ↔
      front.all isEntryName = true ∧ isEntryName name = true := by
  rw [all_isEntryName_append, List.all_cons, List.all_nil, Bool.and_true]

namespace Path

/-- A piece that does not count. -/
def isIdle (segment : String) : Bool :=
  segment = "" || segment = "."

/-- What another path is put behind when it is joined: the pieces without the empty one that a
slash at the end leaves. -/
def stem (path : Path) : List String :=
  if path.text.toList.getLast?.all fun char => char = '/' then path.segments.dropLast
  else path.segments

theorem isAbsolute_iff {path : Path} :
    path.isAbsolute = true ↔ path.text.toList.head? = some '/' := by
  simp [isAbsolute]

theorem mem_split_of_mem_segments {path : Path} {segment : String}
    (member : segment ∈ path.segments) : segment ∈ Text.split '/' path.text := by
  unfold segments at member
  split at member
  · exact List.mem_of_mem_tail member
  · exact member

/-- Before the first slash of an absolute path there is an empty piece. -/
theorem split_of_isAbsolute {path : Path} (absolute : path.isAbsolute = true) :
    Text.split '/' path.text = "" :: path.segments ∧ path.segments ≠ [] := by
  obtain ⟨rest, whole⟩ := List.head?_eq_some_iff.mp (isAbsolute_iff.mp absolute)
  have cut : Text.split '/' path.text = "" :: (Text.splitChars '/' rest).map String.ofList := by
    unfold Text.split
    rw [whole, Text.splitChars, if_pos rfl]
    rfl
  unfold segments
  rw [absolute, if_pos rfl, cut, List.tail_cons, ne_eq, List.map_eq_nil_iff]
  exact ⟨rfl, Text.splitChars_ne_nil '/' rest⟩

theorem segments_ne_nil (path : Path) : path.segments ≠ [] := by
  cases absolute : path.isAbsolute with
  | true => exact (split_of_isAbsolute absolute).2
  | false =>
      unfold segments
      rw [absolute]
      exact Text.split_ne_nil '/' path.text

/-- A path that ends in a slash, or is empty, is its stem with an empty piece behind. -/
theorem segments_eq_stem (path : Path) :
    path.segments = path.stem ∨ path.segments = path.stem ++ [""] := by
  unfold stem
  split
  · rename_i closed
    right
    have pieces : ∃ start, path.segments = start ++ [""] := by
      cases ending : path.text.toList.getLast? with
      | none =>
          have empty := List.getLast?_eq_none_iff.mp ending
          exact ⟨[], by simp [segments, isAbsolute, Text.split, empty, Text.splitChars]⟩
      | some last =>
          obtain ⟨start, whole⟩ := List.getLast?_eq_some_iff.mp ending
          rw [ending] at closed
          have slash : last = '/' := by simpa using closed
          subst slash
          have cut : Text.split '/' path.text = (Text.splitChars '/' start).map String.ofList ++ [""] := by
            unfold Text.split
            rw [whole, Text.splitChars_append, List.map_append]
            rfl
          unfold segments
          simp only [cut]
          split
          · refine ⟨((Text.splitChars '/' start).map String.ofList).tail, ?_⟩
            rw [List.tail_append_of_ne_nil]
            simpa using Text.splitChars_ne_nil '/' start
          · exact ⟨_, rfl⟩
    obtain ⟨start, whole⟩ := pieces
    rw [whole, List.dropLast_concat]
  · exact .inl rfl

/-- The text to which a relative path is added by joining. -/
private theorem join_of_relative {path other : Path} (relative : other.isAbsolute = false) :
    (path.text.toList.getLast?.all (fun char => char = '/') = true ∧
        path.join other = ⟨path.text ++ other.text⟩) ∨
      (path.text.toList.getLast?.all (fun char => char = '/') = false ∧
        path.join other = ⟨path.text ++ "/" ++ other.text⟩) := by
  unfold join
  rw [relative]
  cases closed : path.text.toList.getLast?.all fun char => char = '/' with
  | true => exact .inl ⟨rfl, rfl⟩
  | false => exact .inr ⟨rfl, rfl⟩

theorem isAbsolute_join {path other : Path} (relative : other.isAbsolute = false) :
    (path.join other).isAbsolute = path.isAbsolute := by
  have noSlash : ¬ other.text.toList.head? = some '/' := by
    intro slash
    rw [isAbsolute_iff.mpr slash] at relative
    cases relative
  rcases @join_of_relative path _ relative with ⟨_, joined⟩ | ⟨opened, joined⟩
  · rw [joined, Bool.eq_iff_iff, isAbsolute_iff, isAbsolute_iff]
    simp only [String.toList_append, List.head?_append]
    cases first : path.text.toList.head? with
    | none => simpa using noSlash
    | some char => simp
  · rw [joined, Bool.eq_iff_iff, isAbsolute_iff, isAbsolute_iff]
    simp only [String.toList_append, List.head?_append]
    cases first : path.text.toList.head? with
    | none =>
        rw [List.head?_eq_none_iff.mp first] at opened
        cases opened
    | some char => simp

theorem segments_join {path other : Path} (relative : other.isAbsolute = false) :
    (path.join other).segments = path.stem ++ other.segments := by
  have behind : other.segments = Text.split '/' other.text := by
    unfold segments
    rw [relative]
    rfl
  have absolute := @isAbsolute_join path _ relative
  have pieces : ∀ (pieces : List String), Text.split '/' (path.join other).text =
      pieces ++ other.segments → pieces ≠ [] →
      (path.join other).segments = (if path.isAbsolute then pieces.tail else pieces) ++
        other.segments := by
    intro pieces cut nonempty
    unfold segments at *
    rw [absolute]
    simp only [cut]
    split
    · rw [List.tail_append_of_ne_nil nonempty]
    · rfl
  rcases @join_of_relative path _ relative with ⟨closed, joined⟩ | ⟨opened, joined⟩
  · unfold stem
    rw [if_pos closed]
    cases ending : path.text.toList.getLast? with
    | none =>
        have empty := List.getLast?_eq_none_iff.mp ending
        have blank : path.text = "" := String.toList_inj.mp empty
        have same : path.join other = other := by
          rw [joined, blank]
          simp
        have whole : path.segments = [""] := by
          simp [segments, isAbsolute, Text.split, empty, Text.splitChars]
        rw [same, whole]
        rfl
    | some last =>
        obtain ⟨start, whole⟩ := List.getLast?_eq_some_iff.mp ending
        rw [ending] at closed
        have slash : last = '/' := by simpa using closed
        subst slash
        have spelled : path.text = String.ofList start ++ "/" := by
          apply String.toList_inj.mp
          rw [whole, String.toList_append, String.toList_ofList]
          rfl
        have cut : Text.split '/' (path.join other).text =
            Text.split '/' (String.ofList start) ++ other.segments := by
          rw [joined, behind, spelled]
          exact Text.split_append _ _
        have start_ne := Text.split_ne_nil '/' (String.ofList start)
        rw [pieces _ cut start_ne]
        have own : Text.split '/' path.text = Text.split '/' (String.ofList start) ++ [""] := by
          have split := Text.split_append (String.ofList start) ""
          rw [String.append_empty, ← spelled] at split
          rw [split]
          rfl
        unfold segments
        simp only [own]
        split
        · rw [List.tail_append_of_ne_nil start_ne, List.dropLast_concat]
        · rw [List.dropLast_concat]
  · have cut : Text.split '/' (path.join other).text =
        Text.split '/' path.text ++ other.segments := by
      rw [joined, behind]
      exact Text.split_append _ _
    rw [pieces _ cut (Text.split_ne_nil '/' path.text)]
    unfold stem segments
    rw [opened]
    simp

/-! ### Names behind a path -/

theorem isAbsolute_ofSegments_false {names : List String}
    (spelled : ∀ name ∈ names, '/' ∉ name.toList) (start : names.head? ≠ some "") :
    (ofSegments false names).isAbsolute = false := by
  cases names with
  | nil => rfl
  | cons name rest =>
      have noSlash := spelled name List.mem_cons_self
      have nonempty : name ≠ "" := fun same => start (by rw [same]; rfl)
      cases chars : name.toList with
      | nil => exact absurd (String.toList_inj.mp chars) nonempty
      | cons char others =>
          rw [chars, List.mem_cons, not_or] at noSlash
          have text : (ofSegments false (name :: rest)).text.toList.head? = some char := by
            unfold ofSegments
            cases rest with
            | nil => simp [chars]
            | cons next later =>
                simp [String.intercalate_cons_cons, String.toList_append, chars]
          apply Bool.eq_false_iff.mpr
          rw [ne_eq, isAbsolute_iff, text, Option.some.injEq]
          exact fun same => noSlash.1 same.symm

private theorem split_intercalate {names : List String} (some : names ≠ [])
    (spelled : ∀ name ∈ names, '/' ∉ name.toList) :
    Text.split '/' ("/".intercalate names) = names := by
  induction names with
  | nil => exact absurd rfl some
  | cons name rest ih =>
      have noSlash := spelled name List.mem_cons_self
      cases rest with
      | nil =>
          rw [String.intercalate_singleton]
          exact Text.split_of_not_mem noSlash
      | cons next later =>
          have behind := ih (by simp) fun other member => spelled other (List.mem_cons_of_mem _ member)
          rw [String.intercalate_cons_cons, Text.split_append, behind,
            Text.split_of_not_mem noSlash]
          rfl

/-- The pieces of a path that is made of pieces; without any there is one empty piece. -/
theorem segments_ofSegments {absolute : Bool} {names : List String}
    (spelled : ∀ name ∈ names, '/' ∉ name.toList)
    (start : absolute = false → names.head? ≠ some "") :
    (ofSegments absolute names).isAbsolute = absolute ∧
      (ofSegments absolute names).segments = if names = [] then [""] else names := by
  have pieces : Text.split '/' ("/".intercalate names) = if names = [] then [""] else names := by
    split
    · rename_i empty
      rw [empty]
      rfl
    · rename_i some
      exact split_intercalate some spelled
  cases absolute with
  | false =>
      have relative := isAbsolute_ofSegments_false spelled (start rfl)
      refine ⟨relative, ?_⟩
      unfold segments
      rw [relative]
      simpa [ofSegments] using pieces
  | true =>
      have isRooted : (ofSegments true names).isAbsolute = true := by
        apply isAbsolute_iff.mpr
        simp [ofSegments, String.toList_append]
      refine ⟨isRooted, ?_⟩
      have cut : Text.split '/' (ofSegments true names).text =
          [""] ++ Text.split '/' ("/".intercalate names) := by
        have split := Text.split_append "" ("/".intercalate names)
        rw [String.empty_append] at split
        exact split
      unfold segments
      rw [isRooted]
      simp only [cut, pieces]
      rfl

section Names

variable {names : List String} (valid : names.all isEntryName = true)

include valid

private theorem noSlash_of_valid : ∀ name ∈ names, '/' ∉ name.toList := fun name member =>
  (isEntryName_iff.mp (List.all_eq_true.mp valid name member)).2.2.2.1

private theorem start_of_valid : names.head? ≠ some "" := by
  intro first
  have member : "" ∈ names := List.mem_of_head? first
  exact (isEntryName_iff.mp (List.all_eq_true.mp valid "" member)).1 rfl

private theorem relative_of_valid : (ofSegments false names).isAbsolute = false :=
  isAbsolute_ofSegments_false (noSlash_of_valid valid) (start_of_valid valid)

theorem isAbsolute_joinNames (path : Path) :
    (path.joinNames names).isAbsolute = path.isAbsolute :=
  isAbsolute_join (relative_of_valid valid)

theorem joinNames_empty : joinNames ⟨""⟩ names = ofSegments false names := by
  unfold joinNames join
  rw [relative_of_valid valid]
  simp

theorem segments_joinNames (path : Path) :
    (path.joinNames names).segments = path.stem ++ if names = [] then [""] else names := by
  unfold joinNames
  rw [segments_join (relative_of_valid valid),
    (segments_ofSegments (noSlash_of_valid valid) fun _ => start_of_valid valid).2]

end Names

theorem joinName_eq_joinNames (path : Path) (name : String) :
    path.joinName name = path.joinNames [name] := by
  unfold joinName joinNames ofSegments
  simp

private theorem getLast?_intercalate {names : List String} {last : String}
    (valid : (names ++ [last]).all isEntryName = true) :
    ∃ char, ("/".intercalate (names ++ [last])).toList.getLast? = some char ∧ char ≠ '/' := by
  obtain ⟨nonempty, -, -, noSlash, -⟩ := isEntryName_iff.mp (all_isEntryName_concat.mp valid).2
  have some : last.toList ≠ [] := fun empty => nonempty (String.toList_inj.mp empty)
  have own : last.toList.getLast? = Option.some (last.toList.getLast some) :=
    List.getLast?_eq_some_getLast some
  refine ⟨last.toList.getLast some, ?_, fun same => noSlash (same ▸ List.getLast_mem some)⟩
  by_cases alone : names = []
  · subst alone
    simpa using own
  · rw [String.intercalate_append_of_ne_nil alone (by simp), String.intercalate_singleton,
      String.toList_append, String.toList_append, List.getLast?_append, own]
    rfl

/-- Names can be put behind a path one after the other. -/
theorem joinName_joinNames (path : Path) {names : List String} {name : String}
    (valid : (names ++ [name]).all isEntryName = true) :
    (path.joinNames names).joinName name = path.joinNames (names ++ [name]) := by
  obtain ⟨front, last⟩ := all_isEntryName_append.mp valid
  have spell : ∀ (base : Path) (others : List String), others.all isEntryName = true →
      base.joinNames others = ⟨(if base.text.toList.getLast?.all (fun char => char = '/') then
        base.text else base.text ++ "/") ++ "/".intercalate others⟩ := by
    intro base others fine
    unfold joinNames
    rcases @join_of_relative base _ (relative_of_valid fine) with
      ⟨closed, joined⟩ | ⟨opened, joined⟩
    · rw [joined, if_pos closed]
      simp [ofSegments]
    · rw [joined, if_neg (by rw [opened]; decide)]
      simp [ofSegments]
  rw [joinName_eq_joinNames, spell _ _ last, spell path _ valid, spell path _ front]
  congr 1
  induction names using List.reverseRecOn with
  | nil =>
      simp only [String.intercalate_nil, String.append_empty, List.nil_append]
      congr 1
      split
      · rfl
      · simp [String.toList_append]
  | append_singleton others final _ =>
      obtain ⟨char, ending, different⟩ := getLast?_intercalate front
      have opened : ¬ ((if path.text.toList.getLast?.all (fun char => char = '/') then
          path.text else path.text ++ "/") ++
            "/".intercalate (others ++ [final])).toList.getLast?.all
              (fun char => char = '/') = true := by
        rw [String.toList_append, List.getLast?_append, ending]
        simpa using different
      rw [if_neg opened,
        String.intercalate_append_of_ne_nil (by simp : others ++ [final] ≠ []) (by simp)]
      simp only [String.intercalate_singleton, String.append_assoc]

/-- The path that names lead to one by one is the path with all of them behind. -/
theorem foldl_joinName (path : Path) {names : List String}
    (valid : names.all isEntryName = true) (some : names ≠ []) :
    names.foldl joinName path = path.joinNames names := by
  induction names using List.reverseRecOn with
  | nil => exact absurd rfl some
  | append_singleton rest last ih =>
      rw [List.foldl_append, List.foldl_cons, List.foldl_nil]
      by_cases alone : rest = []
      · subst alone
        exact joinName_eq_joinNames path last
      · rw [ih (all_isEntryName_append.mp valid).1 alone, joinName_joinNames path valid]

/-- The text to which names are added by joining does not depend on them. -/
theorem text_joinNames (path : Path) : ∃ front, ∀ names : List String,
    names.all isEntryName = true → (path.joinNames names).text = front ++ "/".intercalate names := by
  cases closed : path.text.toList.getLast?.all fun char => char = '/' with
  | true =>
      refine ⟨path.text, fun names valid => ?_⟩
      unfold joinNames join
      rw [relative_of_valid valid, closed]
      simp [ofSegments]
  | false =>
      refine ⟨path.text ++ "/", fun names valid => ?_⟩
      unfold joinNames join
      rw [relative_of_valid valid, closed]
      simp [ofSegments]

theorem text_joinName (path : Path) : ∃ front, ∀ name, isEntryName name = true →
    (path.joinName name).text = front ++ name := by
  obtain ⟨front, spelled⟩ := text_joinNames path
  refine ⟨front, fun name valid => ?_⟩
  rw [joinName_eq_joinNames, spelled [name] (by simpa using valid), String.intercalate_singleton]

theorem text_joinNames_append (path : Path) {front back : List String}
    (valid : (front ++ back).all isEntryName = true) (some : front ≠ []) :
    ∃ rest, (path.joinNames (front ++ back)).text = (path.joinNames front).text ++ rest := by
  obtain ⟨start, spelled⟩ := text_joinNames path
  rw [spelled _ valid, spelled _ (all_isEntryName_append.mp valid).1]
  by_cases none : back = []
  · exact ⟨"", by simp [none]⟩
  · refine ⟨"/" ++ "/".intercalate back, ?_⟩
    rw [String.intercalate_append_of_ne_nil some none]
    simp only [String.append_assoc]

theorem length_le_intercalate {names : List String} (valid : names.all isEntryName = true) :
    names.length ≤ ("/".intercalate names).utf8ByteSize := by
  induction names with
  | nil => exact Nat.zero_le _
  | cons name rest ih =>
      rw [List.all_cons, Bool.and_eq_true] at valid
      have nonempty := (isEntryName_iff.mp valid.1).1
      have size : 0 < name.utf8ByteSize := by
        rw [Nat.pos_iff_ne_zero, ne_eq, String.utf8ByteSize_eq_zero_iff]
        exact nonempty
      have others := ih valid.2
      cases rest with
      | nil =>
          rw [String.intercalate_singleton]
          exact size
      | cons second later =>
          rw [String.intercalate_cons_cons]
          simp only [String.utf8ByteSize_append, List.length_cons] at others ⊢
          omega

theorem length_le_text (path : Path) {names : List String} (valid : names.all isEntryName = true) :
    names.length ≤ (path.joinNames names).text.utf8ByteSize := by
  obtain ⟨front, spelled⟩ := text_joinNames path
  rw [spelled names valid, String.utf8ByteSize_append]
  have shorter := length_le_intercalate valid
  omega

theorem joinNames_text_ne_empty {path : Path} {names : List String}
    (valid : names.all isEntryName = true) (some : path.text ≠ "" ∨ names ≠ []) :
    (path.joinNames names).text ≠ "" := by
  intro empty
  have pieces := segments_joinNames valid path
  have blank : (path.joinNames names).segments = [""] := by
    have same : path.joinNames names = ⟨""⟩ := congrArg Path.mk empty
    rw [same]
    rfl
  rw [blank] at pieces
  unfold joinNames at empty
  have start : path.text = "" := by
    rcases @join_of_relative path _ (relative_of_valid valid) with
      ⟨-, joined⟩ | ⟨-, joined⟩
    · rw [joined] at empty
      exact (String.append_eq_empty_iff.mp empty).1
    · rw [joined] at empty
      exact (String.append_eq_empty_iff.mp (String.append_eq_empty_iff.mp empty).1).1
  have others : names ≠ [] := some.resolve_left fun spelled => spelled start
  rw [if_neg others] at pieces
  have member : "" ∈ names := by
    have last := congrArg List.getLast? pieces
    rw [List.getLast?_append, List.getLast?_eq_some_getLast others, Option.some_or] at last
    rw [List.getLast?_singleton, Option.some.injEq] at last
    rw [last]
    exact List.getLast_mem others
  exact absurd rfl (isEntryName_iff.mp (List.all_eq_true.mp valid "" member)).1

/-! ### The last name and the rest -/

theorem trimEnd_eq_self {follows : Bool} {segments : List String} {last : String}
    (counts : isIdle last = false) : trimEnd follows (segments ++ [last]) = segments ++ [last] := by
  induction segments generalizing follows with
  | nil =>
      simp only [isIdle, Bool.or_eq_false_iff, decide_eq_false_iff_not] at counts
      simp [trimEnd, counts.1, counts.2]
  | cons segment rest ih =>
      rw [List.cons_append, trimEnd, ih]
      cases rest <;> rfl

theorem trimEnd_concat_blank (follows : Bool) (segments : List String) :
    trimEnd follows (segments ++ [""]) = trimEnd follows segments := by
  induction segments generalizing follows with
  | nil => rfl
  | cons segment rest ih => rw [List.cons_append, trimEnd, ih, trimEnd]

/-- What is trimmed does not count. -/
theorem trimEnd_append_idle (follows : Bool) (segments : List String) :
    ∃ rest, segments = trimEnd follows segments ++ rest ∧ ∀ segment ∈ rest, isIdle segment = true := by
  induction segments generalizing follows with
  | nil => exact ⟨[], rfl, fun _ absent => nomatch absent⟩
  | cons segment others ih =>
      obtain ⟨rest, whole, idle⟩ := ih true
      rw [trimEnd]
      cases kept : trimEnd true others with
      | nil =>
          rw [kept, List.nil_append] at whole
          simp only []
          split
          · rename_i blank
            refine ⟨segment :: rest, by rw [whole]; rfl, ?_⟩
            intro other member
            rcases List.mem_cons.mp member with same | later
            · subst same
              simp only [Bool.or_eq_true, decide_eq_true_eq, Bool.and_eq_true] at blank
              simp only [isIdle, Bool.or_eq_true, decide_eq_true_eq]
              rcases blank with empty | ⟨dot, _⟩
              · exact .inl empty
              · exact .inr dot
            · exact idle other later
          · exact ⟨rest, by rw [whole]; rfl, idle⟩
      | cons first later =>
          rw [kept] at whole
          exact ⟨rest, by rw [whole]; rfl, idle⟩


/-- A relative path starts with an empty piece only when it is empty. -/
private theorem text_of_segments_empty {path : Path} (relative : path.isAbsolute = false)
    (start : path.segments.head? = some "") : path.segments = [""] := by
  have own : path.segments = Text.split '/' path.text := by
    unfold segments
    rw [relative]
    rfl
  rw [own] at start ⊢
  cases chars : path.text.toList with
  | nil => simp [Text.split, chars, Text.splitChars]
  | cons char rest =>
      by_cases slash : char = '/'
      · have absolute : path.isAbsolute = true := by
          apply isAbsolute_iff.mpr
          rw [chars, slash]
          rfl
        rw [relative] at absolute
        cases absolute
      · exfalso
        unfold Text.split at start
        rw [chars, Text.splitChars, if_neg slash] at start
        cases found : Text.splitChars '/' rest with
        | nil => exact Text.splitChars_ne_nil '/' rest found
        | cons piece pieces =>
            rw [found] at start
            simp only [List.map_cons, List.head?_cons, Option.some.injEq] at start
            have empty := congrArg String.toList start
            simp at empty

/-- The path of the first pieces of a path has these pieces, or one empty piece. -/
theorem ofSegments_front {path : Path} {front back : List String}
    (whole : path.segments = front ++ back) (blank : front ≠ [""]) :
    (ofSegments path.isAbsolute front).isAbsolute = path.isAbsolute ∧
      (ofSegments path.isAbsolute front).segments = if front = [] then [""] else front := by
  apply segments_ofSegments
  · intro segment member
    apply @Text.not_mem_of_mem_split _ path.text _ (mem_split_of_mem_segments _)
    rw [whole]
    exact List.mem_append_left _ member
  · intro relative first
    have head : path.segments.head? = some "" := by
      rw [whole, List.head?_append, first]
      rfl
    have alone := text_of_segments_empty relative head
    rw [whole] at alone
    cases front with
    | nil => cases first
    | cons segment others =>
        rw [List.cons_append, List.cons.injEq, List.append_eq_nil_iff] at alone
        exact blank (by rw [alone.1, alone.2.1])

theorem trimEnd_ne_blank (follows : Bool) (segments : List String) :
    trimEnd follows segments ≠ [""] := by
  induction segments generalizing follows with
  | nil => simp [trimEnd]
  | cons segment others ih =>
      rw [trimEnd]
      cases kept : trimEnd true others with
      | nil =>
          simp only []
          split
          · simp
          · rename_i counts
            intro same
            rw [List.cons.injEq] at same
            simp [same.1] at counts
      | cons first later => simp

theorem fileName?_of_segments {path : Path} {front : List String} {last : String}
    (whole : path.segments = front ++ [last]) (valid : isEntryName last = true) :
    path.fileName? = some last := by
  obtain ⟨nonempty, dot, dots, -, -⟩ := isEntryName_iff.mp valid
  have counts : isIdle last = false := by simp [isIdle, nonempty, dot]
  unfold fileName? trimmed
  rw [whole, trimEnd_eq_self counts, List.getLast?_concat]
  simp [dot, dots]

theorem segments_joinName (path : Path) {name : String} (valid : isEntryName name = true) :
    (path.joinName name).segments = path.stem ++ [name] := by
  have all : [name].all isEntryName = true := by simpa using valid
  rw [joinName_eq_joinNames, segments_joinNames all, if_neg (List.cons_ne_nil _ _)]

theorem fileName?_joinName (path : Path) {name : String} (valid : isEntryName name = true) :
    (path.joinName name).fileName? = some name :=
  fileName?_of_segments (segments_joinName path valid) valid

/-- A slash at the end of a path does not change its last name. -/
theorem fileName?_joinNames_nil (path : Path) : (path.joinNames []).fileName? = path.fileName? := by
  have pieces := @segments_joinNames [] rfl path
  rw [if_pos rfl] at pieces
  unfold fileName? trimmed
  rw [isAbsolute_joinNames rfl, pieces, trimEnd_concat_blank]
  rcases path.segments_eq_stem with whole | whole
  · rw [whole]
  · rw [whole, trimEnd_concat_blank]

end Path

end CrossBuild.Files
