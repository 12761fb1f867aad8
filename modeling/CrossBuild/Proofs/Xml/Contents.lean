/-
What text says, in two parts.

Text that is cut outside of a reference says what its parts say, one behind the other; only a line break
at the cut may be written in another way. That makes no difference where what follows is blank, since
blanks at the end are trimmed away.
-/

import CrossBuild.Proofs.Xml.Taking
import CrossBuild.Text.Blank
import Mathlib.Data.List.DropRight

namespace CrossBuild.Xml

/-- The end of a text lies within a reference. -/
def EndsInReference (raw : List Char) : Prop :=
  ∃ front back, raw = front ++ '&' :: back ∧ ';' ∉ back

/-- A reader stops within a text: it finds the same when the text goes on, and leaves some of it. -/
structure StopsWithin (take : List Char → Option (Char × List Char)) (text : List Char) : Prop where
  append : ∀ more, take (text ++ more) = (take text).map fun found => (found.1, found.2 ++ more)
  left : ∀ found, take text = some found → found.2 ≠ []

/-- The character of a piece. -/
def Piece.char : Piece → Char
  | .raw char => char
  | .referred char => char

def Piece.isReferred : Piece → Bool
  | .raw _ => false
  | .referred _ => true

/-- What is written when one piece more is, last character first. -/
def pushPiece (before : List Char) (plain atEnd : Bool) : Piece → List Char
  | .referred char => char :: before
  | .raw char =>
      if plain then char :: before
      else match before with
        | '\r' :: earlier =>
            if atEnd && char = '\r' then '\n' :: '\n' :: earlier
            else if char ≠ '\n' then char :: '\n' :: earlier
            else '\n' :: earlier
        | _ => (if atEnd && char = '\r' then '\n' else char) :: before

section Contents

variable {text rest more raw : List Char} {char : Char} {keep : Char → Bool}

theorem EndsInReference.of_suffix (ends : EndsInReference text) (part : text <:+ raw) : EndsInReference raw := by
  obtain ⟨front, back, rfl, unclosed⟩ := ends
  obtain ⟨earlier, rfl⟩ := part
  exact ⟨earlier ++ front, back, by rw [List.append_assoc], unclosed⟩

/-! ### References -/

theorem dropWhile_ne_nil_of_mem (inside : char ∈ text) (stops : keep char = false) : text.dropWhile keep ≠ [] := by
  intro nothing
  have all := List.dropWhile_eq_nil_iff.mp nothing char inside
  rw [stops] at all
  cases all

/-- A character by its number in a base. -/
def takeCode? (base : Nat) (keep : Char → Bool) (text : List Char) : Option (Char × List Char) :=
  match codeOfDigits? base (text.takeWhile keep) with
  | some code =>
      if isDocumentChar (charOfCode code) then some (charOfCode code, text.dropWhile keep) else none
  | none => none

theorem takeNumber?_hex : takeNumber? ('x' :: text) = takeCode? 16 isHexDigit text := rfl

theorem takeNumber?_decimal (noMark : char ≠ 'x') :
    takeNumber? (char :: text) = takeCode? 10 Char.isDigit (char :: text) := by
  unfold takeNumber? takeCode?
  split
  · rename_i same
    cases same
    exact absurd rfl noMark
  · rfl

theorem takeCode?_stops {base : Nat} (ends : text.dropWhile keep ≠ []) :
    StopsWithin (takeCode? base keep) text where
  append := by
    intro more
    unfold takeCode?
    rw [takeWhile_append_of_dropWhile ends, dropWhile_append_of_ne_nil ends]
    cases codeOfDigits? base (text.takeWhile keep) with
    | none => rfl
    | some code =>
        dsimp only
        cases isDocumentChar (charOfCode code) with
        | false => rfl
        | true => rfl
  left := by
    intro found taken
    unfold takeCode? at taken
    split at taken
    · split at taken
      · cases taken
        exact ends
      · cases taken
    · cases taken

theorem takeCode?_suffix {base : Nat} (taken : takeCode? base keep text = some (char, rest)) : rest <:+ text := by
  unfold takeCode? at taken
  split at taken
  · split at taken
    · cases taken
      exact List.dropWhile_suffix _
    · cases taken
  · cases taken

theorem StopsWithin.cons {take inner : List Char → Option (Char × List Char)} (stops : StopsWithin inner text)
    (same : ∀ text, take (char :: text) = inner text) : StopsWithin take (char :: text) where
  append := by
    intro more
    rw [List.cons_append, same, same]
    exact stops.append more
  left := by
    intro found taken
    rw [same] at taken
    exact stops.left found taken

theorem takeNumber?_stops (closed : ';' ∈ text) : StopsWithin takeNumber? text := by
  cases text with
  | nil => cases closed
  | cons first others =>
      by_cases hex : first = 'x'
      · subst hex
        have inside : ';' ∈ others := by
          simpa using closed
        exact (takeCode?_stops (dropWhile_ne_nil_of_mem inside (by decide))).cons fun _ => takeNumber?_hex
      · have stops := @takeCode?_stops (first :: others) Char.isDigit 10
          (dropWhile_ne_nil_of_mem closed (by decide))
        refine ⟨fun more => ?_, fun found taken => ?_⟩
        · rw [List.cons_append, takeNumber?_decimal hex, takeNumber?_decimal hex]
          exact stops.append more
        · rw [takeNumber?_decimal hex] at taken
          exact stops.left found taken

theorem takeNumber?_suffix (taken : takeNumber? text = some (char, rest)) : rest <:+ text := by
  cases text with
  | nil => cases taken
  | cons first others =>
      by_cases hex : first = 'x'
      · subst hex
        exact (takeCode?_suffix taken).trans (List.suffix_cons _ _)
      · rw [takeNumber?_decimal hex] at taken
        exact takeCode?_suffix taken

/-- What a reference says before its semicolon. -/
def takeReferred? (text : List Char) : Option (Char × List Char) :=
  match text with
  | '#' :: rest => takeNumber? rest
  | _ => match takeName? text with
    | some (name, rest) => (namedChar? (String.ofList name)).map fun char => (char, rest)
    | none => none

theorem takeReferred?_hash : takeReferred? ('#' :: text) = takeNumber? text := rfl

theorem takeReferred?_name (noMark : char ≠ '#') :
    takeReferred? (char :: text) = (takeName? (char :: text)).bind fun found =>
      (namedChar? (String.ofList found.1)).map fun char => (char, found.2) := by
  unfold takeReferred?
  split
  · rename_i same
    cases same
    exact absurd rfl noMark
  · cases takeName? (char :: text) with
    | none => rfl
    | some found => rfl

theorem takeReference?_eq_some_iff :
    takeReference? text = some (char, rest) ↔ takeReferred? text = some (char, ';' :: rest) := by
  unfold takeReference?
  dsimp only
  constructor
  · intro closed
    split at closed
    · rename_i own after found
      cases closed
      exact found
    · cases closed
  · intro taken
    split
    · rename_i own after found
      cases found.symm.trans taken
      rfl
    · rename_i other
      exact absurd taken (other char rest)

/-- A semicolon ends what a reference says. -/
theorem takeReferred?_stops (closed : ';' ∈ text) : StopsWithin takeReferred? text := by
  cases text with
  | nil => cases closed
  | cons first others =>
      by_cases hash : first = '#'
      · subst hash
        have inside : ';' ∈ others := by
          simpa using closed
        exact (takeNumber?_stops inside).cons fun _ => takeReferred?_hash
      · have ends : (first :: others).dropWhile isNameChar ≠ [] := dropWhile_ne_nil_of_mem closed (by decide)
        refine ⟨fun more => ?_, fun found taken => ?_⟩
        · have same : takeName? (first :: others ++ more) =
              (takeName? (first :: others)).map fun found => (found.1, found.2 ++ more) := by
            cases named : takeName? (first :: others) with
            | none =>
                unfold takeName? at named ⊢
                split at named
                · cases named
                · rename_i noName
                  exact if_neg noName
            | some found => exact takeName?_append named (takeName?_left named ▸ ends)
          rw [List.cons_append, takeReferred?_name hash, takeReferred?_name hash, ← List.cons_append, same]
          cases takeName? (first :: others) with
          | none => rfl
          | some found =>
              dsimp only [Option.map_some, Option.bind_some]
              cases namedChar? (String.ofList found.1) with
              | none => rfl
              | some char => rfl
        · rw [takeReferred?_name hash] at taken
          obtain ⟨⟨name, after⟩, named, known⟩ := Option.bind_eq_some_iff.mp taken
          obtain ⟨own, -, same⟩ := Option.map_eq_some_iff.mp known
          cases same
          rw [takeName?_left named]
          exact ends

theorem takeReference?_append (closed : ';' ∈ text) :
    takeReference? (text ++ more) = (takeReference? text).map fun found => (found.1, found.2 ++ more) := by
  have stops := takeReferred?_stops closed
  apply Option.ext
  rintro ⟨char, rest⟩
  rw [takeReference?_eq_some_iff, stops.append, Option.map_eq_some_iff, Option.map_eq_some_iff]
  constructor
  · rintro ⟨⟨own, after⟩, found, same⟩
    obtain ⟨rfl, parts⟩ := Prod.mk.inj same
    cases after with
    | nil => exact absurd rfl (stops.left _ found)
    | cons first behind =>
        dsimp only at parts
        rw [List.cons_append] at parts
        cases parts
        exact ⟨(own, behind), takeReference?_eq_some_iff.mpr found, rfl⟩
  · rintro ⟨⟨own, after⟩, found, same⟩
    cases same
    exact ⟨(own, ';' :: after), takeReference?_eq_some_iff.mp found, rfl⟩

theorem takeReferred?_suffix (taken : takeReferred? text = some (char, rest)) : rest <:+ text := by
  cases text with
  | nil => cases taken
  | cons first others =>
      by_cases hash : first = '#'
      · subst hash
        exact (takeNumber?_suffix taken).trans (List.suffix_cons _ _)
      · rw [takeReferred?_name hash] at taken
        obtain ⟨⟨name, after⟩, named, known⟩ := Option.bind_eq_some_iff.mp taken
        obtain ⟨own, -, same⟩ := Option.map_eq_some_iff.mp known
        cases same
        rw [takeName?_left named]
        exact List.dropWhile_suffix _

theorem takeReference?_suffix (taken : takeReference? text = some (char, rest)) : ';' :: rest <:+ text :=
  takeReferred?_suffix (takeReference?_eq_some_iff.mp taken)

/-! ### Pieces -/

theorem piecesWithin?_reference (fuel : Nat) (text : List Char) :
    piecesWithin? (fuel + 1) ('&' :: text) = (takeReference? text).bind fun found =>
      (piecesWithin? fuel found.2).map fun pieces => .referred found.1 :: pieces := by
  rw [piecesWithin?]
  cases takeReference? text with
  | none => rfl
  | some found => rfl

theorem piecesWithin?_char (fuel : Nat) (noReference : char ≠ '&') :
    piecesWithin? (fuel + 1) (char :: text) =
      (piecesWithin? fuel text).map fun pieces => .raw char :: pieces := by
  rw [piecesWithin?]
  exact fun same => noReference same

/-- More fuel than characters makes no difference. -/
theorem piecesWithin?_of_le {fuel : Nat} (enough : text.length ≤ fuel) :
    piecesWithin? fuel text = pieces? text := by
  have agree : ∀ bound, ∀ text : List Char, text.length ≤ bound → ∀ one other,
      text.length ≤ one → text.length ≤ other → piecesWithin? one text = piecesWithin? other text := by
    intro bound
    induction bound with
    | zero =>
        intro text short one other _ _
        rw [List.length_eq_zero_iff.mp (Nat.le_zero.mp short), piecesWithin?, piecesWithin?]
    | succ bound ih =>
        intro text short one other enough enough'
        cases text with
        | nil => rw [piecesWithin?, piecesWithin?]
        | cons char others =>
            rw [List.length_cons] at short enough enough'
            obtain ⟨one, rfl⟩ := Nat.exists_eq_succ_of_ne_zero (by omega : one ≠ 0)
            obtain ⟨other, rfl⟩ := Nat.exists_eq_succ_of_ne_zero (by omega : other ≠ 0)
            by_cases reference : char = '&'
            · subst reference
              rw [piecesWithin?_reference, piecesWithin?_reference]
              refine Option.bind_congr fun found taken => ?_
              have shorter := (takeReference?_suffix taken).length_le
              rw [List.length_cons] at shorter
              rw [ih found.2 (by omega) one other (by omega) (by omega)]
            · rw [piecesWithin?_char _ reference, piecesWithin?_char _ reference,
                ih others (by omega) one other (by omega) (by omega)]
  exact agree text.length text le_rfl fuel text.length enough le_rfl

theorem pieces?_reference (text : List Char) : pieces? ('&' :: text) = (takeReference? text).bind fun found =>
    (pieces? found.2).map fun pieces => .referred found.1 :: pieces := by
  unfold pieces?
  rw [List.length_cons, piecesWithin?_reference]
  refine Option.bind_congr fun found taken => ?_
  have shorter := (takeReference?_suffix taken).length_le
  rw [List.length_cons] at shorter
  rw [piecesWithin?_of_le (by omega)]
  rfl

theorem pieces?_char (noReference : char ≠ '&') :
    pieces? (char :: text) = (pieces? text).map fun pieces => .raw char :: pieces := by
  unfold pieces?
  rw [List.length_cons, piecesWithin?_char _ noReference]

/-- Text that is cut outside of a reference has the pieces of both parts. -/
theorem pieces?_append (whole : ¬ EndsInReference raw) :
    pieces? (raw ++ more) = (pieces? raw).bind fun front => (pieces? more).map fun back => front ++ back := by
  induction length : raw.length using Nat.strong_induction_on generalizing raw with
  | _ size ih =>
      cases raw with
      | nil => exact Option.map_id'.symm
      | cons char others =>
          by_cases reference : char = '&'
          · subst reference
            have closed : ';' ∈ others := by
              by_contra unclosed
              exact whole ⟨[], others, rfl, unclosed⟩
            rw [List.cons_append, pieces?_reference, pieces?_reference, takeReference?_append closed]
            cases taken : takeReference? others with
            | none => rfl
            | some found =>
                have left := takeReference?_suffix taken
                have shorter := left.length_le
                rw [List.length_cons] at shorter length
                have rest : ¬ EndsInReference found.2 := fun ends =>
                  whole (ends.of_suffix ((List.suffix_cons _ _).trans (left.trans (List.suffix_cons _ _))))
                dsimp only [Option.map_some, Option.bind_some]
                rw [ih found.2.length (by omega) rest rfl]
                cases pieces? found.2 with
                | none => rfl
                | some front =>
                    cases pieces? more with
                    | none => rfl
                    | some back => rfl
          · have rest : ¬ EndsInReference others := fun ends => whole (ends.of_suffix (List.suffix_cons _ _))
            rw [List.length_cons] at length
            rw [List.cons_append, pieces?_char reference, pieces?_char reference, ih others.length (by omega) rest rfl]
            cases pieces? others with
            | none => rfl
            | some front =>
                cases pieces? more with
                | none => rfl
                | some back => rfl

/-! ### Blanks at the end -/

theorem rdropWhile_append (front back : List Char) : (front ++ back).rdropWhile keep =
    if back.rdropWhile keep = [] then front.rdropWhile keep else front ++ back.rdropWhile keep := by
  unfold List.rdropWhile
  rw [List.reverse_append, List.dropWhile_append]
  simp only [List.isEmpty_iff, List.reverse_eq_nil_iff]
  split
  · rfl
  · rw [List.reverse_append, List.reverse_reverse]

theorem unifyLines_cons (before : List Char) (plain : Bool) (piece : Piece) (rest : List Piece) :
    unifyLines before plain (piece :: rest) =
      unifyLines (pushPiece before plain rest.isEmpty piece) piece.isReferred rest := by
  cases piece with
  | referred char => rfl
  | raw char =>
      cases plain with
      | true => rfl
      | false =>
          cases before with
          | nil => rfl
          | cons first earlier =>
              by_cases returns : first = '\r'
              · subst returns
                rw [unifyLines, pushPiece, Piece.isReferred]
                simp only [Bool.false_eq_true, if_false]
                split
                · rfl
                · split
                  · rfl
                  · rfl
              · have noReturn : ∀ others, first :: earlier = '\r' :: others → False := by
                  rintro others same
                  cases same
                  exact returns rfl
                rw [unifyLines, pushPiece, Piece.isReferred]
                · simp only [Bool.false_eq_true, if_false]
                · exact noReturn

theorem isBlank_lineBreaks : Text.isBlank '\r' = true ∧ Text.isBlank '\n' = true := by
  decide

/-- A blank makes no difference before the blanks at the end. -/
theorem dropWhile_pushPiece {before : List Char} {plain atEnd : Bool} {piece : Piece}
    (blank : Text.isBlank piece.char = true) :
    (pushPiece before plain atEnd piece).dropWhile Text.isBlank = before.dropWhile Text.isBlank := by
  obtain ⟨carriage, feed⟩ := isBlank_lineBreaks
  cases piece with
  | referred char => exact List.dropWhile_cons_of_pos blank
  | raw char =>
      change Text.isBlank char = true at blank
      unfold pushPiece
      dsimp only
      split
      · exact List.dropWhile_cons_of_pos blank
      · split
        · rw [List.dropWhile_cons_of_pos carriage]
          split
          · rw [List.dropWhile_cons_of_pos feed, List.dropWhile_cons_of_pos feed]
          · split
            · rw [List.dropWhile_cons_of_pos blank, List.dropWhile_cons_of_pos feed]
            · rw [List.dropWhile_cons_of_pos feed]
        · split
          · rw [List.dropWhile_cons_of_pos feed]
          · rw [List.dropWhile_cons_of_pos blank]

/-- Nor does it matter whether a piece is the last one. -/
theorem dropWhile_pushPiece_atEnd (before : List Char) (plain : Bool) (piece : Piece) :
    (pushPiece before plain true piece).dropWhile Text.isBlank =
      (pushPiece before plain false piece).dropWhile Text.isBlank := by
  obtain ⟨carriage, feed⟩ := isBlank_lineBreaks
  cases piece with
  | referred char => rfl
  | raw char =>
      by_cases returns : char = '\r'
      · subst returns
        have blank : Text.isBlank (Piece.raw '\r').char = true := carriage
        rw [dropWhile_pushPiece blank, dropWhile_pushPiece blank]
      · unfold pushPiece
        simp only [returns, decide_false, Bool.and_false]

theorem rdropWhile_unifyLines {before : List Char} {plain : Bool} {pieces : List Piece}
    (blank : ∀ piece ∈ pieces, Text.isBlank piece.char = true) :
    (unifyLines before plain pieces).rdropWhile Text.isBlank = (before.dropWhile Text.isBlank).reverse := by
  induction pieces generalizing before plain with
  | nil => exact List.rdropWhile_reverse _ _
  | cons piece rest ih =>
      rw [List.forall_mem_cons] at blank
      rw [unifyLines_cons, ih blank.2, dropWhile_pushPiece blank.1]

/-- Blank pieces behind others add blanks at most. -/
theorem rdropWhile_unifyLines_append {before : List Char} {plain : Bool} {front back : List Piece}
    (blank : ∀ piece ∈ back, Text.isBlank piece.char = true) :
    (unifyLines before plain (front ++ back)).rdropWhile Text.isBlank =
      (unifyLines before plain front).rdropWhile Text.isBlank := by
  induction front generalizing before plain with
  | nil =>
      rw [List.nil_append, rdropWhile_unifyLines blank]
      exact (List.rdropWhile_reverse _ _).symm
  | cons piece rest ih =>
      rw [List.cons_append, unifyLines_cons, unifyLines_cons]
      cases rest with
      | nil =>
          have none_ : ∀ piece ∈ ([] : List Piece), Text.isBlank piece.char = true := fun _ absent => nomatch absent
          rw [List.nil_append, rdropWhile_unifyLines blank, rdropWhile_unifyLines none_]
          cases back with
          | nil => rfl
          | cons next others =>
              exact congrArg List.reverse (dropWhile_pushPiece_atEnd before plain piece).symm
      | cons next others => exact ih

theorem all_pushPiece (before : List Char) (plain atEnd : Bool) (piece : Piece) :
    (pushPiece before plain atEnd piece).all Text.isBlank =
      (Text.isBlank piece.char && before.all Text.isBlank) := by
  obtain ⟨carriage, feed⟩ := isBlank_lineBreaks
  cases piece with
  | referred char => rfl
  | raw char =>
      change _ = (Text.isBlank char && before.all Text.isBlank)
      unfold pushPiece
      dsimp only
      split
      · rfl
      · split
        · rw [List.all_cons, carriage, Bool.true_and]
          split
          · rename_i last
            rw [Bool.and_eq_true, decide_eq_true_eq] at last
            simp only [List.all_cons, feed, last.2, carriage, Bool.true_and]
          · split
            · simp only [List.all_cons, feed, Bool.true_and]
            · rename_i same
              rw [not_not] at same
              simp only [List.all_cons, feed, same, Bool.true_and]
        · split
          · rename_i last
            rw [Bool.and_eq_true, decide_eq_true_eq] at last
            simp only [List.all_cons, feed, last.2, carriage]
          · rw [List.all_cons]

theorem all_unifyLines (before : List Char) (plain : Bool) (pieces : List Piece) :
    (unifyLines before plain pieces).all Text.isBlank =
      (before.all Text.isBlank && pieces.all fun piece => Text.isBlank piece.char) := by
  induction pieces generalizing before plain with
  | nil =>
      rw [unifyLines, List.all_reverse, List.all_nil, Bool.and_true]
  | cons piece rest ih =>
      rw [unifyLines_cons, ih, all_pushPiece, List.all_cons]
      ac_rfl

/-! ### Text between tags -/

theorem textContent?_append_isSome (whole : ¬ EndsInReference raw) :
    (textContent? (raw ++ more)).isSome = ((textContent? raw).isSome && (textContent? more).isSome) := by
  unfold textContent?
  rw [pieces?_append whole]
  cases pieces? raw with
  | none => rfl
  | some front =>
      cases pieces? more with
      | none => rfl
      | some back => rfl

/-- What is blank only adds blanks at the end. -/
theorem textContent?_append_blank {front back both : List Char} (whole : ¬ EndsInReference raw)
    (first : textContent? raw = some front) (second : textContent? more = some back)
    (blank : back.all Text.isBlank = true) (joined : textContent? (raw ++ more) = some both) :
    both.rdropWhile Text.isBlank = front.rdropWhile Text.isBlank := by
  unfold textContent? at first second joined
  rw [pieces?_append whole] at joined
  obtain ⟨one, known, rfl⟩ := Option.map_eq_some_iff.mp first
  obtain ⟨other, known', rfl⟩ := Option.map_eq_some_iff.mp second
  rw [known, known'] at joined
  cases joined
  rw [all_unifyLines, List.all_nil, Bool.true_and, List.all_eq_true] at blank
  exact rdropWhile_unifyLines_append blank

end Contents

end CrossBuild.Xml
