/-
Where tokens end.

A piece of markup ends at its own mark, so it is found again where the text goes on behind it, and only
text between tags reaches on to what follows. Each reader is described by two facts: it leaves the end of
what it was given, and what it leaves grows with the text. A reader of names alone needs an end to see.
-/

import CrossBuild.Xml.Token
import Mathlib.Data.List.Infix

namespace CrossBuild.Xml

section Taking

variable {text rest more content : List Char} {keep : Char → Bool}

/-! ### Runs of characters -/

theorem takeWhile_append_of_dropWhile (ends : text.dropWhile keep ≠ []) :
    (text ++ more).takeWhile keep = text.takeWhile keep := by
  induction text with
  | nil => exact absurd rfl ends
  | cons char others ih =>
      cases kept : keep char with
      | false => simp [kept]
      | true =>
          rw [List.dropWhile_cons_of_pos kept] at ends
          rw [List.cons_append, List.takeWhile_cons_of_pos kept, List.takeWhile_cons_of_pos kept, ih ends]

theorem dropWhile_append_of_ne_nil (ends : text.dropWhile keep ≠ []) :
    (text ++ more).dropWhile keep = text.dropWhile keep ++ more := by
  rw [List.dropWhile_append, if_neg]
  simpa using ends

theorem skipSpaces_append (ends : skipSpaces text ≠ []) :
    skipSpaces (text ++ more) = skipSpaces text ++ more :=
  dropWhile_append_of_ne_nil ends

theorem skipSpaces_suffix : skipSpaces text <:+ text :=
  List.dropWhile_suffix _

/-! ### Marks -/

theorem holds_iff {pattern : List Char} : holds pattern text = true ↔ pattern <:+: text := by
  induction text with
  | nil => simp [holds]
  | cons char others ih =>
      rw [holds, Bool.or_eq_true, ih, List.isPrefixOf_iff_prefix, List.infix_cons_iff]

theorem isPrefixOf_append {mark : List Char} (room : mark.length ≤ text.length) :
    mark.isPrefixOf (text ++ more) = mark.isPrefixOf text := by
  rw [Bool.eq_iff_iff, List.isPrefixOf_iff_prefix, List.isPrefixOf_iff_prefix]
  constructor
  · exact fun found => List.prefix_of_prefix_length_le found (List.prefix_append text more) room
  · exact fun found => found.trans (List.prefix_append text more)

/-- A mark at the start of a text that goes on is there already, unless the text ends within it. -/
theorem prefix_or_mem_inits {mark : List Char} (found : mark <+: text ++ more) :
    mark <+: text ∨ text ∈ mark.inits := by
  rw [List.mem_inits]
  exact List.prefix_or_prefix_of_prefix found (List.prefix_append text more)

theorem breakAt?_parts {mark : List Char} (broken : breakAt? mark text = some (content, rest)) :
    text = content ++ (mark ++ rest) := by
  induction text generalizing content with
  | nil => cases broken
  | cons char others ih =>
      rw [breakAt?] at broken
      split at broken
      · rename_i found
        obtain ⟨behind, whole⟩ := List.isPrefixOf_iff_prefix.mp found
        cases broken
        rw [← whole, List.drop_left, List.nil_append]
      · split at broken
        · obtain ⟨⟨before, after⟩, later, same⟩ := Option.map_eq_some_iff.mp broken
          cases same
          rw [List.cons_append, ← ih later]
        · cases broken

theorem breakAt?_suffix {mark : List Char} (broken : breakAt? mark text = some (content, rest)) :
    rest <:+ text := by
  rw [breakAt?_parts broken, ← List.append_assoc]
  exact List.suffix_append _ _

theorem breakAt?_append {mark : List Char} (broken : breakAt? mark text = some (content, rest)) :
    breakAt? mark (text ++ more) = some (content, rest ++ more) := by
  induction text generalizing content with
  | nil => cases broken
  | cons char others ih =>
      have room := congrArg List.length (breakAt?_parts broken)
      rw [List.length_append, List.length_append] at room
      have same : mark.isPrefixOf (char :: (others ++ more)) = mark.isPrefixOf (char :: others) :=
        @isPrefixOf_append (char :: others) more mark (by omega)
      rw [breakAt?] at broken
      rw [List.cons_append, breakAt?, same]
      split at broken
      · rename_i found
        cases broken
        rw [if_pos found, ← List.cons_append, List.drop_append_of_le_length]
        exact (List.isPrefixOf_iff_prefix.mp found).length_le
      · rename_i absent
        rw [if_neg absent]
        split at broken
        · rename_i allowed
          obtain ⟨⟨before, after⟩, later, same⟩ := Option.map_eq_some_iff.mp broken
          cases same
          rw [if_pos allowed, ih later]
          rfl
        · cases broken

/-! ### Names and attributes -/

theorem takeName?_left {name : List Char} (taken : takeName? text = some (name, rest)) :
    rest = text.dropWhile isNameChar := by
  unfold takeName? at taken
  split at taken
  · cases taken
    rfl
  · cases taken

theorem takeName?_append {name : List Char} (taken : takeName? text = some (name, rest))
    (ends : rest ≠ []) : takeName? (text ++ more) = some (name, rest ++ more) := by
  unfold takeName? at taken ⊢
  split at taken
  · rename_i begins
    cases taken
    have same : beginsLikeName (text ++ more) = true := by
      cases text with
      | nil => cases begins
      | cons char others => exact begins
    rw [if_pos same, takeWhile_append_of_dropWhile ends, dropWhile_append_of_ne_nil ends]
  · cases taken

theorem takeQualifiedName?_append {name : QualifiedName}
    (taken : takeQualifiedName? text = some (name, rest)) (ends : rest ≠ []) :
    takeQualifiedName? (text ++ more) = some (name, rest ++ more) := by
  unfold takeQualifiedName? at taken ⊢
  obtain ⟨own, known, same⟩ := Option.map_eq_some_iff.mp taken
  cases same
  rw [takeWhile_append_of_dropWhile ends, dropWhile_append_of_ne_nil ends, known]
  rfl

theorem takeQualifiedName?_suffix {name : QualifiedName}
    (taken : takeQualifiedName? text = some (name, rest)) : rest <:+ text := by
  unfold takeQualifiedName? at taken
  obtain ⟨own, known, same⟩ := Option.map_eq_some_iff.mp taken
  cases same
  exact List.dropWhile_suffix _

/-- What an assignment consists of. -/
theorem takeAssignment?_eq_some_iff {name : QualifiedName} {value : List Char} :
    takeAssignment? text = some (name, value, rest) ↔
      ∃ afterName afterSign quote body, takeQualifiedName? text = some (name, afterName) ∧
        skipSpaces afterName = '=' :: afterSign ∧ skipSpaces afterSign = quote :: body ∧
        ((quote = '"' || quote = '\'') &&
          (body.takeWhile fun char => char ≠ quote && char ≠ '<').all isDocumentChar) = true ∧
        (body.takeWhile fun char => char ≠ quote && char ≠ '<') = value ∧
        (body.dropWhile fun char => char ≠ quote && char ≠ '<') = quote :: rest := by
  constructor
  · intro taken
    unfold takeAssignment? at taken
    split at taken
    · cases taken
    · rename_i own afterName named
      split at taken
      · rename_i afterSign signed
        split at taken
        · cases taken
        · rename_i quote body quoted
          dsimp only at taken
          split at taken
          · rename_i fine
            split at taken
            · cases taken
            · rename_i close after closed
              split at taken
              · rename_i same
                cases taken
                subst same
                exact ⟨afterName, afterSign, close, body, named, signed, quoted, fine, rfl, closed⟩
              · cases taken
          · cases taken
      · cases taken
  · rintro ⟨afterName, afterSign, quote, body, named, signed, quoted, fine, rfl, closed⟩
    simp only [takeAssignment?, named, signed, quoted, fine, closed, if_true]

theorem takeAssignment?_append {name : QualifiedName} {value : List Char}
    (taken : takeAssignment? text = some (name, value, rest)) :
    takeAssignment? (text ++ more) = some (name, value, rest ++ more) := by
  obtain ⟨afterName, afterSign, quote, body, named, signed, quoted, fine, same, closed⟩ :=
    takeAssignment?_eq_some_iff.mp taken
  have endsName : afterName ≠ [] := by
    rintro rfl
    cases signed
  have endsSign : afterSign ≠ [] := by
    rintro rfl
    cases quoted
  have endsValue : (body.dropWhile fun char => char ≠ quote && char ≠ '<') ≠ [] := by
    rw [closed]
    exact List.cons_ne_nil _ _
  refine takeAssignment?_eq_some_iff.mpr ⟨afterName ++ more, afterSign ++ more, quote, body ++ more,
    takeQualifiedName?_append named endsName, ?_, ?_, ?_, ?_, ?_⟩
  · rw [skipSpaces_append (by rw [signed]; exact List.cons_ne_nil _ _), signed, List.cons_append]
  · rw [skipSpaces_append (by rw [quoted]; exact List.cons_ne_nil _ _), quoted, List.cons_append]
  · rw [takeWhile_append_of_dropWhile endsValue]
    exact fine
  · rw [takeWhile_append_of_dropWhile endsValue]
    exact same
  · rw [dropWhile_append_of_ne_nil endsValue, closed, List.cons_append]

theorem takeAssignment?_suffix {name : QualifiedName} {value : List Char}
    (taken : takeAssignment? text = some (name, value, rest)) : rest <:+ text := by
  obtain ⟨afterName, afterSign, quote, body, named, signed, quoted, -, -, closed⟩ :=
    takeAssignment?_eq_some_iff.mp taken
  have toSign : '=' :: afterSign <:+ afterName := signed ▸ skipSpaces_suffix
  have toBody : quote :: body <:+ afterSign := quoted ▸ skipSpaces_suffix
  have toRest : quote :: rest <:+ body := closed ▸ List.dropWhile_suffix _
  calc
    rest <:+ quote :: rest := List.suffix_cons _ _
    _ <:+ body := toRest
    _ <:+ quote :: body := List.suffix_cons _ _
    _ <:+ afterSign := toBody
    _ <:+ '=' :: afterSign := List.suffix_cons _ _
    _ <:+ afterName := toSign
    _ <:+ text := takeQualifiedName?_suffix named

theorem takeQualifiedName?_cons_eq_none {char : Char} (noName : isNameChar char = false) :
    takeQualifiedName? (char :: text) = none := by
  unfold takeQualifiedName?
  rw [List.takeWhile_cons_of_neg (by simp [noName])]
  rfl

/-- One attribute, or the end of the tag. -/
theorem takeAttributes?_eq_some_iff {fuel : Nat} {attributes : List (QualifiedName × String)} {isEmpty : Bool} :
    takeAttributes? (fuel + 1) text = some (attributes, isEmpty, rest) ↔
      (skipSpaces text = '/' :: '>' :: rest ∧ attributes = [] ∧ isEmpty = true) ∨
      (skipSpaces text = '>' :: rest ∧ attributes = [] ∧ isEmpty = false) ∨
      ∃ name raw value others after, (skipSpaces text).length ≠ text.length ∧
        takeAssignment? (skipSpaces text) = some (name, raw, after) ∧ attributeContent? raw = some value ∧
        takeAttributes? fuel after = some (others, isEmpty, rest) ∧
        attributes = (name, String.ofList value) :: others := by
  constructor
  · intro taken
    rw [takeAttributes?] at taken
    split at taken
    · rename_i after found
      cases taken
      exact .inl ⟨found, rfl, rfl⟩
    · rename_i after found
      cases taken
      exact .inr (.inl ⟨found, rfl, rfl⟩)
    · split at taken
      · cases taken
      · rename_i gap
        split at taken
        · cases taken
        · rename_i name raw after assigned
          split at taken
          · rename_i value others closed behind known later
            cases taken
            exact .inr (.inr ⟨name, raw, value, others, after, gap, assigned, known, later, rfl⟩)
          · cases taken
  · rintro (⟨found, rfl, rfl⟩ | ⟨found, rfl, rfl⟩ |
      ⟨name, raw, value, others, after, gap, assigned, known, later, rfl⟩)
    · simp only [takeAttributes?, found]
    · simp only [takeAttributes?, found]
    · have noEnd : ∀ char behind, skipSpaces text = char :: behind → isNameChar char = true := by
        intro char behind found
        obtain ⟨afterName, _, _, _, named, -⟩ := takeAssignment?_eq_some_iff.mp assigned
        rw [found] at named
        by_contra noName
        rw [takeQualifiedName?_cons_eq_none (Bool.not_eq_true _ ▸ noName)] at named
        cases named
      rw [takeAttributes?]
      split
      · rename_i behind found
        exact absurd (noEnd _ _ found) (by decide)
      · rename_i behind found
        exact absurd (noEnd _ _ found) (by decide)
      · rw [if_neg gap, assigned]
        simp only [known, later]

theorem takeAttributes?_append {fuel : Nat} {attributes : List (QualifiedName × String)} {isEmpty : Bool}
    (taken : takeAttributes? fuel text = some (attributes, isEmpty, rest)) {wider : Nat} (enough : fuel ≤ wider) :
    takeAttributes? wider (text ++ more) = some (attributes, isEmpty, rest ++ more) := by
  induction fuel generalizing text attributes wider with
  | zero => cases taken
  | succ fuel ih =>
      obtain ⟨wider, rfl⟩ := Nat.exists_eq_succ_of_ne_zero (Nat.ne_of_gt (Nat.lt_of_lt_of_le fuel.succ_pos enough))
      have grows : ∀ {char behind}, skipSpaces text = char :: behind →
          skipSpaces (text ++ more) = char :: (behind ++ more) := by
        intro char behind found
        rw [skipSpaces_append (by rw [found]; exact List.cons_ne_nil _ _), found, List.cons_append]
      apply takeAttributes?_eq_some_iff.mpr
      rcases takeAttributes?_eq_some_iff.mp taken with ⟨found, rfl, rfl⟩ | ⟨found, rfl, rfl⟩ |
        ⟨name, raw, value, others, after, gap, assigned, known, later, rfl⟩
      · exact .inl ⟨grows found, rfl, rfl⟩
      · exact .inr (.inl ⟨grows found, rfl, rfl⟩)
      · have something : skipSpaces text ≠ [] := by
          intro nothing
          rw [nothing] at assigned
          cases assigned
        refine .inr (.inr ⟨name, raw, value, others, after ++ more, ?_, ?_, known, ?_, rfl⟩)
        · rw [skipSpaces_append something, List.length_append, List.length_append]
          omega
        · rw [skipSpaces_append something]
          exact takeAssignment?_append assigned
        · exact ih later (Nat.le_of_succ_le_succ enough)

theorem takeAttributes?_suffix {fuel : Nat} {attributes : List (QualifiedName × String)} {isEmpty : Bool}
    (taken : takeAttributes? fuel text = some (attributes, isEmpty, rest)) : rest <:+ text := by
  induction fuel generalizing text attributes with
  | zero => cases taken
  | succ fuel ih =>
      refine List.IsSuffix.trans ?_ skipSpaces_suffix
      rcases takeAttributes?_eq_some_iff.mp taken with ⟨found, -⟩ | ⟨found, -⟩ |
        ⟨name, raw, value, others, after, -, assigned, -, later, -⟩
      · rw [found]
        exact (List.suffix_cons _ _).trans (List.suffix_cons _ _)
      · rw [found]
        exact List.suffix_cons _ _
      · exact (ih later).trans (takeAssignment?_suffix assigned)

/-! ### Tokens -/

theorem takeStartTag?_append {token : Token} (taken : takeStartTag? text = some (token, rest)) :
    takeStartTag? (text ++ more) = some (token, rest ++ more) := by
  unfold takeStartTag? at taken ⊢
  split at taken
  · cases taken
  · rename_i name afterName named
    obtain ⟨⟨attributes, isEmpty, after⟩, found, same⟩ := Option.map_eq_some_iff.mp taken
    cases same
    have ends : afterName ≠ [] := by
      rintro rfl
      cases found
    rw [takeQualifiedName?_append named ends]
    dsimp only
    rw [takeAttributes?_append found (by rw [List.length_append]; omega)]
    rfl

theorem takeStartTag?_suffix {token : Token} (taken : takeStartTag? text = some (token, rest)) :
    rest <:+ text := by
  unfold takeStartTag? at taken
  split at taken
  · cases taken
  · rename_i name afterName named
    obtain ⟨⟨attributes, isEmpty, after⟩, found, same⟩ := Option.map_eq_some_iff.mp taken
    cases same
    exact (takeAttributes?_suffix found).trans (takeQualifiedName?_suffix named)

theorem takeEndTag?_eq_some_iff {token : Token} :
    takeEndTag? text = some (token, rest) ↔ ∃ name afterName,
      takeQualifiedName? text = some (name, afterName) ∧ skipSpaces afterName = '>' :: rest ∧
        token = .endTag name := by
  constructor
  · intro taken
    unfold takeEndTag? at taken
    split at taken
    · cases taken
    · rename_i name afterName named
      split at taken
      · rename_i after closed
        cases taken
        exact ⟨name, afterName, named, closed, rfl⟩
      · cases taken
  · rintro ⟨name, afterName, named, closed, rfl⟩
    simp only [takeEndTag?, named, closed]

theorem takeEndTag?_append {token : Token} (taken : takeEndTag? text = some (token, rest)) :
    takeEndTag? (text ++ more) = some (token, rest ++ more) := by
  obtain ⟨name, afterName, named, closed, same⟩ := takeEndTag?_eq_some_iff.mp taken
  have ends : afterName ≠ [] := by
    rintro rfl
    cases closed
  refine takeEndTag?_eq_some_iff.mpr ⟨name, afterName ++ more, takeQualifiedName?_append named ends, ?_, same⟩
  rw [skipSpaces_append (by rw [closed]; exact List.cons_ne_nil _ _), closed, List.cons_append]

theorem takeEndTag?_suffix {token : Token} (taken : takeEndTag? text = some (token, rest)) :
    rest <:+ text := by
  obtain ⟨name, afterName, named, closed, -⟩ := takeEndTag?_eq_some_iff.mp taken
  have toEnd : '>' :: rest <:+ afterName := closed ▸ skipSpaces_suffix
  exact (List.suffix_cons _ _).trans (toEnd.trans (takeQualifiedName?_suffix named))

theorem takeComment?_eq_some_iff :
    takeComment? text = some rest ↔ ∃ content, breakAt? "-->".toList text = some (content, rest) ∧
      ¬ "--".toList <:+: content ∧ content.getLast? ≠ some '-' := by
  unfold takeComment?
  cases breakAt? "-->".toList text with
  | none => simp
  | some parts =>
      obtain ⟨content, after⟩ := parts
      simp only [Bool.or_eq_true, holds_iff, decide_eq_true_eq, Option.some.injEq, Prod.mk.injEq]
      constructor
      · intro taken
        split at taken
        · cases taken
        · rename_i fine
          cases taken
          exact ⟨content, ⟨rfl, rfl⟩, fun inside => fine (.inl inside), fun last => fine (.inr last)⟩
      · rintro ⟨own, ⟨rfl, rfl⟩, noDashes, noDash⟩
        rw [if_neg]
        rintro (inside | last)
        · exact noDashes inside
        · exact noDash last

theorem takeComment?_append (taken : takeComment? text = some rest) :
    takeComment? (text ++ more) = some (rest ++ more) := by
  obtain ⟨content, broken, fine⟩ := takeComment?_eq_some_iff.mp taken
  exact takeComment?_eq_some_iff.mpr ⟨content, breakAt?_append broken, fine⟩

theorem takeComment?_suffix (taken : takeComment? text = some rest) : rest <:+ text := by
  obtain ⟨content, broken, -⟩ := takeComment?_eq_some_iff.mp taken
  exact breakAt?_suffix broken

theorem takeInstruction?_eq_some_iff :
    takeInstruction? text = some rest ↔ ¬ "xml ".toList <+: text ∧ ∃ name afterName content,
      takeName? text = some (name, afterName) ∧
        breakAt? "?>".toList (skipSpaces afterName) = some (content, rest) := by
  unfold takeInstruction?
  rw [← List.isPrefixOf_iff_prefix]
  cases "xml ".toList.isPrefixOf text with
  | true => simp
  | false =>
      cases takeName? text with
      | none => simp
      | some parts =>
          obtain ⟨name, afterName⟩ := parts
          simp [Option.map_eq_some_iff]

theorem takeInstruction?_append (taken : takeInstruction? text = some rest) :
    takeInstruction? (text ++ more) = some (rest ++ more) := by
  obtain ⟨noDeclaration, name, afterName, content, named, broken⟩ := takeInstruction?_eq_some_iff.mp taken
  have some : skipSpaces afterName ≠ [] := by
    intro nothing
    rw [nothing] at broken
    cases broken
  have ends : afterName ≠ [] := by
    rintro rfl
    exact some rfl
  refine takeInstruction?_eq_some_iff.mpr ⟨fun found => ?_, name, afterName ++ more, content,
    takeName?_append named ends, ?_⟩
  · rcases prefix_or_mem_inits found with found | short
    · exact noDeclaration found
    · have unfinished : ∀ short ∈ "xml ".toList.inits, takeInstruction? short = none := by
        decide
      rw [unfinished text short] at taken
      cases taken
  · rw [skipSpaces_append some]
    exact breakAt?_append broken

theorem takeInstruction?_suffix (taken : takeInstruction? text = some rest) : rest <:+ text := by
  obtain ⟨-, name, afterName, content, named, broken⟩ := takeInstruction?_eq_some_iff.mp taken
  rw [takeName?_left named] at broken
  exact (breakAt?_suffix broken).trans (skipSpaces_suffix.trans (List.dropWhile_suffix _))

/-- Text that may stand between two tags. -/
def isText (text : List Char) : Bool :=
  text.all isDocumentChar && !holds "]]>".toList text

/-- What a piece of markup is, after its bracket. -/
inductive Markup : List Char → Token → List Char → Prop
  | comment {text rest : List Char} (taken : takeComment? text = some rest) :
      Markup ('!' :: '-' :: '-' :: text) .remark rest
  | instruction {text rest : List Char} (taken : takeInstruction? text = some rest) :
      Markup ('?' :: text) .remark rest
  | endTag {text rest : List Char} {token : Token} (taken : takeEndTag? text = some (token, rest)) :
      Markup ('/' :: text) token rest
  | verbatim {text content rest : List Char} (broken : breakAt? "]]>".toList text = some (content, rest)) :
      Markup ('!' :: "[CDATA[".toList ++ text) (.verbatim (sectionContent content)) rest
  | startTag {text rest : List Char} {token : Token} (taken : takeStartTag? text = some (token, rest)) :
      Markup text token rest

theorem takeToken?_markup_iff {token : Token} :
    takeToken? ('<' :: text) = some (token, rest) ↔ Markup text token rest := by
  constructor
  · intro taken
    unfold takeToken? at taken
    split at taken
    · rename_i same
      cases same
      obtain ⟨after, found, same⟩ := Option.map_eq_some_iff.mp taken
      cases same
      exact .comment found
    · rename_i same
      cases same
      obtain ⟨after, found, same⟩ := Option.map_eq_some_iff.mp taken
      cases same
      exact .instruction found
    · rename_i same
      cases same
      exact .endTag taken
    · rename_i same
      cases same
      dsimp only at taken
      split at taken
      · rename_i opened
        obtain ⟨behind, rfl⟩ := List.isPrefixOf_iff_prefix.mp opened
        rw [List.drop_left] at taken
        obtain ⟨⟨content, after⟩, found, same⟩ := Option.map_eq_some_iff.mp taken
        cases same
        exact .verbatim found
      · cases taken
    · rename_i same
      cases same
      exact .startTag taken
    · rename_i noMarkup
      exact absurd rfl (noMarkup text)
  · intro markup
    cases markup with
    | comment found => exact Option.map_eq_some_iff.mpr ⟨rest, found, rfl⟩
    | instruction found => exact Option.map_eq_some_iff.mpr ⟨rest, found, rfl⟩
    | endTag found => exact found
    | @verbatim behind content _ broken =>
        change (breakAt? "]]>".toList (("[CDATA[".toList ++ behind).drop "[CDATA[".toList.length)).map _ = _
        rw [List.drop_left, broken]
        rfl
    | startTag found =>
        have named : ∀ char behind, text = char :: behind → isNameChar char = true := by
          rintro char behind rfl
          by_contra noName
          unfold takeStartTag? at found
          rw [takeQualifiedName?_cons_eq_none (Bool.not_eq_true _ ▸ noName)] at found
          cases found
        unfold takeToken?
        split
        case h_5 same =>
          cases same
          exact found
        case h_6 noMarkup => exact absurd rfl (noMarkup text)
        -- a name begins like none of the other kinds of markup
        all_goals
          rename_i same
          cases same
          exact absurd (named _ _ rfl) (by decide)

theorem Markup.append {token : Token} (markup : Markup text token rest) :
    Markup (text ++ more) token (rest ++ more) := by
  cases markup with
  | comment found => exact .comment (takeComment?_append found)
  | instruction found => exact .instruction (takeInstruction?_append found)
  | endTag found => exact .endTag (takeEndTag?_append found)
  | verbatim broken =>
      rw [List.append_assoc]
      exact .verbatim (breakAt?_append broken)
  | startTag found => exact .startTag (takeStartTag?_append found)

theorem Markup.suffix {token : Token} (markup : Markup text token rest) : rest <:+ text := by
  cases markup with
  | comment found =>
      refine (takeComment?_suffix found).trans ?_
      exact List.suffix_append ['!', '-', '-'] _
  | instruction found => exact (takeInstruction?_suffix found).trans (List.suffix_cons _ _)
  | endTag found => exact (takeEndTag?_suffix found).trans (List.suffix_cons _ _)
  | verbatim broken => exact (breakAt?_suffix broken).trans (List.suffix_append _ _)
  | startTag found => exact takeStartTag?_suffix found

/-! ### The declaration -/

theorem takeGap?_append (taken : takeGap? text = some rest) (ends : rest ≠ []) :
    takeGap? (text ++ more) = some (rest ++ more) := by
  unfold takeGap? at taken ⊢
  dsimp only at taken ⊢
  split at taken
  · rename_i gap
    cases taken
    rw [skipSpaces_append ends, if_pos]
    rw [Bool.or_eq_true, decide_eq_true_eq, List.isPrefixOf_iff_prefix] at gap ⊢
    rcases gap with shorter | closed
    · left
      rw [List.length_append, List.length_append]
      omega
    · exact .inr (closed.trans (List.prefix_append _ _))
  · cases taken

theorem takePart?_append {name : String} (taken : takePart? name text = some rest)
    (whole : text ∉ name.toList.inits) : takePart? name (text ++ more) = some (rest ++ more) := by
  unfold takePart? at taken ⊢
  split at taken
  · rename_i found
    obtain ⟨⟨own, value, after⟩, assigned, same⟩ := Option.map_eq_some_iff.mp taken
    cases same
    have grown := (List.isPrefixOf_iff_prefix.mp found).trans (List.prefix_append text more)
    rw [if_pos (List.isPrefixOf_iff_prefix.mpr grown), takeAssignment?_append assigned]
    rfl
  · rename_i absent
    cases taken
    rw [if_neg]
    intro found
    rcases prefix_or_mem_inits (List.isPrefixOf_iff_prefix.mp found) with early | short
    · exact absent (List.isPrefixOf_iff_prefix.mpr early)
    · exact whole short

theorem takeGap?_suffix (taken : takeGap? text = some rest) : rest <:+ text := by
  unfold takeGap? at taken
  dsimp only at taken
  split at taken
  · cases taken
    exact skipSpaces_suffix
  · cases taken

theorem takePart?_suffix {name : String} (taken : takePart? name text = some rest) : rest <:+ text := by
  unfold takePart? at taken
  split at taken
  · obtain ⟨⟨own, value, after⟩, assigned, same⟩ := Option.map_eq_some_iff.mp taken
    cases same
    exact takeAssignment?_suffix assigned
  · cases taken
    exact List.suffix_refl _

/-- The encoding, where the declaration gives it, and the gap behind it. -/
def takeEncoding? (text : List Char) : Option (List Char) :=
  if "encoding".toList.isPrefixOf text then (takePart? "encoding" text).bind takeGap? else some text

/-- The last part of the declaration and its end. -/
def takeEnd? (text : List Char) : Option (List Char) :=
  (takePart? "standalone" text).bind fun last =>
    match skipSpaces last with
    | '?' :: '>' :: rest => some rest
    | _ => none

theorem takeDeclaration?_eq : takeDeclaration? text =
    if "version".toList.isPrefixOf (skipSpaces text) then
      ((takePart? "version" (skipSpaces text)).bind takeGap?).bind fun after => (takeEncoding? after).bind takeEnd?
    else none := by
  unfold takeDeclaration? takeEncoding?
  generalize skipSpaces text = start
  dsimp only
  cases "version".toList.isPrefixOf start with
  | false => rfl
  | true =>
      cases takePart? "version" start with
      | none => rfl
      | some version =>
          change (takeGap? version).bind _ = (takeGap? version).bind _
          refine Option.bind_congr fun after _ => ?_
          split
          · cases takePart? "encoding" after with
            | none => rfl
            | some encoding =>
                change (takeGap? encoding).bind _ = (takeGap? encoding).bind _
                exact Option.bind_congr fun encoded _ => rfl
          · rfl

theorem takeEnd?_append (taken : takeEnd? text = some rest) : takeEnd? (text ++ more) = some (rest ++ more) := by
  have whole : text ∉ "standalone".toList.inits := by
    have unfinished : ∀ short ∈ "standalone".toList.inits, takeEnd? short = none := by
      decide
    intro short
    rw [unfinished text short] at taken
    cases taken
  unfold takeEnd? at taken ⊢
  obtain ⟨last, part, closed⟩ := Option.bind_eq_some_iff.mp taken
  rw [takePart?_append part whole, Option.bind_some]
  split at closed
  · rename_i behind found
    cases closed
    simp only [skipSpaces_append (by rw [found]; exact List.cons_ne_nil _ _), found, List.cons_append]
  · cases closed

theorem takeEncoding?_append {encoded : List Char} (taken : takeEncoding? text = some encoded)
    (ends : takeEnd? encoded = some rest) : takeEncoding? (text ++ more) = some (encoded ++ more) := by
  have whole : text ∉ "encoding".toList.inits := by
    have unfinished : ∀ short ∈ "encoding".toList.inits, (takeEncoding? short).bind takeEnd? = none := by
      decide
    intro short
    have nothing := unfinished text short
    rw [taken, Option.bind_some, ends] at nothing
    cases nothing
  have something : encoded ≠ [] := by
    rintro rfl
    cases ends
  unfold takeEncoding? at taken ⊢
  split at taken
  · rename_i found
    obtain ⟨value, part, gap⟩ := Option.bind_eq_some_iff.mp taken
    have grown := (List.isPrefixOf_iff_prefix.mp found).trans (List.prefix_append text more)
    rw [if_pos (List.isPrefixOf_iff_prefix.mpr grown), takePart?_append part whole, Option.bind_some,
      takeGap?_append gap something]
  · rename_i absent
    cases taken
    rw [if_neg]
    intro found
    rcases prefix_or_mem_inits (List.isPrefixOf_iff_prefix.mp found) with early | short
    · exact absent (List.isPrefixOf_iff_prefix.mpr early)
    · exact whole short

theorem takeDeclaration?_suffix (taken : takeDeclaration? text = some rest) : rest <:+ text := by
  rw [takeDeclaration?_eq] at taken
  split at taken
  · obtain ⟨after, version, later⟩ := Option.bind_eq_some_iff.mp taken
    obtain ⟨encoded, encoding, ends⟩ := Option.bind_eq_some_iff.mp later
    obtain ⟨value, part, gap⟩ := Option.bind_eq_some_iff.mp version
    have toAfter := (takeGap?_suffix gap).trans (takePart?_suffix part)
    have toEncoded : encoded <:+ after := by
      unfold takeEncoding? at encoding
      split at encoding
      · obtain ⟨value, part, gap⟩ := Option.bind_eq_some_iff.mp encoding
        exact (takeGap?_suffix gap).trans (takePart?_suffix part)
      · cases encoding
        exact List.suffix_refl _
    unfold takeEnd? at ends
    obtain ⟨last, part, closed⟩ := Option.bind_eq_some_iff.mp ends
    split at closed
    · rename_i behind found
      cases closed
      have toRest : '?' :: '>' :: rest <:+ last := found ▸ skipSpaces_suffix
      calc
        rest <:+ '?' :: '>' :: rest := List.suffix_append ['?', '>'] rest
        _ <:+ last := toRest
        _ <:+ encoded := takePart?_suffix part
        _ <:+ after := toEncoded
        _ <:+ skipSpaces text := toAfter
        _ <:+ text := skipSpaces_suffix
    · cases closed
  · cases taken

theorem takeDeclaration?_append (taken : takeDeclaration? text = some rest) :
    takeDeclaration? (text ++ more) = some (rest ++ more) := by
  rw [takeDeclaration?_eq] at taken ⊢
  split at taken
  · rename_i found
    obtain ⟨after, version, later⟩ := Option.bind_eq_some_iff.mp taken
    obtain ⟨encoded, encoding, ends⟩ := Option.bind_eq_some_iff.mp later
    obtain ⟨value, part, gap⟩ := Option.bind_eq_some_iff.mp version
    have begins := List.isPrefixOf_iff_prefix.mp found
    have something : skipSpaces text ≠ [] := by
      intro nothing
      rw [nothing] at begins
      exact absurd begins (by decide)
    have furtherOn : after ≠ [] := by
      rintro rfl
      cases encoding
      cases ends
    have whole : skipSpaces text ∉ "version".toList.inits := by
      have unfinished : ∀ short ∈ "version".toList.inits, "version".toList.isPrefixOf short = true →
          takePart? "version" short = none := by
        decide
      intro short
      rw [unfinished _ short found] at part
      cases part
    rw [skipSpaces_append something, if_pos (List.isPrefixOf_iff_prefix.mpr (begins.trans (List.prefix_append _ _))),
      takePart?_append part whole, Option.bind_some, takeGap?_append gap furtherOn, Option.bind_some,
      takeEncoding?_append encoding ends, Option.bind_some, takeEnd?_append ends]
  · cases taken

end Taking

end CrossBuild.Xml
