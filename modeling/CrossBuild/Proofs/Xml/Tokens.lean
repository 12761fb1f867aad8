/-
The tokens of a text that goes on.

The tokens of the first part of a text are tokens of the whole, except for text at its end, which may go
on in the second part. So between two tokens, and within text, a comment can be put without a change to
the tokens around it: it only separates the text before it from the text behind it.
-/

import CrossBuild.Proofs.Xml.Taking

namespace CrossBuild.Xml

/-- The tokens of a text behind the declaration. -/
def tokensOf? (text : List Char) : Option (List Token) :=
  tokensWithin? text.length text

/-- The token of a text without markup, if there is any text. -/
def textTokens (raw : List Char) : List Token :=
  if raw = [] then [] else [.text raw]

/-- Nothing follows, or markup does. -/
def AtMarkup (text : List Char) : Prop :=
  text = [] ∨ text.head? = some '<'

/-- A mark begins in the first part of a text and ends in the second. -/
def Straddles (mark before after : List Char) : Prop :=
  ∃ front back, mark = front ++ back ∧ front ≠ [] ∧ back ≠ [] ∧ front <:+ before ∧ back <+: after

/-- A comment as it is written. -/
def IsComment (comment : List Char) : Prop :=
  ∃ content, comment = "<!--".toList ++ (content ++ "-->".toList) ∧ content.all isDocumentChar = true ∧
    ¬ "--".toList <:+: content ∧ content.getLast? ≠ some '-'

/-- The text behind the byte order mark. -/
def unmarked (text : List Char) : List Char :=
  match text with
  | '\uFEFF' :: rest => rest
  | _ => text

/-- The text behind the byte order mark and the declaration. -/
def body? (text : List Char) : Option (List Char) :=
  if "<?xml ".toList.isPrefixOf (unmarked text) then takeDeclaration? ((unmarked text).drop 5)
  else some (unmarked text)

/-- A place stands before the byte order mark or the declaration. -/
def StandsAhead (before after : List Char) : Prop :=
  (before = [] ∧ after.head? = some '\uFEFF') ∨
    ((before = [] ∨ before = ['\uFEFF']) ∧ "<?xml ".toList <+: after)

section Tokens

variable {text rest more raw before after : List Char} {token : Token} {tokens : List Token}

/-! ### One token -/

theorem takeToken?_text {char : Char} (noMarkup : char ≠ '<') :
    takeToken? (char :: text) = takeText? (char :: text) := by
  unfold takeToken?
  split
  case h_6 => rfl
  all_goals
    rename_i same
    cases same
    exact absurd rfl noMarkup

theorem takeWhile_text (plain : '<' ∉ raw) (markup : AtMarkup more) :
    (raw ++ more).takeWhile (fun char => char ≠ '<') = raw ∧
      (raw ++ more).dropWhile (fun char => char ≠ '<') = more := by
  induction raw with
  | nil =>
      rcases markup with rfl | begins
      · exact ⟨rfl, rfl⟩
      · obtain ⟨behind, rfl⟩ := List.head?_eq_some_iff.mp begins
        exact ⟨rfl, rfl⟩
  | cons char others ih =>
      rw [List.mem_cons, not_or] at plain
      have kept : decide (char ≠ '<') = true := decide_eq_true (Ne.symm plain.1)
      simp only [List.cons_append, List.takeWhile_cons, List.dropWhile_cons, kept, if_true]
      exact ⟨congrArg _ (ih plain.2).1, (ih plain.2).2⟩

/-- Text is taken as a whole. -/
theorem takeToken?_raw (plain : '<' ∉ raw) (something : raw ≠ []) (markup : AtMarkup more) :
    takeToken? (raw ++ more) = if isText raw = true then some (.text raw, more) else none := by
  obtain ⟨taken, left⟩ := takeWhile_text plain markup
  have same : takeToken? (raw ++ more) = takeText? (raw ++ more) := by
    cases raw with
    | nil => exact absurd rfl something
    | cons char others =>
        exact takeToken?_text fun same => plain (same ▸ List.mem_cons_self)
  rw [same]
  unfold takeText?
  rw [taken, left]
  rfl

/-- Each text is text and markup behind it. -/
theorem exists_raw (text : List Char) : ∃ raw more, text = raw ++ more ∧ '<' ∉ raw ∧ AtMarkup more := by
  refine ⟨text.takeWhile (fun char => char ≠ '<'), text.dropWhile (fun char => char ≠ '<'),
    List.takeWhile_append_dropWhile.symm, ?_, ?_⟩
  · intro inside
    simpa using List.all_eq_true.mp List.all_takeWhile _ inside
  · cases found : text.dropWhile (fun char => char ≠ '<') with
    | nil => exact .inl rfl
    | cons char behind =>
        have stops := List.head?_dropWhile_not (fun char => decide (char ≠ '<')) text
        rw [found] at stops
        right
        simpa using stops

theorem takeToken?_append (taken : takeToken? text = some (token, rest)) (more : List Char)
    (ends : text.head? = some '<' ∨ rest ≠ []) :
    takeToken? (text ++ more) = some (token, rest ++ more) := by
  obtain ⟨raw, behind, rfl, plain, markup⟩ := exists_raw text
  by_cases noText : raw = []
  · subst noText
    rcases markup with rfl | begins
    · cases taken
      rcases ends with ends | ends
      · cases ends
      · exact absurd rfl ends
    · obtain ⟨inside, rfl⟩ := List.head?_eq_some_iff.mp begins
      exact takeToken?_markup_iff.mpr (takeToken?_markup_iff.mp taken).append
  · rw [takeToken?_raw plain noText markup] at taken
    split at taken
    · rename_i fine
      cases taken
      have something : rest ≠ [] := by
        rcases ends with ends | ends
        · cases raw with
          | nil => exact absurd rfl noText
          | cons char others =>
              cases ends
              exact absurd List.mem_cons_self plain
        · exact ends
      have begins : AtMarkup (rest ++ more) := by
        rcases markup with rfl | begins
        · exact absurd rfl something
        · right
          rw [List.head?_append, begins]
          rfl
      rw [List.append_assoc, takeToken?_raw plain noText begins, if_pos fine]
    · cases taken

theorem takeToken?_suffix (taken : takeToken? text = some (token, rest)) (something : text ≠ []) :
    rest <:+ text ∧ rest.length < text.length := by
  obtain ⟨raw, behind, rfl, plain, markup⟩ := exists_raw text
  by_cases noText : raw = []
  · subst noText
    rcases markup with rfl | begins
    · exact absurd rfl something
    · obtain ⟨inside, rfl⟩ := List.head?_eq_some_iff.mp begins
      have left := (takeToken?_markup_iff.mp taken).suffix
      exact ⟨left.trans (List.suffix_cons _ _), Nat.lt_succ_of_le left.length_le⟩
  · rw [takeToken?_raw plain noText markup] at taken
    split at taken
    · cases taken
      have room := List.length_pos_iff.mpr noText
      refine ⟨List.suffix_append _ _, ?_⟩
      rw [List.length_append]
      omega
    · cases taken

/-! ### All tokens -/

theorem tokensWithin?_cons (fuel : Nat) (char : Char) (others : List Char) :
    tokensWithin? (fuel + 1) (char :: others) = (takeToken? (char :: others)).bind fun found =>
      (tokensWithin? fuel found.2).map fun tokens => found.1 :: tokens := by
  rw [tokensWithin?]
  · cases takeToken? (char :: others) with
    | none => rfl
    | some found => rfl
  · exact List.cons_ne_nil _ _

/-- More fuel than characters makes no difference. -/
theorem tokensWithin?_of_le {fuel : Nat} (enough : text.length ≤ fuel) :
    tokensWithin? fuel text = tokensOf? text := by
  have agree : ∀ bound, ∀ text : List Char, text.length ≤ bound → ∀ one other,
      text.length ≤ one → text.length ≤ other → tokensWithin? one text = tokensWithin? other text := by
    intro bound
    induction bound with
    | zero =>
        intro text short one other _ _
        rw [List.length_eq_zero_iff.mp (Nat.le_zero.mp short), tokensWithin?, tokensWithin?]
    | succ bound ih =>
        intro text short one other enough enough'
        cases text with
        | nil => rw [tokensWithin?, tokensWithin?]
        | cons char others =>
            rw [List.length_cons] at short enough enough'
            obtain ⟨one, rfl⟩ := Nat.exists_eq_succ_of_ne_zero (by omega : one ≠ 0)
            obtain ⟨other, rfl⟩ := Nat.exists_eq_succ_of_ne_zero (by omega : other ≠ 0)
            rw [tokensWithin?_cons, tokensWithin?_cons]
            refine Option.bind_congr fun found taken => ?_
            have shorter := (takeToken?_suffix taken (List.cons_ne_nil _ _)).2
            rw [List.length_cons] at shorter
            rw [ih found.2 (by omega) one other (by omega) (by omega)]
  exact agree text.length text le_rfl fuel text.length enough le_rfl

@[simp] theorem tokensOf?_nil : tokensOf? [] = some [] := rfl

theorem tokensOf?_of_ne_nil (something : text ≠ []) :
    tokensOf? text = (takeToken? text).bind fun found =>
      (tokensOf? found.2).map fun tokens => found.1 :: tokens := by
  cases text with
  | nil => exact absurd rfl something
  | cons char others =>
      unfold tokensOf?
      rw [List.length_cons, tokensWithin?_cons]
      refine Option.bind_congr fun found taken => ?_
      have shorter := (takeToken?_suffix taken something).2
      rw [List.length_cons] at shorter
      rw [tokensWithin?_of_le (by omega)]
      rfl

theorem tokensOf?_markup {text : List Char} (markup : Markup text token rest) :
    tokensOf? ('<' :: text) = (tokensOf? rest).map fun tokens => token :: tokens := by
  rw [tokensOf?_of_ne_nil (List.cons_ne_nil _ _), takeToken?_markup_iff.mpr markup, Option.bind_some]

theorem tokensOf?_raw (plain : '<' ∉ raw) (markup : AtMarkup more) :
    tokensOf? (raw ++ more) = if isText raw = true then
      (tokensOf? more).map (textTokens raw ++ ·) else none := by
  by_cases noText : raw = []
  · subst noText
    have fine : isText [] = true := by
      decide
    rw [if_pos fine, List.nil_append, textTokens, if_pos rfl]
    exact Option.map_id'.symm
  · have something : raw ++ more ≠ [] := by
      simp [noText]
    rw [tokensOf?_of_ne_nil something, takeToken?_raw plain noText markup, textTokens, if_neg noText]
    cases isText raw with
    | false => rfl
    | true => rfl

/-- The tokens of the first part of a text stay when the text goes on, up to text that stands at its end. -/
theorem tokensOf?_append (lexed : tokensOf? before = some tokens) :
    ∃ earlier raw, '<' ∉ raw ∧ isText raw = true ∧ raw <:+ before ∧ tokens = earlier ++ textTokens raw ∧
      ∀ more, tokensOf? (before ++ more) = (tokensOf? (raw ++ more)).map (earlier ++ ·) := by
  induction length : before.length using Nat.strong_induction_on generalizing before tokens with
  | _ size ih =>
      by_cases nothing : before = []
      · subst nothing
        cases lexed
        refine ⟨[], [], List.not_mem_nil, by decide, List.suffix_refl _, rfl, fun more => ?_⟩
        exact Option.map_id'.symm
      · have first := lexed
        rw [tokensOf?_of_ne_nil nothing] at first
        obtain ⟨⟨token, rest⟩, taken, later⟩ := Option.bind_eq_some_iff.mp first
        obtain ⟨others, later, same⟩ := Option.map_eq_some_iff.mp later
        by_cases ends : before.head? = some '<' ∨ rest ≠ []
        · obtain ⟨left, shorter⟩ := takeToken?_suffix taken nothing
          obtain ⟨earlier, raw, plain, fine, behind, whole, grows⟩ :=
            ih rest.length (by omega) later rfl
          refine ⟨token :: earlier, raw, plain, fine, behind.trans left, ?_, fun more => ?_⟩
          · rw [← same, whole]
            rfl
          · have something : before ++ more ≠ [] := by
              simp [nothing]
            rw [tokensOf?_of_ne_nil something, takeToken?_append taken more ends, Option.bind_some, grows more,
              Option.map_map]
            rfl
        · -- The last token is text that takes all that is left.
          rw [not_or, not_not] at ends
          obtain ⟨noMarkup, rfl⟩ := ends
          obtain ⟨raw, behind, rfl, plain, markup⟩ := exists_raw before
          have something : raw ≠ [] := by
            rintro rfl
            rcases markup with rfl | begins
            · exact nothing rfl
            · exact noMarkup begins
          rw [takeToken?_raw plain something markup] at taken
          split at taken
          · rename_i fine
            cases taken
            cases later
            refine ⟨[], raw, plain, fine, ?_, ?_, fun more => ?_⟩
            · rw [List.append_nil]
            · rw [← same, textTokens, if_neg something]
              rfl
            · rw [List.append_nil]
              exact Option.map_id'.symm
          · cases taken

/-! ### Comments -/

theorem breakAt?_content {content mark : List Char} (marked : mark ≠ [])
    (allowed : content.all isDocumentChar = true)
    (first : ∀ after, after <:+ content → after ≠ [] → ¬ mark <+: after ++ (mark ++ rest)) :
    breakAt? mark (content ++ (mark ++ rest)) = some (content, rest) := by
  induction content with
  | nil =>
      obtain ⟨char, others, rfl⟩ := List.exists_cons_of_ne_nil marked
      have found : (char :: others).isPrefixOf (char :: (others ++ rest)) = true :=
        List.isPrefixOf_iff_prefix.mpr ⟨rest, rfl⟩
      rw [List.nil_append, List.cons_append, breakAt?, if_pos found, ← List.cons_append, List.drop_left]
  | cons char others ih =>
      have noMark : ¬ mark.isPrefixOf (char :: (others ++ (mark ++ rest))) = true := fun found =>
        first (char :: others) (List.suffix_refl _) (List.cons_ne_nil _ _) (List.isPrefixOf_iff_prefix.mp found)
      rw [List.all_cons, Bool.and_eq_true] at allowed
      rw [List.cons_append, breakAt?, if_neg noMark, if_pos allowed.1,
        ih allowed.2 fun after behind => first after (behind.trans (List.suffix_cons _ _))]
      rfl

theorem IsComment.markup {comment : List Char} (well : IsComment comment) (rest : List Char) :
    ∃ text, comment ++ rest = '<' :: text ∧ Markup text .remark rest := by
  obtain ⟨content, rfl, allowed, noDashes, noDash⟩ := well
  refine ⟨'!' :: '-' :: '-' :: (content ++ ("-->".toList ++ rest)), ?_, ?_⟩
  · rw [List.append_assoc, List.append_assoc]
    rfl
  · refine .comment (takeComment?_eq_some_iff.mpr ⟨content, ?_, noDashes, noDash⟩)
    refine breakAt?_content (by decide) allowed ?_
    -- Before the end of the comment, the mark would begin with two dashes of its content or with the last.
    intro after behind something found
    cases after with
    | nil => exact something rfl
    | cons char others =>
        have mark : "-->".toList = ['-', '-', '>'] := by
          decide
        rw [mark, List.cons_append, List.cons_prefix_cons] at found
        obtain ⟨rfl, found⟩ := found
        cases others with
        | nil =>
            obtain ⟨before, rfl⟩ := behind
            exact noDash List.getLast?_concat
        | cons second others =>
            rw [List.cons_append, List.cons_prefix_cons] at found
            obtain ⟨rfl, -⟩ := found
            exact noDashes ((List.prefix_append ['-', '-'] others).isInfix.trans behind.isInfix)

theorem tokensOf?_comment {comment : List Char} (well : IsComment comment) (rest : List Char) :
    tokensOf? (comment ++ rest) = (tokensOf? rest).map fun tokens => .remark :: tokens := by
  obtain ⟨text, same, markup⟩ := well.markup rest
  rw [same, tokensOf?_markup markup]

/-! ### Text in two parts -/

theorem straddles_of_infix {mark : List Char} (found : mark <:+: before ++ after) :
    mark <:+: before ∨ mark <:+: after ∨ Straddles mark before after := by
  obtain ⟨front, back, whole⟩ := found
  rcases List.append_eq_append_iff.mp whole with ⟨others, inFirst, -⟩ | ⟨others, onWay, inSecond⟩
  · exact .inl ⟨front, others, inFirst.symm⟩
  · rcases List.append_eq_append_iff.mp onWay with ⟨own, inFirst, parts⟩ | ⟨own, -, inOthers⟩
    · by_cases noOwn : own = []
      · right; left
        rw [noOwn, List.nil_append] at parts
        exact ⟨[], back, by rw [parts, List.nil_append, inSecond]⟩
      · by_cases noOthers : others = []
        · left
          rw [noOthers, List.append_nil] at parts
          exact ⟨front, [], by rw [parts, inFirst, List.append_nil]⟩
        · exact .inr (.inr ⟨own, others, parts, noOwn, noOthers, ⟨front, inFirst.symm⟩, ⟨back, inSecond.symm⟩⟩)
    · right; left
      exact ⟨own, back, by rw [inSecond, inOthers]⟩

theorem Straddles.mono {mark : List Char} (across : Straddles mark raw text) (front : raw <:+ before)
    (back : text <+: after) : Straddles mark before after := by
  obtain ⟨one, other, parts, notOne, notOther, inFirst, inSecond⟩ := across
  exact ⟨one, other, parts, notOne, notOther, inFirst.trans front, inSecond.trans back⟩

theorem isText_append (apart : ¬ Straddles "]]>".toList raw more) :
    isText (raw ++ more) = (isText raw && isText more) := by
  have same : holds "]]>".toList (raw ++ more) = (holds "]]>".toList raw || holds "]]>".toList more) := by
    rw [Bool.eq_iff_iff, Bool.or_eq_true, holds_iff, holds_iff, holds_iff]
    constructor
    · intro found
      rcases straddles_of_infix found with inFirst | inSecond | across
      · exact .inl inFirst
      · exact .inr inSecond
      · exact absurd across apart
    · rintro (inFirst | inSecond)
      · exact inFirst.trans (List.prefix_append _ _).isInfix
      · exact inSecond.trans (List.suffix_append _ _).isInfix
  unfold isText
  rw [List.all_append, same, Bool.not_or]
  ac_rfl

/-! ### A comment between two parts -/

theorem tokens?_eq (text : List Char) : tokens? text = (body? text).bind tokensOf? := by
  unfold tokens?
  dsimp only
  split
  · rename_i content found
    have same : body? text = some content := found
    rw [same]
    rfl
  · rename_i found
    have same : body? text = none := found
    rw [same]
    rfl

theorem unmarked_append (behind : ¬ StandsAhead before after) :
    unmarked (before ++ after) = unmarked before ++ after := by
  cases before with
  | nil =>
      unfold unmarked
      rw [List.nil_append]
      split
      · exact absurd (.inl ⟨rfl, rfl⟩) behind
      · rfl
  | cons char others =>
      unfold unmarked
      rw [List.cons_append]
      split
      · rename_i same
        cases same
        rfl
      · rename_i noMark
        split
        · rename_i same
          cases same
          exact absurd rfl (noMark _)
        · rfl

theorem unmarked_eq_nil (nothing : unmarked before = []) : before = [] ∨ before = ['\uFEFF'] := by
  unfold unmarked at nothing
  split at nothing
  · rw [nothing]
    exact .inr rfl
  · exact .inl nothing

theorem body?_append (lexed : tokens? before = some tokens) (behind : ¬ StandsAhead before after) :
    ∃ body, body? before = some body ∧ tokensOf? body = some tokens ∧ body <:+ before ∧
      body? (before ++ after) = some (body ++ after) := by
  have whole : unmarked before <:+ before := by
    unfold unmarked
    split
    · exact List.suffix_cons _ _
    · exact List.suffix_refl _
  rw [tokens?_eq] at lexed
  obtain ⟨body, found, lexed⟩ := Option.bind_eq_some_iff.mp lexed
  refine ⟨body, found, lexed, ?_⟩
  unfold body? at found ⊢
  rw [unmarked_append behind]
  split at found
  · rename_i declared
    have grown := (List.isPrefixOf_iff_prefix.mp declared).trans (List.prefix_append _ after)
    have room := (List.isPrefixOf_iff_prefix.mp declared).length_le
    refine ⟨(takeDeclaration?_suffix found).trans ((List.drop_suffix _ _).trans whole), ?_⟩
    rw [if_pos (List.isPrefixOf_iff_prefix.mpr grown), List.drop_append_of_le_length,
      takeDeclaration?_append found]
    exact Nat.le_trans (by decide) room
  · rename_i undeclared
    cases found
    refine ⟨whole, ?_⟩
    rw [if_neg]
    intro declared
    rcases prefix_or_mem_inits (List.isPrefixOf_iff_prefix.mp declared) with early | short
    · exact undeclared (List.isPrefixOf_iff_prefix.mpr early)
    · by_cases nothing : unmarked before = []
      · rw [nothing] at declared
        exact behind (.inr ⟨unmarked_eq_nil nothing, List.isPrefixOf_iff_prefix.mp declared⟩)
      · have unfinished : ∀ short ∈ "<?xml ".toList.inits, short ≠ [] → tokensOf? short = none := by
          decide
        rw [unfinished _ short nothing] at lexed
        cases lexed

theorem not_standsAhead_comment {comment : List Char} (well : IsComment comment) :
    ¬ StandsAhead before (comment ++ after) := by
  obtain ⟨content, rfl, -⟩ := well
  rw [List.append_assoc]
  rintro (⟨-, marked⟩ | ⟨-, declared⟩)
  · have begins : ("<!--".toList ++ (content ++ "-->".toList ++ after)).head? = some '<' := rfl
    rw [begins] at marked
    exact absurd marked (by decide)
  · have parts : "<?xml ".toList = ['<', '?', 'x', 'm', 'l', ' '] ∧ "<!--".toList = ['<', '!', '-', '-'] := by
      decide
    rw [parts.1, parts.2, List.cons_append, List.cons_prefix_cons, List.cons_append, List.cons_prefix_cons]
      at declared
    exact absurd declared.2.1 (by decide)

theorem IsComment.atMarkup {comment : List Char} (well : IsComment comment) (rest : List Char) :
    AtMarkup (comment ++ rest) := by
  obtain ⟨text, same, -⟩ := well.markup rest
  rw [same]
  exact .inr rfl

/-- A comment ends what stands before it. -/
theorem tokens?_append_comment {comment : List Char} (well : IsComment comment)
    (lexed : tokens? before = some tokens) :
    tokens? (before ++ (comment ++ after)) = (tokensOf? after).map fun later => tokens ++ .remark :: later := by
  have apart : ¬ StandsAhead before (comment ++ after) := not_standsAhead_comment well
  obtain ⟨body, -, whole, -, joined⟩ := body?_append lexed apart
  obtain ⟨earlier, raw, plain, fine, -, rfl, grows⟩ := tokensOf?_append whole
  rw [tokens?_eq, joined, Option.bind_some, grows, tokensOf?_raw plain (well.atMarkup after), if_pos fine,
    tokensOf?_comment well]
  cases tokensOf? after with
  | none => rfl
  | some later => exact congrArg some (List.append_assoc _ _ _).symm

/-- Where the first part of a text ends, a comment separates text from text, and changes nothing else. -/
theorem tokens?_comment {comment : List Char} (well : IsComment comment)
    (lexed : tokens? before = some tokens) (behind : ¬ StandsAhead before after)
    (noMark : ¬ Straddles "]]>".toList before after) :
    (tokens? (before ++ after) = none ∧ tokens? (before ++ (comment ++ after)) = none) ∨
    ∃ earlier raw later others, tokens = earlier ++ textTokens raw ∧
      tokensOf? after = some (textTokens later ++ others) ∧
      tokens? (before ++ after) = some (earlier ++ (textTokens (raw ++ later) ++ others)) ∧
      tokens? (before ++ (comment ++ after)) =
        some (earlier ++ (textTokens raw ++ .remark :: (textTokens later ++ others))) := by
  obtain ⟨body, found, whole, inside, joined⟩ := body?_append lexed behind
  obtain ⟨earlier, raw, plain, fine, rawInside, same, grows⟩ := tokensOf?_append whole
  obtain ⟨later, more, rfl, plainLater, markup⟩ := exists_raw after
  have apart : ¬ Straddles "]]>".toList raw later := fun across =>
    noMark (across.mono (rawInside.trans inside) (List.prefix_append _ _))
  have plainBoth : '<' ∉ raw ++ later := by
    rw [List.mem_append, not_or]
    exact ⟨plain, plainLater⟩
  rw [tokens?_append_comment well lexed, tokens?_eq, joined, Option.bind_some, grows,
    tokensOf?_raw plainLater markup, ← List.append_assoc raw, tokensOf?_raw plainBoth markup, isText_append apart,
    fine, Bool.true_and]
  cases isText later with
  | false => exact .inl ⟨rfl, rfl⟩
  | true =>
      cases tokensOf? more with
      | none => exact .inl ⟨rfl, rfl⟩
      | some others =>
          refine .inr ⟨earlier, raw, later, others, same, rfl, rfl, ?_⟩
          rw [same]
          exact congrArg some (List.append_assoc _ _ _)

end Tokens

end CrossBuild.Xml
