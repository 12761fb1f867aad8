/-
Comments in manifests.

A manifest says what its outline says: the names of elements, the text they begin with and the elements
inside. A comment between tags, or at the end of a text, leaves the outline as it is, so it makes no
difference. A comment at the beginning or in the middle of a text does: what stands behind it is not read.
-/

import CrossBuild.Artifacts.Manifest
import CrossBuild.Proofs.Xml.Outlines

namespace CrossBuild.Xml.Outline

def name : Outline → String
  | .element name _ _ => name

def inner : Outline → List Outline
  | .element _ _ inner => inner

def child? (outline : Outline) (name : String) : Option Outline :=
  outline.inner.find? fun child => child.name = name

/-- The text of the element without blanks around it, if anything is left. -/
def text? : Outline → Option String
  | .element _ leading _ => (some (Text.trim (String.ofList leading))).filter fun text => text ≠ ""

end CrossBuild.Xml.Outline

namespace CrossBuild.Artifacts

open Files (Path)
open Xml

section Outlines

variable {node : Node} {nodes : List Node} {name : String}

/-! ### What is read of a manifest -/

theorem rdropWhile_dropWhile_rdropWhile (keep : Char → Bool) (text : List Char) :
    ((text.rdropWhile keep).dropWhile keep).rdropWhile keep = (text.dropWhile keep).rdropWhile keep := by
  have kept : ∀ char ∈ text.rtakeWhile keep, keep char = true := fun char => List.mem_rtakeWhile_imp
  have parts : text.rdropWhile keep ++ text.rtakeWhile keep = text := List.rdropWhile_append_rtakeWhile
  conv_rhs => rw [← parts, List.dropWhile_append]
  split
  · rename_i nothing
    rw [List.isEmpty_iff.mp nothing, List.dropWhile_eq_nil_iff.mpr kept]
  · rw [Xml.rdropWhile_append, if_pos (List.rdropWhile_eq_nil_iff.mpr kept)]

theorem trim_eq (text : String) :
    Text.trim text = String.ofList ((text.toList.dropWhile Text.isBlank).rdropWhile Text.isBlank) := by
  unfold Text.trim Text.trimEnd Text.trimStart
  rw [String.toList_ofList]
  rfl

theorem trim_rdropWhile (text : String) :
    Text.trim (String.ofList (text.toList.rdropWhile Text.isBlank)) = Text.trim text := by
  rw [trim_eq, trim_eq, String.toList_ofList, rdropWhile_dropWhile_rdropWhile]

theorem trimmedText?_eq (node : Node) : Manifest.trimmedText? node = (outline? node).bind Outline.text? := by
  have nothing : (some (Text.trim (String.ofList []))).filter (fun text => text ≠ "") = none := by
    decide
  cases node with
  | text content =>
      rw [outline?]
      rfl
  | remark =>
      rw [outline?]
      rfl
  | element name attributes children =>
      rw [outline?, Option.bind_some, Outline.text?]
      cases children with
      | nil => exact nothing.symm
      | cons first rest =>
          cases first with
          | element name attributes children => exact nothing.symm
          | remark => exact nothing.symm
          | text content =>
              rw [leadingText, trim_rdropWhile]
              rfl

theorem outlines_element (name : String) (attributes : List Xml.Attribute) (children rest : List Node) :
    outlines (.element name attributes children :: rest) =
      .element name (leadingText children) (outlines children) :: outlines rest := by
  rw [outlines, outline?]
  rfl

theorem find?_outlines (nodes : List Node) (name : String) :
    (nodes.find? fun node => node.isNamed name).bind outline? =
      (outlines nodes).find? fun outline => outline.name = name := by
  induction nodes with
  | nil => rfl
  | cons node rest ih =>
      cases node with
      | text content => exact ih
      | remark => exact ih
      | element own attributes children =>
          rw [outlines_element, List.find?_cons, List.find?_cons]
          change Option.bind (match decide (own = name) with | true => _ | false => _) _ =
            match decide (own = name) with | true => _ | false => _
          cases decide (own = name) with
          | true => rfl
          | false => exact ih

theorem filter_outlines (nodes : List Node) (name : String) :
    (nodes.filter fun node => node.isNamed name).filterMap Manifest.trimmedText? =
      ((outlines nodes).filter fun outline => outline.name = name).filterMap Outline.text? := by
  induction nodes with
  | nil => rfl
  | cons node rest ih =>
      cases node with
      | text content => exact ih
      | remark => exact ih
      | element own attributes children =>
          rw [outlines_element, List.filter_cons, List.filter_cons]
          change List.filterMap _ (if decide (own = name) = true then _ else _) =
            List.filterMap _ (if decide (own = name) = true then _ else _)
          split
          · rw [List.filterMap_cons, List.filterMap_cons, trimmedText?_eq, outline?, Option.bind_some, ih]
          · exact ih

theorem child?_eq (node : Node) (name : String) :
    (node.child? name).bind outline? = (outline? node).bind fun outline => outline.child? name := by
  cases node with
  | text content =>
      rw [outline?]
      rfl
  | remark =>
      rw [outline?]
      rfl
  | element own attributes children =>
      rw [outline?, Option.bind_some]
      exact find?_outlines children name

theorem childText?_eq (node : Node) (name : String) : Manifest.childText? node name =
    (outline? node).bind fun outline => (outline.child? name).bind Outline.text? := by
  have read : Manifest.childText? node name = ((node.child? name).bind outline?).bind Outline.text? := by
    rw [Option.bind_assoc]
    exact Option.bind_congr fun child _ => trimmedText?_eq child
  rw [read, child?_eq, Option.bind_assoc]

theorem coordinate?_congr {other : Node} (same : outline? node = outline? other) (name : String) :
    Manifest.coordinate? node name = Manifest.coordinate? other name := by
  have fromParent : ∀ node : Node, ((node.child? "parent").bind fun parent => Manifest.childText? parent name) =
      ((outline? node).bind fun outline => outline.child? "parent").bind fun parent =>
        (parent.child? name).bind Outline.text? := by
    intro node
    rw [← child?_eq, Option.bind_assoc]
    exact Option.bind_congr fun parent _ => childText?_eq parent name
  unfold Manifest.coordinate?
  rw [fromParent, fromParent, childText?_eq, childText?_eq, same]

theorem moduleNames_eq (node : Node) : Manifest.moduleNames node =
    match (outline? node).bind fun outline => outline.child? "modules" with
    | some modules =>
        (modules.inner.filter fun outline => outline.name = "module").filterMap Outline.text?
    | none => [] := by
  rw [← child?_eq]
  unfold Manifest.moduleNames
  cases node.child? "modules" with
  | none => rfl
  | some modules =>
      rw [Option.bind_some]
      cases modules with
      | text content =>
          rw [outline?]
          rfl
      | remark =>
          rw [outline?]
          rfl
      | element name attributes children =>
          rw [outline?]
          exact filter_outlines children "module"

/-- What a manifest says is said by its outline. -/
theorem ofText_congr {path : Path} {text other : String}
    (same : (Xml.read? text).map outline? = (Xml.read? other).map outline?) :
    Manifest.ofText path text = Manifest.ofText path other := by
  unfold Manifest.ofText Manifest.requireCoordinate
  cases first : Xml.read? text with
  | none =>
      rw [first] at same
      rw [Option.map_eq_none_iff.mp same.symm]
  | some project =>
      rw [first] at same
      obtain ⟨shown, second, alike⟩ := Option.map_eq_some_iff.mp same.symm
      rw [second]
      simp only [coordinate?_congr alike.symm, moduleNames_eq, alike]

end Outlines

/-! ### Comments -/

/-- A place between tags or in text. What stands before it is complete, and it cuts neither the declaration
nor a reference nor a mark that text must not hold. If what stands before it begins no document at all, each
place is one. -/
inductive Place (before after : List Char) : Prop
  | between {tokens : List Token} (lexed : tokens? before = some tokens) (behind : ¬ StandsAhead before after)
      (noMark : ¬ Straddles "]]>".toList before after)
      (noReference : ∀ earlier raw, tokens = earlier ++ [.text raw] → ¬ EndsInReference raw) : Place before after
  | lost (never : ∀ rest, tokens? (before ++ rest) = none) : Place before after

/-- The text behind a place is blank, up to the next markup. -/
def BlankBehind (after : List Char) : Prop :=
  ∀ tokens, tokensOf? after = some tokens → BlankAhead tokens

/-- A place lies in the text that an element begins with. -/
def LiesInBeginning (before : List Char) : Prop :=
  ∃ tokens, tokens? before = some tokens ∧ BeginsElement tokens

theorem read?_comment {before comment after : String} (well : IsComment comment.toList)
    (place : Place before.toList after.toList)
    (unread : BlankBehind after.toList ∨ ¬ LiesInBeginning before.toList) :
    (Xml.read? (before ++ comment ++ after)).map outline? = (Xml.read? (before ++ after)).map outline? := by
  unfold Xml.read?
  rw [String.toList_append, String.toList_append, String.toList_append, List.append_assoc]
  cases place with
  | lost never => rw [never, never]
  | @between tokens lexed behind noMark noReference =>
      rcases tokens?_comment well lexed behind noMark with ⟨first, second⟩ |
        ⟨earlier, raw, later, others, same, inAfter, first, second⟩
      · rw [first, second]
      · rw [first, second]
        refine (outline_remark ?_ ?_).symm
        · by_cases nothing : raw = []
          · rintro ⟨front, back, parts, -⟩
            rw [nothing] at parts
            exact absurd parts.symm (by simp)
          · refine noReference earlier raw ?_
            rw [same, textTokens, if_neg nothing]
        · rcases unread with blank | outside
          · exact .inl (blank _ inAfter)
          · right
            intro begins
            exact outside ⟨tokens, lexed, same ▸ begins⟩

/-- A comment in a manifest makes no difference to what it says, or to why it is refused, unless there is
text behind it in the text that an element begins with. -/
theorem comment_changes_nothing {before comment after : String} (well : IsComment comment.toList)
    (place : Place before.toList after.toList)
    (unread : BlankBehind after.toList ∨ ¬ LiesInBeginning before.toList) (path : Path) :
    Manifest.ofText path (before ++ comment ++ after) = Manifest.ofText path (before ++ after) :=
  ofText_congr (read?_comment well place unread)

/-- Behind a comment in the text that an element begins with, no text is read. -/
theorem text_behind_comment_not_read {before comment text after : String} (well : IsComment comment.toList)
    (place : LiesInBeginning before.toList) (plain : '<' ∉ text.toList) (fine : isText text.toList = true)
    (readable : (textContent? text.toList).isSome = true) (markup : AtMarkup after.toList) (path : Path) :
    Manifest.ofText path (before ++ comment ++ (text ++ after)) =
      Manifest.ofText path (before ++ comment ++ after) := by
  apply ofText_congr
  obtain ⟨tokens, lexed, begins⟩ := place
  unfold Xml.read?
  simp only [String.toList_append, List.append_assoc]
  rw [tokens?_append_comment well lexed, tokens?_append_comment well lexed, tokensOf?_raw plain markup, if_pos fine]
  cases tokensOf? after.toList with
  | none => rfl
  | some others => exact outline_text_behind_remark begins readable

/-- A manifest up to the middle of its version. -/
def releaseBefore : String :=
  "<?xml version='1.0'?><p><groupId>a</groupId><artifactId>a</artifactId><version>1.0"

def releaseComment : String := "<!-- next -->"

theorem isComment_release : IsComment releaseComment.toList := by
  refine ⟨" next ".toList, by decide, by decide, ?_, by decide⟩
  rw [← holds_iff]
  decide

theorem place_release (after : List Char) : Place releaseBefore.toList after := by
  have lexed : tokens? releaseBefore.toList = some [.startTag ⟨"", "p"⟩ [] false,
      .startTag ⟨"", "groupId"⟩ [] false, .text ['a'], .endTag ⟨"", "groupId"⟩,
      .startTag ⟨"", "artifactId"⟩ [] false, .text ['a'], .endTag ⟨"", "artifactId"⟩,
      .startTag ⟨"", "version"⟩ [] false, .text ['1', '.', '0']] := by
    decide +kernel
  refine .between lexed ?_ ?_ ?_
  · rintro (⟨nothing, -⟩ | ⟨nothing | marked, -⟩)
    · exact absurd nothing (by decide)
    · exact absurd nothing (by decide)
    · exact absurd marked (by decide)
  · rintro ⟨front, back, parts, something, -, inside, -⟩
    cases front with
    | nil => exact something rfl
    | cons char others =>
        have begins : ']' :: [']', '>'] = char :: (others ++ back) := parts
        obtain ⟨rfl, -⟩ := List.cons.inj begins
        exact absurd (inside.subset List.mem_cons_self) (by decide)
  · rintro earlier raw same ⟨front, back, rfl, -⟩
    have last : some (Token.text ['1', '.', '0']) = (earlier ++ [Token.text (front ++ '&' :: back)]).getLast? :=
      congrArg List.getLast? same
    rw [List.getLast?_concat, Option.some.injEq, Token.text.injEq] at last
    have inside : '&' ∈ ['1', '.', '0'] := by
      rw [last]
      exact List.mem_append_right _ List.mem_cons_self
    exact absurd inside (by decide)

/-- At the end of the version a comment makes no difference. -/
theorem comment_after_release_changes_nothing :
    IsComment releaseComment.toList ∧ Place releaseBefore.toList " </version></p>".toList ∧
      BlankBehind " </version></p>".toList ∧
      Manifest.ofText ⟨"pom.xml"⟩ (releaseBefore ++ releaseComment ++ " </version></p>") =
        Manifest.ofText ⟨"pom.xml"⟩ (releaseBefore ++ " </version></p>") := by
  have behind : tokensOf? " </version></p>".toList =
      some [.text [' '], .endTag ⟨"", "version"⟩, .endTag ⟨"", "p"⟩] := by
    decide +kernel
  have blank : BlankBehind " </version></p>".toList := by
    intro tokens lexed
    cases behind.symm.trans lexed
    intro token member content said
    rw [List.takeWhile_cons_of_pos (by rfl), List.takeWhile_cons_of_neg (by decide), List.mem_singleton] at member
    subst member
    have same : Token.content? (.text [' ']) = some [' '] := by
      decide
    cases same.symm.trans said
    decide
  exact ⟨isComment_release, place_release _, blank,
    comment_changes_nothing isComment_release (place_release _) (.inl blank) ⟨"pom.xml"⟩⟩

/-- In the middle of the version it hides the rest. -/
theorem comment_within_release_hides_text : ∃ before comment after : String,
    IsComment comment.toList ∧ Place before.toList after.toList ∧
      Manifest.ofText ⟨"pom.xml"⟩ (before ++ after) = .ok ⟨⟨"pom.xml"⟩, ⟨"a", "a", "1.0.1"⟩, []⟩ ∧
      Manifest.ofText ⟨"pom.xml"⟩ (before ++ comment ++ after) = .ok ⟨⟨"pom.xml"⟩, ⟨"a", "a", "1.0"⟩, []⟩ := by
  refine ⟨releaseBefore, releaseComment, ".1</version></p>", isComment_release, place_release _, ?_, ?_⟩
  · decide +kernel
  · decide +kernel

end CrossBuild.Artifacts
