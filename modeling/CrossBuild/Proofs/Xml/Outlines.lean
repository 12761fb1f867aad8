/-
Outlines of trees.

The outline of an element is its name, the text it begins with, without blanks at the end, and the
outlines of the elements inside. Remarks are not part of it, but they part texts: what follows a remark is
not in the text an element begins with. So two trees that are built from the same tokens but for one remark
have the same outline if what follows the remark in its text is blank, or its text is not at the beginning.
-/

import CrossBuild.Proofs.Xml.Contents
import CrossBuild.Proofs.Xml.Tokens
import CrossBuild.Xml.Document
import Mathlib.Data.List.Induction

namespace CrossBuild.Xml

/-- The text that children begin with, without blanks at the end. -/
def leadingText (children : List Node) : List Char :=
  match children with
  | .text content :: _ => content.toList.rdropWhile Text.isBlank
  | _ => []

inductive Outline where
  | element (name : String) (leading : List Char) (inner : List Outline)

mutual

def outline? : Node → Option Outline
  | .element name _ children => some (.element name (leadingText children) (outlines children))
  | .text _ => none
  | .remark => none

def outlines : List Node → List Outline
  | [] => []
  | node :: rest => (outline? node).toList ++ outlines rest

end

/-- A node that is no text. -/
def Node.isMarkup : Node → Bool
  | .text _ => false
  | _ => true

/-- Text between tags, as characters or as a section. -/
def Token.isData : Token → Bool
  | .text _ => true
  | .verbatim _ => true
  | _ => false

/-- What text says, if it can be read. -/
def Token.content? : Token → Option (List Char)
  | .text raw => textContent? raw
  | .verbatim content => some content
  | _ => none

namespace OpenElement

/-- The text an element begins with, so far. -/
def leading (element : OpenElement) : List Char :=
  leadingText element.children.reverse

/-- The text an element begins with does not go on. -/
def isSettled (element : OpenElement) : Bool :=
  match element.children with
  | [] => false
  | [.text _] => false
  | _ => true

/-- The text that may go on. -/
def openText (element : OpenElement) : List Char :=
  match element.children with
  | [.text content] => content.toList
  | _ => []

/-- Two elements look alike from outside, whatever comes later. -/
structure Alike (one other : OpenElement) : Prop where
  name : one.name = other.name
  scope : one.scope = other.scope
  leading : one.leading = other.leading
  elements : outlines one.children.reverse = outlines other.children.reverse

/-- Add the text of characters, if there are any. -/
def addRaw (element : OpenElement) (raw content : List Char) : OpenElement :=
  if raw = [] then element else element.addText content

end OpenElement

section Outlines

variable {node : Node} {nodes children : List Node} {element one other : OpenElement} {content : List Char}

theorem outlines_append (nodes others : List Node) : outlines (nodes ++ others) = outlines nodes ++ outlines others := by
  induction nodes with
  | nil => rfl
  | cons node rest ih => rw [List.cons_append, outlines, outlines, ih, List.append_assoc]

theorem leadingText_append (something : nodes ≠ []) (others : List Node) :
    leadingText (nodes ++ others) = leadingText nodes := by
  cases nodes with
  | nil => exact absurd rfl something
  | cons node rest => cases node <;> rfl

theorem leadingText_markup (markup : node.isMarkup = true) : leadingText [node] = [] := by
  cases node with
  | text content => cases markup
  | element name attributes children => rfl
  | remark => rfl

/-! ### One node more -/

theorem leading_addNode (markup : node.isMarkup = true) : (element.addNode node).leading = element.leading := by
  change leadingText (node :: element.children).reverse = leadingText element.children.reverse
  rw [List.reverse_cons]
  by_cases nothing : element.children.reverse = []
  · rw [nothing, List.nil_append, leadingText_markup markup]
    rfl
  · exact leadingText_append nothing [node]

theorem isSettled_addNode (markup : node.isMarkup = true) : (element.addNode node).isSettled = true := by
  cases node with
  | text content => cases markup
  | element name attributes children => rfl
  | remark => rfl

theorem outlines_addNode : outlines (element.addNode node).children.reverse =
    outlines element.children.reverse ++ (outline? node).toList := by
  change outlines (node :: element.children).reverse = _
  rw [List.reverse_cons, outlines_append, outlines, outlines, List.append_nil]

theorem OpenElement.Alike.addNode (alike : one.Alike other) (markup : node.isMarkup = true) :
    (one.addNode node).Alike (other.addNode node) where
  name := alike.name
  scope := alike.scope
  leading := by
    rw [leading_addNode markup, leading_addNode markup, alike.leading]
  elements := by
    rw [outlines_addNode, outlines_addNode, alike.elements]

/-! ### More text -/

/-- Text goes on where text is, and begins where none is. -/
theorem addText_cases (element : OpenElement) (content : List Char) :
    (∃ before earlier, element.children = .text before :: earlier ∧
      (element.addText content).children = .text (before ++ String.ofList content) :: earlier) ∨
    ((∀ before earlier, element.children ≠ .text before :: earlier) ∧
      (element.addText content).children = .text (String.ofList content) :: element.children) := by
  unfold OpenElement.addText
  split
  · rename_i before earlier same
    exact .inl ⟨before, earlier, same, rfl⟩
  · rename_i noText
    exact .inr ⟨noText, rfl⟩

theorem leading_addText_settled (settled : element.isSettled = true) :
    (element.addText content).leading = element.leading := by
  unfold OpenElement.leading
  rcases addText_cases element content with ⟨before, earlier, same, added⟩ | ⟨noText, added⟩
  · have something : earlier.reverse ≠ [] := by
      rw [ne_eq, List.reverse_eq_nil_iff]
      rintro rfl
      rw [OpenElement.isSettled, same] at settled
      cases settled
    rw [same, added, List.reverse_cons, List.reverse_cons, leadingText_append something, leadingText_append something]
  · have something : element.children.reverse ≠ [] := by
      rw [ne_eq, List.reverse_eq_nil_iff]
      intro nothing
      rw [OpenElement.isSettled, nothing] at settled
      cases settled
    rw [added, List.reverse_cons, leadingText_append something]

theorem isSettled_addText (settled : element.isSettled = true) : (element.addText content).isSettled = true := by
  unfold OpenElement.isSettled at settled ⊢
  rcases addText_cases element content with ⟨before, earlier, same, added⟩ | ⟨noText, added⟩
  · rw [same] at settled
    rw [added]
    cases earlier with
    | nil => cases settled
    | cons node others => rfl
  · rw [added]
    cases children : element.children with
    | nil =>
        rw [children] at settled
        cases settled
    | cons node others => rfl

theorem leading_open (notSettled : element.isSettled = false) :
    element.leading = element.openText.rdropWhile Text.isBlank := by
  unfold OpenElement.isSettled at notSettled
  unfold OpenElement.leading OpenElement.openText
  split at notSettled
  · rename_i nothing
    rw [nothing]
    rfl
  · rename_i text same
    rw [same]
    rfl
  · cases notSettled

theorem leading_addText_open (notSettled : element.isSettled = false) :
    (element.addText content).leading = (element.openText ++ content).rdropWhile Text.isBlank := by
  unfold OpenElement.isSettled at notSettled
  unfold OpenElement.leading OpenElement.openText
  rcases addText_cases element content with ⟨before, earlier, same, added⟩ | ⟨noText, added⟩
  · rw [same] at notSettled ⊢
    rw [added]
    cases earlier with
    | nil =>
        change (before ++ String.ofList content).toList.rdropWhile Text.isBlank = _
        rw [String.toList_append, String.toList_ofList]
    | cons node others => cases notSettled
  · split at notSettled
    · rename_i nothing
      rw [added, nothing]
      change (String.ofList content).toList.rdropWhile Text.isBlank = _
      rw [String.toList_ofList]
      rfl
    · rename_i text same
      exact absurd same (noText text [])
    · cases notSettled

/-- Text that ends alike adds the same, up to blanks at the end. -/
theorem leading_addText_congr {others : List Char}
    (same : content.rdropWhile Text.isBlank = others.rdropWhile Text.isBlank) :
    (element.addText content).leading = (element.addText others).leading := by
  cases settled : element.isSettled with
  | true => rw [leading_addText_settled settled, leading_addText_settled settled]
  | false =>
      rw [leading_addText_open settled, leading_addText_open settled]
      rw [rdropWhile_append, rdropWhile_append, same]

theorem leading_addText_blank (blank : content.all Text.isBlank = true) :
    (element.addText content).leading = element.leading := by
  cases settled : element.isSettled with
  | true => exact leading_addText_settled settled
  | false =>
      have nothing : content.rdropWhile Text.isBlank = [] :=
        List.rdropWhile_eq_nil_iff.mpr (List.all_eq_true.mp blank)
      rw [leading_addText_open settled, leading_open settled, rdropWhile_append, if_pos nothing]

theorem outlines_addText : outlines (element.addText content).children.reverse =
    outlines element.children.reverse := by
  rcases addText_cases element content with ⟨before, earlier, same, added⟩ | ⟨noText, added⟩
  · rw [added, same, List.reverse_cons, List.reverse_cons, outlines_append, outlines_append]
    rfl
  · rw [added, List.reverse_cons, outlines_append]
    exact List.append_nil _

theorem addText_name : (element.addText content).name = element.name := by
  unfold OpenElement.addText
  split <;> rfl

theorem addText_scope : (element.addText content).scope = element.scope := by
  unfold OpenElement.addText
  split <;> rfl

/-- Text may come to two elements that look alike where what they begin with stays. -/
theorem OpenElement.Alike.addText (alike : one.Alike other) {others : List Char}
    (first : (one.addText content).leading = one.leading)
    (second : (other.addText others).leading = other.leading) :
    (one.addText content).Alike (other.addText others) where
  name := by
    rw [addText_name, addText_name, alike.name]
  scope := by
    rw [addText_scope, addText_scope, alike.scope]
  leading := by
    rw [first, second, alike.leading]
  elements := by
    rw [outlines_addText, outlines_addText, alike.elements]

theorem OpenElement.Alike.close (alike : one.Alike other) : outline? one.close = outline? other.close := by
  unfold OpenElement.close
  rw [outline?, outline?, alike.name, alike.elements]
  exact congrArg (fun leading => some (Outline.element other.name.localName leading _)) alike.leading

end Outlines

/-! ### Building a tree token by token -/

/-- The state after one token more. -/
def stepTree? (root : Option Node) (opened : List OpenElement) :
    Token → Option (Option Node × List OpenElement)
  | .remark =>
      match opened with
      | [] => some (root, [])
      | inner :: outer => some (root, inner.addNode .remark :: outer)
  | .text raw =>
      match opened with
      | [] => if raw.all isSpace then some (root, []) else none
      | inner :: outer => (textContent? raw).map fun content => (root, inner.addText content :: outer)
  | .verbatim content =>
      match opened with
      | [] => none
      | inner :: outer => some (root, inner.addText content :: outer)
  | .startTag name attributes isEmpty =>
      if opened.isEmpty && root.isSome then none
      else
        let scope := match opened with
          | [] => []
          | inner :: _ => inner.scope
        (openElement? scope name attributes).map fun element =>
          if isEmpty then attach element.close root opened else (root, element :: opened)
  | .endTag name =>
      match opened with
      | [] => none
      | inner :: outer => if inner.name = name then some (attach inner.close root outer) else none

/-- The scope of the innermost open element. -/
def nearestScope : List OpenElement → Scope
  | [] => []
  | inner :: _ => inner.scope

def runTree? (root : Option Node) (opened : List OpenElement) :
    List Token → Option (Option Node × List OpenElement)
  | [] => some (root, opened)
  | token :: rest => (stepTree? root opened token).bind fun next => runTree? next.1 next.2 rest

section Building

variable {root : Option Node} {opened inside outer : List OpenElement} {one other : OpenElement}
  {token : Token} {tokens earlier later : List Token}

theorem buildTree?_cons : buildTree? root opened (token :: tokens) =
    (stepTree? root opened token).bind fun next => buildTree? next.1 next.2 tokens := by
  cases token with
  | remark =>
      cases opened with
      | nil => rfl
      | cons inner outer => rfl
  | text raw =>
      cases opened with
      | nil =>
          rw [buildTree?, stepTree?]
          split <;> rfl
      | cons inner outer =>
          rw [buildTree?, stepTree?]
          cases textContent? raw <;> rfl
  | verbatim content =>
      cases opened with
      | nil => rfl
      | cons inner outer => rfl
  | startTag name attributes isEmpty =>
      rw [buildTree?.eq_def, stepTree?.eq_def]
      dsimp only
      split
      · rfl
      · generalize openElement? _ name attributes = found
        cases found with
        | none => rfl
        | some element =>
            cases isEmpty with
            | true => rfl
            | false => rfl
  | endTag name =>
      cases opened with
      | nil => rfl
      | cons inner outer =>
          rw [buildTree?, stepTree?]
          dsimp only
          split <;> rfl

theorem buildTree?_append : buildTree? root opened (earlier ++ later) =
    (runTree? root opened earlier).bind fun next => buildTree? next.1 next.2 later := by
  induction earlier generalizing root opened with
  | nil => rfl
  | cons token rest ih =>
      rw [List.cons_append, buildTree?_cons, runTree?]
      cases stepTree? root opened token with
      | none => rfl
      | some next => exact ih

/-- Two states that differ in one open element, which looks alike and does not begin with text that may go
on here, or in an outermost element that is finished. -/
inductive Apart : Option Node × List OpenElement → Option Node × List OpenElement → Prop
  | within {root : Option Node} {inside outer : List OpenElement} {one other : OpenElement}
      (alike : one.Alike other) (settled : inside = [] → one.isSettled = true ∧ other.isSettled = true) :
      Apart (root, inside ++ one :: outer) (root, inside ++ other :: outer)
  | done {node other : Node} (same : outline? node = outline? other) : Apart (some node, []) (some other, [])

theorem apart_attach {node other : Node} (markup : node.isMarkup = true) (markup' : other.isMarkup = true)
    (same : outline? node = outline? other) : Apart (attach node root outer) (attach other root outer) := by
  cases outer with
  | nil => exact .done same
  | cons parent rest =>
      refine @Apart.within root [] rest (parent.addNode node) (parent.addNode other) ⟨rfl, rfl, ?_, ?_⟩
        fun _ => ⟨isSettled_addNode markup, isSettled_addNode markup'⟩
      · rw [leading_addNode markup, leading_addNode markup']
      · rw [outlines_addNode, outlines_addNode, same]

/-- A finished element goes to the same place. -/
theorem apart_attach_within {node : Node} (markup : node.isMarkup = true) (alike : one.Alike other) :
    Apart (attach node root (inside ++ one :: outer)) (attach node root (inside ++ other :: outer)) := by
  cases inside with
  | nil =>
      exact @Apart.within root [] outer _ _ (alike.addNode markup)
        fun _ => ⟨isSettled_addNode markup, isSettled_addNode markup⟩
  | cons parent rest =>
      exact @Apart.within root (parent.addNode node :: rest) outer _ _ alike fun nothing => nomatch nothing

theorem stepTree?_data {element : OpenElement} (data : token.isData = true) :
    stepTree? root (element :: outer) token =
      token.content?.map fun content => (root, element.addText content :: outer) := by
  cases token with
  | text raw => rfl
  | verbatim content => rfl
  | remark => cases data
  | startTag name attributes isEmpty => cases data
  | endTag name => cases data

theorem stepTree?_startTag {name : QualifiedName} {attributes : List (QualifiedName × String)} {isEmpty : Bool}
    (something : opened ≠ []) : stepTree? root opened (.startTag name attributes isEmpty) =
      (openElement? (nearestScope opened) name attributes).map fun element =>
        if isEmpty then attach element.close root opened else (root, element :: opened) := by
  cases opened with
  | nil => exact absurd rfl something
  | cons inner outer => rfl

/-- Markup keeps the difference between two states, and settles it. -/
theorem stepTree?_markup (alike : one.Alike other) (markup : token.isData = false) :
    Option.Rel Apart (stepTree? root (inside ++ one :: outer) token)
      (stepTree? root (inside ++ other :: outer) token) := by
  cases token with
  | text raw => cases markup
  | verbatim content => cases markup
  | remark =>
      cases inside with
      | nil =>
          refine .some (@Apart.within root [] outer _ _ (alike.addNode rfl) fun _ => ⟨?_, ?_⟩)
          · exact isSettled_addNode rfl
          · exact isSettled_addNode rfl
      | cons inner rest =>
          exact .some (@Apart.within root (inner.addNode .remark :: rest) outer _ _ alike
            fun nothing => nomatch nothing)
  | startTag name attributes isEmpty =>
      have scope : nearestScope (inside ++ other :: outer) = nearestScope (inside ++ one :: outer) := by
        cases inside with
        | nil => exact alike.scope.symm
        | cons inner rest => rfl
      rw [stepTree?_startTag (by simp), stepTree?_startTag (by simp), scope]
      cases openElement? (nearestScope (inside ++ one :: outer)) name attributes with
      | none => exact .none
      | some element =>
          cases isEmpty with
          | true => exact .some (apart_attach_within rfl alike)
          | false =>
              exact .some (@Apart.within root (element :: inside) outer _ _ alike fun nothing => nomatch nothing)
  | endTag name =>
      cases inside with
      | nil =>
          rw [List.nil_append, List.nil_append, stepTree?, stepTree?, alike.name]
          split
          · exact .some (apart_attach rfl rfl alike.close)
          · exact .none
      | cons inner rest =>
          rw [List.cons_append, List.cons_append, stepTree?, stepTree?]
          split
          · exact .some (apart_attach_within rfl alike)
          · exact .none

theorem Apart.step {state next : Option Node × List OpenElement} (apart : Apart state next) (token : Token) :
    Option.Rel Apart (stepTree? state.1 state.2 token) (stepTree? next.1 next.2 token) := by
  cases apart with
  | @within root inside outer one other alike settled =>
      cases data : token.isData with
      | false => exact stepTree?_markup alike data
      | true =>
          cases inside with
          | nil =>
              obtain ⟨first, second⟩ := settled rfl
              dsimp only [List.nil_append]
              rw [stepTree?_data data, stepTree?_data data]
              cases token.content? with
              | none => exact .none
              | some content =>
                  refine .some (@Apart.within root [] outer _ _
                    (alike.addText (leading_addText_settled first) (leading_addText_settled second)) fun _ => ?_)
                  exact ⟨isSettled_addText first, isSettled_addText second⟩
          | cons inner rest =>
              dsimp only [List.cons_append]
              rw [stepTree?_data data, stepTree?_data data]
              cases token.content? with
              | none => exact .none
              | some content =>
                  exact .some (@Apart.within root (inner.addText content :: rest) outer _ _ alike
                    fun nothing => nomatch nothing)
  | @done node other same =>
      cases token with
      | remark => exact .some (.done same)
      | text raw =>
          dsimp only
          rw [stepTree?, stepTree?]
          split
          · exact .some (.done same)
          · exact .none
      | verbatim content => exact .none
      | startTag name attributes isEmpty => exact .none
      | endTag name => exact .none

theorem build_of_rel {state next : Option (Option Node × List OpenElement)} (related : Option.Rel Apart state next)
    (later : ∀ {state next}, Apart state next →
      (buildTree? state.1 state.2 tokens).map outline? = (buildTree? next.1 next.2 tokens).map outline?) :
    (state.bind fun state => buildTree? state.1 state.2 tokens).map outline? =
      (next.bind fun state => buildTree? state.1 state.2 tokens).map outline? := by
  cases related with
  | none => rfl
  | some apart => exact later apart

/-- The trees that come of such states have the same outline. -/
theorem Apart.build {state next : Option Node × List OpenElement} (apart : Apart state next) (tokens : List Token) :
    (buildTree? state.1 state.2 tokens).map outline? = (buildTree? next.1 next.2 tokens).map outline? := by
  induction tokens generalizing state next with
  | nil =>
      cases apart with
      | @within root inside outer one other alike settled =>
          cases inside with
          | nil => rfl
          | cons inner rest => rfl
      | done same => exact congrArg some same
  | cons token rest ih =>
      rw [buildTree?_cons, buildTree?_cons]
      exact build_of_rel (apart.step token) ih

/-! ### One remark more -/

/-- The text that follows is blank, up to the next markup. -/
def BlankAhead (tokens : List Token) : Prop :=
  ∀ token ∈ tokens.takeWhile Token.isData, ∀ content, token.content? = some content →
    content.all Text.isBlank = true

/-- After these tokens stands the text that an element begins with. -/
def BeginsElement (tokens : List Token) : Prop :=
  ∃ before name attributes inside, tokens = before ++ .startTag name attributes false :: inside ∧
    ∀ token ∈ inside, token.isData = true

theorem BeginsElement.append (begins : BeginsElement earlier) (data : ∀ token ∈ later, token.isData = true) :
    BeginsElement (earlier ++ later) := by
  obtain ⟨before, name, attributes, inside, rfl, own⟩ := begins
  refine ⟨before, name, attributes, inside ++ later, by rw [List.append_assoc, List.cons_append], ?_⟩
  intro token member
  rcases List.mem_append.mp member with first | second
  · exact own token first
  · exact data token second

theorem runTree?_concat : runTree? root opened (tokens ++ [token]) =
    (runTree? root opened tokens).bind fun next => stepTree? next.1 next.2 token := by
  induction tokens generalizing root opened with
  | nil =>
      change (stepTree? root opened token).bind (fun next => some next) = stepTree? root opened token
      cases stepTree? root opened token with
      | none => rfl
      | some next => rfl
  | cons first rest ih =>
      rw [List.cons_append, runTree?, runTree?]
      cases stepTree? root opened first with
      | none => rfl
      | some next => exact ih

theorem attach_settled {node : Node} {inner : OpenElement} {next : Option Node} (markup : node.isMarkup = true)
    (attached : attach node root opened = (next, inner :: outer)) : inner.isSettled = true := by
  cases opened with
  | nil => cases attached
  | cons parent rest =>
      cases attached
      exact isSettled_addNode markup

theorem stepTree?_startTag_some {name : QualifiedName} {attributes : List (QualifiedName × String)} {isEmpty : Bool}
    {next : Option Node × List OpenElement}
    (stepped : stepTree? root opened (.startTag name attributes isEmpty) = some next) :
    ∃ element, next = if isEmpty then attach element.close root opened else (root, element :: opened) := by
  rw [stepTree?.eq_def] at stepped
  dsimp only at stepped
  split at stepped
  · cases stepped
  · obtain ⟨element, -, same⟩ := Option.map_eq_some_iff.mp stepped
    exact ⟨element, same.symm⟩

/-- The text of an element goes on only after its start tag and text. -/
theorem beginsElement_of_open {inner : OpenElement} (ran : runTree? none [] tokens = some (root, inner :: outer))
    (goesOn : inner.isSettled = false) : BeginsElement tokens := by
  induction tokens using List.reverseRecOn generalizing root inner outer with
  | nil => cases ran
  | append_singleton before token ih =>
      rw [runTree?_concat] at ran
      obtain ⟨⟨middle, around⟩, first, last⟩ := Option.bind_eq_some_iff.mp ran
      dsimp only at last
      have parted : ∀ node : Node, ∀ next places, node.isMarkup = true →
          attach node next places ≠ (root, inner :: outer) := by
        intro node next places markup attached
        rw [attach_settled markup attached] at goesOn
        cases goesOn
      cases data : token.isData with
      | true =>
          cases around with
          | nil =>
              cases token with
              | text raw =>
                  rw [stepTree?] at last
                  split at last
                  · cases last
                  · cases last
              | verbatim content => cases last
              | remark => cases data
              | startTag name attributes isEmpty => cases data
              | endTag name => cases data
          | cons parent rest =>
              rw [stepTree?_data data] at last
              obtain ⟨content, -, same⟩ := Option.map_eq_some_iff.mp last
              cases same
              have early : parent.isSettled = false := by
                by_contra settled
                rw [isSettled_addText (Bool.not_eq_false _ ▸ settled)] at goesOn
                cases goesOn
              refine (ih first early).append ?_
              rw [List.forall_mem_singleton]
              exact data
      | false =>
          cases token with
          | text raw => cases data
          | verbatim content => cases data
          | remark =>
              cases around with
              | nil => cases last
              | cons parent rest =>
                  cases last
                  rw [isSettled_addNode rfl] at goesOn
                  cases goesOn
          | startTag name attributes isEmpty =>
              obtain ⟨element, same⟩ := stepTree?_startTag_some last
              cases isEmpty with
              | true => exact absurd same.symm (parted _ _ _ rfl)
              | false =>
                  exact ⟨before, name, attributes, [], rfl, fun _ absent => nomatch absent⟩
          | endTag name =>
              cases around with
              | nil => cases last
              | cons parent rest =>
                  rw [stepTree?] at last
                  split at last
                  · exact absurd (Option.some.inj last) (parted _ _ _ rfl)
                  · cases last

/-- After a remark, an element is built as without it. -/
theorem build_of_alike (alike : one.Alike other) (settled : other.isSettled = true)
    (unread : one.isSettled = true ∨ BlankAhead tokens) :
    (buildTree? root (one :: outer) tokens).map outline? = (buildTree? root (other :: outer) tokens).map outline? := by
  induction tokens generalizing one other with
  | nil => rfl
  | cons token rest ih =>
      rw [buildTree?_cons, buildTree?_cons]
      cases data : token.isData with
      | false => exact build_of_rel (@stepTree?_markup root [] outer one other token alike data) fun apart => apart.build rest
      | true =>
          rw [stepTree?_data data, stepTree?_data data]
          cases said : token.content? with
          | none => rfl
          | some content =>
              rw [BlankAhead, List.takeWhile_cons_of_pos data, List.forall_mem_cons] at unread
              have first : (one.addText content).leading = one.leading := by
                rcases unread with fixed | blank
                · exact leading_addText_settled fixed
                · exact leading_addText_blank (blank.1 content said)
              refine ih (alike.addText first (leading_addText_settled settled)) (isSettled_addText settled) ?_
              exact unread.imp isSettled_addText And.right

theorem buildTree?_textTokens (inner : OpenElement) (raw : List Char) :
    buildTree? root (inner :: outer) (textTokens raw ++ tokens) = (textContent? raw).bind fun content =>
      buildTree? root (inner.addRaw raw content :: outer) tokens := by
  unfold textTokens OpenElement.addRaw
  split
  · rename_i nothing
    rw [nothing]
    rfl
  · rw [List.singleton_append, buildTree?_cons, stepTree?]
    cases textContent? raw with
    | none => rfl
    | some content => rfl

theorem buildTree?_textTokens_outside (raw : List Char) :
    buildTree? root [] (textTokens raw ++ tokens) =
      if raw.all isSpace then buildTree? root [] tokens else none := by
  unfold textTokens
  split
  · rename_i nothing
    rw [nothing]
    rfl
  · rw [List.singleton_append, buildTree?_cons, stepTree?]
    split
    · rfl
    · rfl

theorem leading_addRaw_settled {inner : OpenElement} (settled : inner.isSettled = true)
    (raw content : List Char) : (inner.addRaw raw content).leading = inner.leading := by
  unfold OpenElement.addRaw
  split
  · rfl
  · exact leading_addText_settled settled

theorem isSettled_addRaw {inner : OpenElement} (settled : inner.isSettled = true) (raw content : List Char) :
    (inner.addRaw raw content).isSettled = true := by
  unfold OpenElement.addRaw
  split
  · exact settled
  · exact isSettled_addText settled

/-- Of two texts, the second makes no difference if it is blank. -/
theorem leading_addRaw_append {inner : OpenElement} {raw more front back both : List Char}
    (whole : ¬ EndsInReference raw) (first : textContent? raw = some front)
    (second : textContent? more = some back) (joined : textContent? (raw ++ more) = some both)
    (blank : back.all Text.isBlank = true) :
    (inner.addRaw (raw ++ more) both).leading = (inner.addRaw raw front).leading := by
  unfold OpenElement.addRaw
  by_cases nothing : raw = []
  · subst nothing
    rw [List.nil_append] at joined ⊢
    cases second.symm.trans joined
    rw [if_pos rfl]
    split
    · rfl
    · exact leading_addText_blank blank
  · rw [if_neg nothing, if_neg (by simp [nothing])]
    exact leading_addText_congr (textContent?_append_blank whole first second blank joined)

theorem OpenElement.addRaw_keeps (inner : OpenElement) (raw content : List Char) :
    (inner.addRaw raw content).name = inner.name ∧ (inner.addRaw raw content).scope = inner.scope ∧
      outlines (inner.addRaw raw content).children.reverse = outlines inner.children.reverse := by
  unfold OpenElement.addRaw
  split
  · exact ⟨rfl, rfl, rfl⟩
  · exact ⟨addText_name, addText_scope, outlines_addText⟩

/-- Text that is parted by a remark looks like the text as a whole, if its second part is blank or it is not
what the element begins with. -/
theorem alike_addRaw {inner : OpenElement} {raw more front back both : List Char} (whole : ¬ EndsInReference raw)
    (first : textContent? raw = some front) (second : textContent? more = some back)
    (joined : textContent? (raw ++ more) = some both)
    (unread : inner.isSettled = true ∨ back.all Text.isBlank = true) :
    (inner.addRaw (raw ++ more) both).Alike (((inner.addRaw raw front).addNode .remark).addRaw more back) := by
  obtain ⟨nameJoined, scopeJoined, elementsJoined⟩ := inner.addRaw_keeps (raw ++ more) both
  obtain ⟨nameFirst, scopeFirst, elementsFirst⟩ := inner.addRaw_keeps raw front
  obtain ⟨nameLast, scopeLast, elementsLast⟩ := ((inner.addRaw raw front).addNode .remark).addRaw_keeps more back
  have parted : ((inner.addRaw raw front).addNode .remark).isSettled = true := isSettled_addNode rfl
  constructor
  case name => exact nameJoined.trans (nameFirst.symm.trans nameLast.symm)
  case scope => exact scopeJoined.trans (scopeFirst.symm.trans scopeLast.symm)
  case leading =>
    rw [leading_addRaw_settled parted, leading_addNode rfl]
    rcases unread with settled | blank
    · rw [leading_addRaw_settled settled, leading_addRaw_settled settled]
    · exact leading_addRaw_append whole first second joined blank
  case elements =>
    rw [elementsJoined, elementsLast, outlines_addNode, elementsFirst]
    exact (List.append_nil _).symm

theorem isData_of_mem_textTokens {raw : List Char} (member : token ∈ textTokens raw) : token.isData = true := by
  unfold textTokens at member
  split at member
  · cases member
  · rw [List.mem_singleton.mp member]
    rfl

theorem BlankAhead.text {raw : List Char} (blank : BlankAhead (textTokens raw ++ tokens)) :
    BlankAhead tokens ∧ ∀ content, textContent? raw = some content → content.all Text.isBlank = true := by
  unfold textTokens at blank
  split at blank
  · rename_i nothing
    refine ⟨blank, fun content said => ?_⟩
    rw [nothing] at said
    cases said
    rfl
  · rw [BlankAhead, List.singleton_append, List.takeWhile_cons_of_pos (by rfl), List.forall_mem_cons] at blank
    exact ⟨blank.2, blank.1⟩

/-- A remark in text makes no difference to the outline, if what follows it in the text is blank or the text
is not what its element begins with. -/
theorem outline_remark {raw more : List Char} (whole : ¬ EndsInReference raw)
    (unread : BlankAhead (textTokens more ++ tokens) ∨ ¬ BeginsElement (earlier ++ textTokens raw)) :
    (buildTree? none [] (earlier ++ (textTokens (raw ++ more) ++ tokens))).map outline? =
      (buildTree? none [] (earlier ++ (textTokens raw ++ .remark :: (textTokens more ++ tokens)))).map outline? := by
  rw [buildTree?_append, buildTree?_append]
  cases ran : runTree? none [] earlier with
  | none => rfl
  | some next =>
      obtain ⟨root, opened⟩ := next
      dsimp only [Option.bind_some]
      cases opened with
      | nil =>
          have passed : buildTree? root [] (.remark :: (textTokens more ++ tokens)) =
              buildTree? root [] (textTokens more ++ tokens) := rfl
          rw [buildTree?_textTokens_outside, buildTree?_textTokens_outside, passed,
            buildTree?_textTokens_outside, List.all_append]
          cases raw.all isSpace with
          | false => rfl
          | true => rfl
      | cons inner outer =>
          have passed : ∀ element : OpenElement,
              buildTree? root (element :: outer) (.remark :: (textTokens more ++ tokens)) =
                (textContent? more).bind fun content =>
                  buildTree? root ((element.addNode .remark).addRaw more content :: outer) tokens :=
            fun element => buildTree?_textTokens _ more
          rw [buildTree?_textTokens, buildTree?_textTokens]
          simp only [passed]
          have parts := @textContent?_append_isSome more raw whole
          cases first : textContent? raw with
          | none =>
              have broken : textContent? (raw ++ more) = none := by
                rw [first, Option.isSome_none, Bool.false_and] at parts
                exact Option.not_isSome_iff_eq_none.mp (by rw [parts]; decide)
              rw [broken]
              rfl
          | some front =>
              cases second : textContent? more with
              | none =>
                  have broken : textContent? (raw ++ more) = none := by
                    rw [second, Option.isSome_none, Bool.and_false] at parts
                    exact Option.not_isSome_iff_eq_none.mp (by rw [parts]; decide)
                  rw [broken]
                  rfl
              | some back =>
                  rw [first, second] at parts
                  obtain ⟨both, joined⟩ := Option.isSome_iff_exists.mp parts
                  rw [joined]
                  dsimp only [Option.bind_some]
                  have known : inner.isSettled = true ∨
                      back.all Text.isBlank = true ∧ BlankAhead tokens := by
                    rcases unread with blank | noBeginning
                    · exact .inr ⟨blank.text.2 back second, blank.text.1⟩
                    · left
                      by_contra goesOn
                      rw [Bool.not_eq_true] at goesOn
                      exact noBeginning ((beginsElement_of_open ran goesOn).append
                        fun token member => isData_of_mem_textTokens member)
                  refine build_of_alike (alike_addRaw whole first second joined (known.imp_right And.left))
                    (isSettled_addRaw (isSettled_addNode rfl) more back) ?_
                  exact known.imp (fun settled => isSettled_addRaw settled _ _) And.right

/-! ### Text behind a remark -/

/-- Text that can be read comes to nothing in an element that does not begin with it. -/
theorem build_settled {element : OpenElement} {raw : List Char} (settled : element.isSettled = true)
    (readable : (textContent? raw).isSome = true) :
    (buildTree? root (element :: outer) (textTokens raw ++ tokens)).map outline? =
      (buildTree? root (element :: outer) tokens).map outline? := by
  obtain ⟨content, said⟩ := Option.isSome_iff_exists.mp readable
  obtain ⟨name, scope, elements⟩ := element.addRaw_keeps raw content
  rw [buildTree?_textTokens, said, Option.bind_some]
  exact Apart.build (@Apart.within root [] outer _ _
    ⟨name, scope, leading_addRaw_settled settled raw content, elements⟩
    fun _ => ⟨isSettled_addRaw settled raw content, settled⟩) tokens

theorem opened_of_beginsElement (ran : runTree? none [] tokens = some (root, opened))
    (begins : BeginsElement tokens) : opened ≠ [] := by
  obtain ⟨before, name, attributes, inside, rfl, data⟩ := begins
  induction inside using List.reverseRecOn generalizing root opened with
  | nil =>
      rw [runTree?_concat] at ran
      obtain ⟨⟨middle, around⟩, -, last⟩ := Option.bind_eq_some_iff.mp ran
      obtain ⟨element, same⟩ := stepTree?_startTag_some last
      cases same
      exact List.cons_ne_nil _ _
  | append_singleton inside token ih =>
      rw [← List.cons_append, ← List.append_assoc, runTree?_concat] at ran
      obtain ⟨⟨middle, around⟩, first, last⟩ := Option.bind_eq_some_iff.mp ran
      have something := ih (fun token member => data token (List.mem_append_left _ member)) first
      obtain ⟨parent, rest, rfl⟩ := List.exists_cons_of_ne_nil something
      rw [stepTree?_data (data token (by simp))] at last
      obtain ⟨content, -, same⟩ := Option.map_eq_some_iff.mp last
      cases same
      exact List.cons_ne_nil _ _

theorem outline_text_behind_remark {raw : List Char} (begins : BeginsElement earlier)
    (readable : (textContent? raw).isSome = true) :
    (buildTree? none [] (earlier ++ .remark :: (textTokens raw ++ tokens))).map outline? =
      (buildTree? none [] (earlier ++ .remark :: tokens)).map outline? := by
  rw [buildTree?_append, buildTree?_append]
  cases ran : runTree? none [] earlier with
  | none => rfl
  | some next =>
      obtain ⟨root, opened⟩ := next
      obtain ⟨inner, outer, rfl⟩ := List.exists_cons_of_ne_nil (opened_of_beginsElement ran begins)
      exact @build_settled root outer tokens (inner.addNode .remark) raw (isSettled_addNode rfl) readable

end Building

end CrossBuild.Xml
