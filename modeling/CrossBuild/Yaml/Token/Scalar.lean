/-
Scalars in the text of a document.

A scalar is plain, in quotes, or a block of lines. Line breaks inside plain and quoted scalars are
folded: a single one becomes a space and of several the first is dropped. Blocks keep their breaks
or fold them, as their header says. Each reader here starts behind what introduces the scalar and
returns its text together with the place where it ends.
-/

import CrossBuild.Yaml.Token

namespace CrossBuild.Yaml

/-- What lies between two words of a folded scalar: the blanks of one line, or the first break and
the further ones. All are kept in reverse. -/
structure Gap where
  blanks : List Char
  firstBreak : List Char
  otherBreaks : List Char
  inBreaks : Bool

def Gap.none : Gap :=
  { blanks := []
    firstBreak := []
    otherBreaks := []
    inBreaks := false }

def Gap.addBlank (gap : Gap) (char : Char) : Gap :=
  if gap.inBreaks then gap else { gap with blanks := char :: gap.blanks }

def Gap.addBreak (gap : Gap) (char : Char) : Gap :=
  if gap.inBreaks then { gap with otherBreaks := char :: gap.otherBreaks }
  else { gap with blanks := [], firstBreak := [char], inBreaks := true }

/-- What the gap contributes to the scalar, in reverse. -/
def Gap.folded (gap : Gap) : List Char :=
  if gap.inBreaks then
    if gap.firstBreak = ['\n'] then
      if gap.otherBreaks.isEmpty then [' '] else gap.otherBreaks
    else gap.otherBreaks ++ gap.firstBreak
  else gap.blanks

/-- Text, place behind it, and whether a line break came last. -/
structure ScannedScalar where
  text : String
  cursor : Cursor
  endsInBreak : Bool

/-- Progress through a folded scalar: the text in reverse, the gap since the last word, and the
place. -/
structure FoldState where
  text : List Char
  gap : Gap
  index : Nat
  line : Nat
  column : Nat

def FoldState.ofCursor (cursor : Cursor) : FoldState :=
  { text := []
    gap := .none
    index := cursor.index
    line := cursor.line
    column := cursor.column }

def FoldState.cursor (state : FoldState) (rest : List Char) : Cursor :=
  { rest := rest
    index := state.index
    line := state.line
    column := state.column }

def FoldState.move (state : FoldState) : FoldState :=
  { state with index := state.index + 1, column := state.column + 1 }

def FoldState.nextLine (state : FoldState) : FoldState :=
  { state with index := state.index + 1, line := state.line + 1, column := 0 }

def FoldState.blank (state : FoldState) (char : Char) : FoldState :=
  { state.move with gap := state.gap.addBlank char }

def FoldState.lineBreak (state : FoldState) (char : Char) : FoldState :=
  { state.nextLine with gap := state.gap.addBreak char }

/-- Put what the gap contributes behind the text and open a new gap. -/
def FoldState.closeGap (state : FoldState) (gap : Gap) : FoldState :=
  { state with text := state.gap.folded ++ state.text, gap := gap }

/-- Close the gap and put a character behind it. -/
def FoldState.put (state : FoldState) (char : Char) : FoldState :=
  { state.move with text := char :: (state.gap.folded ++ state.text), gap := .none }

/-- The scalar without the gap behind its last word. -/
def FoldState.finish (state : FoldState) (rest : List Char) : ScannedScalar :=
  { text := String.ofList state.text.reverse
    cursor := state.cursor rest
    endsInBreak := state.gap.inBreaks }

/-- Characters that may not follow a colon within a plain scalar of a flow collection. -/
def isFlowStop (char : Char) : Bool :=
  ",?[]\x7b\x7d".toList.contains char

/-- Characters that end a plain scalar of a flow collection. -/
def isFlowIndicator (char : Char) : Bool :=
  ",[]\x7b\x7d".toList.contains char

/-- Read a plain scalar. `indent` is the least column of its further lines in block context and
`inWord` tells that the last character belongs to a word. -/
def scanPlain? (inFlow : Bool) (indent : Int) (inWord : Bool) (state : FoldState) :
    List Char → Option ScannedScalar
  | [] => some (state.finish [])
  | char :: rest =>
      if isSpaceOrTab char then
        if state.gap.inBreaks && (state.column : Int) < indent && char = '\t' then none
        else scanPlain? inFlow indent false (state.blank char) rest
      else if isBreak char then
        scanPlain? inFlow indent false (state.lineBreak char) rest
      else if !inWord && (!inFlow && (state.column : Int) < indent || char = '#' ||
          state.column = 0 && startsDocumentMark (char :: rest)) then
        some (state.finish (char :: rest))
      else if inFlow && char = ':' && rest.head?.any isFlowStop then none
      else if (char = ':' && endsWord rest) || (inFlow && isFlowIndicator char) then
        some (state.finish (char :: rest))
      else scanPlain? inFlow indent true (state.put char) rest

/-- The character of a short escape in double quotes. -/
def escapedChar? (letter : Char) : Option Char :=
  match letter with
  | '0' => some '\x00'
  | 'a' => some '\x07'
  | 'b' => some '\x08'
  | 't' => some '\t'
  | '\t' => some '\t'
  | 'n' => some '\n'
  | 'v' => some '\x0b'
  | 'f' => some '\x0c'
  | 'r' => some '\r'
  | 'e' => some '\x1b'
  | ' ' => some ' '
  | '"' => some '"'
  | '/' => some '/'
  | '\\' => some '\\'
  | 'N' => some '\u0085'
  | '_' => some '\u00a0'
  | 'L' => some '\u2028'
  | 'P' => some '\u2029'
  | _ => none

/-- The number of digits of an escape by number. -/
def escapeWidth? (letter : Char) : Option Nat :=
  match letter with
  | 'x' => some 2
  | 'u' => some 4
  | 'U' => some 8
  | _ => none

/-- What the reader of a scalar in quotes has just passed. -/
inductive QuotedMode where
  /-- a character of a word -/
  | word
  /-- a blank or a break, or nothing yet of the line -/
  | gap
  /-- a quote that ends the scalar unless another one follows -/
  | quote
  /-- a backslash -/
  | escape
  /-- the start of an escape by number: digits to come and the value so far -/
  | digits (left value : Nat)

/-- Read a scalar in quotes from behind the opening quote. -/
def scanQuoted? (single : Bool) (mode : QuotedMode) (state : FoldState) :
    List Char → Option ScannedScalar
  | [] =>
      match mode with
      | .quote => some ((state.closeGap .none).finish [])
      | _ => none
  | char :: rest =>
      match mode with
      | .quote =>
          if char = '\'' then scanQuoted? single .word (state.put char) rest
          else some ((state.closeGap .none).finish (char :: rest))
      | .escape =>
          if isBreak char then
            let joined := (state.closeGap { Gap.none with inBreaks := true }).nextLine
            scanQuoted? single .gap joined rest
          else
            match escapedChar? char, escapeWidth? char with
            | some escaped, _ => scanQuoted? single .word (state.put escaped) rest
            | none, some width => scanQuoted? single (.digits width 0) state.move rest
            | none, none => none
      | .digits left value =>
          match digitValue? 16 char with
          | none => none
          | some digit =>
              let code := 16 * value + digit
              if left > 1 then scanQuoted? single (.digits (left - 1) code) state.move rest
              else if code.isValidChar then
                scanQuoted? single .word (state.put (Char.ofNat code)) rest
              else none
      | _ =>
          if isSpaceOrTab char then scanQuoted? single .gap (state.blank char) rest
          else if isBreak char then scanQuoted? single .gap (state.lineBreak char) rest
          else if state.column = 0 && startsDocumentMark (char :: rest) then none
          else if single && char = '\'' then scanQuoted? single .quote state.move rest
          else if !single && char = '"' then some ((state.closeGap .none).move.finish rest)
          else if !single && char = '\\' then scanQuoted? single .escape state.move rest
          else scanQuoted? single .word (state.put char) rest

/-- How the breaks at the end of a block scalar are treated. -/
inductive Chomping where
  | strip
  | clip
  | keep
  deriving DecidableEq

/-- What the header of a block scalar says; no increment leaves the margin to its first line. -/
structure BlockHeader where
  chomping : Chomping
  increment : Option Nat

def chompingOf? (char : Char) : Option Chomping :=
  if char = '+' then some .keep else if char = '-' then some .strip else none

def incrementOf? (char : Char) : Option Nat :=
  if char.isDigit then some (char.toNat - '0'.toNat) else none

/-- Read the two signs of a header, in either order. -/
def scanHeaderSigns (cursor : Cursor) : BlockHeader × Cursor :=
  let first := cursor.at? 0
  let second := cursor.at? 1
  match first.bind chompingOf?, first.bind incrementOf? with
  | some chomping, _ =>
      match second.bind incrementOf? with
      | some increment => ({ chomping, increment := some increment }, cursor.skip 2)
      | none => ({ chomping, increment := none }, cursor.skip 1)
  | none, some increment =>
      match second.bind chompingOf? with
      | some chomping => ({ chomping, increment := some increment }, cursor.skip 2)
      | none => ({ chomping := .clip, increment := some increment }, cursor.skip 1)
  | none, none => ({ chomping := .clip, increment := none }, cursor)

/-- Skip blanks and a comment up to the end of the line, where nothing else may stand. -/
def skipLineEnd? (cursor : Cursor) : Option Cursor :=
  let afterBlanks := cursor.skipWhile isSpaceOrTab
  let afterComment :=
    if afterBlanks.isAt 0 '#' then afterBlanks.skipWhile fun char => !isBreak char
    else afterBlanks
  if afterComment.rest.isEmpty || afterComment.sees 0 isBreak then some afterComment.skipBreak
  else none

/-- Breaks between lines of a block, in reverse, the widest indentation among them, and the place
behind them. -/
structure BlankLines where
  breaks : List Char
  widest : Nat
  cursor : Cursor

/-- Pass over empty lines and the margin of the next line. Without a known margin all spaces count
as margin. A tab in the margin is refused. -/
def scanBlankLines? (margin : Option Nat) (breaks : List Char) (widest index line column : Nat) :
    List Char → Option BlankLines
  | [] =>
      some { breaks, widest := max widest column, cursor := { rest := [], index, line, column } }
  | char :: rest =>
      let inMargin := margin.all (column < ·)
      if inMargin && char = ' ' then
        scanBlankLines? margin breaks widest (index + 1) line (column + 1) rest
      else if inMargin && char = '\t' then none
      else if isBreak char then
        scanBlankLines? margin (char :: breaks) (max widest column) (index + 1) (line + 1) 0 rest
      else
        some { breaks, widest := max widest column
               cursor := { rest := char :: rest, index, line, column } }

def Cursor.scanBlankLines? (cursor : Cursor) (margin : Option Nat) : Option BlankLines :=
  Yaml.scanBlankLines? margin [] 0 cursor.index cursor.line cursor.column cursor.rest

/-- Progress through the lines of a block: text, break behind the last line and breaks of the empty
lines after it, all in reverse, and whether the last line starts with a blank. -/
structure BlockState where
  text : List Char
  lastBreak : List Char
  emptyLines : List Char
  startsBlank : Bool

/-- What stands between the last line and the next one. -/
def BlockState.joined (state : BlockState) (literal nextStartsBlank : Bool) : List Char :=
  if !literal && state.lastBreak = ['\n'] && !state.startsBlank && !nextStartsBlank then
    if state.emptyLines.isEmpty then ' ' :: state.text else state.emptyLines ++ state.text
  else state.emptyLines ++ (state.lastBreak ++ state.text)

/-- Read lines as long as they stand at the margin. Each takes a character at least. -/
def scanBlockLines? (literal : Bool) (margin : Nat) :
    Nat → BlockState → Cursor → Option (BlockState × Cursor)
  | 0, state, cursor => some (state, cursor)
  | fuel + 1, state, cursor =>
      if cursor.column ≠ margin || cursor.rest.isEmpty then some (state, cursor)
      else
        let startsBlank := cursor.sees 0 isSpaceOrTab
        let line := cursor.spanChars fun char => !isBreak char
        let lineEnd := cursor.skip line.length
        match lineEnd.skipBreak.scanBlankLines? (some margin) with
        | none => none
        | some blank =>
            scanBlockLines? literal margin fuel
              { text := line.reverse ++ state.joined literal startsBlank
                lastBreak := (lineEnd.rest.take 1).filter isBreak
                emptyLines := blank.breaks
                startsBlank }
              blank.cursor

/-- The margin of a block without a header number: that of its widest empty or first full line, to
the right of what surrounds it. -/
def ownMargin (indent : Int) (widest : Nat) : Nat :=
  max (max widest (indent + 1).toNat) 1

/-- Read a block scalar from behind its indicator; `indent` is the column of what surrounds it. -/
def scanBlock? (literal : Bool) (indent : Int) (cursor : Cursor) : Option ScannedScalar := do
  let (header, afterSigns) := scanHeaderSigns cursor
  if header.increment = some 0 then none
  let content ← skipLineEnd? afterSigns
  let margin := header.increment.map fun increment => (max indent 0).toNat + increment
  let leading ← content.scanBlankLines? margin
  let column := margin.getD (ownMargin indent leading.widest)
  let begin : BlockState :=
    { text := [], lastBreak := [], emptyLines := leading.breaks, startsBlank := false }
  let (state, place) ←
    scanBlockLines? literal column (leading.cursor.rest.length + 1) begin leading.cursor
  let chomped :=
    match header.chomping with
    | .strip => state.text
    | .clip => state.lastBreak ++ state.text
    | .keep => state.emptyLines ++ (state.lastBreak ++ state.text)
  return {
    text := String.ofList chomped.reverse
    cursor := place
    endsInBreak := true }

end CrossBuild.Yaml
