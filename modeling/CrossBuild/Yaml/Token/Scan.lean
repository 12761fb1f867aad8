/-
Cutting a document into tokens.

Indentation opens and closes block collections. A scalar, a property or a flow collection may turn
out to be a key when a colon follows on its line; until then its place is remembered, and the tokens
that mark it as a key are put in front of it afterwards. Keys of a block mapping that stand at its
column have to be followed by a colon.
-/

import CrossBuild.Yaml.Token.Property

namespace CrossBuild.Yaml

/-- A place at which a key may have begun: the number of tokens before it, and where it stands. -/
structure KeyMark where
  required : Bool
  tokenIndex : Nat
  index : Nat
  line : Nat
  column : Nat

/-- A scanner holds one possible key for the block context and one for every open flow collection,
the innermost first, and the columns of the open block collections, the innermost first. -/
structure Scanner where
  cursor : Cursor
  keyMarks : List (Option KeyMark)
  indents : List Nat
  keyAllowed : Bool
  tokens : Array Token

namespace Scanner

def start (text : List Char) : Scanner :=
  { cursor := Cursor.start text
    keyMarks := [none]
    indents := []
    keyAllowed := true
    tokens := #[] }

def inFlow (scanner : Scanner) : Bool :=
  scanner.keyMarks.length > 1

/-- The column of the innermost block collection, or one left of the margin. -/
def indent (scanner : Scanner) : Int :=
  match scanner.indents with
  | column :: _ => column
  | [] => -1

def emit (scanner : Scanner) (token : Token) : Scanner :=
  { scanner with tokens := scanner.tokens.push token }

def emitAt (scanner : Scanner) (position : Nat) (token : Token) : Scanner :=
  { scanner with tokens := scanner.tokens.insertIdxIfInBounds position token }

/-- Blanks between tokens. A tab is one only where no key may begin. -/
def isGap (scanner : Scanner) (char : Char) : Bool :=
  char = ' ' || (char = '\t' && (scanner.inFlow || !scanner.keyAllowed))

/-- Pass over blanks, comments and breaks. In block context a key may begin after a break. A byte
order mark at the start of the text is passed over too and counts as a column. -/
def skipGaps : Nat → Scanner → Scanner
  | 0, scanner => scanner
  | fuel + 1, scanner =>
      let unmarked :=
        if scanner.cursor.index = 0 && scanner.cursor.isAt 0 '\ufeff' then scanner.cursor.skip 1
        else scanner.cursor
      let afterBlanks := unmarked.skipWhile scanner.isGap
      let afterComment :=
        if afterBlanks.isAt 0 '#' then afterBlanks.skipWhile fun char => !isBreak char
        else afterBlanks
      if afterComment.sees 0 isBreak then
        skipGaps fuel
          { scanner with
            cursor := afterComment.skipBreak
            keyAllowed := scanner.keyAllowed || !scanner.inFlow }
      else { scanner with cursor := afterComment }

/-- A key has to end on the line where it began, within 1024 characters. -/
def KeyMark.isStale (mark : KeyMark) (cursor : Cursor) : Bool :=
  mark.line < cursor.line || mark.index + 1024 < cursor.index

/-- Forget the keys that can no longer come to be; a required one must not be among them. -/
def dropStaleKeys? (scanner : Scanner) : Option Scanner :=
  let stale := fun mark : KeyMark => KeyMark.isStale mark scanner.cursor
  if scanner.keyMarks.any fun mark => mark.any fun mark => mark.required && stale mark then none
  else
    some { scanner with
      keyMarks := scanner.keyMarks.map fun mark => mark.filter fun mark => !stale mark }

/-- Close the block collections to the right of a column. -/
def closeBlocks (scanner : Scanner) (column : Int) : Scanner :=
  if scanner.inFlow then scanner
  else
    let closed := scanner.indents.takeWhile fun indent : Nat => decide (column < (indent : Int))
    { scanner with
      indents := scanner.indents.drop closed.length
      tokens := scanner.tokens ++ (closed.map fun _ => Token.blockEnd).toArray }

/-- Open a block collection at a column unless one is open there. -/
def openBlock (scanner : Scanner) (column position : Nat) (token : Token) : Scanner :=
  if scanner.inFlow || (column : Int) ≤ scanner.indent then scanner
  else { scanner.emitAt position token with indents := column :: scanner.indents }

/-- Give up the innermost possible key. -/
def dropKey? (scanner : Scanner) : Option Scanner :=
  match scanner.keyMarks with
  | mark :: rest =>
      if mark.any KeyMark.required then none
      else some { scanner with keyMarks := none :: rest }
  | [] => some scanner

/-- Remember that a key may begin here. -/
def markKey? (scanner : Scanner) : Option Scanner :=
  if !scanner.keyAllowed then some scanner
  else
    let cursor := scanner.cursor
    let mark : KeyMark :=
      { required := !scanner.inFlow && scanner.indent = (cursor.column : Int)
        tokenIndex := scanner.tokens.size
        index := cursor.index
        line := cursor.line
        column := cursor.column }
    scanner.dropKey?.map fun dropped =>
      { dropped with keyMarks := some mark :: dropped.keyMarks.drop 1 }

def allowKey (scanner : Scanner) (allowed : Bool) : Scanner :=
  { scanner with keyAllowed := allowed }

def advance (scanner : Scanner) (count : Nat) : Scanner :=
  { scanner with cursor := scanner.cursor.skip count }

/-- A directive or a document mark stands outside all collections. -/
def leaveBlocks? (scanner : Scanner) : Option Scanner :=
  ((scanner.closeBlocks (-1)).dropKey?).map (·.allowKey false)

def scanMark? (scanner : Scanner) (token : Token) : Option Scanner :=
  scanner.leaveBlocks?.map fun left => (left.emit token).advance 3

def scanDirectiveLine? (scanner : Scanner) : Option Scanner := do
  let left ← scanner.leaveBlocks?
  let (token, after) ← scanDirective? left.cursor
  return { left.emit token with cursor := after }

def openFlow? (scanner : Scanner) (token : Token) : Option Scanner :=
  scanner.markKey?.map fun marked =>
    (({ marked with keyMarks := none :: marked.keyMarks }.allowKey true).emit token).advance 1

def closeFlow? (scanner : Scanner) (token : Token) : Option Scanner :=
  scanner.dropKey?.map fun dropped =>
    let marks := if dropped.inFlow then dropped.keyMarks.drop 1 else dropped.keyMarks
    (({ dropped with keyMarks := marks }.allowKey false).emit token).advance 1

def flowSeparator? (scanner : Scanner) : Option Scanner :=
  scanner.dropKey?.map fun dropped => ((dropped.allowKey true).emit .flowEntry).advance 1

def blockDash? (scanner : Scanner) : Option Scanner :=
  if !scanner.inFlow && !scanner.keyAllowed then none
  else
    let opened :=
      scanner.openBlock scanner.cursor.column scanner.tokens.size .blockSequenceStart
    opened.dropKey?.map fun dropped => ((dropped.allowKey true).emit .blockEntry).advance 1

def keyIndicator? (scanner : Scanner) : Option Scanner :=
  if !scanner.inFlow && !scanner.keyAllowed then none
  else
    let opened :=
      scanner.openBlock scanner.cursor.column scanner.tokens.size .blockMappingStart
    opened.dropKey?.map fun dropped =>
      ((dropped.allowKey (!dropped.inFlow)).emit .key).advance 1

/-- A colon: what was marked becomes a key, or the colon follows a key with an indicator. -/
def valueIndicator? (scanner : Scanner) : Option Scanner :=
  match scanner.keyMarks with
  | some mark :: rest =>
      let keyed := scanner.emitAt mark.tokenIndex .key
      let opened := keyed.openBlock mark.column mark.tokenIndex .blockMappingStart
      some ((({ opened with keyMarks := none :: rest }.allowKey false).emit .value).advance 1)
  | _ =>
      if !scanner.inFlow && !scanner.keyAllowed then none
      else
        let opened :=
          scanner.openBlock scanner.cursor.column scanner.tokens.size .blockMappingStart
        some (((opened.allowKey (!opened.inFlow)).emit .value).advance 1)

def scanAnchor? (scanner : Scanner) (token : String → Token) : Option Scanner := do
  let marked ← scanner.markKey?
  let (name, after) ← scanAnchorName? marked.cursor
  return { (marked.allowKey false).emit (token name) with cursor := after }

def scanTagToken? (scanner : Scanner) : Option Scanner := do
  let marked ← scanner.markKey?
  let (handle, suffix, after) ← scanTag? marked.inFlow marked.cursor
  return { (marked.allowKey false).emit (.tag handle suffix) with cursor := after }

def scanBlockToken? (scanner : Scanner) (literal : Bool) : Option Scanner := do
  let dropped ← scanner.dropKey?
  let scalar ← scanBlock? literal dropped.indent (dropped.cursor.skip 1)
  return { (dropped.allowKey true).emit (.scalar scalar.text false) with cursor := scalar.cursor }

def scanQuotedToken? (scanner : Scanner) (single : Bool) : Option Scanner := do
  let marked ← scanner.markKey?
  let first := marked.cursor.skip 1
  let scalar ← scanQuoted? single .word (FoldState.ofCursor first) first.rest
  return { (marked.allowKey false).emit (.scalar scalar.text false) with cursor := scalar.cursor }

def scanPlainToken? (scanner : Scanner) : Option Scanner := do
  let marked ← scanner.markKey?
  let cursor := marked.cursor
  let scalar ←
    scanPlain? marked.inFlow (marked.indent + 1) true (FoldState.ofCursor cursor) cursor.rest
  return {
    (marked.allowKey scalar.endsInBreak).emit (.scalar scalar.text true) with
    cursor := scalar.cursor }

/-- A plain scalar may begin with the character. -/
def startsPlain (scanner : Scanner) (char : Char) : Bool :=
  let reserved := "-?:,[]\x7b\x7d#&*!|>'\"%@\x60".toList
  let nextBlank := scanner.cursor.sees 1 isSpaceOrTab
  !(isSpaceOrTab char || isBreak char || reserved.contains char) ||
    (char = '-' && !nextBlank) ||
    (!scanner.inFlow && (char = '?' || char = ':') && !scanner.cursor.wordEndsAt 1)

/-- Cut off the next token, which begins with the given character. -/
def scanToken? (scanner : Scanner) (char : Char) : Option Scanner :=
  let cursor := scanner.cursor
  let endsWord := cursor.wordEndsAt 1
  let mark := cursor.column = 0 && startsDocumentMark cursor.rest
  if cursor.column = 0 && char = '%' then scanner.scanDirectiveLine?
  else if mark && char = '-' then scanner.scanMark? .documentStart
  else if mark then scanner.scanMark? .documentEnd
  else if char = '[' then scanner.openFlow? .flowSequenceStart
  else if char = '\x7b' then scanner.openFlow? .flowMappingStart
  else if char = ']' then scanner.closeFlow? .flowSequenceEnd
  else if char = '\x7d' then scanner.closeFlow? .flowMappingEnd
  else if char = ',' then scanner.flowSeparator?
  else if char = '-' && endsWord then scanner.blockDash?
  else if char = '?' && (scanner.inFlow || endsWord) then scanner.keyIndicator?
  else if char = ':' && (scanner.inFlow || endsWord) then scanner.valueIndicator?
  else if char = '*' then scanner.scanAnchor? .alias
  else if char = '&' then scanner.scanAnchor? .anchor
  else if char = '!' then scanner.scanTagToken?
  else if char = '|' && !scanner.inFlow then scanner.scanBlockToken? true
  else if char = '>' && !scanner.inFlow then scanner.scanBlockToken? false
  else if char = '\'' then scanner.scanQuotedToken? true
  else if char = '"' then scanner.scanQuotedToken? false
  else if scanner.startsPlain char then scanner.scanPlainToken?
  else none

/-- The end of the text closes all block collections. -/
def finish? (scanner : Scanner) : Option (List Token) :=
  ((scanner.closeBlocks (-1)).dropKey?).map fun closed => closed.tokens.toList

/-- Cut off tokens until the text is used up. Every token takes a character at least. -/
def run? : Nat → Scanner → Option (List Token)
  | 0, _ => none
  | fuel + 1, scanner =>
      match (scanner.skipGaps (scanner.cursor.rest.length + 1)).dropStaleKeys? with
      | none => none
      | some fresh =>
          let placed := fresh.closeBlocks fresh.cursor.column
          match placed.cursor.rest with
          | [] => placed.finish?
          | char :: _ =>
              match placed.scanToken? char with
              | none => none
              | some next => run? fuel next

end Scanner

/-- The tokens of a document; nothing when it cannot be cut into tokens. -/
def tokens? (text : String) : Option (List Token) :=
  let chars := text.toList
  if !chars.all isDocumentChar then none
  else
    let unified := unifyBreaks chars
    Scanner.run? (unified.length + 1) (Scanner.start unified)

end CrossBuild.Yaml
