/-
Tokens of a document, and the place in the text where the next one begins.

The tokens are the punctuation of the document, its scalars and its node properties. Block
structure, which the text shows by indentation, has tokens of its own, so that the order of the
tokens alone says how the document is built. A text that cannot be cut into tokens is refused as a
whole.
-/

import CrossBuild.Yaml.Style

namespace CrossBuild.Yaml

inductive Token where
  | versionDirective (major minor : Nat)
  | tagDirective (handle replacement : String)
  | documentStart
  | documentEnd
  | blockSequenceStart
  | blockMappingStart
  | blockEnd
  | flowSequenceStart
  | flowSequenceEnd
  | flowMappingStart
  | flowMappingEnd
  | blockEntry
  | flowEntry
  | key
  | value
  | alias (name : String)
  | anchor (name : String)
  | tag (handle suffix : String)
  | scalar (text : String) (plain : Bool)
  deriving DecidableEq, Inhabited

/-- The rest of the text with the number of characters before it, its line and its column. Line ends
are unified beforehand. -/
structure Cursor where
  rest : List Char
  index : Nat
  line : Nat
  column : Nat

namespace Cursor

def start (text : List Char) : Cursor :=
  { rest := text
    index := 0
    line := 0
    column := 0 }

/-- The character at a distance; nothing beyond the end. -/
def at? (cursor : Cursor) (distance : Nat) : Option Char :=
  cursor.rest[distance]?

/-- The character at a distance satisfies the test. -/
def sees (cursor : Cursor) (distance : Nat) (test : Char → Bool) : Bool :=
  (cursor.at? distance).any test

def isAt (cursor : Cursor) (distance : Nat) (char : Char) : Bool :=
  cursor.at? distance == some char

/-- A blank, a break or the end stands at a distance. -/
def wordEndsAt (cursor : Cursor) (distance : Nat) : Bool :=
  match cursor.at? distance with
  | some char => isSpaceOrTab char || isBreak char
  | none => true

/-- Move over characters of the current line. -/
def skip (cursor : Cursor) (count : Nat) : Cursor :=
  { cursor with
    rest := cursor.rest.drop count
    index := cursor.index + count
    column := cursor.column + count }

def spanChars (cursor : Cursor) (test : Char → Bool) : List Char :=
  cursor.rest.takeWhile test

/-- Move over characters of the current line that satisfy the test. -/
def skipWhile (cursor : Cursor) (test : Char → Bool) : Cursor :=
  cursor.skip (cursor.spanChars test).length

/-- Move over one line break, if there is one. -/
def skipBreak (cursor : Cursor) : Cursor :=
  match cursor.rest with
  | char :: rest =>
      if isBreak char then
        { rest := rest, index := cursor.index + 1, line := cursor.line + 1, column := 0 }
      else cursor
  | [] => cursor

end Cursor

/-- One line feed for every way to end a line but the separators of lines and paragraphs, which
stand for themselves. -/
def unifyBreaks : List Char → List Char
  | '\r' :: '\n' :: rest => '\n' :: unifyBreaks rest
  | '\r' :: rest => '\n' :: unifyBreaks rest
  | '\u0085' :: rest => '\n' :: unifyBreaks rest
  | char :: rest => char :: unifyBreaks rest
  | [] => []

/-- Letters, digits, underscores and dashes: the characters of names. -/
def isNameChar (char : Char) : Bool :=
  char.isAlphanum || char = '_' || char = '-'

/-- Three dashes or three points that end a word. -/
def startsDocumentMark (text : List Char) : Bool :=
  let marked :=
    match text with
    | '-' :: '-' :: '-' :: rest => some rest
    | '.' :: '.' :: '.' :: rest => some rest
    | _ => none
  match marked with
  | none => false
  | some [] => true
  | some (char :: _) => isSpaceOrTab char || isBreak char

/-- Characters that a document may contain at all. -/
def isDocumentChar (char : Char) : Bool :=
  let code := char.toNat
  code = 0x09 || code = 0x0A || code = 0x0D || (0x20 ≤ code && code ≤ 0x7E) || code = 0x85 ||
    (0xA0 ≤ code && code ≤ 0xD7FF) || (0xE000 ≤ code && code ≤ 0xFFFD) || 0x10000 ≤ code

end CrossBuild.Yaml
