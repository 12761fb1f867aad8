/-
How a string is written in a block document.

A string stands plain where it can, else in single quotes, else in double quotes with escapes; a
string with a line feed is written as a literal block where that is possible. Lines are never
folded. The file decides the style of one string and writes its text; where the text stands is
decided elsewhere.
-/

import CrossBuild.Yaml.Scalar

namespace CrossBuild.Yaml

/-- Characters that end a line. -/
def isBreak (char : Char) : Bool :=
  char = '\n' || char = '\r' || char = '\u0085' || char = '\u2028' || char = '\u2029'

/-- Characters that separate words within a line. -/
def isSpaceOrTab (char : Char) : Bool :=
  char = ' ' || char = '\t'

/-- A blank, a break or, for the terminating zero, the end of the text. -/
def isSeparator (char : Char) : Bool :=
  isSpaceOrTab char || isBreak char || char = '\x00'

/-- Characters that may stand in a document as they are. The line feed is among them; the tab, the
byte order mark and the last two code points of the basic plane are not. -/
def isPrintable (char : Char) : Bool :=
  let code := char.toNat
  char = '\n' || (0x20 ≤ code && code ≤ 0x7E) || (0xA0 ≤ code && code ≤ 0xD7FF) ||
    (0xE000 ≤ code && code ≤ 0xFFFD && code ≠ 0xFEFF) || 0x10000 ≤ code

/-- Characters that say something else at the start of a plain scalar. -/
def isIndicator (char : Char) : Bool :=
  "#,[]\x7b\x7d&*!|>'\"%@\x60".toList.contains char

inductive Style where
  | plain
  | single
  | double
  | literal
  deriving DecidableEq

/-- Some character of the first kind stands directly before one of the second kind. -/
def someNeighbours (first second : Char → Bool) : List Char → Bool
  | one :: two :: rest => (first one && second two) || someNeighbours first second (two :: rest)
  | _ => false

def endsWord (rest : List Char) : Bool :=
  match rest with
  | [] => true
  | char :: _ => isSeparator char

/-- A colon that ends a word, or a hash sign that begins one. -/
def innerIndicator (afterSeparator : Bool) : List Char → Bool
  | [] => false
  | char :: rest =>
      (char = ':' && endsWord rest) || (char = '#' && afterSeparator) ||
        innerIndicator (isSeparator char) rest

/-- The plain form would be taken for something other than a scalar. -/
def readsAsStructure (text : List Char) : Bool :=
  match text with
  | '-' :: '-' :: '-' :: _ => true
  | '.' :: '.' :: '.' :: _ => true
  | char :: rest =>
      isIndicator char || ((char = '?' || char = ':' || char = '-') && endsWord rest) ||
        innerIndicator (isSeparator char) rest
  | [] => false

def headSatisfies (test : Char → Bool) (text : List Char) : Bool :=
  text.head?.any test

def isSpace (char : Char) : Bool :=
  char = ' '

/-- Neither quotes of one kind nor a block can hold a character that is not printable or a space
before a break. -/
def needsEscapes (text : List Char) : Bool :=
  !text.all isPrintable || someNeighbours isSpace isBreak text

def singleAllowed (text : List Char) : Bool :=
  !needsEscapes text && !someNeighbours isBreak isSpace text

def plainAllowed (text : List Char) : Bool :=
  singleAllowed text && !text.any isBreak && !headSatisfies isSpace text &&
    !headSatisfies isSpace text.reverse && !readsAsStructure text

def literalAllowed (text : List Char) : Bool :=
  !needsEscapes text && !headSatisfies isSpace text.reverse

/-- The style of a string value. -/
def styleOf (text : String) : Style :=
  let chars := text.toList
  if chars.contains '\n' then
    if literalAllowed chars then .literal else .double
  else if !needsQuotes text && plainAllowed chars then .plain
  else if chars.isEmpty || singleAllowed chars then .single
  else .double

/-- A number in base sixteen with upper-case digits, filled up with zeros on the left. -/
def upperHex (width value : Nat) : List Char :=
  let digits := (Nat.toDigits 16 value).map Char.toUpper
  List.replicate (width - digits.length) '0' ++ digits

/-- The letter of a short escape. -/
def shortEscape? (char : Char) : Option Char :=
  match char.toNat with
  | 0x00 => some '0'
  | 0x07 => some 'a'
  | 0x08 => some 'b'
  | 0x09 => some 't'
  | 0x0A => some 'n'
  | 0x0B => some 'v'
  | 0x0C => some 'f'
  | 0x0D => some 'r'
  | 0x1B => some 'e'
  | 0x22 => some '"'
  | 0x5C => some '\\'
  | 0x85 => some 'N'
  | 0xA0 => some '_'
  | 0x2028 => some 'L'
  | 0x2029 => some 'P'
  | _ => none

/-- A character inside double quotes. -/
def escapeChar (char : Char) : List Char :=
  if isPrintable char && !isBreak char && char ≠ '"' && char ≠ '\\' then [char]
  else match shortEscape? char with
    | some letter => ['\\', letter]
    | none =>
        let code := char.toNat
        if code ≤ 0xFF then '\\' :: 'x' :: upperHex 2 code
        else if code ≤ 0xFFFF then '\\' :: 'u' :: upperHex 4 code
        else '\\' :: 'U' :: upperHex 8 code

def doubleQuoted (text : List Char) : List Char :=
  '"' :: text.flatMap escapeChar ++ ['"']

/-- Write characters as they are, with the given margin at the start of every line that is not
empty. -/
def withMargin (margin : List Char) : Bool → List Char → List Char
  | _, [] => []
  | atStart, char :: rest =>
      if isBreak char then char :: withMargin margin true rest
      else if atStart then margin ++ char :: withMargin margin false rest
      else char :: withMargin margin false rest

/-- A quote inside single quotes is doubled, and a line after a break starts with the margin, the
closing quote included. -/
def singleQuoted (margin : List Char) (text : List Char) : List Char :=
  let doubled := text.flatMap fun char => if char = '\'' then ['\'', '\''] else [char]
  let closing := if headSatisfies isBreak text.reverse then margin else []
  '\'' :: withMargin margin false doubled ++ closing ++ ['\'']

/-- A digit for the margin when the first line starts with a blank, and the sign that tells how many
breaks at the end belong to the text. -/
def literalHeader (text : List Char) : List Char :=
  let hint := if headSatisfies (fun char => isSpace char || isBreak char) text then ['2'] else []
  let chomping := match text.reverse with
    | last :: rest =>
        if !isBreak last then ['-']
        else if rest.isEmpty || headSatisfies isBreak rest then ['+'] else []
    | [] => ['-']
  hint ++ chomping

/-- The text of a string value whose continuation lines start `margin` columns to the right. -/
def stringText (margin : Nat) (text : String) : List Char :=
  let chars := text.toList
  let pad := List.replicate margin ' '
  match styleOf text with
  | .plain => chars
  | .single => singleQuoted pad chars
  | .double => doubleQuoted chars
  | .literal => '|' :: literalHeader chars ++ '\n' :: withMargin pad true chars

end CrossBuild.Yaml
