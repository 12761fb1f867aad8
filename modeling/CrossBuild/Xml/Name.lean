/-
Characters and names of markup.

The classes are those of the standard: which characters a document may contain, which may begin a
name and which may stand in one. A qualified name has at most one colon, between its prefix and its
local part; both begin like names.
-/

import CrossBuild.Text.Letters

namespace CrossBuild.Xml

def isSpace (char : Char) : Bool :=
  char = ' ' || char = '\t' || char = '\n' || char = '\r'

/-- Characters a document may contain. -/
def isDocumentChar (char : Char) : Bool :=
  let code := char.toNat
  if code < 0x20 then isSpace char else code ≠ 0xFFFE && code ≠ 0xFFFF

/-- Characters beyond the first 128 that may begin a name. -/
def nameStartRanges : List (Nat × Nat) :=
  [(0xC0, 0xD6), (0xD8, 0xF6), (0xF8, 0x2FF), (0x370, 0x37D), (0x37F, 0x1FFF),
   (0x200C, 0x200D), (0x2070, 0x218F), (0x2C00, 0x2FEF), (0x3001, 0xD7FF),
   (0xF900, 0xFDCF), (0xFDF0, 0xFFFD), (0x10000, 0xEFFFF)]

/-- Characters beyond the first 128 that may only follow in a name. -/
def nameRestRanges : List (Nat × Nat) :=
  [(0xB7, 0xB7), (0x300, 0x36F), (0x203F, 0x2040)]

def isNameStart (char : Char) : Bool :=
  char.isAlpha || char = ':' || char = '_' || Text.inRanges nameStartRanges char

def isNameChar (char : Char) : Bool :=
  isNameStart char || char.isDigit || char = '-' || char = '.' || Text.inRanges nameRestRanges char

/-- A name with its prefix; the prefix is empty when there is none. -/
structure QualifiedName where
  namePrefix : String
  localName : String
  deriving DecidableEq, Inhabited

def beginsLikeName : List Char → Bool
  | [] => false
  | char :: _ => isNameStart char

/-- Split the characters of a name at its colon. -/
def QualifiedName.ofChars? (chars : List Char) : Option QualifiedName :=
  let before := chars.takeWhile fun char => char ≠ ':'
  match chars.dropWhile fun char => char ≠ ':' with
  | [] =>
      if beginsLikeName before then some ⟨"", String.ofList before⟩ else none
  | _ :: after =>
      if after.contains ':' || !beginsLikeName after then none
      else if before.isEmpty || beginsLikeName before then
        some ⟨String.ofList before, String.ofList after⟩
      else none

/-- The name at the start of a text, and the rest. -/
def takeName? (text : List Char) : Option (List Char × List Char) :=
  if beginsLikeName text then some (text.takeWhile isNameChar, text.dropWhile isNameChar) else none

def takeQualifiedName? (text : List Char) : Option (QualifiedName × List Char) :=
  (QualifiedName.ofChars? (text.takeWhile isNameChar)).map fun name =>
    (name, text.dropWhile isNameChar)

end CrossBuild.Xml
