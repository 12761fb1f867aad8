/-
A data tree as a block document.

Every mapping and sequence that is not empty is written in block style, two columns to a level; the
items of a sequence inside a mapping stand in the column of their key. A collection behind a dash or
a question mark starts on the same line. A key that is long, has several lines or is a collection is
written behind a question mark. Trees in which tags stand directly below tags, or a single entry has
a tagged key, have no text.
-/

import CrossBuild.Yaml.Style

namespace CrossBuild.Yaml

/-- Characters of a tag that are written as they are. -/
def isTagChar (char : Char) : Bool :=
  char.isAlphanum || "-_;/?:@&=+$,.~*'()[]".toList.contains char

/-- A byte as a percent sign and two digits. -/
def percentByte (byte : UInt8) : List Char :=
  '%' :: upperHex 2 byte.toNat

def tagContent (tag : List Char) : List Char :=
  tag.flatMap fun char =>
    if isTagChar char then [char]
    else (String.singleton char).toUTF8.toList.flatMap percentByte

/-- The tag in front of a value. The tag that is only an exclamation mark is written in full. -/
def tagText (tag : String) : List Char :=
  if tag = "!" then "!<!>".toList
  else match tag.toList with
    | '!' :: rest => '!' :: tagContent rest
    | chars => '!' :: tagContent chars

/-- What stands before a value on its line. -/
inductive Place where
  | root
  | afterDash
  | afterKey
  | afterMark
  deriving DecidableEq

/-- The space between an indicator and what follows it. -/
def Place.gap : Place → List Char
  | .root => []
  | _ => [' ']

/-- A collection may begin on the line of the indicator. -/
def Place.inline : Place → Bool
  | .afterKey => false
  | _ => true

/-- The column of the entries of a mapping. -/
def Place.mappingIndent (place : Place) (indent : Nat) : Nat :=
  match place with
  | .root => indent
  | _ => indent + 2

/-- The column of the dashes of a sequence. Below a key, and behind a tag also below a mark, they do
not move to the right. -/
def Place.sequenceIndent (place : Place) (hasTag : Bool) (indent : Nat) : Nat :=
  match place with
  | .root => indent
  | .afterDash => indent + 2
  | .afterKey => indent
  | .afterMark => if hasTag then indent else indent + 2

/-- End the line unless a break has just ended it. -/
def endLine (text : List Char) : List Char :=
  if headSatisfies isBreak text.reverse then text else text ++ ['\n']

def spaces (count : Nat) : List Char :=
  List.replicate count ' '

/-- The text of a scalar; nothing for collections that are not empty. -/
def scalarText? (margin : Nat) : Value → Option (List Char)
  | .null => some "null".toList
  | .bool true => some "true".toList
  | .bool false => some "false".toList
  | .number value => some value.text.toList
  | .string text => some (stringText margin text)
  | .sequence [] => some "[]".toList
  | .mapping [] => some "\x7b\x7d".toList
  | _ => none

def utf8Length (text : String) : Nat :=
  text.utf8ByteSize

/-- The length that decides whether a key fits on its line; nothing for a key that never does. -/
def keyLength? : Value → Option Nat
  | .string text => if text.toList.any isBreak then none else some (utf8Length text)
  | .sequence [] => some 0
  | .mapping [] => some 0
  | .sequence _ => none
  | .mapping _ => none
  | .tagged tag value => (keyLength? value).map (· + utf8Length tag + 1)
  | value => (scalarText? 0 value).map List.length

/-- A key is simple when it is short and has one line. -/
def isSimpleKey (key : Value) : Bool :=
  (keyLength? key).any (· ≤ 128)

def simpleKeyText : Value → List Char
  | .tagged tag value => tagText tag ++ ' ' :: simpleKeyText value
  | value => (scalarText? 0 value).getD []

/-- A value without lines below it. -/
def lineText (place : Place) (tag : Option String) (text : List Char) : List Char :=
  match tag with
  | none => place.gap ++ endLine text
  | some name => place.gap ++ tagText name ++ ' ' :: endLine text

/-- What comes before the first entry of a collection, up to its column. -/
def blockStart (place : Place) (tag : Option String) (column : Nat) : List Char :=
  match tag with
  | some name => place.gap ++ tagText name ++ '\n' :: spaces column
  | none => if place.inline then place.gap else '\n' :: spaces column

mutual

/-- The rest of the line after an indicator and the lines below it. -/
def valueText (place : Place) (tag : Option String) (indent : Nat) : Value → List Char
  | .tagged inner value => valueText place (some inner) indent value
  | .sequence items =>
      let column := place.sequenceIndent tag.isSome indent
      if items.isEmpty then lineText place tag "[]".toList
      else blockStart place tag column ++ itemsText column true items
  | .mapping entries =>
      let column := place.mappingIndent indent
      if entries.isEmpty then lineText place tag "\x7b\x7d".toList
      else blockStart place tag column ++ entriesText column true entries
  | value => lineText place tag ((scalarText? (indent + 2) value).getD [])

/-- The items of a sequence; the first one may already stand in its column. -/
def itemsText (indent : Nat) (inColumn : Bool) : List Value → List Char
  | [] => []
  | item :: rest =>
      (if inColumn then [] else spaces indent) ++ '-' :: valueText .afterDash none indent item ++
        itemsText indent false rest

/-- The entries of a mapping; the first one may already stand in its column. -/
def entriesText (indent : Nat) (inColumn : Bool) : List (Value × Value) → List Char
  | [] => []
  | (key, value) :: rest =>
      let margin := if inColumn then [] else spaces indent
      let entry :=
        if isSimpleKey key then
          simpleKeyText key ++ ':' :: valueText .afterKey none indent value
        else
          '?' :: valueText .afterMark none indent key ++ spaces indent ++
            ':' :: valueText .afterMark none indent value
      margin ++ entry ++ entriesText indent false rest

end

/-- A tag and a mapping of one entry are told apart only by what follows, which the only key of a
mapping cannot wait for. -/
def isUndecided : Value → Bool
  | .tagged _ _ => true
  | .mapping [_] => true
  | _ => false

mutual

/-- The tree has a text. `belowTag` tells that a tag stands directly above. -/
def hasText (belowTag : Bool) : Value → Bool
  | .tagged _ value => !belowTag && hasText true value
  | .sequence items => itemsHaveText items
  | .mapping [(key, value)] =>
      (belowTag || !isUndecided key) && hasText false key && hasText false value
  | .mapping entries => entriesHaveText entries
  | _ => true

def itemsHaveText : List Value → Bool
  | [] => true
  | item :: rest => hasText false item && itemsHaveText rest

def entriesHaveText : List (Value × Value) → Bool
  | [] => true
  | (key, value) :: rest => hasText false key && hasText false value && entriesHaveText rest

end

/-- The document of a tree, ended by a line break. -/
def render? (value : Value) : Option String :=
  if hasText false value then
    some (String.ofList (valueText .root none 0 value))
  else none

end CrossBuild.Yaml
