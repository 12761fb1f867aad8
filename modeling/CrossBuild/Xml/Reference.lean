/-
Character data with its references.

A reference is a character by number or one of five names; other names would have to be declared,
and there are no declarations. Line breaks are written as line feeds in text and as blanks in
attributes, but characters that come from references stay what they are.
-/

import CrossBuild.Xml.Name

namespace CrossBuild.Xml

/-- The value of a run of digits in a base, within 32 bits. -/
def codeOfDigits? (base : Nat) (digits : List Char) : Option Nat :=
  let digitOf := fun char : Char =>
    if char.isDigit then char.toNat - '0'.toNat
    else char.toLower.toNat - 'a'.toNat + 10
  let code := digits.foldl (fun code digit => base * code + digitOf digit) 0
  if digits.isEmpty || 0xFFFFFFFF < code then none else some code

/-- The character with a number; numbers that are no character become the replacement character. -/
def charOfCode (code : Nat) : Char :=
  if code.isValidChar then Char.ofNat code else '\uFFFD'

def isHexDigit (char : Char) : Bool :=
  char.isDigit || ('a' ≤ char && char ≤ 'f') || ('A' ≤ char && char ≤ 'F')

/-- A reference by number, after its number sign. -/
def takeNumber? (text : List Char) : Option (Char × List Char) :=
  let parts : Nat × List Char × List Char := match text with
    | 'x' :: rest => (16, rest.takeWhile isHexDigit, rest.dropWhile isHexDigit)
    | rest => (10, rest.takeWhile Char.isDigit, rest.dropWhile Char.isDigit)
  match codeOfDigits? parts.1 parts.2.1 with
  | some code =>
      let char := charOfCode code
      if isDocumentChar char then some (char, parts.2.2) else none
  | none => none

def namedChar? (name : String) : Option Char :=
  match name with
  | "quot" => some '"'
  | "amp" => some '&'
  | "apos" => some '\''
  | "lt" => some '<'
  | "gt" => some '>'
  | _ => none

/-- The character of a reference and the text behind it, after its ampersand. -/
def takeReference? (text : List Char) : Option (Char × List Char) :=
  let found := match text with
    | '#' :: rest => takeNumber? rest
    | _ => match takeName? text with
      | some (name, rest) => (namedChar? (String.ofList name)).map fun char => (char, rest)
      | none => none
  match found with
  | some (char, ';' :: rest) => some (char, rest)
  | _ => none

/-- A character of a value, as it stands or from a reference. -/
inductive Piece where
  | raw (char : Char)
  | referred (char : Char)
  deriving DecidableEq

/-- Resolve the references of a text. The fuel is at least the length of the text. -/
def piecesWithin? : Nat → List Char → Option (List Piece)
  | _, [] => some []
  | 0, _ => none
  | fuel + 1, '&' :: rest =>
      match takeReference? rest with
      | some (char, after) => (piecesWithin? fuel after).map fun pieces => .referred char :: pieces
      | none => none
  | fuel + 1, char :: rest =>
      (piecesWithin? fuel rest).map fun pieces => .raw char :: pieces

def pieces? (text : List Char) : Option (List Piece) :=
  piecesWithin? text.length text

/-- Line breaks as line feeds. `before` holds what is written so far, last character first, and
`plain` tells that the next character follows a reference and is written as it is. -/
def unifyLines (before : List Char) (plain : Bool) : List Piece → List Char
  | [] => before.reverse
  | .referred char :: rest => unifyLines (char :: before) true rest
  | .raw char :: rest =>
      if plain then unifyLines (char :: before) false rest
      else
        let atEnd := rest.isEmpty
        match before with
        | '\r' :: earlier =>
            let broken := '\n' :: earlier
            if atEnd && char = '\r' then unifyLines ('\n' :: broken) false rest
            else if char ≠ '\n' then unifyLines (char :: broken) false rest
            else unifyLines broken false rest
        | _ =>
            unifyLines ((if atEnd && char = '\r' then '\n' else char) :: before) false rest

/-- The content of a text between tags. -/
def textContent? (text : List Char) : Option (List Char) :=
  (pieces? text).map (unifyLines [] false)

/-- The content of a section in which nothing is a reference. -/
def sectionContent (text : List Char) : List Char :=
  unifyLines [] false (text.map .raw)

/-- Line breaks and tabs as blanks, a pair of carriage return and line feed as one. -/
def flattenLines : List Piece → List Char
  | [] => []
  | .referred char :: rest => char :: flattenLines rest
  | .raw '\r' :: .raw '\n' :: rest => flattenLines (.raw '\n' :: rest)
  | .raw char :: rest =>
      (if char = '\n' || char = '\r' || char = '\t' then ' ' else char) :: flattenLines rest

/-- The value of an attribute. -/
def attributeContent? (text : List Char) : Option (List Char) :=
  (pieces? text).map flattenLines

end CrossBuild.Xml
