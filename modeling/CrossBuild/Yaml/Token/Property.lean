/-
Names in the text of a document: anchors, aliases, tags and directives.

A tag is a handle and a suffix, or a suffix alone when it stands in angle brackets. Percent signs in
tags introduce bytes. A directive takes a line of its own.
-/

import CrossBuild.Yaml.Token.Scalar

namespace CrossBuild.Yaml

/-- Characters that may follow the name of an anchor. -/
def endsAnchor (cursor : Cursor) : Bool :=
  cursor.wordEndsAt 0 || cursor.sees 0 fun char => "?:,]\x7d%@\x60".toList.contains char

/-- The name behind the mark of an anchor or an alias. -/
def scanAnchorName? (cursor : Cursor) : Option (String × Cursor) :=
  let name := (cursor.skip 1).spanChars isNameChar
  let after := (cursor.skip 1).skip name.length
  if name.isEmpty || !endsAnchor after then none else some (String.ofList name, after)

/-- The handle of a tag: an exclamation mark, a name, and perhaps a second mark. In a directive the
second one has to be there unless the handle is a single mark. -/
def scanTagHandle? (inDirective : Bool) (cursor : Cursor) : Option (List Char × Cursor) :=
  if !cursor.isAt 0 '!' then none
  else
    let name := (cursor.skip 1).spanChars isNameChar
    let after := (cursor.skip 1).skip name.length
    if after.isAt 0 '!' then some ('!' :: name ++ ['!'], after.skip 1)
    else if inDirective && !name.isEmpty then none
    else some ('!' :: name, after)

/-- Characters of a tag; those that structure flow collections only inside angle brackets. -/
def isUriChar (inBrackets : Bool) (char : Char) : Bool :=
  isNameChar char || ";/?:@&=+$.!~*'()".toList.contains char ||
    (inBrackets && ",[]".toList.contains char)

/-- A byte behind a percent sign. -/
def percentByte? (text : List Char) : Option UInt8 :=
  match text with
  | '%' :: high :: low :: _ =>
      match digitValue? 16 high, digitValue? 16 low with
      | some high, some low => some (UInt8.ofNat (16 * high + low))
      | _, _ => none
  | _ => none

/-- The number of bytes of a character that starts with the given one. -/
def encodedLength? (byte : UInt8) : Option Nat :=
  if byte < 0x80 then some 1
  else if byte &&& 0xE0 = 0xC0 then some 2
  else if byte &&& 0xF0 = 0xE0 then some 3
  else if byte &&& 0xF8 = 0xF0 then some 4
  else none

/-- The bytes of a tag. `left` counts the bytes still missing of a character in percent signs; the
list gets shorter with every step, and `skipped` counts the characters of a percent sign that are
passed over. -/
def scanUri? (inBrackets : Bool) (bytes : List UInt8) (left skipped index column : Nat)
    (line : Nat) : List Char → Option (List UInt8 × Cursor)
  | [] => if left = 0 then some (bytes.reverse, { rest := [], index, line, column }) else none
  | char :: rest =>
      if skipped > 0 then
        scanUri? inBrackets bytes left (skipped - 1) (index + 1) (column + 1) line rest
      else if char = '%' then
        match percentByte? (char :: rest) with
        | none => none
        | some byte =>
            let next :=
              if left > 0 then if byte &&& 0xC0 = 0x80 then some (left - 1) else none
              else (encodedLength? byte).map (· - 1)
            match next with
            | none => none
            | some left =>
                scanUri? inBrackets (byte :: bytes) left 2 (index + 1) (column + 1) line rest
      else if left > 0 then none
      else if isUriChar inBrackets char then
        scanUri? inBrackets ((String.singleton char).toUTF8.toList.reverse ++ bytes) 0 0
          (index + 1) (column + 1) line rest
      else some (bytes.reverse, { rest := char :: rest, index, line, column })

/-- The text of a tag, which has to be valid; `given` is the part already read. -/
def scanUriText? (inBrackets : Bool) (given : List Char) (cursor : Cursor) :
    Option (String × Cursor) := do
  let (bytes, after) ←
    scanUri? inBrackets [] 0 0 cursor.index cursor.column cursor.line cursor.rest
  let suffix ← String.fromUTF8? ⟨bytes.toArray⟩
  return (String.ofList given ++ suffix, after)

/-- The handle and the suffix of a tag. A name with one mark is a suffix of the primary handle, and
the mark alone is a tag without a handle. -/
def scanTag? (inFlow : Bool) (cursor : Cursor) : Option (String × String × Cursor) := do
  let (handle, suffix, after) ←
    if cursor.isAt 1 '<' then do
      let (suffix, after) ← scanUriText? true [] (cursor.skip 2)
      if suffix.isEmpty || !after.isAt 0 '>' then none
      pure ("", suffix, after.skip 1)
    else do
      let (handle, afterHandle) ← scanTagHandle? false cursor
      if handle.length > 1 && handle.getLast? = some '!' then do
        let (suffix, after) ← scanUriText? false [] afterHandle
        if suffix.isEmpty then none
        pure (String.ofList handle, suffix, after)
      else do
        let (suffix, after) ← scanUriText? false (handle.drop 1) afterHandle
        pure (if suffix.isEmpty then ("", "!", after) else ("!", suffix, after))
  if after.wordEndsAt 0 || (inFlow && after.isAt 0 ',') then some (handle, suffix, after)
  else none

/-- One part of a version: up to nine digits. -/
def scanVersionPart? (cursor : Cursor) : Option (Nat × Cursor) :=
  let digits := cursor.spanChars Char.isDigit
  if digits.isEmpty || digits.length > 9 then none
  else some (Double.digitsValue digits, cursor.skip digits.length)

/-- What follows the name of a version directive. -/
def scanVersion? (cursor : Cursor) : Option (Token × Cursor) := do
  let (major, afterMajor) ← scanVersionPart? (cursor.skipWhile isSpaceOrTab)
  if !afterMajor.isAt 0 '.' then none
  let (minor, after) ← scanVersionPart? (afterMajor.skip 1)
  return (.versionDirective major minor, after)

/-- What follows the name of a tag directive. -/
def scanTagDirective? (cursor : Cursor) : Option (Token × Cursor) := do
  let (handle, afterHandle) ← scanTagHandle? true (cursor.skipWhile isSpaceOrTab)
  if !afterHandle.sees 0 isSpaceOrTab then none
  let (replacement, after) ← scanUriText? true [] (afterHandle.skipWhile isSpaceOrTab)
  if replacement.isEmpty || !after.wordEndsAt 0 then none
  return (.tagDirective (String.ofList handle) replacement, after)

/-- A directive with the rest of its line. -/
def scanDirective? (cursor : Cursor) : Option (Token × Cursor) := do
  let name := (cursor.skip 1).spanChars isNameChar
  let after := (cursor.skip 1).skip name.length
  if name.isEmpty || !after.wordEndsAt 0 then none
  let (token, place) ←
    if name = "YAML".toList then scanVersion? after
    else if name = "TAG".toList then scanTagDirective? after
    else none
  return (token, ← skipLineEnd? place)

end CrossBuild.Yaml
