/-
The tokens of a document: tags, text between tags, sections and remarks.

A document may begin with a declaration. Type definitions are refused. Tokens are told apart by
their first characters, and each has an end of its own; whether tags match is not decided here.
-/

import CrossBuild.Xml.Reference

namespace CrossBuild.Xml

/-- Remarks are comments and processing instructions; what they say is not kept. Text is kept as it
is written, with its references. -/
inductive Token where
  | startTag (name : QualifiedName) (attributes : List (QualifiedName × String)) (isEmpty : Bool)
  | endTag (name : QualifiedName)
  | text (raw : List Char)
  | verbatim (content : List Char)
  | remark
  deriving DecidableEq

/-- The text before the first occurrence of a mark and the text behind it. -/
def breakAt? (mark : List Char) : List Char → Option (List Char × List Char)
  | [] => none
  | char :: rest =>
      if mark.isPrefixOf (char :: rest) then some ([], (char :: rest).drop mark.length)
      else if isDocumentChar char then
        (breakAt? mark rest).map fun parts => (char :: parts.1, parts.2)
      else none

/-- The pattern stands somewhere in the text. -/
def holds (pattern : List Char) : List Char → Bool
  | [] => pattern.isEmpty
  | char :: rest => pattern.isPrefixOf (char :: rest) || holds pattern rest

def skipSpaces (text : List Char) : List Char :=
  text.dropWhile isSpace

/-- A comment, after its opening mark. -/
def takeComment? (text : List Char) : Option (List Char) :=
  match breakAt? "-->".toList text with
  | some (content, rest) =>
      if holds "--".toList content || content.getLast? = some '-' then none else some rest
  | none => none

/-- A processing instruction, after its opening mark. -/
def takeInstruction? (text : List Char) : Option (List Char) :=
  if "xml ".toList.isPrefixOf text then none
  else match takeName? text with
    | some (_, rest) => (breakAt? "?>".toList (skipSpaces rest)).map Prod.snd
    | none => none

/-- A name with a quoted value as it is written. -/
def takeAssignment? (text : List Char) : Option (QualifiedName × List Char × List Char) :=
  match takeQualifiedName? text with
  | none => none
  | some (name, afterName) =>
      match skipSpaces afterName with
      | '=' :: afterSign =>
          match skipSpaces afterSign with
          | [] => none
          | quote :: body =>
              let inside := fun char : Char => char ≠ quote && char ≠ '<'
              let value := body.takeWhile inside
              if (quote = '"' || quote = '\'') && value.all isDocumentChar then
                match body.dropWhile inside with
                | [] => none
                | close :: rest => if close = quote then some (name, value, rest) else none
              else none
      | _ => none

/-- The attributes of a tag, whether it closes itself, and the text behind it. -/
def takeAttributes? : Nat → List Char →
    Option (List (QualifiedName × String) × Bool × List Char)
  | 0, _ => none
  | fuel + 1, text =>
      match skipSpaces text with
      | '/' :: '>' :: rest => some ([], true, rest)
      | '>' :: rest => some ([], false, rest)
      | found =>
          if found.length = text.length then none
          else match takeAssignment? found with
            | none => none
            | some (name, raw, rest) =>
                match attributeContent? raw, takeAttributes? fuel rest with
                | some value, some (others, isEmpty, after) =>
                    some ((name, String.ofList value) :: others, isEmpty, after)
                | _, _ => none

/-- A start tag, after its bracket. -/
def takeStartTag? (text : List Char) : Option (Token × List Char) :=
  match takeQualifiedName? text with
  | none => none
  | some (name, rest) =>
      (takeAttributes? (rest.length + 1) rest).map fun (attributes, isEmpty, after) =>
        (.startTag name attributes isEmpty, after)

/-- An end tag, after its opening mark. -/
def takeEndTag? (text : List Char) : Option (Token × List Char) :=
  match takeQualifiedName? text with
  | none => none
  | some (name, rest) =>
      match skipSpaces rest with
      | '>' :: after => some (.endTag name, after)
      | _ => none

/-- Text up to the next tag. -/
def takeText? (text : List Char) : Option (Token × List Char) :=
  let content := text.takeWhile fun char => char ≠ '<'
  if content.all isDocumentChar && !holds "]]>".toList content then
    some (.text content, text.dropWhile fun char => char ≠ '<')
  else none

/-- The first token of a text. -/
def takeToken? (text : List Char) : Option (Token × List Char) :=
  match text with
  | '<' :: '!' :: '-' :: '-' :: rest => (takeComment? rest).map fun after => (.remark, after)
  | '<' :: '?' :: rest => (takeInstruction? rest).map fun after => (.remark, after)
  | '<' :: '/' :: rest => takeEndTag? rest
  | '<' :: '!' :: rest =>
      let mark := "[CDATA[".toList
      if mark.isPrefixOf rest then
        (breakAt? "]]>".toList (rest.drop mark.length)).map fun parts =>
          (.verbatim (sectionContent parts.1), parts.2)
      else none
  | '<' :: rest => takeStartTag? rest
  | text => takeText? text

/-- All tokens. The fuel is at least the length of the text. -/
def tokensWithin? : Nat → List Char → Option (List Token)
  | _, [] => some []
  | 0, _ => none
  | fuel + 1, text =>
      match takeToken? text with
      | some (token, rest) => (tokensWithin? fuel rest).map fun tokens => token :: tokens
      | none => none

/-- A blank gap behind a part of the declaration; none is needed at its end. -/
def takeGap? (text : List Char) : Option (List Char) :=
  let rest := skipSpaces text
  if rest.length < text.length || "?>".toList.isPrefixOf rest then some rest else none

/-- A part of the declaration, if it is there. -/
def takePart? (name : String) (text : List Char) : Option (List Char) :=
  if name.toList.isPrefixOf text then (takeAssignment? text).map fun found => found.2.2
  else some text

/-- The declaration, after its opening mark: the version, which is mandatory, the encoding and
whether the document stands alone. -/
def takeDeclaration? (text : List Char) : Option (List Char) := do
  let start := skipSpaces text
  if !"version".toList.isPrefixOf start then none
  let afterVersion ← takeGap? (← takePart? "version" start)
  let encoded ←
    if "encoding".toList.isPrefixOf afterVersion then
      takeGap? (← takePart? "encoding" afterVersion)
    else some afterVersion
  match skipSpaces (← takePart? "standalone" encoded) with
  | '?' :: '>' :: rest => some rest
  | _ => none

/-- The tokens of a document behind its byte order mark and its declaration. -/
def tokens? (text : List Char) : Option (List Token) :=
  let body := match text with
    | '\uFEFF' :: rest => rest
    | _ => text
  let content :=
    if "<?xml ".toList.isPrefixOf body then takeDeclaration? (body.drop 5) else some body
  match content with
  | some content => tokensWithin? content.length content
  | none => none

end CrossBuild.Xml
