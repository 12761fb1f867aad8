/-
A data tree in one line.

The line is the tree's document with its line breaks turned into spaces. A tree that has no document
is outlined instead: every node by the name of its kind and its content in brackets. Such lines
occur in messages only and are not read back.
-/

import CrossBuild.Text.Blank
import CrossBuild.Yaml.Printer

namespace CrossBuild.Yaml

/-- Characters that an outline shows by their number. -/
def isHidden (char : Char) : Bool :=
  char.toNat < 0x20 || (0x7F ≤ char.toNat && char.toNat ≤ 0x9F) || char = '\u00ad' ||
    (char ≠ ' ' && Text.isBlank char)

def outlineChar (char : Char) : List Char :=
  match char with
  | '"' => ['\\', '"']
  | '\\' => ['\\', '\\']
  | '\n' => ['\\', 'n']
  | '\r' => ['\\', 'r']
  | '\t' => ['\\', 't']
  | '\x00' => ['\\', '0']
  | other =>
      if isHidden other then
        "\\u\x7b".toList ++ Nat.toDigits 16 other.toNat ++ "\x7d".toList
      else [other]

def outlineText (text : String) : String :=
  String.ofList ('"' :: text.toList.flatMap outlineChar ++ ['"'])

def outlineBool (value : Bool) : String :=
  if value then "true" else "false"

mutual

/-- The kind and the content of a node. -/
def outline : Value → String
  | .null => "Null"
  | .bool value => "Bool(" ++ outlineBool value ++ ")"
  | .number value => "Number(" ++ value.text ++ ")"
  | .string text => "String(" ++ outlineText text ++ ")"
  | .sequence items => "Sequence [" ++ ", ".intercalate (outlineItems items) ++ "]"
  | .mapping entries =>
      "Mapping \x7b" ++ ", ".intercalate (outlineEntries entries) ++ "\x7d"
  | .tagged tag value =>
      "TaggedValue \x7b tag: !" ++ tag ++ ", value: " ++ outline value ++ " \x7d"

def outlineItems : List Value → List String
  | [] => []
  | item :: rest => outline item :: outlineItems rest

/-- Scalars that are keys stand without the name of their kind. -/
def outlineEntries : List (Value × Value) → List String
  | [] => []
  | (key, value) :: rest =>
      let shown :=
        match key with
        | .bool flag => outlineBool flag
        | .number number => number.text
        | .string text => outlineText text
        | other => outline other
      (shown ++ ": " ++ outline value) :: outlineEntries rest

end

/-- The tree in one line. -/
def oneLine (value : Value) : String :=
  match render? value with
  | some text =>
      (Text.trimEnd text).map fun char => if char = '\n' then ' ' else char
  | none => outline value

end CrossBuild.Yaml
