/-
Text as a string literal of a script.

The literal stands between double quotes and has no line break of its own: quotes, backslashes and
control characters are written as escapes, everything else as it is.
-/

namespace CrossBuild.Text

/-- A digit in base sixteen. -/
def hexDigit (value : Nat) : Char :=
  (Nat.digitChar value)

/-- A character inside the quotes. -/
def quoteChar (char : Char) : List Char :=
  match char with
  | '"' => ['\\', '"']
  | '\\' => ['\\', '\\']
  | '\x08' => ['\\', 'b']
  | '\x0c' => ['\\', 'f']
  | '\n' => ['\\', 'n']
  | '\r' => ['\\', 'r']
  | '\t' => ['\\', 't']
  | other =>
      if other.toNat < 0x20 then
        ['\\', 'u', '0', '0', hexDigit (other.toNat / 16), hexDigit (other.toNat % 16)]
      else [other]

def quoteChars (chars : List Char) : List Char :=
  '"' :: chars.flatMap quoteChar ++ ['"']

/-- The literal of a text. -/
def quote (text : String) : String :=
  String.ofList (quoteChars text.toList)

end CrossBuild.Text
