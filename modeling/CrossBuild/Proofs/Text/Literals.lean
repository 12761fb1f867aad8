/-
Scripts as a reader takes them in.

What stands between double quotes is a text, with escapes as JSON has them; all else is code, and so
is what stands between single quotes. A literal ends at the first quote that is not escaped and must
not hold a control character. Comments, templates and regular expressions are not read: a slash, a
back quote or a backslash in code stops the reader. That a quoted text is read as this text, whatever
stands around it, is the main statement.
-/

import CrossBuild.Text.Quoted
import CrossBuild.Proofs.Lists

namespace CrossBuild.Text

/-- What is found in a script: a character of code, or a text that stood in double quotes. -/
inductive Lexeme where
  | code (char : Char)
  | literal (text : List Char)
  deriving DecidableEq

/-- Where the reader is. Within double quotes it keeps what it has read of the text, and behind
`\u` also the digits. -/
inductive Place where
  | code
  | single
  | singleEscape
  | literal (text : List Char)
  | escape (text : List Char)
  | digits (text : List Char) (read : List Nat)
  deriving DecidableEq

def isControl (char : Char) : Bool :=
  char.toNat < 0x20

/-- Characters that would begin something that is neither plain code nor a literal. -/
def isPlainCode (char : Char) : Bool :=
  char ≠ '/' && char ≠ '\x60' && char ≠ '\\'

/-- Characters that begin nothing but code. -/
def isOpenCode (char : Char) : Bool :=
  char ≠ '"' && char ≠ '\x27' && isPlainCode char

/-- The character that a letter behind a backslash stands for. -/
def escaped? (char : Char) : Option Char :=
  match char with
  | '"' => some '"'
  | '\\' => some '\\'
  | '/' => some '/'
  | 'b' => some '\x08'
  | 'f' => some '\x0c'
  | 'n' => some '\n'
  | 'r' => some '\r'
  | 't' => some '\t'
  | _ => none

def hexValue? (char : Char) : Option Nat :=
  if '0' ≤ char ∧ char ≤ '9' then some (char.toNat - '0'.toNat)
  else if 'a' ≤ char ∧ char ≤ 'f' then some (char.toNat - 'a'.toNat + 10)
  else if 'A' ≤ char ∧ char ≤ 'F' then some (char.toNat - 'A'.toNat + 10)
  else none

/-- The character of four digits. Halves of a pair are no characters of their own. -/
def ofDigits? (digits : List Nat) : Option Char :=
  let value := digits.foldl (fun value digit => 16 * value + digit) 0
  if value.isValidChar then some (Char.ofNat value) else none

/-- Read one character: where the reader is then, and what it has found. -/
def Place.next? (place : Place) (char : Char) : Option (Place × List Lexeme) :=
  match place with
  | .code =>
      if char = '"' then some (.literal [], [])
      else if char = '\x27' then some (.single, [.code char])
      else if isPlainCode char then some (.code, [.code char])
      else none
  | .single =>
      if isControl char then none
      else if char = '\x27' then some (.code, [.code char])
      else if char = '\\' then some (.singleEscape, [.code char])
      else some (.single, [.code char])
  | .singleEscape => if isControl char then none else some (.single, [.code char])
  | .literal text =>
      if isControl char then none
      else if char = '"' then some (.code, [.literal text])
      else if char = '\\' then some (.escape text, [])
      else some (.literal (text ++ [char]), [])
  | .escape text =>
      if char = 'u' then some (.digits text [], [])
      else (escaped? char).map fun meant => (.literal (text ++ [meant]), [])
  | .digits text read =>
      (hexValue? char).bind fun digit =>
        if read.length < 3 then some (.digits text (read ++ [digit]), [])
        else (ofDigits? (read ++ [digit])).map fun meant => (.literal (text ++ [meant]), [])

/-- Read on from a place. -/
def scan (place : Place) : List Char → Option (Place × List Lexeme)
  | [] => some (place, [])
  | char :: rest =>
      (place.next? char).bind fun step =>
        (scan step.1 rest).map fun later => (later.1, step.2 ++ later.2)

/-- What a whole script holds. It must not end within quotes. -/
def lexemes? (script : String) : Option (List Lexeme) :=
  match scan .code script.toList with
  | some (.code, found) => some found
  | _ => none

def Lexeme.literal? : Lexeme → Option String
  | .code _ => none
  | .literal text => some (String.ofList text)

/-- The texts among what was found, in order. -/
def literals (found : List Lexeme) : List String :=
  found.filterMap Lexeme.literal?

variable {place : Place} {front back : List Char} {found : List Lexeme}

theorem scan_append : scan place (front ++ back) =
    (scan place front).bind fun first =>
      (scan first.1 back).map fun later => (later.1, first.2 ++ later.2) := by
  induction front generalizing place with
  | nil => simp [scan]
  | cons char rest ih =>
      rw [List.cons_append, scan, scan]
      cases place.next? char with
      | none => rfl
      | some step =>
          rw [Option.bind_some, Option.bind_some, ih]
          cases scan step.1 rest with
          | none => rfl
          | some first => simp [Function.comp_def]

/-- Reading a script in two pieces, when the first leaves the reader in code. -/
theorem scan_append_of_code (first : scan .code front = some (.code, found)) :
    scan .code (front ++ back) =
      (scan .code back).map fun later => (later.1, found ++ later.2) := by
  rw [scan_append, first, Option.bind_some]

/-- Code in which nothing begins or ends is read as it stands. -/
theorem scan_of_open (bare : front.all (fun char => isOpenCode char) = true) :
    scan .code front = some (.code, front.map .code) := by
  induction front with
  | nil => rfl
  | cons char rest ih =>
      rw [List.all_cons, Bool.and_eq_true] at bare
      obtain ⟨first, others⟩ := bare
      have own : (char ≠ '"' ∧ char ≠ '\x27') ∧ isPlainCode char = true := by
        simpa [isOpenCode] using first
      rw [scan]
      simp only [Place.next?, own.1.1, own.1.2, own.2, if_false, if_true, Option.bind_some,
        ih others, Option.map_some, List.singleton_append, List.map_cons]

theorem literals_append (first second : List Lexeme) :
    literals (first ++ second) = literals first ++ literals second := by
  unfold literals
  rw [List.filterMap_append]

/-! ### Quoted texts -/

theorem hexValue?_hexDigit {value : Nat} (small : value < 16) :
    hexValue? (hexDigit value) = some value := by
  have all : ∀ digit : Fin 16, hexValue? (hexDigit digit) = some digit.val := by decide
  exact all ⟨value, small⟩

theorem ofDigits?_pair (char : Char) :
    ofDigits? [0, 0, char.toNat / 16, char.toNat % 16] = some char := by
  have value : 16 * (16 * (16 * (16 * 0 + 0) + 0) + char.toNat / 16) + char.toNat % 16 =
      char.toNat := by omega
  have valid : char.toNat.isValidChar := char.valid
  unfold ofDigits?
  simp only [List.foldl_cons, List.foldl_nil, value]
  rw [if_pos valid, Char.ofNat_toNat]

/-- Four digits behind a backslash are read as the character they number. -/
theorem scan_digits {text : List Char} {first second third fourth : Nat} {meant : Char}
    (small : first < 16 ∧ second < 16 ∧ third < 16 ∧ fourth < 16)
    (number : ofDigits? [first, second, third, fourth] = some meant) :
    scan (.literal text) ['\\', 'u', hexDigit first, hexDigit second, hexDigit third,
      hexDigit fourth] = some (.literal (text ++ [meant]), []) := by
  have opened : ∀ rest, scan (.literal text) ('\\' :: 'u' :: rest) = scan (.digits text []) rest := by
    intro rest
    have escaped : Place.next? (.literal text) '\\' = some (.escape text, []) := rfl
    have numbered : Place.next? (.escape text) 'u' = some (.digits text [], []) := rfl
    rw [scan, escaped, Option.bind_some, scan, numbered, Option.bind_some]
    cases scan (.digits text []) rest with
    | none => rfl
    | some later => rfl
  rw [opened]
  simp only [scan, Place.next?, hexValue?_hexDigit small.1, hexValue?_hexDigit small.2.1,
    hexValue?_hexDigit small.2.2.1, hexValue?_hexDigit small.2.2.2, Option.bind_some]
  simp [number]

/-- A character is read back from the way it is quoted. -/
theorem scan_quoteChar (text : List Char) (char : Char) :
    scan (.literal text) (quoteChar char) = some (.literal (text ++ [char]), []) := by
  unfold quoteChar
  split
  case h_8 _ quote backslash _ _ _ _ _ =>
    split
    case isTrue control =>
      have high : char.toNat / 16 < 16 := by omega
      have low : char.toNat % 16 < 16 := by omega
      exact scan_digits ⟨by decide, by decide, high, low⟩ (ofDigits?_pair char)
    case isFalse printable =>
      have quoteless : ¬ char = '"' := quote
      have plain : ¬ char = '\\' := backslash
      simp only [scan, Place.next?, isControl, decide_eq_true_eq, printable, quoteless, plain,
        if_false, Option.bind_some, Option.map_some, List.append_nil]
  all_goals rfl

theorem scan_quotedChars (text chars : List Char) :
    scan (.literal text) (chars.flatMap quoteChar) = some (.literal (text ++ chars), []) := by
  induction chars generalizing text with
  | nil => simp [scan]
  | cons char rest ih =>
      rw [List.flatMap_cons, scan_append, scan_quoteChar, Option.bind_some, ih]
      simp

/-- A quoted text is read as one literal with this text. -/
theorem scan_quote (text : String) :
    scan .code (quote text).toList = some (.code, [.literal text.toList]) := by
  have opened : scan .code (quoteChars text.toList) =
      scan (.literal []) (text.toList.flatMap quoteChar ++ ['"']) := by
    rw [quoteChars, List.cons_append, scan]
    simp [Place.next?]
  unfold quote
  rw [String.toList_ofList, opened, scan_append, scan_quotedChars]
  rfl

theorem printable_quoteChar {char other : Char} (inside : other ∈ quoteChar char) :
    isControl other = false := by
  unfold quoteChar at inside
  split at inside
  case h_8 =>
    split at inside
    case isTrue control =>
      have digits : ∀ value : Fin 16, isControl (hexDigit value) = false := by decide
      have high : char.toNat / 16 < 16 := by omega
      have low : char.toNat % 16 < 16 := by omega
      simp only [List.mem_cons, List.not_mem_nil, or_false] at inside
      rcases inside with rfl | rfl | rfl | rfl | rfl | rfl
      · rfl
      · rfl
      · rfl
      · rfl
      · exact digits ⟨_, high⟩
      · exact digits ⟨_, low⟩
    case isFalse printable =>
      rw [List.mem_singleton.mp inside]
      simpa [isControl] using printable
  all_goals
    simp only [List.mem_cons, List.not_mem_nil, or_false] at inside
    rcases inside with rfl | rfl <;> rfl

/-- The text stands between two double quotes. Nothing in between is a control character, and
nothing ends the literal before its second quote: read to its end, it is the text meant. -/
structure IsLiteral (literal meant : String) : Prop where
  printable : ∀ char ∈ literal.toList, isControl char = false
  quotes : ∃ inner, literal.toList = '"' :: inner ++ ['"'] ∧
    scan (.literal []) inner = some (.literal meant.toList, [])
  read : ∀ rest, scan .code (literal.toList ++ rest) =
    (scan .code rest).map fun later => (later.1, .literal meant.toList :: later.2)

theorem isLiteral_quote (text : String) : IsLiteral (quote text) text := by
  constructor
  case printable =>
    intro char inside
    unfold quote quoteChars at inside
    rw [String.toList_ofList, List.cons_append, List.mem_cons, List.mem_append,
      List.mem_singleton, List.mem_flatMap] at inside
    rcases inside with rfl | ⟨_, _, quoted⟩ | rfl
    · rfl
    · exact printable_quoteChar quoted
    · rfl
  case quotes =>
    refine ⟨text.toList.flatMap quoteChar, ?_, ?_⟩
    · unfold quote quoteChars
      rw [String.toList_ofList]
    · exact scan_quotedChars [] text.toList
  case read => exact fun rest => scan_append_of_code (scan_quote text)

end CrossBuild.Text
