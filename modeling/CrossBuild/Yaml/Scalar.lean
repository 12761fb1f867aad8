/-
What an unquoted scalar stands for.

A plain scalar is null, a truth value, a whole number, a double-precision number or, when it is none
of these, a string. Whole numbers are decimal, hexadecimal, octal or binary. Digits behind a leading
zero are a string and not a number. A whole number outside the range of the data tree but within 128
bits has no value at all, and one beyond that is read as a double-precision number.
-/

import CrossBuild.Decimal.Rounding
import CrossBuild.Decimal.Shortest
import CrossBuild.Yaml.Value

namespace CrossBuild.Yaml

/-- The value of a digit in the given base. -/
def digitValue? (base : Nat) (char : Char) : Option Nat :=
  let value :=
    if char.isDigit then some (char.toNat - '0'.toNat)
    else if 'a' ≤ char ∧ char ≤ 'f' then some (char.toNat - 'a'.toNat + 10)
    else if 'A' ≤ char ∧ char ≤ 'F' then some (char.toNat - 'A'.toNat + 10)
    else none
  value.filter (· < base)

/-- The value of one or more digits in the given base. -/
def naturalIn? (base : Nat) (digits : List Char) : Option Nat :=
  if digits.isEmpty then none
  else digits.foldlM (fun value char => (digitValue? base char).map (base * value + ·)) 0

/-- Digits after a leading zero, whatever the sign, are text. -/
def zeroPadded (text : List Char) : Bool :=
  let unsigned := match text with
    | '-' :: rest => rest
    | '+' :: rest => rest
    | rest => rest
  match unsigned with
  | '0' :: rest => !rest.isEmpty && rest.all Char.isDigit
  | _ => false

/-- The magnitude of an unsigned number with or without the mark of its base. -/
def magnitude? (text : List Char) : Option Nat :=
  match text with
  | '0' :: 'x' :: rest => naturalIn? 16 rest
  | '0' :: 'o' :: rest => naturalIn? 8 rest
  | '0' :: 'b' :: rest => naturalIn? 2 rest
  | rest => naturalIn? 10 rest

/-- The whole number written by a plain scalar, of any size. -/
def wholeNumber? (text : List Char) : Option Int :=
  if zeroPadded text then none
  else match text with
    | '-' :: rest => (magnitude? rest).map fun value => -(value : Int)
    | '+' :: rest => (magnitude? rest).map fun value => (value : Int)
    | rest => (magnitude? rest).map fun value => (value : Int)

/-- The double-precision number written by a plain scalar. Too large a number is text. -/
def doubleNumber? (text : String) : Option Double :=
  if text ∈ [".inf", ".Inf", ".INF", "+.inf", "+.Inf", "+.INF"] then some (Double.infinity false)
  else if text ∈ ["-.inf", "-.Inf", "-.INF"] then some (Double.infinity true)
  else if text ∈ [".nan", ".NaN", ".NAN"] then some Double.notANumber
  else (Double.read? text).filter fun number => !number.isInfinite

def nullTexts : List String := ["null", "Null", "NULL", "~"]

def truthValue? (text : String) : Option Bool :=
  if text ∈ ["true", "True", "TRUE"] then some true
  else if text ∈ ["false", "False", "FALSE"] then some false
  else none

/-- The least number of sixty-four bits with a sign. -/
def leastInteger : Int := -0x8000000000000000

/-- The greatest number of sixty-four bits. -/
def greatestInteger : Int := 0xFFFFFFFFFFFFFFFF

/-- A number within 128 bits, unsigned or signed. -/
def fitsWide (value : Int) : Bool :=
  -0x80000000000000000000000000000000 ≤ value && value ≤ 0xFFFFFFFFFFFFFFFFFFFFFFFFFFFFFFFF

/-- The value of a plain scalar; nothing for a whole number that is out of range. -/
def plainValue? (text : String) : Option Value :=
  if text.isEmpty || text ∈ nullTexts then some .null
  else match truthValue? text with
    | some value => some (.bool value)
    | none =>
        match (wholeNumber? text.toList).filter fitsWide with
        | some value =>
            if leastInteger ≤ value ∧ value ≤ greatestInteger then
              some (.number (.int value))
            else none
        | none =>
            if zeroPadded text.toList then some (.string text)
            else match doubleNumber? text with
              | some value => some (.number (.float value))
              | none => some (.string text)

/-- The text would not be read back as a string if it stood without quotes. -/
def needsQuotes (text : String) : Bool :=
  zeroPadded text.toList ||
    match plainValue? text with
    | some (.string _) => false
    | _ => true

def Number.text : Number → String
  | .int value => toString value
  | .float value => value.text

end CrossBuild.Yaml
