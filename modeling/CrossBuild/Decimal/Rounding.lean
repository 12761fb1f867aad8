/-
Reading a decimal as the nearest double-precision number.

A decimal is an integer times a power of ten. It is rounded once, in exact integer arithmetic, to
the nearest representable magnitude, and a tie goes to the even significand. Too large a magnitude
becomes infinite and too small a one becomes zero.
-/

import CrossBuild.Decimal.Double

namespace CrossBuild.Double

/-- The integer nearest to `numerator / denominator`; of two equally near the even one. -/
def nearestEven (numerator denominator : Nat) : Nat :=
  let whole := numerator / denominator
  let twice := 2 * (numerator % denominator)
  if twice < denominator then whole
  else if denominator < twice then whole + 1
  else if whole % 2 = 0 then whole else whole + 1

/-- The quotient of `numerator / denominator` by `2^scale`, as a fraction. -/
def scaledFraction (numerator denominator : Nat) (scale : Int) : Nat × Nat :=
  (numerator * Nat.pow 2 (-scale).toNat, denominator * Nat.pow 2 scale.toNat)

/-- The least scale, from the smallest allowed one upwards, at which the quotient has at most
fifty-three bits. The two logarithms leave at most three candidates. -/
def fittingScale (numerator denominator : Nat) : Int :=
  let start := max (-1074) ((numerator.log2 : Int) - denominator.log2 - 53)
  let fits := fun scale : Int =>
    let fraction := scaledFraction numerator denominator scale
    fraction.1 / fraction.2 < 2 * fractionBound
  if fits start then start else if fits (start + 1) then start + 1 else start + 2

/-- The number with magnitude `significand · 2^scale`; a significand of fifty-four bits is the
carry of a rounding. -/
def ofScaled (negative : Bool) (significand : Nat) (scale : Int) : Double :=
  let carried : Nat × Int :=
    if significand = 2 * fractionBound then (fractionBound, scale + 1) else (significand, scale)
  if carried.2 > 971 then infinity negative
  else if carried.1 < fractionBound then ofFields negative 0 carried.1
  else ofFields negative (carried.2 + 1075).toNat (carried.1 - fractionBound)

def ofRatio (negative : Bool) (numerator denominator : Nat) : Double :=
  if numerator = 0 then zero negative
  else
    let scale := fittingScale numerator denominator
    let fraction := scaledFraction numerator denominator scale
    ofScaled negative (nearestEven fraction.1 fraction.2) scale

/-- The number nearest to `digits · 10^exponent`. The bounds on the magnitude only keep the
powers of ten small: beyond them the result is known. -/
def ofDecimal (negative : Bool) (digits : Nat) (exponent : Int) : Double :=
  let magnitude : Int := (Nat.toDigits 10 digits).length + exponent
  if digits = 0 then zero negative
  else if magnitude > 400 then infinity negative
  else if magnitude < -400 then zero negative
  else ofRatio negative (digits * Nat.pow 10 exponent.toNat) (Nat.pow 10 (-exponent).toNat)

/-- The value of a run of decimal digits. -/
def digitsValue (digits : List Char) : Nat :=
  digits.foldl (fun value digit => 10 * value + (digit.toNat - '0'.toNat)) 0

/-- Read the exponent after its letter: an optional sign and at least one digit. -/
def readExponent? (text : List Char) : Option Int :=
  let signed : Bool × List Char := match text with
    | '-' :: rest => (true, rest)
    | '+' :: rest => (false, rest)
    | rest => (false, rest)
  if signed.2.isEmpty || !signed.2.all Char.isDigit then none
  else some (if signed.1 then -(digitsValue signed.2 : Int) else digitsValue signed.2)

/-- Read digits with an optional point among or beside them and an optional exponent; at least
one digit has to stand before the exponent. -/
def readUnsigned? (negative : Bool) (text : List Char) : Option Double :=
  let whole := text.takeWhile Char.isDigit
  let afterWhole := text.dropWhile Char.isDigit
  let pointed : List Char × List Char := match afterWhole with
    | '.' :: rest => (rest.takeWhile Char.isDigit, rest.dropWhile Char.isDigit)
    | rest => ([], rest)
  if whole.isEmpty && pointed.1.isEmpty then none
  else
    let finish := fun exponent : Int =>
      ofDecimal negative (digitsValue (whole ++ pointed.1)) (exponent - pointed.1.length)
    match pointed.2 with
    | [] => some (finish 0)
    | mark :: rest =>
        if mark = 'e' || mark = 'E' then (readExponent? rest).map finish else none

/-- Read a signed decimal such as `-12.5e3`, `1.` or `.5`. -/
def read? (text : String) : Option Double :=
  match text.toList with
  | '-' :: rest => readUnsigned? true rest
  | '+' :: rest => readUnsigned? false rest
  | rest => readUnsigned? false rest

end CrossBuild.Double
