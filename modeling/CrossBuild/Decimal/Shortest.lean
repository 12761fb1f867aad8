/-
The shortest decimal of a double-precision number.

Among the decimals that read back as the number, those with the fewest digits are taken, and of
these the nearest to the number; an exact tie goes to the even last digit. The decimals with a given
number of digits form a grid, and if one of them reads back then so does a neighbour of the number
on that grid, so only two decimals are tried for each number of digits. How the digits are laid out
as text is a separate decision, made at the end of the file.
-/

import CrossBuild.Decimal.Double

namespace CrossBuild.Double

/-- The reals that round to the number, on the grid of `10^power`: lower end, the number and upper
end as numerators over one denominator. The lower neighbour of a power of two is nearer than the
upper one. -/
structure RoundingInterval where
  low : Nat
  middle : Nat
  high : Nat
  denominator : Nat
  closed : Bool

def roundingInterval (number : Double) (power : Int) : RoundingInterval :=
  let m := number.significand
  let quarter := number.scale - 2
  let factor := Nat.pow 2 quarter.toNat * Nat.pow 10 (-power).toNat
  let below := if number.fractionField = 0 && number.exponentField > 1 then 1 else 2
  { low := (4 * m - below) * factor
    middle := 4 * m * factor
    high := (4 * m + 2) * factor
    denominator := Nat.pow 2 (-quarter).toNat * Nat.pow 10 power.toNat
    closed := m % 2 = 0 }

def RoundingInterval.holds (interval : RoundingInterval) (candidate : Nat) : Bool :=
  let point := candidate * interval.denominator
  if interval.closed then interval.low ≤ point && point ≤ interval.high
  else interval.low < point && point < interval.high

/-- The neighbour on the grid that reads back, if one does. -/
def RoundingInterval.choose? (interval : RoundingInterval) : Option Nat :=
  let below := interval.middle / interval.denominator
  let rest := 2 * (interval.middle % interval.denominator)
  let nearer :=
    if rest < interval.denominator then below
    else if interval.denominator < rest then below + 1
    else if below % 2 = 0 then below else below + 1
  let farther := if nearer = below then below + 1 else below
  if interval.holds nearer then some nearer
  else if interval.holds farther then some farther
  else none

/-- The exponent of the leading decimal digit of a number that is not zero. -/
def leadingExponent (number : Double) : Int :=
  let estimate := ((number.significand.log2 + number.scale) * 30103).fdiv 100000
  let reached := fun power : Int =>
    Nat.pow 10 power.toNat * Nat.pow 2 (-number.scale).toNat ≤
      number.significand * Nat.pow 2 number.scale.toNat * Nat.pow 10 (-power).toNat
  if reached (estimate + 1) then estimate + 1 else estimate

/-- Try one digit more each time; seventeen digits always read back. -/
def searchDigits (number : Double) (leading : Int) : Nat → Nat → Nat × Int
  | 0, tried => (number.significand, leading - tried)
  | left + 1, tried =>
      let power := leading - tried
      match (roundingInterval number power).choose? with
      | some digits => (digits, power)
      | none => searchDigits number leading left (tried + 1)

/-- Move the zeros at the end of the digits into the power of ten. -/
def dropZeros : Nat → Nat → Int → Nat × Int
  | 0, digits, power => (digits, power)
  | fuel + 1, digits, power =>
      if digits % 10 = 0 && digits ≠ 0 then dropZeros fuel (digits / 10) (power + 1)
      else (digits, power)

/-- Digits and power of ten of the shortest decimal of a finite number that is not zero. -/
def shortest (number : Double) : Nat × Int :=
  let found := searchDigits number number.leadingExponent 17 0
  dropZeros 20 found.1 found.2

/-- Lay out `digits · 10^power`: positional for a leading digit from the fifth place after the point
up to the sixteenth before it, with a point in any case, and otherwise one digit before the point
and an exponent. -/
def layOut (digits : Nat) (power : Int) : String :=
  let text := (Nat.toDigits 10 digits)
  let point : Int := text.length + power
  if 0 ≤ power && point ≤ 16 then
    String.ofList (text ++ List.replicate power.toNat '0') ++ ".0"
  else if 0 < point && point ≤ 16 then
    String.ofList (text.take point.toNat ++ '.' :: text.drop point.toNat)
  else if -5 < point && point ≤ 0 then
    String.ofList ('0' :: '.' :: List.replicate (-point).toNat '0' ++ text)
  else
    let exponent := "e" ++ toString (point - 1)
    match text with
    | [digit] => String.ofList [digit] ++ exponent
    | digit :: rest => String.ofList (digit :: '.' :: rest) ++ exponent
    | [] => exponent

/-- The text of a number in a document. -/
def text (number : Double) : String :=
  if number.isNaN then ".nan"
  else if number.isInfinite then (if number.negative then "-.inf" else ".inf")
  else
    let sign := if number.negative then "-" else ""
    if number.isZero then sign ++ "0.0"
    else
      let digits := number.shortest
      sign ++ layOut digits.1 digits.2

end CrossBuild.Double
