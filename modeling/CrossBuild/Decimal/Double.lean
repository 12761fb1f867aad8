/-
Double-precision numbers as their 64 bits.

The value of a finite number is read off the fields as an integer times a power of two, so every
rule about these numbers is a rule about integers. No hardware arithmetic is used and none of the
arithmetic operations of such numbers are defined.
-/

namespace CrossBuild

/-- Sign bit, eleven bits of exponent, fifty-two bits of fraction. -/
structure Double where
  bits : UInt64
  deriving DecidableEq, Inhabited

namespace Double

/-- Two to the fifty-second: fractions lie below it. -/
def fractionBound : Nat := 0x10000000000000

/-- Two to the sixty-third: the place of the sign. -/
def signPlace : Nat := 0x8000000000000000

def negative (number : Double) : Bool :=
  number.bits.toNat / signPlace = 1

def exponentField (number : Double) : Nat :=
  number.bits.toNat / fractionBound % 2048

def fractionField (number : Double) : Nat :=
  number.bits.toNat % fractionBound

def ofFields (negative : Bool) (exponent fraction : Nat) : Double :=
  let sign := if negative then signPlace else 0
  { bits := UInt64.ofNat (sign + exponent * fractionBound + fraction) }

def zero (negative : Bool) : Double :=
  ofFields negative 0 0

def infinity (negative : Bool) : Double :=
  ofFields negative 2047 0

def notANumber : Double :=
  ofFields false 2047 (fractionBound / 2)

def isNaN (number : Double) : Bool :=
  number.exponentField = 2047 && number.fractionField ≠ 0

def isInfinite (number : Double) : Bool :=
  number.exponentField = 2047 && number.fractionField = 0

def isZero (number : Double) : Bool :=
  number.exponentField = 0 && number.fractionField = 0

/-- The integer `m` of the magnitude `m · 2^scale`. -/
def significand (number : Double) : Nat :=
  if number.exponentField = 0 then number.fractionField
  else number.fractionField + fractionBound

/-- The power of two of the magnitude `significand · 2^scale`. -/
def scale (number : Double) : Int :=
  (max number.exponentField 1 : Nat) - 1075

/-- Equality as a key: the two zeros are one key, and so are all that are not numbers. -/
def sameKey (left right : Double) : Bool :=
  (left.isNaN && right.isNaN) || (left.isZero && right.isZero) ||
    (!left.isNaN && left.bits == right.bits)

end Double

end CrossBuild
