/-!
# Doubles as exact integers

A finite double is kept as a sign, a significand below `2 ^ 53` and a power of two, so
every operation of this library on doubles is arithmetic on natural numbers. The
one rounding rule is `ofRatio`: a positive ratio goes to the nearest double, a ratio in
the middle of two doubles to the one with the even significand, and a ratio of at least
half a step above the largest double to infinity. Reading decimals, multiplying and
dividing are all this one rounding applied to an exact ratio.
-/

set_option autoImplicit false

namespace Formwork.Number

/-- A double. A finite one has the value `significand * 2 ^ exponent`, negated if `negative`;
its form is canonical: the exponent is at least `-1074` and the significand is at least
`2 ^ 52` unless the exponent is `-1074`. -/
inductive Binary64 where
  | finite (negative : Bool) (significand : Nat) (exponent : Int)
  | infinite (negative : Bool)
  | notANumber
deriving DecidableEq, Repr

namespace Binary64

/-- The least exponent of a finite double. -/
def leastExponent : Int := -1074

/-- The greatest exponent of a finite double. -/
def greatestExponent : Int := 971

/-- The number `2 ^ 52`, the least significand of a normal double. -/
def normalBase : Nat := Nat.pow 2 52

/-- The double zero with the given sign. -/
def zero (negative : Bool) : Binary64 := .finite negative 0 leastExponent

def isFinite : Binary64 → Bool
  | .finite .. => true
  | _ => false

/-- Whether the value is a zero of either sign. -/
def isZero : Binary64 → Bool
  | .finite _ significand _ => significand == 0
  | _ => false

/-- Numerical equality: zeros of both signs are equal, a value that is no number equals
nothing. -/
def sameValue : Binary64 → Binary64 → Bool
  | .notANumber, _ => false
  | _, .notANumber => false
  | first, second => (first.isZero && second.isZero) || first == second

def negate : Binary64 → Binary64
  | .finite negative significand exponent => .finite (!negative) significand exponent
  | .infinite negative => .infinite (!negative)
  | .notANumber => .notANumber

/-! ## Rounding -/

/-- `numerator / denominator` rounded to the nearest natural number, a half to the even
neighbour. -/
def roundHalfEven (numerator denominator : Nat) : Nat :=
  let quotient := numerator / denominator
  let twice := 2 * (numerator % denominator)
  if twice < denominator then quotient
  else if denominator < twice then quotient + 1
  else if quotient % 2 == 0 then quotient else quotient + 1

/-- The power of two below a ratio: the greatest `power` with
`2 ^ power ≤ numerator / denominator`. -/
def binaryMagnitude (numerator denominator : Nat) : Int :=
  let guess : Int := (Nat.log2 numerator : Int) - (Nat.log2 denominator : Int)
  let fits : Bool :=
    if 0 ≤ guess then denominator * Nat.pow 2 guess.toNat ≤ numerator
    else denominator ≤ numerator * Nat.pow 2 (-guess).toNat
  if fits then guess else guess - 1

/-- The double nearest to a positive ratio. -/
def ofRatio (negative : Bool) (numerator denominator : Nat) : Binary64 :=
  if numerator = 0 then zero negative
  else
    let exponent := max (binaryMagnitude numerator denominator - 52) leastExponent
    let rounded :=
      if 0 ≤ exponent then roundHalfEven numerator (denominator * Nat.pow 2 exponent.toNat)
      else roundHalfEven (numerator * Nat.pow 2 (-exponent).toNat) denominator
    let (significand, exponent) :=
      if rounded = 2 * normalBase then (normalBase, exponent + 1) else (rounded, exponent)
    if greatestExponent < exponent then .infinite negative else .finite negative significand exponent

/-- The double nearest to `digits * 10 ^ power`. Powers far outside the range of doubles are
answered without building them. -/
def ofDecimal (negative : Bool) (digits : Nat) (power : Int) : Binary64 :=
  let width : Int := (Nat.toDigits 10 digits).length
  if digits = 0 || power + width < -330 then zero negative
  else if 310 < power + width then .infinite negative
  else if 0 ≤ power then ofRatio negative (digits * Nat.pow 10 power.toNat) 1
  else ofRatio negative digits (Nat.pow 10 (-power).toNat)

/-- The value of a finite double as a ratio of natural numbers, without its sign. -/
def ratio (significand : Nat) (exponent : Int) : Nat × Nat :=
  if 0 ≤ exponent then (significand * Nat.pow 2 exponent.toNat, 1) else (significand, Nat.pow 2 (-exponent).toNat)

/-- The product of a double and a positive finite double, rounded. -/
def scaleUp : Binary64 → Binary64 → Binary64
  | .finite negative significand exponent, .finite _ factor factorExponent =>
    let (numerator, denominator) := ratio significand exponent
    let (factorNumerator, factorDenominator) := ratio factor factorExponent
    ofRatio negative (numerator * factorNumerator) (denominator * factorDenominator)
  | value, _ => value

/-- The quotient of a double by a positive finite double, rounded. -/
def scaleDown : Binary64 → Binary64 → Binary64
  | .finite negative significand exponent, .finite _ divisor divisorExponent =>
    let (numerator, denominator) := ratio significand exponent
    let (divisorNumerator, divisorDenominator) := ratio divisor divisorExponent
    ofRatio negative (numerator * divisorDenominator) (denominator * divisorNumerator)
  | value, _ => value

end Binary64

end Formwork.Number
