import Formwork.Number.Binary64

/-!
# The shortest decimal of a double

A double is written with the fewest digits that read back as the same double; of
the decimals with that many digits, the one nearest to the double is taken. For each
number of digits from one to seventeen the two neighbours of the value on the
decimal grid are tested, and the first grid with a hit wins.

How the digits are laid out is a separate record of conventions, `Layout`: which
magnitudes are written with a point and which with an exponent.
-/

set_option autoImplicit false

namespace Formwork.Number

/-- A decimal `digits * 10 ^ power`. -/
structure Decimal where
  digits : Nat
  power : Int
deriving DecidableEq, Repr

namespace Binary64

/-- Whether `10 ^ power` is at most `numerator / denominator`. -/
def reachesPower (numerator denominator : Nat) (power : Int) : Bool :=
  if 0 ≤ power then denominator * Nat.pow 10 power.toNat ≤ numerator
  else denominator ≤ numerator * Nat.pow 10 (-power).toNat

/-- The greatest power of ten, of the `count` powers from `power` downwards, that is at
most a ratio. -/
def decimalMagnitudeFrom (numerator denominator : Nat) : Nat → Int → Int
  | 0, power => power
  | count + 1, power =>
    if reachesPower numerator denominator power then power
    else decimalMagnitudeFrom numerator denominator count (power - 1)

/-- The power of ten below a positive ratio that is a double. -/
def decimalMagnitude (numerator denominator : Nat) : Int :=
  let estimate := binaryMagnitude numerator denominator * 30103 / 100000
  decimalMagnitudeFrom numerator denominator 4 (estimate + 2)

/-- The integer just below `numerator / denominator / 10 ^ power`. -/
def gridBelow (numerator denominator : Nat) (power : Int) : Nat :=
  if 0 ≤ power then numerator / (denominator * Nat.pow 10 power.toNat)
  else numerator * Nat.pow 10 (-power).toNat / denominator

/-- The distance between a ratio and `digits * 10 ^ power`, in units of one over
`denominator * 10 ^ |power|`. -/
def gridDistance (numerator denominator digits : Nat) (power : Int) : Nat :=
  if 0 ≤ power then
    let point := digits * denominator * Nat.pow 10 power.toNat
    (point - numerator) + (numerator - point)
  else
    let scaled := numerator * Nat.pow 10 (-power).toNat
    let point := digits * denominator
    (point - scaled) + (scaled - point)

/-- The decimal on the grid of `10 ^ power` that reads back as the given double, the nearer
one if both neighbours do, the even one if both are equally near. -/
def onGrid? (significand : Nat) (exponent : Int) (power : Int) : Option Decimal :=
  let (numerator, denominator) := ratio significand exponent
  let below := gridBelow numerator denominator power
  let above := below + 1
  let readsBack (digits : Nat) : Bool :=
    digits != 0 && ofDecimal false digits power == .finite false significand exponent
  match readsBack below, readsBack above with
  | true, true =>
    let toBelow := gridDistance numerator denominator below power
    let toAbove := gridDistance numerator denominator above power
    if toBelow < toAbove || (toBelow == toAbove && below % 2 == 0) then some ⟨below, power⟩
    else some ⟨above, power⟩
  | true, false => some ⟨below, power⟩
  | false, true => some ⟨above, power⟩
  | false, false => none

/-- The first hit on the grids of `count` falling powers of ten. -/
def shortestFrom (significand : Nat) (exponent : Int) : Nat → Int → Option Decimal
  | 0, _ => none
  | count + 1, power =>
    match onGrid? significand exponent power with
    | some decimal => some decimal
    | none => shortestFrom significand exponent count (power - 1)

/-- The shortest decimal that reads back as a positive finite double. -/
def shortest (significand : Nat) (exponent : Int) : Decimal :=
  let (numerator, denominator) := ratio significand exponent
  let magnitude := decimalMagnitude numerator denominator
  (shortestFrom significand exponent 17 magnitude).getD ⟨gridBelow numerator denominator (magnitude - 16), magnitude - 16⟩

end Binary64

/-! ## Layout -/

/-- How the digits of a decimal are written: with a point for the magnitudes from
`leastPositional` to `greatestPositional`, and with an exponent otherwise. -/
structure Layout where
  leastPositional : Int
  greatestPositional : Int

/-- A row of zeros. -/
def zeros (count : Nat) : List Char := List.replicate count '0'

/-- A natural number in decimal digits. -/
def decimalDigits (number : Nat) : List Char := Nat.toDigits 10 number

/-- The digits without the zeros at the end, but with at least one digit. -/
def dropTrailingZeros (digits : List Char) : List Char :=
  match (digits.reverse.dropWhile (· == '0')).reverse with
  | [] => ['0']
  | kept => kept

/-- A power of ten in exponent notation, always with a sign. -/
def exponentText (power : Int) : List Char :=
  'e' :: (if power < 0 then '-' else '+') :: decimalDigits power.natAbs

namespace Layout

/-- A positive decimal: always with a point or an exponent. -/
def positive (layout : Layout) (decimal : Decimal) : List Char :=
  let all := decimalDigits decimal.digits
  let magnitude : Int := (all.length : Int) - 1 + decimal.power
  let digits := dropTrailingZeros all
  if layout.leastPositional ≤ magnitude && magnitude ≤ layout.greatestPositional then
    if magnitude < 0 then
      '0' :: '.' :: (zeros ((-magnitude).toNat - 1) ++ digits)
    else
      let whole := magnitude.toNat + 1
      if digits.length ≤ whole then digits ++ zeros (whole - digits.length) ++ ['.', '0']
      else digits.take whole ++ '.' :: digits.drop whole
  else
    match digits with
    | [] => []
    | [digit] => digit :: exponentText magnitude
    | digit :: rest => digit :: '.' :: (rest ++ exponentText magnitude)

/-- A finite double; the other values have no text. -/
def write (layout : Layout) : Binary64 → Option (List Char)
  | .finite negative significand exponent =>
    let digits :=
      if significand = 0 then ['0', '.', '0'] else layout.positive (Binary64.shortest significand exponent)
    some (if negative then '-' :: digits else digits)
  | _ => none

end Layout

end Formwork.Number
