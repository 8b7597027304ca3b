import Formwork.Json
import Formwork.Number.Shortest
import Formwork.Text.Numeral

/-!
# Reading JSON

A document is one value between blanks. Objects are read field by field, so a repeated
key is still visible in `parseFields?`; `parse?` merges repeated keys. A number without point
and exponent is an integer when it fits 64 bits, and every other number is a double.

The double of a number is found in one step of scaling: its digits, as many as fit
64 bits, go to the nearest double, which is then multiplied or divided by the nearest
double of the power of ten. For numbers of up to fifteen digits this is the double
nearest to the decimal; for longer ones it may be its neighbour.
-/

set_option autoImplicit false

namespace Formwork.Json

open Formwork.Number Formwork.Text

/-- The blanks of a JSON document. -/
def isSpace (character : Char) : Bool :=
  character == ' ' || character == '\t' || character == '\n' || character == '\r'

def skipSpaces (input : List Char) : List Char := input.dropWhile isSpace

/-! ## Numbers -/

/-- The nearest double of a power of ten, for powers up to 308. -/
def powerOfTen (power : Nat) : Binary64 := Binary64.ofRatio false (Nat.pow 10 power) 1

/-- A double divided by `10 ^ power`, in divisions by at most `10 ^ 308`; `rounds` of them are
done at most, and a double that has become zero stays zero. -/
def divideByPower : Nat → Binary64 → Nat → Binary64
  | 0, value, _ => value
  | rounds + 1, value, power =>
    if power ≤ 308 then value.scaleDown (powerOfTen power)
    else if value.isZero then value
    else divideByPower rounds (value.scaleDown (powerOfTen 308)) (power - 308)

/-- The double of `digits * 10 ^ power`; there is none when it is out of range. -/
def scaled? (negative : Bool) (digits : Nat) (power : Int) : Option Binary64 :=
  let start := Binary64.ofRatio negative digits 1
  if 0 ≤ power then
    if 308 < power then if start.isZero then some start else none
    else
      match start.scaleUp (powerOfTen power.toNat) with
      | .infinite _ => none
      | value => some value
  else some (divideByPower 4 start (-power).toNat)

/-- The digits gathered so far and how many digits in front of the point were left out. -/
structure Gathered where
  value : Nat
  dropped : Nat
  full : Bool

/-- Takes one more digit if the digits still fit 64 bits. -/
def Gathered.take (gathered : Gathered) (digit : Char) : Gathered :=
  let next := 10 * gathered.value + (digit.toNat - '0'.toNat)
  if gathered.full || wordCount 64 ≤ next then { gathered with dropped := gathered.dropped + 1, full := true }
  else { gathered with value := next }

/-- The double of a number with a point or an exponent, or of an integer too long for
64 bits. -/
def doubleOf? (negative : Bool) (whole fraction : List Char) (exponent : Int) : Option Binary64 :=
  let gathered := whole.foldl Gathered.take ⟨0, 0, false⟩
  let afterPoint := fraction.foldl Gathered.take ⟨gathered.value, 0, false⟩
  scaled? negative afterPoint.value
    (exponent + gathered.dropped - (fraction.length - afterPoint.dropped : Nat))

/-- The exponent of a number and the text after it; no exponent is zero. -/
def exponent? : List Char → Option (Option Int × List Char)
  | mark :: rest =>
    if mark == 'e' || mark == 'E' then
      let (negative, body) := signed rest
      let digits := body.takeWhile Char.isDigit
      match naturalValue? digits with
      | none => none
      | some value =>
        some (some (if negative then -(value : Int) else value), body.dropWhile Char.isDigit)
    else some (none, mark :: rest)
  | [] => some (none, [])

/-- The fraction of a number and the text after it. -/
def fraction? : List Char → Option (List Char × List Char)
  | '.' :: rest =>
    let digits := rest.takeWhile Char.isDigit
    if digits.isEmpty then none else some (digits, rest.dropWhile Char.isDigit)
  | input => some ([], input)

/-- A number at the front of a text. -/
def number? (input : List Char) : Option (Json.Number × List Char) :=
  let (negative, body) := match input with
    | '-' :: rest => (true, rest)
    | _ => (false, input)
  let whole := body.takeWhile Char.isDigit
  if whole.isEmpty || (whole.length > 1 && whole.head? == some '0') then none
  else do
    let (fraction, afterFraction) ← fraction? (body.dropWhile Char.isDigit)
    let (exponent, rest) ← exponent? afterFraction
    let magnitude := Int.ofNat (digitsValue 0 whole)
    let value := if negative then -magnitude else magnitude
    if fraction.isEmpty && exponent.isNone && !(negative && value == 0) && isWord 64 value then
      return (.integer value, rest)
    else
      let double ← doubleOf? negative whole fraction (exponent.getD 0)
      return (.double double, rest)

/-! ## Texts -/

/-- The value of four hexadecimal digits and the text after them. -/
def hex4? : List Char → Option (Nat × List Char)
  | a :: b :: c :: d :: rest => do
    let digit (character : Char) : Option Nat :=
      if character.isDigit then some (character.toNat - 48)
      else if 'a' ≤ character && character ≤ 'f' then some (character.toNat - 87)
      else if 'A' ≤ character && character ≤ 'F' then some (character.toNat - 55)
      else none
    let high ← digit a
    let second ← digit b
    let third ← digit c
    let low ← digit d
    return (((high * 16 + second) * 16 + third) * 16 + low, rest)
  | _ => none

/-- The character after `\u`, which may be a pair of surrogates, and the text after it. -/
def unicodeEscape? (input : List Char) : Option (Char × List Char) := do
  let (first, rest) ← hex4? input
  if 0xd800 ≤ first && first < 0xdc00 then
    match rest with
    | '\\' :: 'u' :: more =>
      let (second, rest) ← hex4? more
      if 0xdc00 ≤ second && second < 0xe000 then
        return (Char.ofNat (0x10000 + (first - 0xd800) * 0x400 + (second - 0xdc00)), rest)
      else none
    | _ => none
  else if 0xdc00 ≤ first && first < 0xe000 then none
  else return (Char.ofNat first, rest)

/-- The character that a letter stands for after a backslash. -/
def simpleEscape? (letter : Char) : Option Char :=
  if letter == '\x22' || letter == '\\' || letter == '/' then some letter
  else if letter == 'b' then some '\x08'
  else if letter == 'f' then some '\x0c'
  else if letter == 'n' then some '\n'
  else if letter == 'r' then some '\r'
  else if letter == 't' then some '\t'
  else none

/-- The rest of a quoted text after its opening quote, and the text after the closing
one. Every round takes at least one character. -/
def quoted? : Nat → List Char → Option (List Char × List Char)
  | 0, _ => none
  | _ + 1, [] => none
  | fuel + 1, character :: rest =>
    if character == '\x22' then some ([], rest)
    else if character == '\\' then
      match rest with
      | 'u' :: more => do
        let (escaped, after) ← unicodeEscape? more
        let (inner, tail) ← quoted? fuel after
        return (escaped :: inner, tail)
      | letter :: more => do
        let escaped ← simpleEscape? letter
        let (inner, tail) ← quoted? fuel more
        return (escaped :: inner, tail)
      | [] => none
    else if character.toNat < 0x20 then none
    else do
      let (inner, tail) ← quoted? fuel rest
      return (character :: inner, tail)

/-- A text at the front of a text, after its opening quote. -/
def string? (input : List Char) : Option (String × List Char) :=
  (quoted? (input.length + 1) input).map fun (inner, tail) => (String.ofList inner, tail)

/-! ## Values -/

/-- How deeply lists and objects may be nested. -/
def maximalDepth : Nat := 127

/-- Drops a word from the front of a text. -/
def word? (word input : List Char) : Option (List Char) :=
  if word.isPrefixOf input then some (input.drop word.length) else none

mutual
/-- A value at the front of a text and the text after it. Every call has taken at least one
character since the last with the same kind, so `fuel` need not exceed twice the length. -/
def value? : Nat → Nat → List Char → Option (Json × List Char)
  | 0, _, _ => none
  | fuel + 1, depth, input =>
    match skipSpaces input with
    | [] => none
    | '\x22' :: rest => (string? rest).map fun (value, tail) => (.text value, tail)
    | '[' :: rest =>
      match depth with
      | 0 => none
      | depth + 1 =>
        match skipSpaces rest with
        | ']' :: tail => some (.list [], tail)
        | _ => (items? fuel depth rest).map fun (items, tail) => (.list items, tail)
    | '\x7b' :: rest =>
      match depth with
      | 0 => none
      | depth + 1 =>
        match skipSpaces rest with
        | '\x7d' :: tail => some (.object [], tail)
        | _ => (fields? fuel depth rest).map fun (fields, tail) => (.object fields, tail)
    | character :: rest =>
      if character == 'n' then (word? ['n', 'u', 'l', 'l'] (character :: rest)).map fun tail => (.null, tail)
      else if character == 't' then
        (word? ['t', 'r', 'u', 'e'] (character :: rest)).map fun tail => (.bool true, tail)
      else if character == 'f' then
        (word? ['f', 'a', 'l', 's', 'e'] (character :: rest)).map fun tail => (.bool false, tail)
      else (number? (character :: rest)).map fun (value, tail) => (.number value, tail)

/-- The items of a list up to its closing bracket; at least one. -/
def items? : Nat → Nat → List Char → Option (List Json × List Char)
  | 0, _, _ => none
  | fuel + 1, depth, input =>
    match value? fuel depth input with
    | none => none
    | some (item, rest) =>
      match skipSpaces rest with
      | ',' :: more => (items? fuel depth more).map fun (items, tail) => (item :: items, tail)
      | ']' :: tail => some ([item], tail)
      | _ => none

/-- The fields of an object up to its closing brace; at least one. -/
def fields? : Nat → Nat → List Char → Option (List (String × Json) × List Char)
  | 0, _, _ => none
  | fuel + 1, depth, input =>
    match skipSpaces input with
    | '\x22' :: afterQuote =>
      match string? afterQuote with
      | none => none
      | some (key, afterKey) =>
        match skipSpaces afterKey with
        | ':' :: afterColon =>
          match value? fuel depth afterColon with
          | none => none
          | some (value, rest) =>
            match skipSpaces rest with
            | ',' :: more => (fields? fuel depth more).map fun (fields, tail) => ((key, value) :: fields, tail)
            | '\x7d' :: tail => some ([(key, value)], tail)
            | _ => none
        | _ => none
    | _ => none
end

/-- The value of a document, with repeated keys as they stand. -/
def parseFields? (input : String) : Option Json :=
  let characters := input.toList
  match value? (2 * characters.length + 2) maximalDepth characters with
  | some (value, rest) => if (skipSpaces rest).isEmpty then some value else none
  | none => none

/-- The value of a document; of two fields with one key the later value stands in the
earlier place. -/
def parse? (input : String) : Option Json := (parseFields? input).map merged

end Formwork.Json
