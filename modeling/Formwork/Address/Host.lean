import Formwork.Address
import Formwork.Pattern.Class

/-!
# Hosts

The host of an address is a domain, an address of four numbers, or an address of eight
hexadecimal numbers in square brackets. A domain whose last label is a number has to be an address of
four numbers. Domains are written in lower case, and a label with characters outside ASCII in
the encoding Punycode.
-/

set_option autoImplicit false

namespace Formwork.Address

open Formwork.Text

/-! ## Four numbers -/

/-- The value of at least one digit in a base. -/
def digitsIn? (base : Nat) : List Char → Option Nat
  | [] => none
  | digits => digits.foldl (fun total digit =>
      match total, hexValue? digit with
      | some value, some next => if next < base then some (base * value + next) else none
      | _, _ => none) (some 0)

/-- The value of a number in decimal, behind `0x` in hexadecimal or behind `0` in octal digits. -/
def hostNumber? : List Char → Option Nat
  | [] => none
  | ['0', 'x'] => some 0
  | ['0', 'X'] => some 0
  | '0' :: 'x' :: digits => digitsIn? 16 digits
  | '0' :: 'X' :: digits => digitsIn? 16 digits
  | ['0'] => some 0
  | '0' :: digits => digitsIn? 8 digits
  | digits => digitsIn? 10 digits

/-- The labels of a domain; an empty one at the end does not count. -/
def labels (domain : List Char) : List (List Char) :=
  let parts := pieces '.' domain
  if parts.getLast? == some [] && decide (1 < parts.length) then parts.dropLast else parts

/-- Whether the last label of a domain is a number. -/
def endsInNumber (domain : List Char) : Bool :=
  match (labels domain).getLast? with
  | none => false
  | some label => (!label.isEmpty && label.all Char.isDigit) || (hostNumber? label).isSome

/-- The four numbers of a value of 32 bits. -/
def fourParts (value : Nat) : String :=
  String.intercalate "." ([16777216, 65536, 256, 1].map fun unit => indexText (value / unit % 256))

/-- The normal form of an address of up to four numbers. The last one fills all places that are left. -/
def fourPartHost? (domain : List Char) : Option String := do
  let parts ← (labels domain).mapM hostNumber?
  let last ← parts.getLast?
  let front := parts.dropLast
  if 3 < front.length ∨ front.any (255 < ·) ∨ Nat.pow 256 (4 - front.length) ≤ last then none
  else
    let leading := front.zipIdx.foldl (fun total (part, index) => total + part * Nat.pow 256 (3 - index)) 0
    some (fourParts (leading + last))

/-! ## Eight numbers -/

/-- A part of an address of eight numbers: four hexadecimal digits at most. -/
def sixteenBits? (text : List Char) : Option Nat :=
  if text.length ≤ 4 then digitsIn? 16 text else none

/-- A decimal number below 256 without a leading zero. -/
def plainByte? (text : List Char) : Option Nat :=
  (naturalValue? text).filter fun value => value < 256 && (text.length == 1 || text.head? != some '0')

/-- The numbers of parts between colons, the last of which may be four decimal numbers. -/
def eightParts? : List (List Char) → Option (List Nat)
  | [] => some []
  | [last] =>
    if last.contains '.' then
      match (pieces '.' last).mapM plainByte? with
      | some [first, second, third, fourth] => some [256 * first + second, 256 * third + fourth]
      | _ => none
    else (sixteenBits? last).map fun value => [value]
  | part :: rest =>
    match sixteenBits? part, eightParts? rest with
    | some value, some values => some (value :: values)
    | _, _ => none

/-- The texts in front of and behind the first pair of colons. -/
def splitDouble? : List Char → Option (List Char × List Char)
  | ':' :: ':' :: rest => some ([], rest)
  | character :: rest => (splitDouble? rest).map fun (front, behind) => (character :: front, behind)
  | [] => none

/-- The numbers between colons, of which there may be none. -/
def colonParts? (text : List Char) : Option (List Nat) :=
  if text.isEmpty then some [] else eightParts? (pieces ':' text)

/-- The eight numbers of an address. A pair of colons stands for as many zeros as are missing. -/
def eightNumbers? (text : List Char) : Option (List Nat) :=
  match splitDouble? text with
  | none => (colonParts? text).filter (·.length == 8)
  | some (front, behind) => do
    if front.contains '.' then none
    let first ← colonParts? front
    let second ← colonParts? behind
    if first.length + second.length < 8 then
      some (first ++ List.replicate (8 - first.length - second.length) 0 ++ second)
    else none

/-- The number of zeros at the start of a list. -/
def leadingZeros (numbers : List Nat) : Nat := (numbers.takeWhile (· == 0)).length

/-- The first of the longest runs of at least two zeros: where it starts and how long it is. -/
def longestZeros (numbers : List Nat) : Nat × Nat :=
  (List.range numbers.length).foldl (fun (start, length) index =>
    let here := leadingZeros (numbers.drop index)
    if 2 ≤ here ∧ length < here then (index, here) else (start, length)) (0, 0)

/-- A number in lower hexadecimal digits. -/
def hexText (value : Nat) : String := String.ofList (Nat.toDigits 16 value)

/-- The normal form of eight numbers, in which a run of zeros is shortened to a pair of colons. -/
def eightText (numbers : List Nat) : String :=
  let (start, length) := longestZeros numbers
  let join (parts : List Nat) : String := String.intercalate ":" (parts.map hexText)
  if length = 0 then "[" ++ join numbers ++ "]"
  else "[" ++ join (numbers.take start) ++ "::" ++ join (numbers.drop (start + length)) ++ "]"

/-! ## Domains -/

/-- One step of the adaptation of the bias, which brings a difference down. -/
def adaptLoop : Nat → Nat → Nat → Nat
  | 0, _, steps => steps
  | bound + 1, delta, steps => if 455 < delta then adaptLoop bound (delta / 35) (steps + 36) else
      steps + 36 * delta / (delta + 38)

/-- The bias after a difference was written. -/
def adapt (delta count : Nat) (isFirst : Bool) : Nat :=
  let halved := if isFirst then delta / 700 else delta / 2
  adaptLoop 64 (halved + halved / count) 0

/-- The digit of a number below 36. -/
def labelDigit (value : Nat) : Char :=
  if value < 26 then Char.ofNat ('a'.toNat + value) else Char.ofNat ('0'.toNat + (value - 26))

/-- The digits of a difference with a variable base. -/
def variableDigits (bias : Nat) : Nat → Nat → Nat → List Char
  | 0, _, _ => []
  | bound + 1, place, value =>
    let threshold := if place ≤ bias then 1 else if bias + 26 ≤ place then 26 else place - bias
    if value < threshold then [labelDigit value]
    else
      labelDigit (threshold + (value - threshold) % (36 - threshold)) ::
        variableDigits bias bound (place + 36) ((value - threshold) / (36 - threshold))

/-- The state while a label is encoded. -/
structure LabelState where
  written : List Char
  delta : Nat
  bias : Nat
  handled : Nat

/-- Passes over the label once for a code point that is due: smaller ones count, equal ones are
written. -/
def encodePoint (basics point : Nat) (codes : List Nat) (state : LabelState) : LabelState :=
  codes.foldl (fun state code =>
    if code < point then { state with delta := state.delta + 1 }
    else if code = point then
      { written := state.written ++ variableDigits state.bias 64 36 state.delta
        delta := 0
        bias := adapt state.delta (state.handled + 1) (state.handled == basics)
        handled := state.handled + 1 }
    else state) state

/-- Writes the code points outside ASCII in ascending order. -/
def encodePoints (basics : Nat) (codes : List Nat) : List Nat → Nat → LabelState → LabelState
  | [], _, state => state
  | point :: rest, least, state =>
    let raised := { state with delta := state.delta + (point - least) * (state.handled + 1) }
    let after := encodePoint basics point codes raised
    encodePoints basics codes rest (point + 1) { after with delta := after.delta + 1 }

/-- A label in ASCII. -/
def encodeLabel (label : List Char) : List Char :=
  if label.all fun character => character.toNat < 128 then label
  else
    let basic := label.filter fun character => character.toNat < 128
    let codes := label.map Char.toNat
    let points := ((codes.filter (128 ≤ ·)).mergeSort fun first second => decide (first ≤ second)).eraseDups
    let written := if basic.isEmpty then [] else basic ++ ['-']
    "xn--".toList ++ (encodePoints basic.length codes points 128 ⟨written, 0, 72, basic.length⟩).written

/-- The characters that no domain may hold. -/
def isForbidden (character : Char) : Bool :=
  decide (character.toNat ≤ 0x20) || character.toNat == 0x7f ||
    ['%', '#', '/', ':', '<', '>', '?', '@', '[', '\\', ']', '^', '|'].contains character

/-- A character of a domain in lower case. -/
def lowerCharacter (character : Char) : Char := Char.ofNat (Pattern.fold character.toNat)

/-- The normal form of a domain, or of an address of four numbers. -/
def domainHost (text : List Char) : Except AddressError String :=
  match String.fromUTF8? ⟨(decodeBytes text).toArray⟩ with
  | none => .error .invalidDomain
  | some decoded =>
    let lower := decoded.toList.map lowerCharacter
    if lower.any isForbidden then .error .invalidDomain
    else if lower.isEmpty then .error .emptyHost
    else
      let domain := (List.intersperse ['.'] ((pieces '.' lower).map encodeLabel)).flatten
      if endsInNumber domain then
        match fourPartHost? domain with
        | some host => .ok host
        | none => .error .invalidFourPart
      else .ok (String.ofList domain)

/-! ## Hosts -/

/-- The inside of square brackets around the whole text, if it begins with one. -/
def bracketed? : List Char → Option (Option (List Char))
  | '[' :: rest => some (if rest.getLast? = some ']' then some rest.dropLast else none)
  | _ => none

/-- The characters that the host of an unknown scheme may not hold. -/
def isForbiddenOpaque (character : Char) : Bool :=
  ['\x00', '\t', '\n', '\r', ' ', '#', '/', ':', '<', '>', '?', '@', '[', '\\', ']', '^', '|'].contains character

/-- The normal form of a host. -/
def readHost (isSpecial : Bool) (text : List Char) : Except AddressError String :=
  match bracketed? text with
  | some none => .error .invalidEightPart
  | some (some inside) =>
    match eightNumbers? inside with
    | some numbers => .ok (eightText numbers)
    | none => .error .invalidEightPart
  | none =>
    if isSpecial then domainHost text
    else if text.any isForbiddenOpaque then .error .invalidCharacter
    else .ok (String.ofList (encode [] text))

end Formwork.Address
