import Formwork.Text.Name
import Formwork.Number.Binary64
import Formwork.Number.Word

/-!
# Numbers written as text

Three ways of writing a number occur in forms.

* A *size* is a row of ASCII digits, possibly after one `+`, whose value fits 64 bits.
* A *canonical index* is a size as it is printed: no sign and no leading zero. Siblings are
  addressed by canonical indices.
* A *numeric text* is what a number field and a comparison with a number accept: an
  optional sign, digits with an optional point and exponent, or one of the words `inf`,
  `infinity` and `nan` in any case; `numericValue?` gives its double.
-/

set_option autoImplicit false

namespace Formwork.Text

open Formwork.Number

/-- The value of a row of decimal digits read after `value`. -/
def digitsValue (value : Nat) (digits : List Char) : Nat :=
  digits.foldl (fun total digit => 10 * total + (digit.toNat - '0'.toNat)) value

/-- The value of a text that consists of at least one decimal digit. -/
def naturalValue? (text : List Char) : Option Nat :=
  if !text.isEmpty && text.all Char.isDigit then some (digitsValue 0 text) else none

/-- The value of a size. -/
def size? (text : List Char) : Option Nat :=
  let digits := match text with
    | '+' :: rest => rest
    | _ => text
  (naturalValue? digits).filter (· < wordCount 64)

/-- The text of an index. -/
def indexText (index : Nat) : String := String.ofList (Nat.toDigits 10 index)

/-- The index that a text is the canonical form of. -/
def canonicalIndex? (text : String) : Option Nat :=
  (naturalValue? text.toList).filter fun index => indexText index == text

/-- The canonical text of an index reads back as the index, and no other text does. -/
theorem canonicalIndex?_eq_some_iff {text : String} {index : Nat} :
    canonicalIndex? text = some index ↔ text = indexText index := by
  have value : naturalValue? (Nat.toDigits 10 index) = some index := by
    have digits : (Nat.toDigits 10 index).all Char.isDigit = true :=
      List.all_eq_true.mpr fun _ inside =>
        Nat.isDigit_of_mem_toDigits (by decide) (by decide) inside
    have nonempty : (Nat.toDigits 10 index).isEmpty = false := by simp
    simp only [naturalValue?, digits, nonempty, Bool.not_false, Bool.and_self, if_true]
    exact congrArg some Nat.ofDigitChars_ten_toDigits
  constructor
  · intro found
    simp only [canonicalIndex?, Option.filter_eq_some_iff, beq_iff_eq] at found
    exact found.2.symm
  · rintro rfl
    simp [canonicalIndex?, indexText, value]

theorem indexText_injective {first second : Nat} (same : indexText first = indexText second) :
    first = second := by
  have left := canonicalIndex?_eq_some_iff.mpr (rfl : indexText first = indexText first)
  have right := canonicalIndex?_eq_some_iff.mpr same
  exact Option.some.inj (left.symm.trans right)

/-! ## Numeric texts -/

/-- The parts of a decimal numeral: sign, all digits, how many of them stand after the
point, and the exponent. -/
structure Numeral where
  negative : Bool
  digits : List Char
  fraction : Nat
  exponent : Int
deriving DecidableEq, Repr

/-- A sign and the text after it. -/
def signed : List Char → Bool × List Char
  | '-' :: rest => (true, rest)
  | '+' :: rest => (false, rest)
  | text => (false, text)

/-- The value of an exponent mark with its digits; the empty text is the exponent zero. -/
def exponentValue? : List Char → Option Int
  | [] => some 0
  | mark :: rest =>
    if mark == 'e' || mark == 'E' then
      let (negative, digits) := signed rest
      (naturalValue? digits).map fun value => if negative then -(value : Int) else value
    else none

/-- Reads a decimal numeral: at least one digit, at most one point, an optional
exponent. -/
def numeral? (text : List Char) : Option Numeral :=
  let (negative, body) := signed text
  let whole := body.takeWhile Char.isDigit
  let rest := body.dropWhile Char.isDigit
  let (fraction, tail) := match rest with
    | '.' :: after => (after.takeWhile Char.isDigit, after.dropWhile Char.isDigit)
    | _ => ([], rest)
  if whole.isEmpty && fraction.isEmpty then none
  else (exponentValue? tail).map fun exponent => ⟨negative, whole ++ fraction, fraction.length, exponent⟩

/-- The double of a decimal numeral. -/
def Numeral.value (numeral : Numeral) : Binary64 :=
  Binary64.ofDecimal numeral.negative (digitsValue 0 numeral.digits) (numeral.exponent - numeral.fraction)

/-- The double named by a word, without its sign. -/
def wordValue? (negative : Bool) (text : List Char) : Option Binary64 :=
  let word := lowerAscii text
  if word = ['i', 'n', 'f'] || word = ['i', 'n', 'f', 'i', 'n', 'i', 't', 'y'] then some (.infinite negative)
  else if word = ['n', 'a', 'n'] then some .notANumber
  else none

/-- The double of a numeric text. -/
def numericValue? (text : List Char) : Option Binary64 :=
  match numeral? text with
  | some numeral => some numeral.value
  | none =>
    let (negative, word) := signed text
    wordValue? negative word

/-- Whether a text is numeric. -/
def isNumeric (text : List Char) : Bool := (numericValue? text).isSome

end Formwork.Text
