import Formwork.Document
import Formwork.Text.Numeral

/-!
# Outlines

An outline is what a YAML text says before its scalars are read: scalars, lists and maps. A
scalar keeps its text and whether it is *plain*, that is, written without quotes and not as a
block. Only a plain scalar can mean anything but a text.

`Outline.toDocument?` gives every scalar its meaning: null, a truth value, an integer, a double, or
a text.
-/

set_option autoImplicit false

namespace Formwork

open Formwork.Text Formwork.Number

/-- The structure of a YAML text. -/
inductive Outline where
  | scalar (text : String) (isPlain : Bool)
  | list (items : List Outline)
  | map (entries : List (Outline × Outline))
deriving Repr

namespace Outline

/-- What stands where nothing is written. -/
def nothing : Outline := .scalar "" true

/-! ## Plain scalars -/

/-- The words for null; the empty scalar is null as well. -/
def nullWords : List String := ["", "null", "Null", "NULL", "~"]

def trueWords : List String := ["true", "True", "TRUE"]

def falseWords : List String := ["false", "False", "FALSE"]

/-- The value of a digit in a base of at most sixteen. -/
def digitValue? (base : Nat) (digit : Char) : Option Nat :=
  let value :=
    if digit.isDigit then digit.toNat - '0'.toNat
    else if 'a' ≤ digit ∧ digit ≤ 'f' then digit.toNat - 'a'.toNat + 10
    else if 'A' ≤ digit ∧ digit ≤ 'F' then digit.toNat - 'A'.toNat + 10
    else base
  if value < base then some value else none

/-- The value of digits in a base, read after `value`. -/
def digitsIn? (base : Nat) : Nat → List Char → Option Nat
  | value, [] => some value
  | value, digit :: rest =>
    match digitValue? base digit with
    | some next => digitsIn? base (base * value + next) rest
    | none => none

/-- The value of at least one digit in a base. -/
def naturalIn? (base : Nat) (text : List Char) : Option Nat :=
  if text.isEmpty then none else digitsIn? base 0 text

/-- The value of digits after the mark of a base, or of decimal digits. -/
def markedNatural? : List Char → Option Nat
  | '0' :: 'x' :: digits => naturalIn? 16 digits
  | '0' :: 'o' :: digits => naturalIn? 8 digits
  | '0' :: 'b' :: digits => naturalIn? 2 digits
  | digits => naturalIn? 10 digits

/-- Whether a text is a row of digits, possibly signed, that starts with a superfluous zero. Such a
text is not a number. -/
def hasLeadingZero (text : List Char) : Bool :=
  let digits := match text with
    | '+' :: rest => rest
    | '-' :: rest => rest
    | _ => text
  decide (1 < digits.length) && digits.head? == some '0' && digits.all Char.isDigit

/-- The integer that a text is written as. -/
def integer? (text : List Char) : Option Int :=
  if hasLeadingZero text then none
  else
    match text with
    | '-' :: rest => (markedNatural? rest).map fun value => - Int.ofNat value
    | '+' :: rest => (markedNatural? rest).map Int.ofNat
    | _ => (markedNatural? text).map Int.ofNat

/-- The double that a text is written as. -/
def double? (text : List Char) : Option Binary64 :=
  if hasLeadingZero text then none
  else
    let unsigned := match text with
      | '+' :: rest => rest
      | _ => text
    if text.head? = some '+' ∧ (unsigned.head? = some '+' ∨ unsigned.head? = some '-') then none
    else if [".inf".toList, ".Inf".toList, ".INF".toList].contains unsigned then some (.infinite false)
    else if ["-.inf".toList, "-.Inf".toList, "-.INF".toList].contains text then some (.infinite true)
    else if [".nan".toList, ".NaN".toList, ".NAN".toList].contains text then some .notANumber
    else (numericValue? unsigned).filter Binary64.isFinite

/-- The meaning of a plain scalar. Integers that fit 128 bits but not 64 bits have none, and larger ones
are doubles. -/
def plainValue? (text : String) : Option Document :=
  if nullWords.contains text then some .null
  else if trueWords.contains text then some (.bool true)
  else if falseWords.contains text then some (.bool false)
  else
    let characters := text.toList
    let otherwise : Document :=
      match double? characters with
      | some value => .double value
      | none => .text text
    match integer? characters with
    | some value =>
      if isWord 64 value then some (.integer value)
      else if isWord 128 value then none
      else some otherwise
    | none => some otherwise

/-! ## Documents -/

/-- The number of levels of lists and maps that an outline may have. -/
def maximalDepth : Nat := 128

mutual
/-- The document that an outline means, if it has no more levels than given. -/
def toDocument? (levels : Nat) : Outline → Option Document
  | .scalar text true => plainValue? text
  | .scalar text false => some (.text text)
  | .list items =>
    match levels with
    | 0 => none
    | fewer + 1 => (itemDocuments? fewer items).map .list
  | .map entries =>
    match levels with
    | 0 => none
    | fewer + 1 => (entryDocuments? fewer entries).map .map

/-- The documents that the items of a list mean. -/
def itemDocuments? (levels : Nat) : List Outline → Option (List Document)
  | [] => some []
  | item :: rest =>
    match item.toDocument? levels, itemDocuments? levels rest with
    | some first, some others => some (first :: others)
    | _, _ => none

/-- The entries of documents that the entries of a map mean. -/
def entryDocuments? (levels : Nat) : List (Outline × Outline) → Option (List (Document × Document))
  | [] => some []
  | (key, value) :: rest =>
    match key.toDocument? levels, value.toDocument? levels, entryDocuments? levels rest with
    | some name, some first, some others => some ((name, first) :: others)
    | _, _, _ => none
end

/-! ## Direct readings -/

/-- The text of a scalar as it is written, whatever it means. -/
def rawText? : Outline → Option String
  | .scalar text _ => some text
  | _ => none

/-- Whether the outline is a plain scalar that means null. -/
def isNull : Outline → Bool
  | .scalar text true => nullWords.contains text
  | _ => false

/-- The unsigned integer of 64 bits that a plain scalar means. -/
def size? : Outline → Option Nat
  | .scalar text true =>
    match plainValue? text with
    | some document => document.size?
    | none => none
  | _ => none

/-- The entries of a map. -/
def mapEntries? : Outline → Option (List (Outline × Outline))
  | .map entries => some entries
  | _ => none

end Outline

end Formwork
