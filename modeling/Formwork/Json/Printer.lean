import Formwork.Json
import Formwork.Number.Shortest

/-!
# The text of a JSON value

Values are printed without spaces, or indented by two spaces a level. Quotes,
backslashes and control characters are escaped and every other character stands for
itself. Integers are printed in decimal, doubles in their shortest form, which
always has a point or an exponent.
-/

set_option autoImplicit false

namespace Formwork.Json

open Formwork.Number

/-- Doubles from `1e-5` to below `1e16` are written with a point, all others with an
exponent. -/
def numberLayout : Layout := ⟨-5, 15⟩

/-- The text of a number. -/
def Number.print : Json.Number → List Char
  | .integer value => if value < 0 then '-' :: decimalDigits value.natAbs else decimalDigits value.natAbs
  | .double value => (numberLayout.write value).getD ['n', 'u', 'l', 'l']

/-- The hexadecimal digit of a number below sixteen. -/
def hexDigit (value : Nat) : Char := Nat.digitChar value

/-- One character of a quoted text. -/
def escapeCharacter (character : Char) : List Char :=
  let code := character.toNat
  if code == 0x22 then ['\\', character]
  else if code == 0x5c then ['\\', '\\']
  else if code == 0x08 then ['\\', 'b']
  else if code == 0x09 then ['\\', 't']
  else if code == 0x0a then ['\\', 'n']
  else if code == 0x0c then ['\\', 'f']
  else if code == 0x0d then ['\\', 'r']
  else if code < 0x20 then ['\\', 'u', '0', '0', hexDigit (code / 16), hexDigit (code % 16)]
  else [character]

/-- A text in quotes. -/
def quote (text : String) : List Char :=
  '\x22' :: (text.toList.flatMap escapeCharacter ++ ['\x22'])

/-! ## Without spaces -/

mutual
/-- The text of a value without spaces. -/
def chars : Json → List Char
  | .null => ['n', 'u', 'l', 'l']
  | .bool true => ['t', 'r', 'u', 'e']
  | .bool false => ['f', 'a', 'l', 's', 'e']
  | .number value => value.print
  | .text value => quote value
  | .list items => '[' :: (itemChars true items ++ [']'])
  | .object fields => '\x7b' :: (fieldChars true fields ++ ['\x7d'])

/-- The items of a list, with a comma in front of all but the first. -/
def itemChars : Bool → List Json → List Char
  | _, [] => []
  | isFirst, item :: rest => (if isFirst then [] else [',']) ++ item.chars ++ itemChars false rest

/-- The fields of an object, with a comma in front of all but the first. -/
def fieldChars : Bool → List (String × Json) → List Char
  | _, [] => []
  | isFirst, (key, value) :: rest =>
    (if isFirst then [] else [',']) ++ quote key ++ ':' :: (value.chars ++ fieldChars false rest)
end

/-- The text of a value without spaces. -/
def print (value : Json) : String := String.ofList value.chars

/-! ## Indented -/

/-- A new line at an indentation. -/
def newline (depth : Nat) : List Char := '\n' :: List.replicate (2 * depth) ' '

mutual
/-- The text of a value over several lines, the first of which is already indented. -/
def indentedChars (depth : Nat) : Json → List Char
  | .list [] => ['[', ']']
  | .list (item :: rest) =>
    '[' :: (newline (depth + 1) ++ item.indentedChars (depth + 1) ++
      indentedItems (depth + 1) rest ++ newline depth ++ [']'])
  | .object [] => ['\x7b', '\x7d']
  | .object ((key, value) :: rest) =>
    '\x7b' :: (newline (depth + 1) ++ quote key ++ [':', ' '] ++ value.indentedChars (depth + 1) ++
      indentedFields (depth + 1) rest ++ newline depth ++ ['\x7d'])
  | other => other.chars

/-- The items of a list after the first. -/
def indentedItems (depth : Nat) : List Json → List Char
  | [] => []
  | item :: rest => ',' :: (newline depth ++ item.indentedChars depth ++ indentedItems depth rest)

/-- The fields of an object after the first. -/
def indentedFields (depth : Nat) : List (String × Json) → List Char
  | [] => []
  | (key, value) :: rest =>
    ',' :: (newline depth ++ quote key ++ [':', ' '] ++ value.indentedChars depth ++
      indentedFields depth rest)
end

/-- The text of a value over several lines. -/
def printIndented (value : Json) : String := String.ofList (value.indentedChars 0)

end Formwork.Json
