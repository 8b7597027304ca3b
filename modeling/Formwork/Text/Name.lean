import Formwork.Text.Blank

/-!
# Identifiers and member names

A segment of a path that is written in a condition or an action is an identifier:
ASCII letters, digits, underscores and hyphens. The members of a form or collection
are named by identifiers that are not all digits, because a segment of digits
addresses a sibling of a repeatable collection.
-/

set_option autoImplicit false

namespace Formwork.Text

/-- The characters of an identifier. -/
def isNameCharacter (character : Char) : Bool :=
  character.isAlphanum || character = '_' || character = '-'

/-- A text of at least one character, all of them identifier characters. -/
def isIdentifier (text : List Char) : Bool := !text.isEmpty && text.all isNameCharacter

/-- An identifier that is not a row of digits. -/
def isMemberName (text : List Char) : Bool := isIdentifier text && !text.all Char.isDigit

/-- The letters `A` to `Z` in lower case and every other character unchanged. -/
def lowerAscii (text : List Char) : List Char := text.map Char.toLower

end Formwork.Text
