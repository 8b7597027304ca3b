import Formwork.Pattern.Class
import Formwork.Text.Blank

/-!
# Redaction

Texts that go to a log must not show credentials. A credential is found by the words in front of it,
its *lead*, in upper or lower case, and is replaced by `<redacted>`. There are four kinds: the value
of an authorization header, the value of a token header, an assignment to a variable whose name ends
in `KEY`, `TOKEN`, `SECRET` or `PASSWORD`, and a JSON member `csrf_token`. The kinds are handled one
after the other, each on the result of the one before.

A credential ends where a character stands that cannot belong to it, so of a header with several words
only the first one is replaced.
-/

set_option autoImplicit false

namespace Formwork.Redaction

open Formwork.Text

/-- What stands in the place of a credential. -/
def mark : List Char := "<redacted>".toList

/-- What is left of a text behind a word that it begins with, in upper or lower case. -/
def behindWord? : List Char → List Char → Option (List Char)
  | [], text => some text
  | _ :: _, [] => none
  | letter :: word, character :: text =>
    if Pattern.fold letter.toNat = Pattern.fold character.toNat then behindWord? word text else none

/-- A kind of credential. -/
structure Rule where
  /-- What is left of a text behind a lead that it begins with. -/
  behindLead? : List Char → Option (List Char)
  /-- The characters that belong to a credential. -/
  isSecret : Char → Bool
  /-- Whether an empty credential is replaced as well. -/
  replacesEmpty : Bool

/-- Replaces the credentials of one kind; the first argument bounds the number of steps. -/
def Rule.applyUpTo (rule : Rule) : Nat → List Char → List Char
  | 0, text => text
  | _ + 1, [] => []
  | bound + 1, character :: rest =>
    let text := character :: rest
    match rule.behindLead? text with
    | none => character :: applyUpTo rule bound rest
    | some behind =>
      if (behind.takeWhile rule.isSecret).isEmpty && !rule.replacesEmpty then
        character :: applyUpTo rule bound rest
      else
        text.take (text.length - behind.length) ++ mark ++
          applyUpTo rule bound (behind.dropWhile rule.isSecret)

/-- Replaces the credentials of one kind. -/
def Rule.apply (rule : Rule) (text : List Char) : List Char := rule.applyUpTo text.length text

/-! ## The kinds -/

/-- The characters of the first word of an authorization: those of words and `-.=:/+`. -/
def isTokenCharacter (character : Char) : Bool :=
  Pattern.isWord character || ['-', '.', '=', ':', '/', '+'].contains character

/-- The value of an authorization header. -/
def authorization : Rule where
  behindLead? := behindWord? "authorization: ".toList
  isSecret := isTokenCharacter
  replacesEmpty := false

/-- The value of a token header. -/
def tokenHeader : Rule where
  behindLead? := behindWord? "x-csrftoken: ".toList
  isSecret := fun character => !isBlank character
  replacesEmpty := false

/-- The ends of the names of secret variables, with the sign of assignment. -/
def secretNames : List (List Char) :=
  ["key=".toList, "token=".toList, "secret=".toList, "password=".toList]

/-- An assignment to a secret variable. -/
def assignment : Rule where
  behindLead? := fun text => secretNames.findSome? fun name => behindWord? name text
  isSecret := fun character => !isBlank character
  replacesEmpty := false

/-- What is left behind the name of a JSON member, a colon and the opening quote of its value. -/
def behindMember? (text : List Char) : Option (List Char) := do
  let behindName ← behindWord? "\"csrf_token\"".toList text
  let behindColon ← behindWord? [':'] (behindName.dropWhile isBlank)
  behindWord? ['\x22'] (behindColon.dropWhile isBlank)

/-- The value of a JSON member. -/
def jsonMember : Rule where
  behindLead? := behindMember?
  isSecret := fun character => character != '\x22'
  replacesEmpty := true

/-- The kinds in the order in which they are handled. -/
def rules : List Rule := [authorization, tokenHeader, assignment, jsonMember]

end Formwork.Redaction

namespace Formwork

/-- The text without credentials. -/
def redact (text : String) : String :=
  String.ofList (Redaction.rules.foldl (fun redacted rule => rule.apply redacted) text.toList)

end Formwork
