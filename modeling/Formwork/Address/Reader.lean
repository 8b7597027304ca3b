import Formwork.Assoc
import Formwork.Address.Host

/-!
# Reading addresses

An address is read from left to right: scheme, authority, path, query, fragment. Schemes of the web have
an authority in any case, however many slashes are written, and treat a backslash like a slash. Other
schemes have one only behind two slashes; without a slash at all, their path is taken as it is.
-/

set_option autoImplicit false

namespace Formwork.Address

open Formwork.Text

/-- The ports that schemes of the web imply. -/
def impliedPorts : List (String × Nat) :=
  [("http", 80), ("https", 443), ("ws", 80), ("wss", 443), ("ftp", 21)]

/-- Whether a scheme is one of the web. -/
def isSpecialScheme (scheme : String) : Bool := Assoc.has scheme impliedPorts

/-- The text without control characters and spaces at its ends, and without tabs and line ends. -/
def cleaned (text : List Char) : List Char :=
  let isOuter (character : Char) : Bool := decide (character.toNat ≤ 0x20)
  let stripped := ((text.dropWhile isOuter).reverse.dropWhile isOuter).reverse
  stripped.filter fun character => !(['\t', '\n', '\r'].contains character)

/-- The characters of a scheme behind its first letter. -/
def isSchemeCharacter (character : Char) : Bool :=
  character.isAlphanum || ['+', '-', '.'].contains character

/-- The scheme in lower case and the text behind its colon. -/
def splitScheme? (text : List Char) : Option (String × List Char) :=
  let scheme := text.takeWhile isSchemeCharacter
  match scheme.head?, text.drop scheme.length with
  | some first, ':' :: rest =>
    if first.isAlpha then some (String.ofList (scheme.map Char.toLower), rest) else none
  | _, _ => none

/-- Whether a character ends an authority. -/
def endsAuthority (isSpecial : Bool) (character : Char) : Bool :=
  ['/', '?', '#'].contains character || (isSpecial && character == '\\')

/-! ## The authority -/

/-- The user and the password of the text in front of an `@`. -/
def credentials (text : List Char) : String × String :=
  let user := text.takeWhile (· != ':')
  (String.ofList (encode userReserved user),
    String.ofList (encode userReserved ((text.drop user.length).drop 1)))

/-- The length of the host at the start of a text: up to a colon outside square brackets. -/
def hostLength : Bool → List Char → Nat
  | _, [] => 0
  | inBrackets, character :: rest =>
    if character = ':' ∧ !inBrackets then 0
    else if character = '[' then hostLength true rest + 1
    else if character = ']' then hostLength false rest + 1
    else hostLength inBrackets rest + 1

/-- The port of the text behind the host, unless the scheme implies it. -/
def readPort (scheme : String) : List Char → Except AddressError (Option Nat)
  | [] => .ok none
  | [_] => .ok none
  | _ :: digits =>
    match naturalValue? digits with
    | some value =>
      if value < 65536 then .ok (if Assoc.get? scheme impliedPorts = some value then none else some value)
      else .error .invalidPort
    | none => .error .invalidPort

/-- The authority of a text that holds nothing else. -/
def readAuthority (scheme : String) (text : List Char) : Except AddressError Authority := do
  let isSpecial := isSpecialScheme scheme
  let (user, password, hostAndPort, hasSign) := match splitLast? '@' text with
    | some (front, behind) => let (user, password) := credentials front; (user, password, behind, true)
    | none => ("", "", text, false)
  let length := hostLength false hostAndPort
  let hostText := hostAndPort.take length
  let portText := hostAndPort.drop length
  if hostText.isEmpty && (isSpecial || !portText.isEmpty || (hasSign && !(user.isEmpty && password.isEmpty))) then
    throw .emptyHost
  let name ← readHost isSpecial hostText
  let number ← readPort scheme portText
  return { user, password, host := name, port := number }

/-! ## The path -/

/-- The spellings of the segments that mean the segment itself and the one above. -/
def isHere (segment : String) : Bool := [".", "%2e"].contains segment.toLower

def isAbove (segment : String) : Bool := ["..", "%2e%2e", "%2e.", ".%2e"].contains segment.toLower

/-- The segments of a path, innermost first, with `.` and `..` resolved. -/
def resolved : List String → List String → List String
  | done, [] => done
  | done, segment :: rest =>
    if isAbove segment then resolved (if rest.isEmpty then "" :: done.tail else done.tail) rest
    else if isHere segment then resolved (if rest.isEmpty then "" :: done else done) rest
    else resolved (segment :: done) rest

/-- The normal form of a path behind its first slash. -/
def readPath (isSpecial : Bool) (text : List Char) : String :=
  let slashed := text.map fun character => if isSpecial && character == '\\' then '/' else character
  let segments := (pieces '/' slashed).map fun piece => String.ofList (encode pathReserved piece)
  "/" ++ String.intercalate "/" (resolved [] segments).reverse

/-! ## The whole address -/

/-- The parts of a text in front of a question mark or number sign, and behind each of them. -/
def splitParts (text : List Char) : List Char × Option (List Char) × Option (List Char) :=
  let front := text.takeWhile (· != '#')
  let fragment := match text.drop front.length with
    | [] => none
    | _ :: rest => some rest
  let body := front.takeWhile (· != '?')
  let query := match front.drop body.length with
    | [] => none
    | _ :: rest => some rest
  (body, query, fragment)

/-- The authority and the path of a text behind two slashes. -/
def behindSlashes (scheme : String) (text : List Char) : Except AddressError (Option Authority × String) := do
  let isSpecial := isSpecialScheme scheme
  let front := text.takeWhile fun character => !endsAuthority isSpecial character
  let found ← readAuthority scheme front
  match text.drop front.length with
  | [] => return (some found, if isSpecial then "/" else "")
  | _ :: rest => return (some found, readPath isSpecial rest)

/-- The host and the path of a file. The local host is not written. -/
def fileParts (text : List Char) : Except AddressError (Option Authority × String) := do
  let slashed := text.map fun character => if character = '\\' then '/' else character
  let (front, rest) := match slashed with
    | '/' :: '/' :: behind =>
      let front := behind.takeWhile (· != '/')
      (front, behind.drop front.length)
    | other => ([], other)
  let name ← if front.isEmpty then pure "" else readHost true front
  let below := match rest with
    | '/' :: behind => behind
    | other => other
  return (some ⟨"", "", if name = "localhost" then "" else name, none⟩, readPath true below)

/-- The authority, if there is one, and the path of the text behind a scheme. -/
def place (scheme : String) (text : List Char) : Except AddressError (Option Authority × String) :=
  if isSpecialScheme scheme then
    behindSlashes scheme (text.dropWhile fun character => character = '/' || character = '\\')
  else if scheme = "file" then fileParts text
  else
    match text with
    | '/' :: '/' :: rest => behindSlashes scheme rest
    | '/' :: rest => .ok (none, readPath false rest)
    | _ => .ok (none, String.ofList (encode [] text))

/-- The address of a scheme and the text behind it. -/
def ofParts (scheme : String) (text : List Char) : Except AddressError Address := do
  let (body, query, fragment) := splitParts text
  let (found, path) ← place scheme body
  let reserved :=
    if isSpecialScheme scheme || scheme == "file" then '\x27' :: queryReserved else queryReserved
  return {
    scheme, path
    authority := found
    query := query.map fun part => String.ofList (encode reserved part)
    fragment := fragment.map fun part => String.ofList (encode fragmentReserved part) }

/-- The address that a text means. -/
def parse (text : String) : Except AddressError Address :=
  match splitScheme? (cleaned text.toList) with
  | some (scheme, rest) => ofParts scheme rest
  | none => .error .relative

end Formwork.Address
