import Formwork.Text.Blank
import Formwork.Text.Numeral

/-!
# Addresses

The address of an endpoint: a scheme, possibly an authority with a host, a path, a query and a
fragment. An address is kept in its normal form, in which two spellings of one address agree:
letters of the scheme and the host in lower case, no port that the scheme implies, no `.` and `..`
in the path, and every character that may not stand in a part percent-encoded.
-/

set_option autoImplicit false

namespace Formwork

open Formwork.Text

/-- What is wrong with the text of an address. -/
inductive AddressError where
  | emptyHost
  | invalidDomain
  | invalidCharacter
  | invalidPort
  | invalidFourPart
  | invalidEightPart
  | relative
deriving DecidableEq, Repr

def AddressError.message : AddressError → String
  | .emptyHost => "empty host"
  | .invalidDomain => "invalid international domain name"
  | .invalidCharacter => "invalid domain character"
  | .invalidPort => "invalid port number"
  | .invalidFourPart => "invalid IPv4 address"
  | .invalidEightPart => "invalid IPv6 address"
  | .relative => "relative URL without a base"

/-- Who is asked at an address. -/
structure Authority where
  user : String
  password : String
  host : String
  port : Option Nat
deriving DecidableEq, Repr

/-- An address in its normal form. -/
structure Address where
  scheme : String
  authority : Option Authority
  path : String
  query : Option String
  fragment : Option String
deriving DecidableEq, Repr

/-! ## Text -/

/-- The text of an authority. A password follows the user behind a colon. -/
def Authority.text (authority : Authority) : String :=
  let credentials :=
    authority.user ++ (if authority.password.isEmpty then "" else ":" ++ authority.password)
  (if credentials.isEmpty then "" else credentials ++ "@") ++ authority.host ++
    (match authority.port with
    | some port => ":" ++ indexText port
    | none => "")

/-- The text of an optional part behind its mark. -/
def markedPart (mark : String) : Option String → String
  | some part => mark ++ part
  | none => ""

/-- The text of an address. A path that begins with two slashes would read as an authority, and is
written behind `/.` if there is none. -/
def Address.text (address : Address) : String :=
  address.scheme ++ ":" ++
    (match address.authority with
    | some authority => "//" ++ authority.text
    | none => if address.path.startsWith "//" then "/." else "") ++
    address.path ++ markedPart "?" address.query ++ markedPart "#" address.fragment

/-! ## Percent-encoding -/

namespace Address

/-- The upper hexadecimal digit of a number below sixteen. -/
def percentDigit (value : Nat) : Char := (Nat.digitChar value).toUpper

/-- The bytes of a character, each behind a percent sign. -/
def percentEncode (character : Char) : List Char :=
  (String.singleton character).toUTF8.toList.flatMap fun byte =>
    ['%', percentDigit (byte.toNat / 16), percentDigit (byte.toNat % 16)]

/-- Whether a character can be printed in ASCII. -/
def isPrintable (character : Char) : Bool := decide (0x20 ≤ character.toNat ∧ character.toNat ≤ 0x7e)

/-- A text with all characters percent-encoded that are not printable or belong to the given ones. -/
def encode (reserved : List Char) (text : List Char) : List Char :=
  text.flatMap fun character =>
    if isPrintable character && !reserved.contains character then [character] else percentEncode character

def fragmentReserved : List Char := [' ', '\x22', '<', '>', '\x60']

def pathReserved : List Char := fragmentReserved ++ ['#', '?', '\x7b', '\x7d']

def userReserved : List Char := pathReserved ++ ['/', ':', ';', '=', '@', '[', '\\', ']', '^', '|']

def queryReserved : List Char := [' ', '\x22', '#', '<', '>']

/-- The value of a hexadecimal digit. -/
def hexValue? (digit : Char) : Option Nat :=
  if digit.isDigit then some (digit.toNat - '0'.toNat)
  else if 'a' ≤ digit ∧ digit ≤ 'f' then some (digit.toNat - 'a'.toNat + 10)
  else if 'A' ≤ digit ∧ digit ≤ 'F' then some (digit.toNat - 'A'.toNat + 10)
  else none

/-- The bytes of a text, with every percent-encoded byte decoded. -/
def decodeBytes : List Char → List UInt8
  | [] => []
  | '%' :: high :: low :: rest =>
    match hexValue? high, hexValue? low with
    | some first, some second => UInt8.ofNat (16 * first + second) :: decodeBytes rest
    | _, _ => '%'.toNat.toUInt8 :: decodeBytes (high :: low :: rest)
  | character :: rest => (String.singleton character).toUTF8.toList ++ decodeBytes rest

end Address

end Formwork
