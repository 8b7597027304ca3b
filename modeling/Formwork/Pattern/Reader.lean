import Formwork.Pattern
import Formwork.Text.Numeral

/-!
# Reading patterns

The grammar of patterns: alternatives separated by `|`, sequences, the repetitions `?`, `*`, `+`
and counts in braces, each with an optional `?` behind it, groups with or without a name,
flags, bracketed sets with their operations, classes and escapes. Flags hold to the end of
the group in which they are set. Looking around and referring back are refused.

The readers of groups and sets call each other on what remains of the text; `fuel` bounds the
number of calls and is computed from the length of the text.
-/

set_option autoImplicit false

namespace Formwork.Pattern

open Formwork.Text

/-- The flags that change how the text behind them is read. -/
structure Flags where
  caseless : Bool
  multiline : Bool
  dotAll : Bool
  spaced : Bool
deriving DecidableEq, Repr

def Flags.none : Flags := ⟨false, false, false, false⟩

/-- The set of one character. -/
def single (character : Char) : CharSet := .range character.toNat character.toNat

/-- A set as it is read under the given flags. -/
def Flags.apply (flags : Flags) (set : CharSet) : CharSet := if flags.caseless then .caseless set else set

/-! ## Escapes -/

/-- What a backslash and the characters after it mean. -/
inductive Escape where
  | literal (character : Char)
  | set (set : CharSet)
  | anchor (condition : Anchor)

def hexValue? (character : Char) : Option Nat :=
  if character.isDigit then some (character.toNat - 48)
  else if 'a' ≤ character && character ≤ 'f' then some (character.toNat - 87)
  else if 'A' ≤ character && character ≤ 'F' then some (character.toNat - 55)
  else none

/-- The character with a code given by hexadecimal digits. -/
def hexCharacter? (digits : List Char) : Option Char := do
  if digits.isEmpty then none
  else
    let values ← digits.mapM hexValue?
    let code := values.foldl (fun total value => 16 * total + value) 0
    if code < 0xd800 || (0xe000 ≤ code && code < 0x110000) then some (Char.ofNat code) else none

/-- A code of a fixed number of hexadecimal digits or of any number in braces. -/
def hexEscape? (width : Nat) : List Char → Option (Escape × List Char)
  | '\x7b' :: rest =>
    match rest.dropWhile (· != '\x7d') with
    | _ :: tail => (hexCharacter? (rest.takeWhile (· != '\x7d'))).map fun character => (.literal character, tail)
    | [] => none
  | text =>
    if (text.take width).length = width then
      (hexCharacter? (text.take width)).map fun character => (.literal character, text.drop width)
    else none

/-- The kinds of word edges that may be named in braces. -/
def namedEdge? (name : List Char) : Option Anchor :=
  if name = "start".toList then some .wordStart
  else if name = "end".toList then some .wordEnd
  else none

/-- What follows a backslash. -/
def escape? : List Char → Option (Escape × List Char)
  | [] => none
  | letter :: rest =>
    match letter with
    | 'd' => some (.set .digit, rest)
    | 'D' => some (.set (.complement .digit), rest)
    | 's' => some (.set .blank, rest)
    | 'S' => some (.set (.complement .blank), rest)
    | 'w' => some (.set .word, rest)
    | 'W' => some (.set (.complement .word), rest)
    | 'a' => some (.literal '\x07', rest)
    | 'f' => some (.literal '\x0c', rest)
    | 't' => some (.literal '\t', rest)
    | 'n' => some (.literal '\n', rest)
    | 'r' => some (.literal '\r', rest)
    | 'v' => some (.literal '\x0b', rest)
    | 'x' => hexEscape? 2 rest
    | 'u' => hexEscape? 4 rest
    | 'U' => hexEscape? 8 rest
    | 'A' => some (.anchor .textStart, rest)
    | 'z' => some (.anchor .textEnd, rest)
    | 'B' => some (.anchor .noWordEdge, rest)
    | '<' => some (.anchor .wordStart, rest)
    | '>' => some (.anchor .wordEnd, rest)
    | 'b' =>
      match rest with
      | '\x7b' :: inner =>
        match namedEdge? (inner.takeWhile (· != '\x7d')), inner.dropWhile (· != '\x7d') with
        | some condition, _ :: tail => some (.anchor condition, tail)
        | _, _ => some (.anchor .wordEdge, rest)
      | _ => some (.anchor .wordEdge, rest)
    | _ =>
      if letter.toNat < 0x80 && !letter.isAlphanum then some (.literal letter, rest) else none

/-! ## Sets -/

/-- The sets that have a name between colons. -/
def namedSet? (name : List Char) : Option CharSet :=
  let letters := CharSet.union (.range 65 90) (.range 97 122)
  let digits := CharSet.range 48 57
  match String.ofList name with
  | "alnum" => some (.union letters digits)
  | "alpha" => some letters
  | "ascii" => some (.range 0 127)
  | "blank" => some (.union (.range 9 9) (.range 32 32))
  | "cntrl" => some (.union (.range 0 31) (.range 127 127))
  | "digit" => some digits
  | "graph" => some (.range 33 126)
  | "lower" => some (.range 97 122)
  | "print" => some (.range 32 126)
  | "punct" => some (.difference (.range 33 126) (.union letters digits))
  | "space" => some (.union (.range 9 13) (.range 32 32))
  | "upper" => some (.range 65 90)
  | "word" => some (.union (.union letters digits) (.range 95 95))
  | "xdigit" => some (.union digits (.union (.range 65 70) (.range 97 102)))
  | _ => none

/-- A named set after its opening bracket, and the text after it. -/
def colonSet? : List Char → Option (CharSet × List Char)
  | ':' :: rest =>
    let (negated, rest) := match rest with
      | '^' :: rest => (true, rest)
      | _ => (false, rest)
    let name := rest.takeWhile (· != ':')
    match rest.dropWhile (· != ':') with
    | ':' :: ']' :: tail =>
      (namedSet? name).map fun set => (if negated then .complement set else set, tail)
    | _ => none
  | _ => none

/-- One element of a set: a character that may begin a range, or a class. -/
def element? : List Char → Option (Escape × List Char)
  | [] => none
  | '\\' :: rest =>
    match escape? rest with
    | some (.anchor _, _) => none
    | other => other
  | character :: rest => some (.literal character, rest)

/-- An element of a set with the range that it may begin. -/
def rangeOrElement? (text : List Char) : Option (CharSet × List Char) := do
  let (element, rest) ← element? text
  let isRange := match rest with
    | '-' :: ']' :: _ => false
    | '-' :: '-' :: _ => false
    | '-' :: _ => true
    | _ => false
  if isRange then
    let (last, tail) ← element? (rest.drop 1)
    match element, last with
    | .literal first, .literal last =>
      if first.toNat ≤ last.toNat then some (.range first.toNat last.toNat, tail) else none
    | _, _ => none
  else
    match element with
    | .literal character => some (single character, rest)
    | .set set => some (set, rest)
    | .anchor _ => none

/-- The operation between two parts of a bracketed set, and the text after it. -/
def setOperation? : List Char → Option ((CharSet → CharSet → CharSet) × List Char)
  | '&' :: '&' :: rest => some (.intersection, rest)
  | '-' :: '-' :: rest => some (.difference, rest)
  | '~' :: '~' :: rest => some (.symmetricDifference, rest)
  | _ => none

mutual
/-- A bracketed set after its opening bracket. -/
def bracket? : Nat → Flags → List Char → Option (CharSet × List Char)
  | 0, _, _ => none
  | fuel + 1, flags, text =>
    let (negated, text) := match text with
      | '^' :: rest => (true, rest)
      | _ => (false, text)
    let hyphens := text.takeWhile (· == '-')
    let text := text.dropWhile (· == '-')
    let start : CharSet := if hyphens.isEmpty then .empty else single '-'
    let (start, text) := match hyphens.isEmpty, text with
      | true, ']' :: rest => (single ']', rest)
      | _, _ => (start, text)
    (setItems? fuel flags none start text).map fun (set, tail) =>
      let set := flags.apply set
      (if negated then .complement set else set, tail)

/-- The elements of a bracketed set up to its closing bracket: `left` is what stands in
front of the last operation, `union` what has been read since. -/
def setItems? : Nat → Flags → Option (CharSet → CharSet) → CharSet → List Char → Option (CharSet × List Char)
  | 0, _, _, _, _ => none
  | fuel + 1, flags, left, union, text =>
    let combined := match left with
      | some combine => combine union
      | none => union
    match text with
    | [] => none
    | ']' :: rest => some (combined, rest)
    | '[' :: rest =>
      match colonSet? rest with
      | some (set, tail) => setItems? fuel flags left (.union union set) tail
      | none =>
        match bracket? fuel flags rest with
        | some (set, tail) => setItems? fuel flags left (.union union set) tail
        | none => none
    | _ =>
      match setOperation? text with
      | some (operation, rest) => setItems? fuel flags (some (operation combined)) .empty rest
      | none =>
        match rangeOrElement? text with
        | some (set, tail) => setItems? fuel flags left (.union union set) tail
        | none => none
end

/-! ## Repetitions -/

/-- A count between blanks. -/
def count? (text : List Char) : Option Nat :=
  (naturalValue? (trim text)).filter (· < Number.wordCount 32)

/-- The least and the greatest count of a repetition in braces, after the opening brace. -/
def counts? (text : List Char) : Option (Nat × Option Nat × List Char) :=
  match text.dropWhile (· != '\x7d') with
  | _ :: tail =>
    match pieces ',' (text.takeWhile (· != '\x7d')) with
    | [least] => (count? least).map fun least => (least, some least, tail)
    | [least, greatest] => do
      let least ← count? least
      if (trim greatest).isEmpty then return (least, none, tail)
      else
        let greatest ← count? greatest
        if least ≤ greatest then return (least, some greatest, tail) else none
    | _ => none
  | [] => none

/-- The bounds of a repetition operator at the front of a text. Nothing is returned when there
is no operator, and an operator that cannot be read gives `none` inside. -/
def operator? : List Char → Option (Option (Nat × Option Nat × List Char))
  | '?' :: rest => some (some (0, some 1, rest))
  | '*' :: rest => some (some (0, none, rest))
  | '+' :: rest => some (some (1, none, rest))
  | '\x7b' :: rest => some (counts? rest)
  | _ => none

/-- The text after the mark that makes a repetition lazy, which does not change what is
matched. -/
def afterLazyMark : List Char → List Char
  | '?' :: rest => rest
  | text => text

/-! ## Groups -/

/-- Reads flags up to `)` or `:`; `setting` tells whether they are set or cleared. -/
def flags? (setting : Bool) (flags : Flags) : List Char → Option (Flags × List Char)
  | [] => none
  | ')' :: rest => some (flags, ')' :: rest)
  | ':' :: rest => some (flags, ':' :: rest)
  | 'i' :: rest => flags? setting { flags with caseless := setting } rest
  | 'm' :: rest => flags? setting { flags with multiline := setting } rest
  | 's' :: rest => flags? setting { flags with dotAll := setting } rest
  | 'x' :: rest => flags? setting { flags with spaced := setting } rest
  | 'U' :: rest => flags? setting flags rest
  | 'R' :: rest => flags? setting flags rest
  | 'u' :: rest => if setting then flags? setting flags rest else none
  | '-' :: next :: rest =>
    if setting && next != ')' && next != ':' then flags? false flags (next :: rest) else none
  | _ => none

/-- The text after the name of a group and its closing mark. -/
def afterGroupName? (text : List Char) : Option (List Char) :=
  let name := text.takeWhile (· != '>')
  match text.dropWhile (· != '>'), name with
  | _ :: tail, first :: rest =>
    let starts := first == '_' || first.isAlpha || 0x80 ≤ first.toNat
    let continues (character : Char) : Bool :=
      character == '_' || character == '.' || character == '[' || character == ']' ||
        character.isAlphanum || 0x80 ≤ character.toNat
    if starts && rest.all continues then some tail else none
  | _, _ => none

/-- What an opening parenthesis begins: a group with the flags inside it, or flags for the
rest of the enclosing group. -/
inductive Opening where
  | group (inside : Flags) (rest : List Char)
  | flags (after : Flags) (rest : List Char)

/-- Reads what follows an opening parenthesis. -/
def opening? (flags : Flags) : List Char → Option Opening
  | '?' :: 'P' :: '<' :: rest => (afterGroupName? rest).map (.group flags)
  | '?' :: '<' :: '=' :: _ => none
  | '?' :: '<' :: '!' :: _ => none
  | '?' :: '<' :: rest => (afterGroupName? rest).map (.group flags)
  | '?' :: ')' :: _ => none
  | '?' :: rest =>
    match flags? true flags rest with
    | some (after, ')' :: tail) => some (.flags after tail)
    | some (inside, ':' :: tail) => some (.group inside tail)
    | _ => none
  | rest => some (.group flags rest)

/-- The pattern of one character that stands for itself. -/
def literal (flags : Flags) (character : Char) : Pattern := .one (flags.apply (single character))

/-- The pattern of a dot. -/
def dot (flags : Flags) : Pattern :=
  .one (if flags.dotAll then .complement .empty else .complement (single '\n'))

/-- The items of a sequence, the last of which is the first of the list; an item without a
pattern is a change of flags, which cannot be repeated. -/
def sequenceOf (items : List (Option Pattern)) : Pattern :=
  items.foldl (fun pattern item => match item with
    | some first => .sequence first pattern
    | none => pattern) .empty

/-- The pattern of an escape outside brackets. -/
def escapePattern (flags : Flags) : Escape → Pattern
  | .literal character => literal flags character
  | .set set => .one set
  | .anchor condition => .anchor condition

mutual
/-- Reads alternatives up to a closing parenthesis or the end. -/
def alternatives? : Nat → Flags → List Char → Option (Pattern × List Char)
  | 0, _, _ => none
  | fuel + 1, flags, text =>
    match sequence? fuel flags [] text with
    | none => none
    | some (first, after, '|' :: rest) =>
      (alternatives? fuel after rest).map fun (second, tail) => (.either first second, tail)
    | some (first, _, rest) => some (first, rest)

/-- Reads a sequence up to `|`, a closing parenthesis or the end; the flags may change on
the way. -/
def sequence? : Nat → Flags → List (Option Pattern) → List Char → Option (Pattern × Flags × List Char)
  | 0, _, _, _ => none
  | fuel + 1, flags, items, text =>
    match operator? text with
    | some none => none
    | some (some (least, greatest, rest)) =>
      match items with
      | some body :: before =>
        sequence? fuel flags (some (.repetition body least greatest) :: before) (afterLazyMark rest)
      | _ => none
    | none =>
      match text with
      | [] => some (sequenceOf items, flags, [])
      | '|' :: _ => some (sequenceOf items, flags, text)
      | ')' :: _ => some (sequenceOf items, flags, text)
      | '(' :: rest =>
        match opening? flags rest with
        | none => none
        | some (.flags after tail) => sequence? fuel after (none :: items) tail
        | some (.group inside inner) =>
          match alternatives? fuel inside inner with
          | some (group, ')' :: tail) => sequence? fuel flags (some group :: items) tail
          | _ => none
      | '[' :: rest =>
        match bracket? fuel flags rest with
        | some (set, tail) => sequence? fuel flags (some (.one set) :: items) tail
        | none => none
      | '\\' :: rest =>
        match escape? rest with
        | some (escape, tail) => sequence? fuel flags (some (escapePattern flags escape) :: items) tail
        | none => none
      | '^' :: rest =>
        let condition := if flags.multiline then Anchor.lineStart else .textStart
        sequence? fuel flags (some (.anchor condition) :: items) rest
      | '$' :: rest =>
        let condition := if flags.multiline then Anchor.lineEnd else .textEnd
        sequence? fuel flags (some (.anchor condition) :: items) rest
      | '.' :: rest => sequence? fuel flags (some (dot flags) :: items) rest
      | character :: rest =>
        if flags.spaced && isBlank character then sequence? fuel flags items rest
        else if flags.spaced && character == '#' then
          sequence? fuel flags items (rest.dropWhile (· != '\n'))
        else sequence? fuel flags (some (literal flags character) :: items) rest
end

/-- The pattern that a text stands for. -/
def parse? (source : String) : Option Pattern :=
  let text := source.toList
  match alternatives? (4 * text.length + 4) .none text with
  | some (pattern, []) => some pattern
  | _ => none

end Formwork.Pattern
