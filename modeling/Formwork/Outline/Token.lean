import Formwork.Outline.Scalar

/-!
# Tokens of a YAML text

The text is cut into scalars, the indicators inside brackets, and the starts and ends of lists and
maps that are written by indentation. The key of a map is recognised only at the colon behind it. So
the scanner remembers where a key may have begun, and puts the token for the key, and
if need be the start of a map, in front of the tokens that were read since then. Such a *simple key*
must stand on one line and have at most 1024 characters.
-/

set_option autoImplicit false

namespace Formwork.Outline

/-- A token. -/
inductive Token where
  | documentStart
  | documentEnd
  /-- The start of a list written by indentation. -/
  | listStart
  /-- The start of a map written by indentation. -/
  | mapStart
  /-- The end of a list or map written by indentation. -/
  | dedent
  | openList
  | closeList
  | openMap
  | closeMap
  /-- The dash in front of an item. -/
  | item
  | comma
  | key
  | value
  | scalar (text : String) (isPlain : Bool)
deriving DecidableEq, Repr

/-- A place where a simple key may have begun. -/
structure KeyStart where
  /-- Nothing but a key can stand here. -/
  isRequired : Bool
  /-- The number of tokens before. -/
  position : Nat
  index : Nat
  line : Nat
  column : Nat
deriving Repr

/-- The state of a scan. -/
structure Scan where
  cursor : Cursor
  tokens : Array Token
  /-- The columns of the open lists and maps that are written by indentation, innermost first. -/
  columns : List Nat
  /-- The key that may have begun at each level of brackets, innermost first. -/
  keys : List (Option KeyStart)
  /-- Whether a simple key may begin at the next token. -/
  keyAllowed : Bool

namespace Scan

def start (text : String) : Scan := ⟨.start text, #[], [], [none], true⟩

/-- Whether the scan is inside brackets. -/
def inBrackets (scan : Scan) : Bool := decide (1 < scan.keys.length)

/-- Whether a column is deeper than that of the innermost open list or map. -/
def isDeeper (column : Nat) (scan : Scan) : Bool :=
  match scan.columns with
  | [] => true
  | innermost :: _ => decide (innermost < column)

def push (token : Token) (scan : Scan) : Scan := { scan with tokens := scan.tokens.push token }

def moveTo (cursor : Cursor) (scan : Scan) : Scan := { scan with cursor }

def advance (count : Nat) (scan : Scan) : Scan := scan.moveTo (scan.cursor.advance count)

def allowKey (allowed : Bool) (scan : Scan) : Scan := { scan with keyAllowed := allowed }

/-! ## Simple keys -/

/-- Gives up a place where a key may have begun, which is refused if a key is required there. -/
def giveUp : Option KeyStart → Option (Option KeyStart)
  | none => some none
  | some begun => if begun.isRequired then none else some none

/-- Gives up every place that is too far back for a simple key. -/
def dropStaleKeys (scan : Scan) : Option Scan := do
  let keys ← scan.keys.mapM fun entry =>
    match entry with
    | none => some none
    | some begun =>
      if begun.line < scan.cursor.line ∨ begun.index + 1024 < scan.cursor.index then giveUp entry
      else some entry
  return { scan with keys }

/-- Gives up the place at the current level of brackets. -/
def dropKey (scan : Scan) : Option Scan :=
  match scan.keys with
  | [] => some scan
  | entry :: outer => (giveUp entry).map fun kept => { scan with keys := kept :: outer }

/-- Remembers that a key may begin here, if one is allowed. -/
def markKey (scan : Scan) : Option Scan :=
  if scan.keyAllowed then do
    let dropped ← scan.dropKey
    let begun : KeyStart := {
      isRequired := !scan.inBrackets && scan.columns.head? == some scan.cursor.column
      position := scan.tokens.size
      index := scan.cursor.index
      line := scan.cursor.line
      column := scan.cursor.column }
    return { dropped with keys := some begun :: dropped.keys.tail }
  else some scan

/-! ## Indentation -/

/-- Opens a list or map at a column, if it is deeper than the innermost open one. Its start is put in
front of the token at the given position. -/
def indent (column : Nat) (token : Token) (position : Nat) (scan : Scan) : Scan :=
  if !scan.inBrackets && scan.isDeeper column then
    { scan with
      columns := column :: scan.columns
      tokens := scan.tokens.insertIdxIfInBounds position token }
  else scan

/-- Closes the lists and maps that are deeper than a column; without a column, all of them. -/
def unindent (column : Option Nat) (scan : Scan) : Scan :=
  if scan.inBrackets then scan
  else
    let closed := scan.columns.takeWhile fun open_ =>
      match column with
      | some least => decide (least < open_)
      | none => true
    { scan with
      columns := scan.columns.drop closed.length
      tokens := scan.tokens ++ (Array.replicate closed.length Token.dedent) }

/-! ## Blank space -/

/-- Passes over blanks, comments and line ends. Outside brackets a key is allowed on a new line, and a
tab is blank only where no key is allowed. -/
def skipBlank : Nat → Scan → Scan
  | 0, scan => scan
  | bound + 1, scan =>
    let tabs := scan.inBrackets || !scan.keyAllowed
    let blank := scan.cursor.skipWhile fun character => character = ' ' || (tabs && character == '\t')
    let behind := if blank.next = some '#' then blank.skipLine else blank
    if behind.next.any isLineEnd then
      skipBlank bound
        { scan with
          cursor := behind.breakLine
          keyAllowed := scan.keyAllowed || !scan.inBrackets }
    else scan.moveTo behind

/-! ## Fetching tokens -/

/-- An opening bracket, which may begin a key. -/
def openBracket (token : Token) (scan : Scan) : Option Scan := do
  let marked ← scan.markKey
  return (({ marked with keys := none :: marked.keys }.allowKey true).advance 1).push token

/-- A closing bracket. -/
def closeBracket (token : Token) (scan : Scan) : Option Scan := do
  let dropped ← scan.dropKey
  let outer := if scan.inBrackets then dropped.keys.tail else dropped.keys
  return (({ dropped with keys := outer }.allowKey false).advance 1).push token

def comma (scan : Scan) : Option Scan := do
  let dropped ← scan.dropKey
  return ((dropped.allowKey true).advance 1).push .comma

/-- The dash of an item. -/
def item (scan : Scan) : Option Scan := do
  if !scan.inBrackets && !scan.keyAllowed then none
  let dropped ← (scan.indent scan.cursor.column .listStart scan.tokens.size).dropKey
  return ((dropped.allowKey true).advance 1).push .item

/-- A question mark in front of a key. -/
def explicitKey (scan : Scan) : Option Scan := do
  if !scan.inBrackets && !scan.keyAllowed then none
  let dropped ← (scan.indent scan.cursor.column .mapStart scan.tokens.size).dropKey
  return ((dropped.allowKey (!dropped.inBrackets)).advance 1).push .key

/-- A colon, which turns what was read since a key may have begun into a key. -/
def value (scan : Scan) : Option Scan :=
  match scan.keys.head? with
  | some (some begun) =>
    let keyed := { scan with
      tokens := scan.tokens.insertIdxIfInBounds begun.position Token.key
      keys := none :: scan.keys.tail }
    let opened := keyed.indent begun.column .mapStart begun.position
    some (((opened.allowKey false).advance 1).push .value)
  | _ => do
    if !scan.inBrackets && !scan.keyAllowed then none
    let opened := scan.indent scan.cursor.column .mapStart scan.tokens.size
    return ((opened.allowKey (!opened.inBrackets)).advance 1).push .value

/-- A mark of three characters at which a document starts or ends. -/
def documentMark (token : Token) (scan : Scan) : Option Scan := do
  let dropped ← (scan.unindent none).dropKey
  return ((dropped.allowKey false).advance 3).push token

/-- A scalar written as a block. -/
def blockScalar (isFolded : Bool) (scan : Scan) : Option Scan := do
  let dropped ← scan.dropKey
  let (text, behind) ← block isFolded scan.columns.head? scan.cursor
  return ((dropped.allowKey true).moveTo behind).push (.scalar (String.ofList text) false)

/-- A scalar in quotes. -/
def quotedScalar (isDouble : Bool) (scan : Scan) : Option Scan := do
  let marked ← scan.markKey
  let (text, behind) ← quoted isDouble scan.cursor
  return ((marked.allowKey false).moveTo behind).push (.scalar (String.ofList text) false)

/-- A plain scalar. If it has gone on to a new line, a key may begin behind it. -/
def plainScalar (scan : Scan) : Option Scan := do
  let marked ← scan.markKey
  let column := match scan.columns with
    | [] => 0
    | innermost :: _ => innermost + 1
  let (text, onNewLine, behind) ← plain scan.inBrackets column scan.cursor
  return ((marked.allowKey onNewLine).moveTo behind).push (.scalar (String.ofList text) true)

/-- The characters that mean something at the start of a scalar. -/
def indicators : List Char :=
  ['-', '?', ':', ',', '[', ']', '\x7b', '\x7d', '#', '&', '*', '!', '|', '>', '\x27', '\x22', '%', '@', '\x60']

/-- Whether a character can begin a plain scalar, given whether blank space follows it. -/
def beginsPlain (inBrackets blankFollows : Bool) (character : Char) : Bool :=
  if character = '-' then !blankFollows
  else if character = '?' || character = ':' then !inBrackets && !blankFollows
  else !(indicators.contains character) && !isBoundary (some character)

/-- Reads the token at a character. Tags, anchors, references to anchors and directives are refused. -/
def token (character : Char) (scan : Scan) : Option Scan :=
  let blankFollows := isBoundary (scan.cursor.peek 1)
  if scan.cursor.column = 0 ∧ character = '%' then none
  else if scan.cursor.isMark '-' then scan.documentMark .documentStart
  else if scan.cursor.isMark '.' then scan.documentMark .documentEnd
  else if character = '[' then scan.openBracket .openList
  else if character = '\x7b' then scan.openBracket .openMap
  else if character = ']' then scan.closeBracket .closeList
  else if character = '\x7d' then scan.closeBracket .closeMap
  else if character = ',' then scan.comma
  else if character = '-' ∧ blankFollows then scan.item
  else if character = '?' ∧ (scan.inBrackets ∨ blankFollows) then scan.explicitKey
  else if character = ':' ∧ (scan.inBrackets ∨ blankFollows) then scan.value
  else if character = '|' ∧ !scan.inBrackets then scan.blockScalar false
  else if character = '>' ∧ !scan.inBrackets then scan.blockScalar true
  else if character = '\x27' then scan.quotedScalar false
  else if character = '\x22' then scan.quotedScalar true
  else if beginsPlain scan.inBrackets blankFollows character then scan.plainScalar
  else none

/-- The end of the text. -/
def finish (scan : Scan) : Option Scan := (scan.unindent none).dropKey

/-- Reads all tokens; every step but the last passes over a character. -/
def run : Nat → Scan → Option Scan
  | 0, _ => none
  | bound + 1, scan => do
    let blank := scan.skipBlank (scan.cursor.rest.length + 1)
    let fresh ← blank.dropStaleKeys
    match fresh.cursor.next with
    | none => fresh.finish
    | some character =>
      let after ← (fresh.unindent (some fresh.cursor.column)).token character
      run bound after

end Scan

/-- Whether a character may stand in a YAML text. -/
def isAdmitted (character : Char) : Bool :=
  let code := character.toNat
  code == 0x09 || code == 0x0a || code == 0x0d || (0x20 ≤ code && code ≤ 0x7e) || code == 0x85 ||
    (0xa0 ≤ code && code ≤ 0xd7ff) || (0xe000 ≤ code && code ≤ 0xfffd) || 0x10000 ≤ code

/-- The tokens of a text. -/
def tokens? (text : String) : Option (List Token) :=
  if text.toList.all isAdmitted then
    ((Scan.start text).run (text.length + 2)).map fun scan => scan.tokens.toList
  else none

end Formwork.Outline
