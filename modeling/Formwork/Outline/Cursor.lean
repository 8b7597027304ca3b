/-!
# Positions in a YAML text

A cursor is what remains of a text together with where that is: how many characters came before, the
line and the column. A line ends with a carriage return, a line feed, both, or one of three
Unicode characters; all but the line and paragraph separator mean a line feed.

A `Gap` is the blank space between two pieces of a scalar. Blanks inside a line are kept, one line end
becomes a space, and of several line ends the first is dropped.
-/

set_option autoImplicit false

namespace Formwork.Outline

/-- What remains of a text, and where it stands. -/
structure Cursor where
  rest : List Char
  /-- The number of characters before. -/
  index : Nat
  line : Nat
  column : Nat
deriving Repr

def isTabOrSpace (character : Char) : Bool := character = ' ' || character = '\t'

/-- The characters that end a line. -/
def isLineEnd (character : Char) : Bool :=
  character = '\r' || character = '\n' || character = '\x85' || character = '\u2028' || character = '\u2029'

/-- The line end that a character means. -/
def lineEnd (character : Char) : Char :=
  if character = '\u2028' || character = '\u2029' then character else '\n'

/-- Whether a character, which may be missing, is blank, ends a line, or is the end of the text. -/
def isBoundary : Option Char → Bool
  | none => true
  | some character => isTabOrSpace character || isLineEnd character

namespace Cursor

/-- The start of a text. A byte order mark in front is passed over. -/
def start (text : String) : Cursor :=
  match text.toList with
  | '\ufeff' :: rest => ⟨rest, 0, 0, 0⟩
  | characters => ⟨characters, 0, 0, 0⟩

/-- The character some places further on. -/
def peek (cursor : Cursor) (offset : Nat) : Option Char := cursor.rest[offset]?

/-- The next character. -/
def next (cursor : Cursor) : Option Char := cursor.rest.head?

/-- Passes over some characters of a line. -/
def advance (cursor : Cursor) (count : Nat) : Cursor :=
  { cursor with
    rest := cursor.rest.drop count
    index := cursor.index + count
    column := cursor.column + count }

/-- Passes over the characters of a line that satisfy a test. -/
def skipWhile (test : Char → Bool) (cursor : Cursor) : Cursor :=
  cursor.advance (cursor.rest.takeWhile test).length

/-- Passes over what remains of the line, up to its end. -/
def skipLine (cursor : Cursor) : Cursor := cursor.skipWhile fun character => !isLineEnd character

/-- Passes over a line end, if one comes next. -/
def breakLine (cursor : Cursor) : Cursor :=
  match cursor.rest with
  | '\r' :: '\n' :: rest => ⟨rest, cursor.index + 2, cursor.line + 1, 0⟩
  | character :: rest =>
    if isLineEnd character then ⟨rest, cursor.index + 1, cursor.line + 1, 0⟩ else cursor
  | [] => cursor

/-- Whether the next character comes at the start of a line and begins a mark of three equal characters,
alone or before blank space. -/
def isMark (mark : Char) (cursor : Cursor) : Bool :=
  cursor.column == 0 && cursor.rest.take 3 == [mark, mark, mark] && isBoundary (cursor.peek 3)

/-- Whether a document starts or ends here. -/
def isDocumentMark (cursor : Cursor) : Bool := cursor.isMark '-' || cursor.isMark '.'

end Cursor

/-! ## Gaps -/

/-- Blank space between two pieces of a scalar. -/
structure Gap where
  /-- The blanks before the first line end. -/
  blanks : List Char
  /-- Whether a line has ended. -/
  hasBreak : Bool
  /-- The first line end, unless it was escaped. -/
  first : Option Char
  /-- All further line ends. -/
  more : List Char

namespace Gap

def empty : Gap := ⟨[], false, none, []⟩

/-- The gap after a line end that was escaped. -/
def escaped : Gap := ⟨[], true, none, []⟩

/-- The text that the gap stands for. -/
def text (gap : Gap) : List Char :=
  if gap.hasBreak then
    match gap.first with
    | some '\n' => if gap.more.isEmpty then [' '] else gap.more
    | some other => other :: gap.more
    | none => gap.more
  else gap.blanks

/-- The gap with a further blank. -/
def addBlank (blank : Char) (gap : Gap) : Gap :=
  if gap.hasBreak then gap else { gap with blanks := gap.blanks ++ [blank] }

/-- The gap with a further line end. -/
def addBreak (character : Char) (gap : Gap) : Gap :=
  if gap.hasBreak then { gap with more := gap.more ++ [lineEnd character] }
  else { gap with hasBreak := true, first := some (lineEnd character) }

end Gap

/-- Reads blank space. After a line end, a tab before the given column is refused. The first
argument bounds the number of steps. -/
def readGap (tabsFrom : Nat) : Nat → Gap → Cursor → Option (Gap × Cursor)
  | 0, gap, cursor => some (gap, cursor)
  | bound + 1, gap, cursor =>
    match cursor.next with
    | none => some (gap, cursor)
    | some character =>
      if isTabOrSpace character then
        if gap.hasBreak && character == '\t' && decide (cursor.column < tabsFrom) then none
        else readGap tabsFrom bound (gap.addBlank character) (cursor.advance 1)
      else if isLineEnd character then
        readGap tabsFrom bound (gap.addBreak character) cursor.breakLine
      else some (gap, cursor)

end Formwork.Outline
