import Formwork.Outline.Cursor

/-!
# Scalars

The four ways in which a scalar is written: plain, in single quotes, in double quotes with
escapes, and as a block below a line that ends in `|` or `>`. Each reader starts at the first
character of the scalar and answers its text with the position behind it, or nothing if the
text breaks the rules.
-/

set_option autoImplicit false

namespace Formwork.Outline

/-! ## Plain scalars -/

/-- The characters that end a plain scalar inside brackets. -/
def endsInBrackets (character : Char) : Bool := [',', '[', ']', '\x7b', '\x7d'].contains character

/-- Reads characters up to blank space or an indicator that ends a plain scalar. Inside brackets
a colon right before another indicator is refused. -/
def plainPiece (inBrackets : Bool) : List Char → Option (List Char)
  | [] => some []
  | character :: rest =>
    if isBoundary (some character) then some []
    else if inBrackets && character == ':' &&
        (rest.head?.any fun following => endsInBrackets following || following == '?') then none
    else if character == ':' && isBoundary rest.head? then some []
    else if inBrackets && endsInBrackets character then some []
    else (plainPiece inBrackets rest).map (character :: ·)

/-- Reads the rest of a plain scalar behind a gap. The answer says also whether the reading has gone
on to a new line at its end. -/
def plainRest (inBrackets : Bool) (column : Nat) :
    Nat → List Char → Gap → Cursor → Option (List Char × Bool × Cursor)
  | 0, _, _, _ => none
  | bound + 1, read, gap, cursor =>
    if cursor.isDocumentMark || cursor.next == some '#' then some (read, gap.hasBreak, cursor)
    else
      match plainPiece inBrackets cursor.rest with
      | none => none
      | some [] => some (read, gap.hasBreak, cursor)
      | some piece =>
        let text := read ++ gap.text ++ piece
        let behind := cursor.advance piece.length
        if behind.next.isSome && isBoundary behind.next then
          match readGap column (behind.rest.length + 1) .empty behind with
          | none => none
          | some (following, further) =>
            if !inBrackets && decide (further.column < column) then
              some (text, following.hasBreak, further)
            else plainRest inBrackets column bound text following further
        else some (text, false, behind)

/-- Reads a plain scalar, whose further lines must be indented to the given column. -/
def plain (inBrackets : Bool) (column : Nat) (cursor : Cursor) : Option (List Char × Bool × Cursor) :=
  plainRest inBrackets column (cursor.rest.length + 1) [] .empty cursor

/-! ## Quoted scalars -/

/-- How a piece of a quoted scalar ends. -/
inductive PieceEnd where
  | quote
  | escapedBreak
  | gap
deriving DecidableEq, Repr

/-- The character that a single escaped character means. -/
def simpleEscape? : Char → Option Char
  | '0' => some '\x00'
  | 'a' => some '\x07'
  | 'b' => some '\x08'
  | 't' => some '\t'
  | '\t' => some '\t'
  | 'n' => some '\n'
  | 'v' => some '\x0b'
  | 'f' => some '\x0c'
  | 'r' => some '\r'
  | 'e' => some '\x1b'
  | ' ' => some ' '
  | '\x22' => some '\x22'
  | '/' => some '/'
  | '\\' => some '\\'
  | 'N' => some '\x85'
  | '_' => some '\xa0'
  | 'L' => some '\u2028'
  | 'P' => some '\u2029'
  | _ => none

/-- The number of hexadecimal digits behind an escaped letter. -/
def escapeWidth? : Char → Option Nat
  | 'x' => some 2
  | 'u' => some 4
  | 'U' => some 8
  | _ => none

/-- The value of hexadecimal digits, read after `value`. -/
def hexadecimal? : Nat → List Char → Option Nat
  | value, [] => some value
  | value, digit :: rest =>
    let next :=
      if digit.isDigit then some (digit.toNat - '0'.toNat)
      else if 'a' ≤ digit ∧ digit ≤ 'f' then some (digit.toNat - 'a'.toNat + 10)
      else if 'A' ≤ digit ∧ digit ≤ 'F' then some (digit.toNat - 'A'.toNat + 10)
      else none
    match next with
    | some step => hexadecimal? (16 * value + step) rest
    | none => none

/-- The character that an escape behind a backslash means, and its length. -/
def escape? (text : List Char) : Option (Char × Nat) :=
  match text with
  | [] => none
  | letter :: rest =>
    match escapeWidth? letter with
    | none => (simpleEscape? letter).map (·, 1)
    | some width =>
      if rest.length < width then none
      else
        match hexadecimal? 0 (rest.take width) with
        | none => none
        | some value => if value.isValidChar then some (Char.ofNat value, width + 1) else none

/-- Reads a piece of a quoted scalar, up to blank space, an escaped line end or the closing quote, where the
position stays. -/
def quotedPiece (isDouble : Bool) : Nat → Cursor → Option (List Char × PieceEnd × Cursor)
  | 0, _ => none
  | bound + 1, cursor =>
    match cursor.rest with
    | [] => some ([], .gap, cursor)
    | character :: rest =>
      let goOn (meant : Char) (width : Nat) : Option (List Char × PieceEnd × Cursor) :=
        (quotedPiece isDouble bound (cursor.advance width)).map fun (piece, ending) => (meant :: piece, ending)
      if isBoundary (some character) then some ([], .gap, cursor)
      else if isDouble then
        if character = '\x22' then some ([], .quote, cursor)
        else if character = '\\' then
          if rest.head?.any isLineEnd then some ([], .escapedBreak, (cursor.advance 1).breakLine)
          else
            match escape? rest with
            | some (meant, width) => goOn meant (width + 1)
            | none => none
        else goOn character 1
      else if character = '\x27' then
        if rest.head? = some '\x27' then goOn '\x27' 2 else some ([], .quote, cursor)
      else goOn character 1

/-- Reads the rest of a quoted scalar, behind what was read already. -/
def quotedRest (isDouble : Bool) : Nat → List Char → Cursor → Option (List Char × Cursor)
  | 0, _, _ => none
  | bound + 1, read, cursor =>
    if cursor.isDocumentMark || cursor.rest.isEmpty then none
    else
      match quotedPiece isDouble (cursor.rest.length + 1) cursor with
      | none => none
      | some (piece, .quote, behind) => some (read ++ piece, behind.advance 1)
      | some (piece, ending, behind) =>
        let start := if ending = .escapedBreak then Gap.escaped else .empty
        match readGap 0 (behind.rest.length + 1) start behind with
        | none => none
        | some (gap, further) => quotedRest isDouble bound (read ++ piece ++ gap.text) further

/-- Reads a quoted scalar from its opening quote on. -/
def quoted (isDouble : Bool) (cursor : Cursor) : Option (List Char × Cursor) :=
  quotedRest isDouble (cursor.rest.length + 1) [] (cursor.advance 1)

/-! ## Block scalars -/

/-- What becomes of the line ends behind a block. -/
inductive Chomping where
  | strip
  /-- One line end stays. -/
  | clip
  | keep
deriving DecidableEq, Repr

/-- What the first line of a block says. -/
structure BlockHeader where
  chomping : Chomping
  /-- The indentation, counted from the enclosing one, if it is given. -/
  indentation : Option Nat

/-- The indentation that a character gives; zero is refused. -/
def indentationDigit? (character : Char) : Option (Option Nat) :=
  if character.isDigit then
    if character = '0' then none else some (some (character.toNat - '0'.toNat))
  else some none

/-- The chomping that a character asks for. -/
def chompingSign? : Char → Option Chomping
  | '+' => some .keep
  | '-' => some .strip
  | _ => none

/-- Reads the sign and the digit behind `|` or `>`, in either order. -/
def blockHeader (cursor : Cursor) : Option (BlockHeader × Cursor) :=
  match cursor.next with
  | none => some (⟨.clip, none⟩, cursor)
  | some first =>
    match chompingSign? first with
    | some chomping =>
      match cursor.peek 1 with
      | none => some (⟨chomping, none⟩, cursor.advance 1)
      | some second => (indentationDigit? second).map fun indentation =>
          (⟨chomping, indentation⟩, cursor.advance (if indentation.isSome then 2 else 1))
    | none =>
      (indentationDigit? first).map fun indentation =>
        if indentation.isSome then
          match (cursor.peek 1).bind chompingSign? with
          | some chomping => (⟨chomping, indentation⟩, cursor.advance 2)
          | none => (⟨.clip, indentation⟩, cursor.advance 1)
        else (⟨.clip, none⟩, cursor)

/-- Reads the empty lines in front of a line of a block. If the indentation is not known yet, it is the
greatest one of these lines and the next. -/
def blockBreaks (known : Option Nat) : Nat → Nat → List Char → Cursor → Option (List Char × Nat × Cursor)
  | 0, _, _, _ => none
  | bound + 1, greatest, breaks, cursor =>
    let spaces := (cursor.rest.takeWhile (· = ' ')).length
    let skipped := match known with
      | some indentation => min spaces (indentation - cursor.column)
      | none => spaces
    let here := cursor.advance skipped
    let deepest := max greatest here.column
    let isShallow := match known with
      | some indentation => decide (here.column < indentation)
      | none => true
    match here.next with
    | some character =>
      if isShallow && character == '\t' then none
      else if isLineEnd character then
        blockBreaks known bound deepest (breaks ++ [lineEnd character]) here.breakLine
      else some (breaks, deepest, here)
    | none => some (breaks, deepest, here)

/-- Reads the lines of a block. `ending` is the end of the last line and `breaks` the empty lines
behind it; both are joined with the next line, and a folded block replaces a single line end between
lines that do not start with a blank. -/
def blockLines (isFolded : Bool) (indentation : Nat) :
    Nat → List Char → List Char → List Char → Bool → Cursor →
      Option (List Char × List Char × List Char × Cursor)
  | 0, _, _, _, _, _ => none
  | bound + 1, read, ending, breaks, afterBlank, cursor =>
    if cursor.column = indentation ∧ !cursor.rest.isEmpty then
      let startsBlank := cursor.rest.head?.any isTabOrSpace
      let joint :=
        if isFolded && ending.head? == some '\n' && !afterBlank && !startsBlank then
          if breaks.isEmpty then [' '] else breaks
        else ending ++ breaks
      let content := cursor.rest.takeWhile fun character => !isLineEnd character
      let behind := cursor.advance content.length
      let newEnding := match behind.next with
        | some character => [lineEnd character]
        | none => []
      match blockBreaks (some indentation) (behind.rest.length + 1) 0 [] behind.breakLine with
      | none => none
      | some (newBreaks, _, further) =>
        blockLines isFolded indentation bound (read ++ joint ++ content) newEnding newBreaks startsBlank further
    else some (read, ending, breaks, cursor)

/-- Reads a block from its `|` or `>` on. `enclosing` is the column of the enclosing list or map, if
there is one. -/
def block (isFolded : Bool) (enclosing : Option Nat) (cursor : Cursor) : Option (List Char × Cursor) := do
  let (header, behind) ← blockHeader (cursor.advance 1)
  let blank := behind.skipWhile isTabOrSpace
  let lineRest := if blank.next = some '#' then blank.skipLine else blank
  if lineRest.next.any fun character => !isLineEnd character then none
  let below := lineRest.breakLine
  let least := match enclosing with
    | some column => column + 1
    | none => 1
  let known := header.indentation.map fun given =>
    match enclosing with
    | some column => column + given
    | none => given
  let (breaks, deepest, first) ← blockBreaks known (below.rest.length + 1) 0 [] below
  let indentation := known.getD (max deepest least)
  let (read, ending, trailing, final) ←
    blockLines isFolded indentation (first.rest.length + 1) [] [] breaks false first
  return match header.chomping with
    | .strip => (read, final)
    | .clip => (read ++ ending, final)
    | .keep => (read ++ ending ++ trailing, final)

end Formwork.Outline
