import Formwork.Text.Blank

/-!
# Quotes, parentheses and the top level of a text

Conditions and actions are read by splitting their text at operators that stand
outside quotes and parentheses. This module keeps track of where the top level of
a text is. A single or double quote opens a quotation that the next quote of the same
kind closes; parentheses count only outside quotations, and a closing parenthesis
with no partner leaves the depth at zero.

`pieces` cuts a text at every occurrence of an operator on the top level, and
`splitTopLevel` gives the trimmed pieces when there is at least one occurrence.
Each piece is no longer than the text, and shorter when the operator occurs
(`length_lt_of_mem_splitTopLevel`), which is what bounds the readers built on it.
-/

set_option autoImplicit false

namespace Formwork.Text

/-- The single quote character. -/
def singleQuote : Char := '\x27'

/-- The double quote character. -/
def doubleQuote : Char := '\x22'

/-- Where a reader stands: inside which quotation, and how many parentheses deep. -/
structure Nesting where
  quotation : Option Char
  depth : Nat
deriving DecidableEq, Repr

namespace Nesting

/-- Outside every quotation and parenthesis. -/
def top : Nesting := ⟨none, 0⟩

/-- Whether the reader stands outside every quotation and parenthesis. -/
@[grind] def isTop (nesting : Nesting) : Bool := nesting.quotation.isNone && nesting.depth == 0

/-- Whether a character opens or closes a quotation or a parenthesis here. -/
@[grind] def isMark (nesting : Nesting) (character : Char) : Bool :=
  match nesting.quotation with
  | none => character == singleQuote || character == doubleQuote || character == '(' || character == ')'
  | some quote => character == quote

/-- The nesting after one more character. -/
@[grind] def step (nesting : Nesting) (character : Char) : Nesting :=
  match nesting.quotation with
  | none =>
    if character == singleQuote || character == doubleQuote then { nesting with quotation := some character }
    else if character == '(' then { nesting with depth := nesting.depth + 1 }
    else if character == ')' then { nesting with depth := nesting.depth - 1 }
    else nesting
  | some quote => if character == quote then { nesting with quotation := none } else nesting

end Nesting

/-! ## Splitting -/

/-- Puts a character in front of the first piece. -/
@[grind] def consFirst (character : Char) : List (List Char) → List (List Char)
  | [] => [[character]]
  | piece :: rest => (character :: piece) :: rest

/-- The pieces of a text around the top-level occurrences of `operator`, untrimmed.
`skip` counts the characters of an occurrence that are still to be passed over. -/
@[grind] def piecesFrom (operator : List Char) : Nat → Nesting → List Char → List (List Char)
  | _, _, [] => [[]]
  | skip + 1, nesting, _ :: rest => piecesFrom operator skip nesting rest
  | 0, nesting, character :: rest =>
    if nesting.isTop && !nesting.isMark character && operator.isPrefixOf (character :: rest) then
      [] :: piecesFrom operator (operator.length - 1) nesting rest
    else consFirst character (piecesFrom operator 0 (nesting.step character) rest)

/-- The trimmed pieces of a text around the top-level occurrences of `operator`, or
nothing when the operator does not occur there. -/
def splitTopLevel (operator text : List Char) : Option (List (List Char)) :=
  match piecesFrom operator 0 .top text with
  | first :: second :: rest => some ((first :: second :: rest).map trim)
  | _ => none

/-- The text in front of the first top-level occurrence of `operator` and the text
that begins with it. -/
@[grind] def breakTopLevel (operator : List Char) : Nesting → List Char → Option (List Char × List Char)
  | _, [] => none
  | nesting, character :: rest =>
    if nesting.isTop && !nesting.isMark character && operator.isPrefixOf (character :: rest) then
      some ([], character :: rest)
    else
      (breakTopLevel operator (nesting.step character) rest).map fun (before, after) =>
        (character :: before, after)

/-- Whether `operator` occurs on the top level of a text. -/
def occursAtTop (operator text : List Char) : Bool := (breakTopLevel operator .top text).isSome

/-- Reads the items of a list one after the other, each with the knowledge that it is an
item, up to the first that cannot be read. -/
def readEach {α β ε : Type} :
    (items : List α) → ((item : α) → item ∈ items → Except ε β) → Except ε (List β)
  | [], _ => .ok []
  | item :: rest, read =>
    match read item List.mem_cons_self with
    | .error problem => .error problem
    | .ok first =>
      match readEach rest fun other member => read other (List.mem_cons_of_mem item member) with
      | .error problem => .error problem
      | .ok others => .ok (first :: others)

/-! ## Balance -/

/-- Reads a text to its end from a nesting; a closing parenthesis without partner
and an open quotation or parenthesis at the end are refused. -/
@[grind] def balancedFrom : Nesting → List Char → Bool
  | nesting, [] => nesting.isTop
  | nesting, character :: rest =>
    if nesting.quotation.isNone && character == ')' && nesting.depth == 0 then false
    else balancedFrom (nesting.step character) rest

/-- Whether the quotations and the parentheses outside them are balanced. -/
def isBalanced (text : List Char) : Bool := balancedFrom .top text

/-- The text between an opening parenthesis at the front and a closing one at the
end, trimmed, when that text is balanced by itself. -/
@[grind] def stripParentheses : List Char → Option (List Char)
  | '(' :: rest =>
    match rest.getLast? with
    | some ')' => if isBalanced rest.dropLast then some (trim rest.dropLast) else none
    | _ => none
  | _ => none

/-- The text between two equal quotes at its ends. -/
def unquote : List Char → Option (List Char)
  | [] => none
  | quote :: rest =>
    if quote == singleQuote || quote == doubleQuote then
      if rest.getLast? == some quote then some rest.dropLast else none
    else none

/-- The number of leading `!` and the trimmed text after them; a `!` that begins `!=`
is not counted. -/
@[grind] def stripNegations : List Char → Nat × List Char
  | [] => (0, [])
  | character :: rest =>
    if isBlank character then stripNegations rest
    else if character == '!' && rest.head? != some '=' then
      let (count, inner) := stripNegations rest
      (count + 1, inner)
    else (0, character :: rest)

/-! ## Lengths -/

theorem length_le_of_mem_piecesFrom (operator : List Char) :
    ∀ (text : List Char) (skip : Nat) (nesting : Nesting) (piece : List Char),
      piece ∈ piecesFrom operator skip nesting text → piece.length ≤ text.length := by
  intro text
  induction text with
  | nil =>
    intro skip nesting piece member
    cases skip <;> simp [piecesFrom] at member <;> simp [member]
  | cons character rest ih =>
    intro skip nesting piece member
    cases skip with
    | succ skip =>
      simp only [piecesFrom] at member
      exact Nat.le_succ_of_le (ih skip nesting piece member)
    | zero =>
      simp only [piecesFrom] at member
      split at member
      · rcases List.mem_cons.mp member with rfl | member
        · simp
        · exact Nat.le_succ_of_le (ih _ _ piece member)
      · generalize found : piecesFrom operator 0 (nesting.step character) rest = inner at member
        cases inner with
        | nil =>
          simp [consFirst] at member
          simp [member]
        | cons first more =>
          simp only [consFirst, List.mem_cons] at member
          rcases member with rfl | member
          · have := ih 0 (nesting.step character) first (by simp [found])
            simpa using this
          · have := ih 0 (nesting.step character) piece (by simp [found, member])
            exact Nat.le_succ_of_le this

theorem length_lt_of_mem_piecesFrom (operator : List Char) :
    ∀ (text : List Char) (nesting : Nesting) (first second : List Char) (more : List (List Char)),
      piecesFrom operator 0 nesting text = first :: second :: more →
      ∀ piece ∈ first :: second :: more, piece.length < text.length := by
  intro text
  induction text with
  | nil =>
    intro nesting first second more found
    simp [piecesFrom] at found
  | cons character rest ih =>
    intro nesting first second more found piece member
    simp only [piecesFrom] at found
    split at found
    · injection found with firstEq moreEq
      rcases List.mem_cons.mp member with rfl | member
      · subst firstEq
        simp
      · rw [← moreEq] at member
        exact Nat.lt_succ_of_le (length_le_of_mem_piecesFrom operator rest _ _ piece member)
    · generalize inside : piecesFrom operator 0 (nesting.step character) rest = inner at found
      match inner, found with
      | [], found => simp [consFirst] at found
      | [_], found => simp [consFirst] at found
      | head :: next :: tail, found =>
        simp only [consFirst] at found
        have shorter := ih (nesting.step character) head next tail inside
        injection found with firstEq moreEq
        rcases List.mem_cons.mp member with rfl | member
        · rw [← firstEq]
          have := shorter head (by simp)
          simpa using this
        · rw [← moreEq] at member
          exact Nat.lt_succ_of_lt (shorter piece (List.mem_cons_of_mem _ member))

/-- A piece is shorter than the text it was cut from. -/
theorem length_lt_of_mem_splitTopLevel {operator text : List Char} {parts : List (List Char)}
    (found : splitTopLevel operator text = some parts) :
    ∀ part ∈ parts, part.length < text.length := by
  unfold splitTopLevel at found
  split at found
  · rename_i first second more pieces
    injection found with partsEq
    subst partsEq
    intro part member
    obtain ⟨piece, pieceMember, rfl⟩ := List.mem_map.mp member
    exact Nat.lt_of_le_of_lt (length_trim_le piece)
      (length_lt_of_mem_piecesFrom operator text .top first second more pieces piece pieceMember)
  · cases found

/-- A break cuts the text in two. -/
theorem append_of_breakTopLevel (operator : List Char) :
    ∀ (text : List Char) (nesting : Nesting) (before after : List Char),
      breakTopLevel operator nesting text = some (before, after) → before ++ after = text := by
  intro text
  induction text with
  | nil => intro nesting before after found; simp [breakTopLevel] at found
  | cons character rest ih =>
    intro nesting before after found
    simp only [breakTopLevel] at found
    split at found
    · injection found with pairEq
      injection pairEq with beforeEq afterEq
      subst beforeEq afterEq
      rfl
    · obtain ⟨⟨inner, tail⟩, innerFound, pairEq⟩ := Option.map_eq_some_iff.mp found
      injection pairEq with beforeEq afterEq
      subst beforeEq afterEq
      simp [ih _ _ _ innerFound]

/-- The text inside a pair of parentheses is shorter than the text with them. -/
theorem length_lt_of_stripParentheses {text inner : List Char}
    (found : stripParentheses text = some inner) : inner.length < text.length := by
  unfold stripParentheses at found
  split at found
  · split at found
    · split at found
      · injection found with innerEq
        subst innerEq
        rename_i rest _ _ _
        have := length_trim_le rest.dropLast
        have : rest.dropLast.length ≤ rest.length := by simp
        simp only [List.length_cons]
        omega
      · cases found
    · cases found
  · cases found

/-- What follows the negations is no longer than the text, and shorter when there is
a negation. -/
theorem length_stripNegations (text : List Char) :
    (stripNegations text).2.length + (stripNegations text).1 ≤ text.length := by
  induction text with
  | nil => simp [stripNegations]
  | cons character rest ih =>
    simp only [stripNegations]
    split
    · simp only [List.length_cons]; omega
    · split
      · simp only [List.length_cons]; omega
      · simp

end Formwork.Text
