import Formwork.Action.Reader
import Formwork.Expression.Reader
import Formwork.Proofs.Text.Splitting
import Mathlib.Data.List.Forall2

/-!
# The top level of a text

A text is *closed* when every quotation and every parenthesis in it is (`Closed`): it is a row of single characters, of
quotations, each of which ends at the first quote of its kind, and of closed texts in parentheses. The balanced texts are
the closed ones (`isBalanced_iff_closed`). What stands on the top level of a closed text has a closed text in front of
it, and an opening parenthesis is closed by the one behind the closed text that follows it, of which there is only one
(`Closed.closing_unique`).

In these terms splitting is exact (`splits_exactly`). A balanced text is split at an operator if and only if the operator
occurs on its top level. Then it is the parts with operators between them, and no part has another occurrence. Because the
search that goes on behind an operator begins on the top level again, the parts are balanced as the text is. The first
part ends at the top level and closes no parenthesis that it did not open, and a balanced text with a balanced beginning
has a balanced rest (`isBalanced_append_iff`).
-/

set_option autoImplicit false

namespace Formwork.Text

/-! ## Closed texts -/

/-- All quotations and parentheses of a text are closed. -/
inductive Closed : List Char → Prop where
  | nil : Closed []
  | character {character : Char} {rest : List Char} (unmarked : character ∉ [singleQuote, doubleQuote, '(', ')'])
      (closed : Closed rest) : Closed (character :: rest)
  | quotation {quote : Char} {content rest : List Char} (isQuote : quote = singleQuote ∨ quote = doubleQuote)
      (absent : quote ∉ content) (closed : Closed rest) : Closed (quote :: (content ++ quote :: rest))
  | parentheses {inner rest : List Char} (inside : Closed inner) (closed : Closed rest) :
      Closed ('(' :: (inner ++ ')' :: rest))

namespace Closed

variable {text more : List Char}

theorem append (closed : Closed text) (others : Closed more) : Closed (text ++ more) := by
  induction closed with
  | nil => exact others
  | character unmarked _ ih => exact .character unmarked ih
  | quotation isQuote absent _ ih =>
      rw [List.cons_append, List.append_assoc, List.cons_append]
      exact .quotation isQuote absent ih
  | parentheses inside _ _ ih =>
      rw [List.cons_append, List.append_assoc, List.cons_append]
      exact .parentheses inside ih

theorem isBalanced (closed : Closed text) : isBalanced text = true := by
  induction closed with
  | nil => rfl
  | @character character rest unmarked _ ih =>
      have alone : Text.isBalanced [character] = true := isBalanced_of_not_mark fun other inside => by
        rw [List.mem_singleton.mp inside]
        exact Nesting.isMark_top.mpr unmarked
      exact isBalanced_append alone ih
  | @quotation quote content rest isQuote absent _ ih =>
      have front : Text.isBalanced (quote :: (content ++ [quote])) = true := isBalanced_quotes isQuote absent
      simpa using isBalanced_append front ih
  | @parentheses inner rest _ _ inside ih =>
      simpa using isBalanced_append (isBalanced_parentheses inside) ih

end Closed

/-- A text closes what is open where it begins: the quotation first, then one parenthesis after the other, with closed
texts in between. -/
inductive Closes : Nesting → List Char → Prop where
  | nothing {text : List Char} (closed : Closed text) : Closes ⟨none, 0⟩ text
  | parenthesis {depth : Nat} {inner rest : List Char} (inside : Closed inner) (closes : Closes ⟨none, depth⟩ rest) :
      Closes ⟨none, depth + 1⟩ (inner ++ ')' :: rest)
  | quotation {quote : Char} {depth : Nat} {content rest : List Char} (absent : quote ∉ content)
      (closes : Closes ⟨none, depth⟩ rest) : Closes ⟨some quote, depth⟩ (content ++ quote :: rest)

/-- A closed text in front changes nothing. -/
theorem Closes.behind {depth : Nat} {text front : List Char} (closes : Closes ⟨none, depth⟩ text)
    (closed : Closed front) : Closes ⟨none, depth⟩ (front ++ text) := by
  cases closes with
  | nothing others => exact .nothing (closed.append others)
  | parenthesis inside closes =>
      rw [← List.append_assoc]
      exact .parenthesis (closed.append inside) closes

namespace Closes

variable {depth : Nat} {character : Char} {rest : List Char}

/-- Inside a quotation a character ends it or is passed over. -/
theorem cons_inside {quote : Char} (closes : Closes (Nesting.step ⟨some quote, depth⟩ character) rest) :
    Closes ⟨some quote, depth⟩ (character :: rest) := by
  by_cases ends : character = quote
  · have step : Nesting.step ⟨some quote, depth⟩ character = ⟨none, depth⟩ := by simp [Nesting.step, ends]
    rw [step] at closes
    rw [ends]
    exact @quotation quote depth [] rest List.not_mem_nil closes
  · rw [Nesting.step_of_ne ends] at closes
    cases closes with
    | @quotation _ _ content rest absent closes =>
        have absentToo : quote ∉ character :: content := List.not_mem_cons_of_ne_of_not_mem (Ne.symm ends) absent
        exact .quotation absentToo closes

/-- Outside of quotations a character stands alone, or it begins a quotation or a text in parentheses, which the text
behind it closes, or it closes a parenthesis itself. -/
theorem cons_outside (matched : Nesting.dangles ⟨none, depth⟩ character = false)
    (closes : Closes (Nesting.step ⟨none, depth⟩ character) rest) : Closes ⟨none, depth⟩ (character :: rest) := by
  by_cases isQuote : character = singleQuote ∨ character = doubleQuote
  · rw [step_quote isQuote] at closes
    cases closes with
    | @quotation _ _ content rest absent closes =>
        have front : Closed (character :: (content ++ [character])) := .quotation isQuote absent .nil
        simpa using closes.behind front
  · by_cases opens : character = '('
    · have step : Nesting.step ⟨none, depth⟩ character = ⟨none, depth + 1⟩ := by rw [opens]; rfl
      rw [step] at closes
      cases closes with
      | @parenthesis _ inner rest inside closes =>
          have front : Closed ('(' :: (inner ++ [')'])) := .parentheses inside .nil
          simpa [opens] using closes.behind front
    · by_cases shuts : character = ')'
      · rw [shuts] at matched closes ⊢
        cases depth with
        | zero => cases matched
        | succ depth => exact @parenthesis depth [] rest .nil closes
      · have unmarked : character ∉ [singleQuote, doubleQuote, '(', ')'] := by
          simpa [not_or, opens, shuts] using isQuote
        rw [Nesting.step_unmarked unmarked] at closes
        have alone : Closed [character] := .character unmarked .nil
        exact closes.behind alone

end Closes

/-- What leads to the top level closes what is open. -/
theorem closes_of_balancedFrom {nesting : Nesting} {text : List Char} (balanced : balancedFrom nesting text = true) :
    Closes nesting text := by
  induction text generalizing nesting with
  | nil =>
      rw [eq_top_of_balancedFrom_nil balanced]
      exact .nothing .nil
  | cons character rest ih =>
      obtain ⟨matched, balanced⟩ := balancedFrom_cons.mp balanced
      obtain ⟨quotation, depth⟩ := nesting
      cases quotation with
      | some quote => exact .cons_inside (ih balanced)
      | none => exact .cons_outside matched (ih balanced)

/-- The balanced texts are the closed ones. -/
theorem isBalanced_iff_closed {text : List Char} : isBalanced text = true ↔ Closed text := by
  refine ⟨fun balanced => ?_, Closed.isBalanced⟩
  have closes : Closes ⟨none, 0⟩ text := closes_of_balancedFrom balanced
  cases closes with
  | nothing closed => exact closed

/-! ## Parts of balanced texts -/

section Balanced

variable {text front back : List Char}

/-- Behind a balanced beginning a text is balanced if the rest is. -/
theorem isBalanced_append_iff (balanced : isBalanced front = true) :
    isBalanced (front ++ back) = true ↔ isBalanced back = true :=
  Bool.eq_iff_iff.mp (balancedFrom_append balanced 0 back)

/-- A beginning of a balanced text that ends on the top level is balanced. -/
theorem balancedFrom_of_after {nesting : Nesting} (balanced : balancedFrom nesting (front ++ back) = true)
    (top : nesting.after front = .top) : balancedFrom nesting front = true := by
  induction front generalizing nesting with
  | nil =>
      have here : nesting = .top := top
      rw [here]
      rfl
  | cons character rest ih =>
      obtain ⟨matched, balanced⟩ := balancedFrom_cons.mp balanced
      exact balancedFrom_cons.mpr ⟨matched, ih balanced top⟩

/-- Only quotes open quotations. -/
def Nesting.IsQuoted (nesting : Nesting) : Prop :=
  ∀ quote ∈ nesting.quotation, quote = singleQuote ∨ quote = doubleQuote

namespace Nesting.IsQuoted

variable {nesting : Nesting} (isQuoted : nesting.IsQuoted) {character : Char}
include isQuoted

theorem step (character : Char) : (nesting.step character).IsQuoted := by
  obtain ⟨quotation, depth⟩ := nesting
  cases quotation with
  | some quote =>
      by_cases ends : character = quote
      · simp [Nesting.step, ends, IsQuoted]
      · rwa [step_of_ne ends]
  | none =>
      by_cases isQuote : character = singleQuote ∨ character = doubleQuote
      · rw [step_quote isQuote]
        exact fun quote opened => Option.mem_some.mp opened ▸ isQuote
      · have outside : (Nesting.step ⟨none, depth⟩ character).quotation = none := by
          simp only [Nesting.step, Bool.or_eq_true, beq_iff_eq, if_neg isQuote]
          split
          · rfl
          · split
            · rfl
            · rfl
        rw [IsQuoted, outside]
        nofun

/-- A blank changes nothing. -/
theorem step_blank (blank : isBlank character = true) : nesting.step character = nesting := by
  have unmarked := not_mark_of_blank blank
  obtain ⟨quotation, depth⟩ := nesting
  cases quotation with
  | none => exact step_unmarked unmarked
  | some quote =>
      refine step_of_ne ?_
      rintro rfl
      rcases isQuoted character rfl with rfl | rfl
      · simp at unmarked
      · simp at unmarked

end Nesting.IsQuoted

/-- Without the blanks at its end a text leads to the top level as well. -/
theorem balancedFrom_of_blank {nesting : Nesting} (isQuoted : nesting.IsQuoted)
    (balanced : balancedFrom nesting (front ++ back) = true) (blank : ∀ character ∈ back, isBlank character = true) :
    balancedFrom nesting front = true := by
  induction front generalizing nesting with
  | nil =>
      induction back with
      | nil => exact balanced
      | cons character rest ih =>
          rw [List.forall_mem_cons] at blank
          obtain ⟨-, balanced⟩ := balancedFrom_cons.mp balanced
          rw [isQuoted.step_blank blank.1] at balanced
          exact ih blank.2 balanced
  | cons character rest ih =>
      obtain ⟨matched, balanced⟩ := balancedFrom_cons.mp balanced
      exact balancedFrom_cons.mpr ⟨matched, ih (isQuoted.step character) balanced⟩

/-- What is left of a balanced text by trimming is balanced. -/
theorem isBalanced_trim (balanced : isBalanced text = true) : isBalanced (trim text) = true := by
  obtain ⟨margin, behind, blankMargin, blankBehind, whole⟩ := exists_margins text
  rw [← whole, isBalanced_append_iff (isBalanced_of_blank blankMargin)] at balanced
  exact balancedFrom_of_blank nofun balanced blankBehind

end Balanced

/-- A parenthesis that closes nothing is not in a closed text. -/
theorem Closed.not_closed_append {front back : List Char} (closed : Closed front) : ¬Closed (front ++ ')' :: back) := by
  intro whole
  have rest := (isBalanced_append_iff closed.isBalanced).mp whole.isBalanced
  cases rest

/-- An opening parenthesis is closed by one parenthesis only. -/
theorem Closed.closing_unique {inner other rest more : List Char} (closed : Closed inner) (closedOther : Closed other)
    (same : inner ++ ')' :: rest = other ++ ')' :: more) : inner = other := by
  rcases List.append_eq_append_iff.mp same with ⟨between, rfl, split⟩ | ⟨between, rfl, split⟩
  · cases between with
    | nil => exact (List.append_nil inner).symm
    | cons first between =>
        obtain ⟨rfl, -⟩ := List.cons.inj split
        exact absurd closedOther closed.not_closed_append
  · cases between with
    | nil => exact List.append_nil other
    | cons first between =>
        obtain ⟨rfl, -⟩ := List.cons.inj split
        exact absurd closed closedOther.not_closed_append

/-! ## Occurrences -/

/-- An operator occurs in a text outside of quotations and parentheses: the text in front of it is closed. -/
def OccursOutside (operator text : List Char) : Prop := ∃ front back, text = front ++ (operator ++ back) ∧ Closed front

section Occurrences

variable {first : Char} {operator text : List Char}

/-- The search finds an operator that begins on the top level. -/
theorem breakTopLevel_isSome (unmarked : first ∉ [singleQuote, doubleQuote, '(', ')']) (back : List Char) :
    breakTopLevel (first :: operator) .top (first :: operator ++ back) ≠ none := by
  have whole : Whole (first :: operator) [] := ⟨rfl, rfl⟩
  have found := @breakTopLevel_operator first operator [] back (Nesting.isMark_top.mpr unmarked) whole
  rw [List.nil_append] at found
  rw [found]
  nofun

/-- In a balanced text the search finds an operator if and only if it occurs outside of quotations and parentheses. -/
theorem breakTopLevel_eq_none_iff (unmarked : first ∉ [singleQuote, doubleQuote, '(', ')'])
    (balanced : isBalanced text = true) :
    breakTopLevel (first :: operator) .top text = none ↔ ¬OccursOutside (first :: operator) text := by
  constructor
  · rintro unfound ⟨front, back, rfl, closed⟩
    have behind := breakTopLevel_back unfound
    rw [after_of_isBalanced closed.isBalanced] at behind
    exact breakTopLevel_isSome unmarked back behind
  · intro absent
    refine Option.eq_none_iff_forall_ne_some.mpr fun ⟨front, back⟩ found => absent ?_
    obtain ⟨-, top, rest, rfl⟩ := breakTopLevel_eq_some found
    have whole := append_of_breakTopLevel _ _ _ _ _ found
    rw [← whole] at balanced
    exact ⟨front, rest, whole.symm, isBalanced_iff_closed.mp (balancedFrom_of_after balanced top)⟩

/-- The pieces of a balanced text are balanced. -/
theorem isBalanced_of_mem_piecesFrom (balancedOperator : isBalanced (first :: operator) = true) {text : List Char}
    (balanced : isBalanced text = true) :
    ∀ piece ∈ piecesFrom (first :: operator) 0 .top text, isBalanced piece = true := by
  rcases @piecesFrom_cases first operator text with ⟨-, single⟩ | ⟨front, behind, rfl, shorter, -, top, split⟩
  · rw [single]
    exact List.forall_mem_singleton.mpr balanced
  · have balancedFront : isBalanced front = true := balancedFrom_of_after balanced top
    rw [isBalanced_append_iff balancedFront, isBalanced_append_iff balancedOperator] at balanced
    rw [split]
    exact List.forall_mem_cons.mpr ⟨balancedFront, isBalanced_of_mem_piecesFrom balancedOperator balanced⟩
termination_by text.length

end Occurrences

/-! ## Splitting -/

/-- The operators at which conditions and actions are split. -/
def operators : List (List Char) :=
  [Expression.orOperator, Expression.andOperator, Pipeline.arrowOperator, Pipeline.rejectOperator, [',']]

/-- Operators are made of characters that are neither quotes nor parentheses. -/
theorem exists_of_mem_operators {operator : List Char} (listed : operator ∈ operators) :
    ∃ first rest, operator = first :: rest ∧ first ∉ [singleQuote, doubleQuote, '(', ')'] ∧
      isBalanced operator = true := by
  have unmarked : ∀ operator ∈ operators, operator ≠ [] ∧ isBalanced operator = true ∧
      ∀ character ∈ operator, character ∉ [singleQuote, doubleQuote, '(', ')'] := by decide
  obtain ⟨some, balanced, outside⟩ := unmarked operator listed
  obtain ⟨first, rest, rfl⟩ := List.exists_cons_of_ne_nil some
  exact ⟨first, rest, rfl, outside first List.mem_cons_self, balanced⟩

/-- A piece of a text is a part of it between blanks. -/
def IsPadded (part piece : List Char) : Prop :=
  ∃ front back, (∀ character ∈ front, isBlank character = true) ∧ (∀ character ∈ back, isBlank character = true) ∧
    front ++ (part ++ back) = piece

/-- A text is made of two or more parts, and the operator occurs between them but not in them. -/
structure IsSplit (operator text : List Char) (parts : List (List Char)) : Prop where
  several : 2 ≤ parts.length
  /-- The parts stand between blanks, and an operator stands between two of them. -/
  joined : ∃ pieces, List.Forall₂ IsPadded parts pieces ∧ operator.intercalate pieces = text
  balanced : ∀ part ∈ parts, isBalanced part = true
  whole : ∀ part ∈ parts, ¬OccursOutside operator part
  trimmed : ∀ part ∈ parts, trim part = part

/-- A text begins with an opening parenthesis that its last character closes. -/
def IsEnclosed (text : List Char) : Prop := ∃ inner, text = '(' :: (inner ++ [')']) ∧ Closed inner

section Splitting

variable {first : Char} {operator text : List Char} (unmarked : first ∉ [singleQuote, doubleQuote, '(', ')'])
  (balanced : isBalanced text = true)

include unmarked balanced

theorem splitTopLevel_eq_none_iff_not_occursOutside :
    splitTopLevel (first :: operator) text = none ↔ ¬OccursOutside (first :: operator) text :=
  splitTopLevel_eq_none_iff.trans (breakTopLevel_eq_none_iff unmarked balanced)

theorem isSplit_of_splitTopLevel (balancedOperator : isBalanced (first :: operator) = true) {parts : List (List Char)}
    (found : splitTopLevel (first :: operator) text = some parts) : IsSplit (first :: operator) text parts := by
  obtain ⟨rfl, several⟩ := eq_map_trim_of_splitTopLevel found
  obtain ⟨-, joined, pieces⟩ := exists_pieces balancedOperator text
  have balancedPieces := isBalanced_of_mem_piecesFrom balancedOperator balanced
  have padded : ∀ piece, IsPadded (trim piece) piece := exists_margins
  have balancedParts : ∀ part ∈ (piecesFrom (first :: operator) 0 .top text).map trim, isBalanced part = true :=
    List.forall_mem_map.mpr fun piece inside => isBalanced_trim (balancedPieces piece inside)
  refine ⟨several, ⟨_, ?_, joined⟩, balancedParts, fun part inside => ?_, List.forall_mem_map.mpr fun _ _ => trim_trim _⟩
  · exact List.forall₂_map_left_iff.mpr (List.forall₂_same.mpr fun piece _ => padded piece)
  · refine (breakTopLevel_eq_none_iff unmarked (balancedParts part inside)).mp ?_
    obtain ⟨piece, isPiece, rfl⟩ := List.mem_map.mp inside
    exact (isPart_trim piece).free (pieces piece isPiece).2

end Splitting

theorem isSome_stripParentheses_iff {text : List Char} : (stripParentheses text).isSome = true ↔ IsEnclosed text := by
  rw [Option.isSome_iff_exists]
  constructor
  · rintro ⟨content, found⟩
    obtain ⟨inner, rfl, balanced, -⟩ := stripParentheses_eq_some_iff.mp found
    exact ⟨inner, rfl, isBalanced_iff_closed.mp balanced⟩
  · rintro ⟨inner, rfl, closed⟩
    exact ⟨trim inner, stripParentheses_eq_some_iff.mpr ⟨inner, rfl, closed.isBalanced, rfl⟩⟩

/-- A balanced text is split at an operator exactly if the operator occurs outside of quotations and parentheses, and then
at all of these occurrences; and parentheses are taken away around a text exactly if the last character closes the first. -/
theorem splits_exactly {operator text : List Char} (listed : operator ∈ operators) (balanced : isBalanced text = true) :
    (splitTopLevel operator text = none ↔ ¬OccursOutside operator text) ∧
      (∀ parts, splitTopLevel operator text = some parts → IsSplit operator text parts) ∧
      ∀ other, (stripParentheses other).isSome = true ↔ IsEnclosed other := by
  obtain ⟨first, rest, rfl, unmarked, balancedOperator⟩ := exists_of_mem_operators listed
  exact ⟨splitTopLevel_eq_none_iff_not_occursOutside unmarked balanced,
    fun _ => isSplit_of_splitTopLevel unmarked balanced balancedOperator, fun _ => isSome_stripParentheses_iff⟩

/-- Quotes of one kind hide those of the other, and parentheses hide what is in them. -/
theorem splits_exactly_nested :
    let text := "a || (\x27)\x22\x27 || b) || \x22||\x27\x22||".toList
    let parts := ["a".toList, "(\x27)\x22\x27 || b)".toList, "\x22||\x27\x22".toList, []]
    isBalanced text = true ∧ splitTopLevel Expression.orOperator text = some parts ∧
      IsSplit Expression.orOperator text parts := by
  intro text parts
  have balanced : isBalanced text = true := by decide
  have split : splitTopLevel Expression.orOperator text = some parts := by decide
  exact ⟨balanced, split, (splits_exactly (by decide) balanced).2.1 parts split⟩

end Formwork.Text
