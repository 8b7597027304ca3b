import Formwork.Proofs.Text.Scanning

/-!
# Texts taken apart

The readers take a text apart from the outside in, and each step gives back a part of the text between things that
are known: blanks around what trimming leaves (`exists_margins`), occurrences of an operator around the pieces of a
text (`exists_pieces`), negations in front of what they negate, parentheses, and quotes.

What a search for an operator did not find in a text it does not find in a part either, if the part begins on the
top level (`IsPart.free`). So once a text has been split at its loosest operator, the pieces are free of it and of all
looser ones.
-/

set_option autoImplicit false

namespace Formwork.Text

/-! ## Searches -/

section Search

variable {operator text front back : List Char} {nesting : Nesting} {character : Char}

theorem breakTopLevel_cons_eq_none : breakTopLevel operator nesting (character :: text) = none ↔
    (nesting.isTop && !nesting.isMark character && operator.isPrefixOf (character :: text)) = false ∧
      breakTopLevel operator (nesting.step character) text = none := by
  rw [breakTopLevel]
  split
  · rename_i found
    simp [found]
  · rename_i passed
    rw [Option.map_eq_none_iff, Bool.not_eq_true] at *
    exact ⟨fun unfound => ⟨passed, unfound⟩, And.right⟩

/-- A search that finds nothing in a text finds nothing in what stands in front. -/
theorem breakTopLevel_front (unfound : breakTopLevel operator nesting (front ++ back) = none) :
    breakTopLevel operator nesting front = none := by
  induction front generalizing nesting with
  | nil => rfl
  | cons character rest ih =>
      obtain ⟨passed, unfound⟩ := breakTopLevel_cons_eq_none.mp unfound
      refine breakTopLevel_cons_eq_none.mpr ⟨?_, ih unfound⟩
      rw [Bool.eq_false_iff] at passed ⊢
      refine fun found => passed ?_
      simp only [Bool.and_eq_true, List.isPrefixOf_iff_prefix] at found ⊢
      exact ⟨found.1, found.2.trans (List.prefix_append (character :: rest) back)⟩

/-- A search that finds nothing in a text finds nothing in what stands behind. -/
theorem breakTopLevel_back (unfound : breakTopLevel operator nesting (front ++ back) = none) :
    breakTopLevel operator (nesting.after front) back = none := by
  induction front generalizing nesting with
  | nil => exact unfound
  | cons character rest ih => exact ih (breakTopLevel_cons_eq_none.mp unfound).2

/-- A search stops on the top level, at the first occurrence of the operator. -/
theorem breakTopLevel_eq_some (found : breakTopLevel operator nesting text = some (front, back)) :
    breakTopLevel operator nesting front = none ∧ nesting.after front = .top ∧ operator <+: back := by
  induction text generalizing nesting front with
  | nil => cases found
  | cons character rest ih =>
      have whole := append_of_breakTopLevel _ _ _ _ _ found
      rw [breakTopLevel] at found
      split at found
      · rename_i here
        cases found
        simp only [Bool.and_eq_true, List.isPrefixOf_iff_prefix] at here
        obtain ⟨⟨isTop, -⟩, begins⟩ := here
        exact ⟨rfl, eq_top_of_balancedFrom_nil isTop, begins⟩
      · rename_i passed
        obtain ⟨⟨inner, behind⟩, innerFound, same⟩ := Option.map_eq_some_iff.mp found
        cases same
        obtain ⟨unfound, top, begins⟩ := ih innerFound
        refine ⟨breakTopLevel_cons_eq_none.mpr ⟨?_, unfound⟩, top, begins⟩
        rw [Bool.eq_false_iff]
        refine fun found => passed ?_
        rw [← whole]
        simp only [Bool.and_eq_true, List.isPrefixOf_iff_prefix] at found ⊢
        exact ⟨found.1, found.2.trans (List.prefix_append (character :: inner) back)⟩

end Search

/-! ## Parts -/

/-- A part of a text that begins on the top level. -/
def IsPart (part text : List Char) : Prop :=
  ∃ front back, front ++ (part ++ back) = text ∧ Nesting.top.after front = .top

namespace IsPart

variable {part text whole : List Char}

theorem isInfix (isPart : IsPart part text) : part <:+: text := by
  obtain ⟨front, back, rfl, -⟩ := isPart
  exact ⟨front, back, List.append_assoc ..⟩

/-- What is not found in a text is not found in its parts. -/
theorem free (isPart : IsPart part text) {operator : List Char} (unfound : breakTopLevel operator .top text = none) :
    breakTopLevel operator .top part = none := by
  obtain ⟨front, back, rfl, top⟩ := isPart
  have behind := breakTopLevel_back unfound
  rw [top] at behind
  exact breakTopLevel_front behind

theorem trans (inner : IsPart part text) (outer : IsPart text whole) : IsPart part whole := by
  obtain ⟨front, back, rfl, top⟩ := inner
  obtain ⟨before, behind, rfl, topToo⟩ := outer
  refine ⟨before ++ front, back ++ behind, by simp only [List.append_assoc], ?_⟩
  rw [Nesting.after, List.foldl_append, ← Nesting.after, ← Nesting.after, topToo, top]

end IsPart

theorem isPart_trim (text : List Char) : IsPart (trim text) text := by
  obtain ⟨front, back, blankFront, -, whole⟩ := exists_margins text
  exact ⟨front, back, whole, after_of_isBalanced (isBalanced_of_blank blankFront)⟩

/-! ## Pieces -/

section Pieces

variable {first : Char} {operator text : List Char} (unmarked : isBalanced (first :: operator) = true)

/-- The first occurrence of the operator ends the first piece, and the others are those of what stands behind it. -/
theorem piecesFrom_eq (nesting : Nesting) (text : List Char) : piecesFrom (first :: operator) 0 nesting text =
    match breakTopLevel (first :: operator) nesting text with
    | none => [text]
    | some (front, back) =>
      front :: piecesFrom (first :: operator) 0 .top (back.drop (operator.length + 1)) := by
  induction text generalizing nesting with
  | nil => rfl
  | cons character rest ih =>
      rw [piecesFrom, breakTopLevel]
      split
      · rename_i found
        simp only [Bool.and_eq_true, List.isPrefixOf_iff_prefix] at found
        obtain ⟨⟨isTop, -⟩, more, whole⟩ := found
        rw [List.cons_append] at whole
        cases whole
        have top : nesting = .top := eq_top_of_balancedFrom_nil isTop
        subst top
        have skipped := piecesFrom_skip (first :: operator) .top operator more
        rw [List.length_cons, Nat.add_sub_cancel, skipped]
        simp
      · rw [ih]
        cases breakTopLevel (first :: operator) (nesting.step character) rest with
        | none => rfl
        | some sides => rfl

omit unmarked in
/-- A text without the operator on its top level is a single piece. In any other text the first piece stands in front of
an occurrence, and the others are the pieces of what stands behind it. -/
theorem piecesFrom_cases (text : List Char) :
    (breakTopLevel (first :: operator) .top text = none ∧ piecesFrom (first :: operator) 0 .top text = [text]) ∨
      ∃ front behind, front ++ (first :: operator ++ behind) = text ∧ behind.length < text.length ∧
        breakTopLevel (first :: operator) .top front = none ∧ Nesting.top.after front = .top ∧
        piecesFrom (first :: operator) 0 .top text = front :: piecesFrom (first :: operator) 0 .top behind := by
  rw [piecesFrom_eq]
  cases found : breakTopLevel (first :: operator) .top text with
  | none => exact .inl ⟨rfl, rfl⟩
  | some sides =>
      obtain ⟨front, back⟩ := sides
      obtain ⟨free, top, behind, rfl⟩ := breakTopLevel_eq_some found
      have whole := append_of_breakTopLevel _ _ _ _ _ found
      have left : (first :: operator ++ behind).drop (operator.length + 1) = behind := List.drop_left
      refine .inr ⟨front, behind, whole, ?_, free, top, congrArg (front :: piecesFrom _ 0 .top ·) left⟩
      rw [← whole]
      simp only [List.length_append, List.length_cons]
      omega

include unmarked

/-- A text is made of its pieces, with the operator between them. No piece holds the operator. -/
theorem exists_pieces (text : List Char) :
    piecesFrom (first :: operator) 0 .top text ≠ [] ∧
      (first :: operator).intercalate (piecesFrom (first :: operator) 0 .top text) = text ∧
      ∀ piece ∈ piecesFrom (first :: operator) 0 .top text,
        IsPart piece text ∧ breakTopLevel (first :: operator) .top piece = none := by
  rcases piecesFrom_cases text with ⟨free, single⟩ | ⟨front, behind, whole, shorter, free, top, split⟩
  · rw [single]
    exact ⟨by simp, by simp, by simpa using ⟨⟨[], [], by simp, rfl⟩, free⟩⟩
  · obtain ⟨some, joined, pieces⟩ := exists_pieces behind
    rw [split]
    refine ⟨by simp, ?_, List.forall_mem_cons.mpr ⟨⟨⟨[], _, whole, rfl⟩, free⟩, fun piece inside => ?_⟩⟩
    · obtain ⟨piece, more, same⟩ := List.exists_cons_of_ne_nil some
      rw [same] at joined ⊢
      rw [List.intercalate_cons_cons, joined, List.append_assoc, whole]
    · obtain ⟨isPart, free⟩ := pieces piece inside
      refine ⟨isPart.trans ⟨front ++ (first :: operator), [], ?_, ?_⟩, free⟩
      · rw [List.append_nil, List.append_assoc, whole]
      · rw [Nesting.after, List.foldl_append, ← Nesting.after, ← Nesting.after, top, after_of_isBalanced unmarked]
termination_by text.length

omit unmarked in
theorem splitTopLevel_eq_none_iff :
    splitTopLevel (first :: operator) text = none ↔ breakTopLevel (first :: operator) .top text = none := by
  rw [splitTopLevel, piecesFrom_eq]
  cases breakTopLevel (first :: operator) .top text with
  | none => simp
  | some sides =>
      dsimp only
      rw [piecesFrom_eq]
      cases breakTopLevel (first :: operator) .top (sides.2.drop (operator.length + 1)) with
      | none => simp
      | some sides => simp

omit unmarked in
/-- The parts of a text are its pieces, trimmed, and there are at least two. -/
theorem eq_map_trim_of_splitTopLevel {parts : List (List Char)}
    (found : splitTopLevel (first :: operator) text = some parts) :
    parts = (piecesFrom (first :: operator) 0 .top text).map trim ∧ 2 ≤ parts.length := by
  unfold splitTopLevel at found
  split at found
  · rename_i one two more same
    cases found
    exact ⟨by rw [same], by simp⟩
  · cases found

/-- A text that is split is made of two or more pieces, with the operator between them. -/
theorem splitTopLevel_eq_some {parts : List (List Char)} (found : splitTopLevel (first :: operator) text = some parts) :
    ∃ pieces, parts = pieces.map trim ∧ 2 ≤ pieces.length ∧ (first :: operator).intercalate pieces = text ∧
      ∀ piece ∈ pieces, IsPart piece text ∧ breakTopLevel (first :: operator) .top piece = none := by
  obtain ⟨-, joined, pieces⟩ := exists_pieces unmarked text
  obtain ⟨rfl, several⟩ := eq_map_trim_of_splitTopLevel found
  rw [List.length_map] at several
  exact ⟨_, rfl, several, joined, pieces⟩

end Pieces

/-! ## Negations, parentheses and quotes -/

/-- What is negated stands at the end of the text. -/
theorem stripNegations_isSuffix (text : List Char) : (stripNegations text).2 <:+ text := by
  induction text with
  | nil => exact List.suffix_refl []
  | cons character rest ih =>
      rw [stripNegations]
      split
      · exact ih.trans (List.suffix_cons character rest)
      · split
        · exact ih.trans (List.suffix_cons character rest)
        · exact List.suffix_refl _

/-- Parentheses are taken away around a balanced text only. -/
theorem stripParentheses_eq_some_iff {text content : List Char} : stripParentheses text = some content ↔
    ∃ inner, text = '(' :: (inner ++ [')']) ∧ isBalanced inner = true ∧ trim inner = content := by
  constructor
  · intro found
    unfold stripParentheses at found
    split at found
    · rename_i rest
      split at found
      · rename_i last
        split at found
        · rename_i balanced
          cases found
          obtain ⟨inner, rfl⟩ := List.getLast?_eq_some_iff.mp last
          rw [List.dropLast_concat] at balanced ⊢
          exact ⟨inner, rfl, balanced, rfl⟩
        · cases found
      · cases found
    · cases found
  · rintro ⟨inner, rfl, balanced, rfl⟩
    exact stripParentheses_parentheses balanced

theorem unquote_eq_some {text content : List Char} (found : unquote text = some content) :
    ∃ quote, (quote = singleQuote ∨ quote = doubleQuote) ∧ text = quote :: (content ++ [quote]) := by
  unfold unquote at found
  split at found
  · cases found
  · rename_i quote rest
    split at found
    · rename_i isQuote
      split at found
      · rename_i last
        cases found
        rw [beq_iff_eq] at last
        obtain ⟨inner, rfl⟩ := List.getLast?_eq_some_iff.mp last
        exact ⟨quote, by simpa using isQuote, by rw [List.dropLast_concat]⟩
      · cases found
    · cases found

end Formwork.Text
