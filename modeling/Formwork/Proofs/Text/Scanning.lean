import Formwork.Proofs.Text.Trimming
import Formwork.Text.Nesting

/-!
# Scanning texts for operators

Every search for an operator runs through a text once and keeps track of quotes and parentheses. Whether it
stops inside a part of the text depends on that part and on what follows, because an operator may begin in one
part and end in the next. A text is *passed over* by the search for an operator when this cannot happen: at no
place on its top level do the rest of the text and the operator agree as far as both of them reach
(`passesOver`). Such a text in front of another moves every search to the other text
(`breakTopLevel_append`, `piecesFrom_append`), and texts that are passed over can be joined
(`passesOver_append`).

A balanced text leaves the reader where it was (`after_of_isBalanced`). In parentheses, it is passed over by
every search (`passesOver_parentheses`), and so is a text in quotes that it does not hold (`passesOver_quotes`).
-/

set_option autoImplicit false

namespace Formwork.Text

/-! ## Where a reader stands after a text -/

namespace Nesting

/-- The nesting after the characters of a text. -/
@[grind] def after (nesting : Nesting) (text : List Char) : Nesting := text.foldl step nesting

/-- The nesting inside some more pairs of parentheses. -/
@[grind] def deeper (nesting : Nesting) (levels : Nat) : Nesting := { nesting with depth := nesting.depth + levels }

/-- Whether a character closes a parenthesis that was not opened. -/
@[grind] def dangles (nesting : Nesting) (character : Char) : Bool :=
  nesting.quotation.isNone && character == ')' && nesting.depth == 0

section Deeper

variable {nesting : Nesting} {character : Char} (levels : Nat) (matched : nesting.dangles character = false)
include matched

theorem dangles_deeper : (nesting.deeper levels).dangles character = false := by
  simp only [dangles, deeper, Bool.and_eq_false_iff, beq_eq_false_iff_ne] at matched ⊢
  rcases matched with outside | deep
  · exact .inl outside
  · exact .inr (by omega)

/-- Further inside, a character does the same, unless it closes a parenthesis that was not opened. -/
theorem step_deeper : (nesting.deeper levels).step character = (nesting.step character).deeper levels := by
  obtain ⟨quotation, depth⟩ := nesting
  cases quotation with
  | some quote =>
      simp only [step, deeper]
      split <;> rfl
  | none =>
      simp only [step, deeper]
      split
      · rfl
      · split
        · simp only [Nesting.mk.injEq, true_and]
          omega
        · split
          · rename_i closes
            simp [dangles, closes] at matched
            simp only [Nesting.mk.injEq, true_and]
            omega
          · rfl

end Deeper

/-- On the top level the quotes and the parentheses are the marks. -/
theorem isMark_top {character : Char} :
    top.isMark character = false ↔ character ∉ [singleQuote, doubleQuote, '(', ')'] := by
  simp [isMark, top, and_assoc]

/-- Outside of quotations only marks change something. -/
theorem step_unmarked {character : Char} {depth : Nat}
    (unmarked : character ∉ [singleQuote, doubleQuote, '(', ')']) : step ⟨none, depth⟩ character = ⟨none, depth⟩ := by
  simp only [List.mem_cons, List.not_mem_nil, or_false, not_or] at unmarked
  simp [step, unmarked]

/-- A quotation ends only at its quote. -/
theorem step_of_ne {quote character : Char} {depth : Nat} (other : character ≠ quote) :
    step ⟨some quote, depth⟩ character = ⟨some quote, depth⟩ := by
  simp [step, other]

end Nesting

/-! ## Balanced texts -/

/-- A text is balanced if its first character closes no parenthesis that was not opened, and the rest is balanced
from there. -/
theorem balancedFrom_cons {nesting : Nesting} {character : Char} {rest : List Char} :
    balancedFrom nesting (character :: rest) = true ↔
      nesting.dangles character = false ∧ balancedFrom (nesting.step character) rest = true := by
  rw [balancedFrom, ← Nesting.dangles]
  cases nesting.dangles character with
  | false => simp
  | true => simp

theorem eq_top_of_balancedFrom_nil {nesting : Nesting} (balanced : balancedFrom nesting [] = true) :
    nesting = .top := by
  obtain ⟨quotation, depth⟩ := nesting
  simp only [balancedFrom, Nesting.isTop, Bool.and_eq_true, Option.isNone_iff_eq_none, beq_iff_eq] at balanced
  obtain ⟨rfl, rfl⟩ := balanced
  rfl

section Balanced

variable {nesting : Nesting} {text : List Char}

/-- A text that leads to the top level leads as far up from further inside. -/
theorem after_of_balancedFrom (balanced : balancedFrom nesting text = true) (levels : Nat) :
    (nesting.deeper levels).after text = Nesting.top.deeper levels := by
  induction text generalizing nesting with
  | nil => rw [eq_top_of_balancedFrom_nil balanced]; rfl
  | cons character rest ih =>
      obtain ⟨matched, balanced⟩ := balancedFrom_cons.mp balanced
      calc (nesting.deeper levels).after (character :: rest)
          = ((nesting.deeper levels).step character).after rest := rfl
        _ = ((nesting.step character).deeper levels).after rest := by rw [Nesting.step_deeper levels matched]
        _ = Nesting.top.deeper levels := ih balanced

/-- What follows a text that leads to the top level is read from there, and from further inside as far up. -/
theorem balancedFrom_append (balanced : balancedFrom nesting text = true) (levels : Nat) (more : List Char) :
    balancedFrom (nesting.deeper levels) (text ++ more) = balancedFrom (Nesting.top.deeper levels) more := by
  induction text generalizing nesting with
  | nil => rw [eq_top_of_balancedFrom_nil balanced]; rfl
  | cons character rest ih =>
      obtain ⟨matched, balanced⟩ := balancedFrom_cons.mp balanced
      rw [List.cons_append, balancedFrom, ← Nesting.dangles, Nesting.dangles_deeper levels matched,
        Nesting.step_deeper levels matched, ih balanced]
      rfl

/-- A balanced text leaves the reader where it was. -/
theorem after_of_isBalanced (balanced : isBalanced text = true) : Nesting.top.after text = .top :=
  after_of_balancedFrom balanced 0

/-- Balanced texts can be joined. -/
theorem isBalanced_append {more : List Char} (balanced : isBalanced text = true) (others : isBalanced more = true) :
    isBalanced (text ++ more) = true :=
  (balancedFrom_append balanced 0 more).trans others

theorem isBalanced_intercalate {separator : List Char} (balanced : isBalanced separator = true)
    {texts : List (List Char)} (others : ∀ text ∈ texts, isBalanced text = true) :
    isBalanced (separator.intercalate texts) = true := by
  induction texts with
  | nil => rfl
  | cons text rest ih =>
      have first := others text List.mem_cons_self
      have behind := ih fun later inside => others later (List.mem_cons_of_mem _ inside)
      cases rest with
      | nil => rwa [List.intercalate_singleton]
      | cons other more =>
          rw [List.intercalate_cons_cons]
          exact isBalanced_append (isBalanced_append first balanced) behind

theorem isBalanced_parentheses (balanced : isBalanced text = true) : isBalanced ('(' :: (text ++ [')'])) = true :=
  balancedFrom_append balanced 1 [')']

/-- A text is balanced when it has neither quotes nor parentheses. -/
theorem isBalanced_of_not_mark (unmarked : ∀ character ∈ text, Nesting.top.isMark character = false) :
    isBalanced text = true := by
  induction text with
  | nil => rfl
  | cons character rest ih =>
      have unmarkedFirst := Nesting.isMark_top.mp (unmarked character List.mem_cons_self)
      have stays : Nesting.top.step character = .top := Nesting.step_unmarked unmarkedFirst
      have closes : character ≠ ')' := by
        rintro rfl
        simp at unmarkedFirst
      refine balancedFrom_cons.mpr ⟨by simp [Nesting.dangles, closes], ?_⟩
      rw [stays]
      exact ih fun other inside => unmarked other (List.mem_cons_of_mem _ inside)

end Balanced

/-- A quotation ends with the first quote of its kind. -/
theorem balancedFrom_quotation {quote : Char} {content : List Char} (absent : quote ∉ content) :
    balancedFrom ⟨some quote, 0⟩ (content ++ [quote]) = true := by
  induction content with
  | nil => simp [balancedFrom, Nesting.step, Nesting.isTop]
  | cons character rest ih =>
      rw [List.mem_cons, not_or] at absent
      refine balancedFrom_cons.mpr ⟨rfl, ?_⟩
      rw [Nesting.step_of_ne (Ne.symm absent.1)]
      exact ih absent.2

/-! ## Texts that are passed over -/

/-- A text and an operator agree as far as both of them reach. -/
def Meets (operator text : List Char) : Prop := operator <+: text ∨ text <+: operator

/-- Whether a text, as it is read from a nesting, has no place on its top level from which on it meets an
operator. -/
@[grind] def passesOver (operator : List Char) : Nesting → List Char → Bool
  | _, [] => true
  | nesting, character :: rest =>
    !(nesting.isTop && !nesting.isMark character &&
        (operator.isPrefixOf (character :: rest) || (character :: rest).isPrefixOf operator)) &&
      passesOver operator (nesting.step character) rest

section PassesOver

variable {operator text more : List Char} {nesting : Nesting}

/-- They agree already where they agree with more behind the text. -/
theorem Meets.of_append (meets : Meets operator (text ++ more)) : Meets operator text := by
  rcases meets with reaches | reached
  · exact List.prefix_or_prefix_of_prefix reaches (List.prefix_append text more)
  · exact .inr ((List.prefix_append text more).trans reached)

theorem meets_cons {first other : Char} :
    Meets (first :: operator) (other :: text) ↔ first = other ∧ Meets operator text := by
  rw [Meets, List.cons_prefix_cons, List.cons_prefix_cons, eq_comm (a := other), ← and_or_left]
  rfl

theorem passesOver_cons {character : Char} : passesOver operator nesting (character :: text) = true ↔
    (nesting.isTop = true → nesting.isMark character = false → ¬Meets operator (character :: text)) ∧
      passesOver operator (nesting.step character) text = true := by
  rw [passesOver, Bool.and_eq_true, Bool.not_eq_true']
  refine and_congr_left' ?_
  cases nesting.isTop with
  | false => simp
  | true =>
      cases nesting.isMark character with
      | true => simp
      | false => simp [Meets, ← List.isPrefixOf_iff_prefix]

/-- The search does not stop at the first character, whatever follows the text. -/
theorem not_found_of_passesOver {character : Char} (passes : passesOver operator nesting (character :: text) = true)
    (more : List Char) : (nesting.isTop && !nesting.isMark character &&
      operator.isPrefixOf (character :: (text ++ more))) = false := by
  rw [Bool.eq_false_iff]
  intro found
  simp only [Bool.and_eq_true, Bool.not_eq_true'] at found
  obtain ⟨⟨isTop, unmarked⟩, reaches⟩ := found
  have meets : Meets operator ((character :: text) ++ more) := .inl (List.isPrefixOf_iff_prefix.mp reaches)
  exact (passesOver_cons.mp passes).1 isTop unmarked meets.of_append

/-- The search for an operator goes on behind a text that is passed over. -/
theorem breakTopLevel_append (passes : passesOver operator nesting text = true) :
    breakTopLevel operator nesting (text ++ more) =
      (breakTopLevel operator (nesting.after text) more).map fun (before, found) => (text ++ before, found) := by
  induction text generalizing nesting with
  | nil => exact Option.map_id.symm ▸ rfl
  | cons character rest ih =>
      rw [List.cons_append, breakTopLevel, not_found_of_passesOver passes more, if_neg Bool.false_ne_true,
        ih (passesOver_cons.mp passes).2, Option.map_map]
      rfl

theorem breakTopLevel_eq_none (passes : passesOver operator nesting text = true) :
    breakTopLevel operator nesting text = none := by
  have search := @breakTopLevel_append operator text [] nesting passes
  rwa [List.append_nil] at search

/-- A text that is passed over belongs to the first of the pieces. -/
theorem piecesFrom_append (passes : passesOver operator nesting text = true) {piece : List Char}
    {pieces : List (List Char)} (behind : piecesFrom operator 0 (nesting.after text) more = piece :: pieces) :
    piecesFrom operator 0 nesting (text ++ more) = (text ++ piece) :: pieces := by
  induction text generalizing nesting with
  | nil => exact behind
  | cons character rest ih =>
      rw [List.cons_append, piecesFrom, not_found_of_passesOver passes more, if_neg Bool.false_ne_true,
        ih (passesOver_cons.mp passes).2 behind]
      rfl

/-- A text that is passed over is a single piece. -/
theorem piecesFrom_eq_singleton (passes : passesOver operator nesting text = true) :
    piecesFrom operator 0 nesting text = [text] := by
  have alone := @piecesFrom_append operator text [] nesting passes [] [] (by rw [piecesFrom])
  rwa [List.append_nil] at alone

/-- Texts that are passed over one after the other are passed over together. -/
theorem passesOver_append (passes : passesOver operator nesting text = true)
    (others : passesOver operator (nesting.after text) more = true) :
    passesOver operator nesting (text ++ more) = true := by
  induction text generalizing nesting with
  | nil => exact others
  | cons character rest ih =>
      obtain ⟨differs, passes⟩ := passesOver_cons.mp passes
      exact passesOver_cons.mpr
        ⟨fun isTop unmarked meets => differs isTop unmarked (Meets.of_append meets), ih passes others⟩

/-- A search passes over a text without the first character of the operator. -/
theorem passesOver_of_not_mem {first : Char} (absent : first ∉ text) :
    passesOver (first :: operator) nesting text = true := by
  induction text generalizing nesting with
  | nil => rfl
  | cons character rest ih =>
      rw [List.mem_cons, not_or] at absent
      exact passesOver_cons.mpr ⟨fun _ _ meets => absent.1 (meets_cons.mp meets).1, ih absent.2⟩

/-- A search passes over a text that leads to the top level, as long as it is read further inside. -/
theorem passesOver_deeper (balanced : balancedFrom nesting text = true) (levels : Nat) :
    passesOver operator (nesting.deeper (levels + 1)) text = true := by
  induction text generalizing nesting with
  | nil => rfl
  | cons character rest ih =>
      obtain ⟨matched, balanced⟩ := balancedFrom_cons.mp balanced
      refine passesOver_cons.mpr ⟨fun isTop => absurd isTop ?_, ?_⟩
      · simp [Nesting.isTop, Nesting.deeper]
      · rw [Nesting.step_deeper _ matched]
        exact ih balanced

/-- A search passes over a balanced text in parentheses. -/
theorem passesOver_parentheses (balanced : isBalanced text = true) :
    passesOver operator .top ('(' :: (text ++ [')'])) = true := by
  refine passesOver_cons.mpr ⟨fun _ unmarked => absurd unmarked (by decide), ?_⟩
  refine passesOver_append (passesOver_deeper balanced 0) ?_
  have inside : (Nesting.top.step '(').after text = Nesting.top.deeper 1 := after_of_balancedFrom balanced 1
  rw [inside]
  exact passesOver_cons.mpr ⟨fun isTop => absurd isTop (by decide), rfl⟩

/-- A search passes over a quotation up to its end. -/
theorem passesOver_quotation {quote : Char} {content : List Char} (absent : quote ∉ content) :
    passesOver operator ⟨some quote, 0⟩ (content ++ [quote]) = true := by
  induction content with
  | nil => exact passesOver_cons.mpr ⟨nofun, rfl⟩
  | cons character rest ih =>
      rw [List.mem_cons, not_or] at absent
      refine passesOver_cons.mpr ⟨nofun, ?_⟩
      rw [Nesting.step_of_ne (Ne.symm absent.1)]
      exact ih absent.2

section Quotes

variable {quote : Char} {content : List Char} (isQuote : quote = singleQuote ∨ quote = doubleQuote)
include isQuote

theorem step_quote {depth : Nat} : Nesting.step ⟨none, depth⟩ quote = ⟨some quote, depth⟩ := by
  rcases isQuote with rfl | rfl
  · rfl
  · rfl

theorem step_top_quote : Nesting.top.step quote = ⟨some quote, 0⟩ := step_quote isQuote

theorem isBalanced_quotes (absent : quote ∉ content) : isBalanced (quote :: (content ++ [quote])) = true := by
  refine balancedFrom_cons.mpr ⟨?_, ?_⟩
  · rcases isQuote with rfl | rfl
    · rfl
    · rfl
  · rw [step_top_quote isQuote]
    exact balancedFrom_quotation absent

/-- A search passes over a text in quotes that it does not hold. -/
theorem passesOver_quotes (absent : quote ∉ content) :
    passesOver operator .top (quote :: (content ++ [quote])) = true := by
  refine passesOver_cons.mpr ⟨fun _ unmarked => ?_, ?_⟩
  · rcases isQuote with rfl | rfl
    · exact absurd unmarked (by decide)
    · exact absurd unmarked (by decide)
  · rw [step_top_quote isQuote]
    exact passesOver_quotation absent

/-- A text in quotes is unquoted, whatever it holds. -/
theorem unquote_quotes : unquote (quote :: (content ++ [quote])) = some content := by
  have isQuoteCharacter : (quote == singleQuote || quote == doubleQuote) = true := by
    rcases isQuote with rfl | rfl
    · rfl
    · rfl
  rw [unquote, if_pos isQuoteCharacter, List.getLast?_concat, if_pos (beq_self_eq_true _), List.dropLast_concat]

end Quotes

end PassesOver

/-! ## Where a search stops -/

section Stops

variable {first : Char} {operator text front back : List Char}

/-- A text that the search for an operator leaves whole. -/
structure Whole (operator text : List Char) : Prop where
  balanced : isBalanced text = true
  passes : passesOver operator .top text = true

theorem Whole.append (wholeFront : Whole operator front) (wholeBack : Whole operator back) :
    Whole operator (front ++ back) := by
  refine ⟨isBalanced_append wholeFront.balanced wholeBack.balanced, passesOver_append wholeFront.passes ?_⟩
  rw [after_of_isBalanced wholeFront.balanced]
  exact wholeBack.passes

/-- Texts that are left whole can be joined by a separator that is left whole. -/
theorem Whole.intercalate {separator : List Char} (wholeSeparator : Whole operator separator)
    {texts : List (List Char)} (wholes : ∀ text ∈ texts, Whole operator text) :
    Whole operator (separator.intercalate texts) := by
  induction texts with
  | nil => exact ⟨rfl, rfl⟩
  | cons text rest ih =>
      have whole := wholes text List.mem_cons_self
      have behind := ih fun later inside => wholes later (List.mem_cons_of_mem _ inside)
      cases rest with
      | nil => rwa [List.intercalate_singleton]
      | cons other others =>
          rw [List.intercalate_cons_cons]
          exact (whole.append wholeSeparator).append behind

/-- Blanks are neither quotes nor parentheses. -/
theorem not_mark_of_blank {character : Char} (blank : isBlank character = true) :
    character ∉ [singleQuote, doubleQuote, '(', ')'] := by
  have visible : ∀ mark ∈ [singleQuote, doubleQuote, '(', ')'], isBlank mark = false := by decide
  exact fun inside => Bool.false_ne_true ((visible character inside).symm.trans blank)

theorem isBalanced_of_blank (blank : ∀ character ∈ text, isBlank character = true) : isBalanced text = true :=
  isBalanced_of_not_mark fun character inside => Nesting.isMark_top.mpr (not_mark_of_blank (blank character inside))

/-- Blanks are left whole by the search for an operator that does not begin with one. -/
theorem whole_of_blank (visible : isBlank first = false) (blank : ∀ character ∈ text, isBlank character = true) :
    Whole (first :: operator) text :=
  ⟨isBalanced_of_blank blank,
    passesOver_of_not_mem fun inside => Bool.false_ne_true (visible.symm.trans (blank first inside))⟩

/-- A text without the operator is not split. -/
theorem splitTopLevel_eq_none (passes : passesOver operator .top text = true) :
    splitTopLevel operator text = none := by
  rw [splitTopLevel, piecesFrom_eq_singleton passes]

theorem occursAtTop_eq_false (passes : passesOver operator .top text = true) : occursAtTop operator text = false := by
  rw [occursAtTop, breakTopLevel_eq_none passes]
  rfl

variable (unmarked : Nesting.top.isMark first = false)
include unmarked

/-- The first occurrence of an operator is the one behind a text that is left whole. -/
theorem breakTopLevel_operator (whole : Whole (first :: operator) front) :
    breakTopLevel (first :: operator) .top (front ++ (first :: operator ++ back)) =
      some (front, first :: operator ++ back) := by
  have found : (first :: operator).isPrefixOf (first :: (operator ++ back)) = true :=
    List.isPrefixOf_iff_prefix.mpr (List.prefix_append (first :: operator) back)
  rw [breakTopLevel_append whole.passes, after_of_isBalanced whole.balanced, List.cons_append, breakTopLevel, found,
    unmarked]
  exact congrArg (fun before => some (before, _)) (List.append_nil front)

omit unmarked in
/-- The rest of an operator belongs to no piece. -/
theorem piecesFrom_skip (operator : List Char) (nesting : Nesting) (skipped more : List Char) :
    piecesFrom operator skipped.length nesting (skipped ++ more) = piecesFrom operator 0 nesting more := by
  induction skipped with
  | nil => rfl
  | cons character rest ih => exact ih

/-- The first piece is the text in front of the first occurrence. -/
theorem piecesFrom_operator (whole : Whole (first :: operator) front) :
    piecesFrom (first :: operator) 0 .top (front ++ (first :: operator ++ back)) =
      front :: piecesFrom (first :: operator) 0 .top back := by
  have found : (first :: operator).isPrefixOf (first :: (operator ++ back)) = true :=
    List.isPrefixOf_iff_prefix.mpr (List.prefix_append (first :: operator) back)
  have cut : piecesFrom (first :: operator) 0 .top (first :: operator ++ back) =
      [] :: piecesFrom (first :: operator) 0 .top back := by
    rw [List.cons_append, piecesFrom, found, unmarked, if_pos (by rfl)]
    exact congrArg ([] :: ·) (piecesFrom_skip (first :: operator) .top operator back)
  rw [← after_of_isBalanced whole.balanced] at cut
  have pieces := piecesFrom_append whole.passes cut
  rwa [List.append_nil, after_of_isBalanced whole.balanced] at pieces

/-- The pieces of texts with blanks and operators between them are the texts, with blanks around them. -/
theorem map_trim_piecesFrom (visible : isBlank first = false) {before after margin : List Char}
    (blankBefore : ∀ character ∈ before, isBlank character = true)
    (blankAfter : ∀ character ∈ after, isBlank character = true)
    (blankMargin : ∀ character ∈ margin, isBlank character = true) {texts : List (List Char)} (some : texts ≠ [])
    (wholes : ∀ text ∈ texts, Tight text ∧ Whole (first :: operator) text) :
    (piecesFrom (first :: operator) 0 .top
      (margin ++ (before ++ (first :: operator ++ after)).intercalate texts)).map trim = texts := by
  induction texts generalizing margin with
  | nil => exact absurd rfl some
  | cons text rest ih =>
      obtain ⟨tight, whole⟩ := wholes text List.mem_cons_self
      have wholeMargin : Whole (first :: operator) (margin ++ text) := (whole_of_blank visible blankMargin).append whole
      cases rest with
      | nil =>
          rw [List.intercalate_singleton, piecesFrom_eq_singleton wholeMargin.passes, List.map_singleton,
            tight.trim_front blankMargin]
      | cons other others =>
          have behind := ih blankAfter (by simp) fun later inside => wholes later (List.mem_cons_of_mem _ inside)
          have regroup (more : List Char) : margin ++ (text ++ (before ++ (first :: operator ++ after)) ++ more) =
              ((margin ++ text) ++ before) ++ (first :: operator ++ (after ++ more)) := by
            simp only [List.append_assoc]
          have trims : trim ((margin ++ text) ++ before) = text := by
            rw [List.append_assoc]
            exact tight.trim_around blankMargin blankBefore
          rw [List.intercalate_cons_cons, regroup,
            piecesFrom_operator unmarked (wholeMargin.append (whole_of_blank visible blankBefore)), List.map_cons,
            behind, trims]

section Intercalate

variable (visible : isBlank first = false) {before after : List Char}
variable (blankBefore : ∀ character ∈ before, isBlank character = true)
variable (blankAfter : ∀ character ∈ after, isBlank character = true) {texts : List (List Char)}
variable (wholes : ∀ text ∈ texts, Tight text ∧ Whole (first :: operator) text)
include visible blankBefore blankAfter wholes

/-- Two or more texts with blanks and operators between them are split into the texts. -/
theorem splitTopLevel_intercalate (several : 2 ≤ texts.length) :
    splitTopLevel (first :: operator) ((before ++ (first :: operator ++ after)).intercalate texts) = some texts := by
  have some : texts ≠ [] := by
    rintro rfl
    cases several
  have trimmed :=
    @map_trim_piecesFrom first operator unmarked visible before after [] blankBefore blankAfter nofun texts some wholes
  obtain ⟨text, more, rfl⟩ := List.exists_cons_of_ne_nil some
  obtain ⟨second, rest, rfl⟩ := List.exists_cons_of_ne_nil fun alone : more = [] => by simp [alone] at several
  rw [List.nil_append] at trimmed
  obtain ⟨front, others, pieces, -, behind⟩ := List.map_eq_cons_iff.mp trimmed
  obtain ⟨back, final, rfl, -, -⟩ := List.map_eq_cons_iff.mp behind
  rw [pieces] at trimmed
  rw [splitTopLevel, pieces]
  exact congrArg Option.some trimmed

/-- A single text is not split, so that the parts of a list are its items however many there are. -/
theorem getD_splitTopLevel_intercalate (some : texts ≠ []) :
    let joined := (before ++ (first :: operator ++ after)).intercalate texts
    (splitTopLevel (first :: operator) joined).getD [trim joined] = texts := by
  intro joined
  obtain ⟨text, rest, rfl⟩ := List.exists_cons_of_ne_nil some
  cases rest with
  | nil =>
      obtain ⟨tight, whole⟩ := wholes text List.mem_cons_self
      have alone : joined = text := List.intercalate_singleton
      rw [alone, splitTopLevel_eq_none whole.passes, Option.getD_none, tight.trim_eq]
  | cons other others =>
      have splits : splitTopLevel (first :: operator) joined = _ :=
        splitTopLevel_intercalate unmarked visible blankBefore blankAfter wholes (by simp)
      rw [splits, Option.getD_some]

end Intercalate

end Stops

/-! ## Negations and parentheses in front -/

/-- A text that begins with anything but a blank or `!` has no negations in front. -/
theorem stripNegations_of_ne {character : Char} {rest : List Char} (visible : isBlank character = false)
    (other : character ≠ '!') : stripNegations (character :: rest) = (0, character :: rest) := by
  simp [stripNegations, visible, other]

/-- A `!` in front of anything but `=` is counted. -/
theorem stripNegations_negation {text : List Char} (other : text.head? ≠ some '=') :
    stripNegations ('!' :: text) = ((stripNegations text).1 + 1, (stripNegations text).2) := by
  have blank : isBlank '!' = false := by decide
  have counts : ('!' == '!' && text.head? != some '=') = true := by
    rw [beq_self_eq_true, Bool.true_and, bne_iff_ne]
    exact other
  rw [stripNegations, blank, if_neg Bool.false_ne_true, if_pos counts]

theorem stripParentheses_parentheses {text : List Char} (balanced : isBalanced text = true) :
    stripParentheses ('(' :: (text ++ [')'])) = some (trim text) := by
  rw [stripParentheses, List.getLast?_concat, List.dropLast_concat]
  exact if_pos balanced

theorem stripParentheses_of_ne {character : Char} {rest : List Char} (other : character ≠ '(') :
    stripParentheses (character :: rest) = none := by
  unfold stripParentheses
  split
  · rename_i same
    cases same
    exact absurd rfl other
  · rfl

end Formwork.Text
