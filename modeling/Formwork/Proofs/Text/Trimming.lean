import Mathlib.Data.List.Basic
import Mathlib.Data.List.TakeWhile
import Formwork.Text.Blank

/-!
# Texts without blanks at their ends

A text is *tight* when it begins and ends with a character that is not blank (`Tight`). Trimming takes away the
blanks around a tight text and nothing of the text (`Tight.trim_around`), so a text can be recovered from whatever
margins it is written with. What trimming leaves stands in the text between blanks (`exists_margins`), and it is tight
or nothing (`trim_eq_nil_or_tight`).
-/

set_option autoImplicit false

namespace Formwork.Text

/-- A text that is not empty and has no blank at either end. -/
structure Tight (text : List Char) : Prop where
  first : ∃ character ∈ text.head?, isBlank character = false
  last : ∃ character ∈ text.getLast?, isBlank character = false

theorem trimEnd_eq (text : List Char) : trimEnd text = (text.reverse.dropWhile isBlank).reverse := by
  induction text with
  | nil => rfl
  | cons character rest ih =>
      rw [trimEnd, ih, List.reverse_cons, List.dropWhile_append]
      cases kept : rest.reverse.dropWhile isBlank with
      | nil => cases blank : isBlank character <;> simp [blank]
      | cons final front =>
          split
          · rename_i empty
            simp at empty
          · simp

namespace Tight

variable {text front back : List Char}

theorem ne_nil (tight : Tight text) : text ≠ [] := by
  rintro rfl
  obtain ⟨character, first, -⟩ := tight.first
  cases first

/-- Trimming takes away the blanks around a tight text, and nothing of the text. -/
theorem trim_around (tight : Tight text) (blankFront : ∀ character ∈ front, isBlank character = true)
    (blankBack : ∀ character ∈ back, isBlank character = true) : trim (front ++ (text ++ back)) = text := by
  have start : trimStart (front ++ (text ++ back)) = text ++ back := by
    obtain ⟨character, first, visible⟩ := tight.first
    obtain ⟨rest, rfl⟩ := List.head?_eq_some_iff.mp first
    rw [trimStart, List.dropWhile_append_of_pos blankFront, List.cons_append,
      List.dropWhile_cons_of_neg (by rw [visible]; exact Bool.false_ne_true)]
  have stop : text.reverse.dropWhile isBlank = text.reverse := by
    obtain ⟨character, last, visible⟩ := tight.last
    obtain ⟨rest, rfl⟩ := List.getLast?_eq_some_iff.mp last
    rw [List.reverse_concat, List.dropWhile_cons_of_neg (by rw [visible]; exact Bool.false_ne_true)]
  rw [trim, start, trimEnd_eq, List.reverse_append,
    List.dropWhile_append_of_pos fun character inside => blankBack character (List.mem_reverse.mp inside), stop,
    List.reverse_reverse]

theorem trim_front (tight : Tight text) (blankFront : ∀ character ∈ front, isBlank character = true) :
    trim (front ++ text) = text := by
  have around := @trim_around text front [] tight blankFront nofun
  rwa [List.append_nil] at around

theorem trim_back (tight : Tight text) (blankBack : ∀ character ∈ back, isBlank character = true) :
    trim (text ++ back) = text :=
  @trim_around text [] back tight nofun blankBack

/-- Trimming leaves a tight text as it is. -/
theorem trim_eq (tight : Tight text) : trim text = text := @trim_front text [] tight nofun

/-- Only the ends of a text matter. -/
theorem join (frontTight : Tight front) (middle : List Char) (backTight : Tight back) :
    Tight (front ++ (middle ++ back)) := by
  obtain ⟨first, isFirst, visibleFirst⟩ := frontTight.first
  obtain ⟨last, isLast, visibleLast⟩ := backTight.last
  refine ⟨⟨first, ?_, visibleFirst⟩, ⟨last, ?_, visibleLast⟩⟩
  · rw [List.head?_append, Option.mem_def.mp isFirst]
    rfl
  · rw [List.getLast?_append, List.getLast?_append, Option.mem_def.mp isLast]
    rfl

/-- The same for tight texts with any separator between them. -/
theorem intercalate (separator : List Char) {texts : List (List Char)} (some : texts ≠ [])
    (tights : ∀ text ∈ texts, Tight text) : Tight (separator.intercalate texts) := by
  induction texts with
  | nil => exact absurd rfl some
  | cons text rest ih =>
      have tight := tights text List.mem_cons_self
      cases rest with
      | nil => rwa [List.intercalate_singleton]
      | cons other others =>
          have behind := ih (by simp) fun later inside => tights later (List.mem_cons_of_mem _ inside)
          rw [List.intercalate_cons_cons, List.append_assoc]
          exact tight.join separator behind

theorem cons (tight : Tight text) {character : Char} (visible : isBlank character = false) :
    Tight (character :: text) := by
  obtain ⟨last, isLast, visibleLast⟩ := tight.last
  refine ⟨⟨character, rfl, visible⟩, ⟨last, ?_, visibleLast⟩⟩
  rw [List.getLast?_cons, Option.mem_def.mp isLast]
  rfl

/-- A text without blanks is tight, unless it is empty. -/
theorem of_not_blank (some : text ≠ []) (dense : ∀ character ∈ text, isBlank character = false) : Tight text := by
  refine ⟨⟨text.head some, List.head?_eq_some_head some, ?_⟩,
    ⟨text.getLast some, List.getLast?_eq_some_getLast some, ?_⟩⟩
  · exact dense _ (List.head_mem some)
  · exact dense _ (List.getLast_mem some)

/-- A text between two characters that are not blank is tight. -/
theorem between (content : List Char) {opening closing : Char} (visibleOpening : isBlank opening = false)
    (visibleClosing : isBlank closing = false) : Tight (opening :: (content ++ [closing])) := by
  refine ⟨⟨opening, rfl, visibleOpening⟩, ⟨closing, ?_, visibleClosing⟩⟩
  rw [← List.cons_append]
  exact List.getLast?_concat

end Tight

/-- A text without blanks is not changed by trimming. -/
theorem trim_of_not_blank {text : List Char} (dense : ∀ character ∈ text, isBlank character = false) :
    trim text = text := by
  rcases text.eq_nil_or_concat with rfl | ⟨front, final, rfl⟩
  · rfl
  · exact (Tight.of_not_blank (by simp) dense).trim_eq

/-! ## What trimming leaves -/

/-- A text is what trimming leaves of it, between blanks. -/
theorem exists_margins (text : List Char) : ∃ front back, (∀ character ∈ front, isBlank character = true) ∧
    (∀ character ∈ back, isBlank character = true) ∧ front ++ (trim text ++ back) = text := by
  have start : text.takeWhile isBlank ++ trimStart text = text := List.takeWhile_append_dropWhile
  have stop : trim text ++ ((trimStart text).reverse.takeWhile isBlank).reverse = trimStart text := by
    rw [trim, trimEnd_eq, ← List.reverse_append, List.takeWhile_append_dropWhile, List.reverse_reverse]
  refine ⟨text.takeWhile isBlank, ((trimStart text).reverse.takeWhile isBlank).reverse, fun character inside =>
    List.mem_takeWhile_imp inside, fun character inside => ?_, ?_⟩
  · exact List.mem_takeWhile_imp (List.mem_reverse.mp inside)
  · rw [stop, start]

/-- Trimming adds no characters. -/
theorem mem_of_mem_trim {text : List Char} {character : Char} (inside : character ∈ trim text) : character ∈ text := by
  obtain ⟨front, back, -, -, whole⟩ := exists_margins text
  rw [← whole]
  exact List.mem_append_right _ (List.mem_append_left _ inside)

theorem not_blank_of_mem_getLast?_trimEnd {text : List Char} {last : Char} (isLast : last ∈ (trimEnd text).getLast?) :
    isBlank last = false := by
  rw [trimEnd_eq, List.getLast?_reverse] at isLast
  obtain ⟨rest, kept⟩ := List.head?_eq_some_iff.mp isLast
  have stops := List.head?_dropWhile_not isBlank text.reverse
  rw [kept] at stops
  exact stops

/-- What trimming leaves is tight, unless nothing is left. -/
theorem trim_eq_nil_or_tight (text : List Char) : trim text = [] ∨ Tight (trim text) := by
  rw [trim]
  cases started : trimStart text with
  | nil => exact .inl rfl
  | cons first rest =>
      have visible : isBlank first = false := by
        have stops := List.head?_dropWhile_not isBlank text
        rw [← trimStart, started] at stops
        exact stops
      have split : trimEnd (first :: rest) = first :: trimEnd rest := by
        rw [trimEnd]
        cases trimEnd rest with
        | nil => exact if_neg (by rw [visible]; exact Bool.false_ne_true)
        | cons second more => rfl
      refine .inr ⟨⟨first, by rw [split]; rfl, visible⟩, ?_⟩
      have some : trimEnd (first :: rest) ≠ [] := split ▸ List.cons_ne_nil _ _
      have isLast := List.getLast?_eq_some_getLast some
      exact ⟨_, isLast, not_blank_of_mem_getLast?_trimEnd isLast⟩

/-- Trimming twice is trimming once. -/
theorem trim_trim (text : List Char) : trim (trim text) = trim text := by
  rcases trim_eq_nil_or_tight text with nothing | tight
  · rw [nothing]
    rfl
  · exact tight.trim_eq

end Formwork.Text
