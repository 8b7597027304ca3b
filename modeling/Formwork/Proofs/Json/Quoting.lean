import Mathlib.Data.List.Basic
import Formwork.Json.Printer
import Formwork.Json.Reader

/-!
# Quoted texts

A character of a quoted text stands for itself, is written as a letter behind a backslash, or by its
code (`escapeCharacter_cases`). In each way the reader takes exactly what was written for the character
(`quoted?_escapeCharacter`), so it comes to the closing quote with the whole text (`string?_quoted`), and
a text that is printed as JSON is read back as it was, whatever characters it is made of
(`parse?_print_text`).
-/

set_option autoImplicit false

namespace Formwork.Json

/-! ## Characters -/

/-- Four hexadecimal digits are read as their number. -/
theorem hex4?_hexDigit {first second third fourth : Nat} (small : first < 16 ∧ second < 16 ∧ third < 16 ∧ fourth < 16)
    (rest : List Char) :
    hex4? (hexDigit first :: hexDigit second :: hexDigit third :: hexDigit fourth :: rest) =
      some (((first * 16 + second) * 16 + third) * 16 + fourth, rest) := by
  have value : ∀ digit < 16,
      (if (hexDigit digit).isDigit then some ((hexDigit digit).toNat - 48)
        else if 'a' ≤ hexDigit digit && hexDigit digit ≤ 'f' then some ((hexDigit digit).toNat - 87)
        else if 'A' ≤ hexDigit digit && hexDigit digit ≤ 'F' then some ((hexDigit digit).toNat - 55)
        else none) = some digit := by decide
  obtain ⟨smallFirst, smallSecond, smallThird, smallFourth⟩ := small
  simp only [hex4?, value _ smallFirst, value _ smallSecond, value _ smallThird, value _ smallFourth]
  rfl

/-- A control character is read back from its code. -/
theorem unicodeEscape?_control {character : Char} (isControl : character.toNat < 0x20) (rest : List Char) :
    unicodeEscape? ('0' :: '0' :: hexDigit (character.toNat / 16) :: hexDigit (character.toNat % 16) :: rest) =
      some (character, rest) := by
  have small : 0 < 16 ∧ 0 < 16 ∧ character.toNat / 16 < 16 ∧ character.toNat % 16 < 16 := by omega
  have read := hex4?_hexDigit small rest
  have code : ((0 * 16 + 0) * 16 + character.toNat / 16) * 16 + character.toNat % 16 = character.toNat := by omega
  rw [code] at read
  have zero : hexDigit 0 = '0' := rfl
  rw [zero] at read
  have notHigh : (0xd800 ≤ character.toNat && character.toNat < 0xdc00) = false := by simp; omega
  have notLow : (0xdc00 ≤ character.toNat && character.toNat < 0xe000) = false := by simp; omega
  simp only [unicodeEscape?, read, Option.bind_eq_bind, Option.bind_some, notHigh, notLow, Bool.false_eq_true, if_false,
    Char.ofNat_toNat]
  rfl

/-- The characters that are written as a letter behind a backslash, each with its letter. -/
def letters : List (Char × Char) :=
  [('\x22', '\x22'), ('\\', '\\'), ('\x08', 'b'), ('\t', 't'), ('\n', 'n'), ('\x0c', 'f'), ('\r', 'r')]

/-- A character stands for itself, is written as a letter behind a backslash, or by its code. -/
theorem escapeCharacter_cases (character : Char) :
    (escapeCharacter character = [character] ∧ character ≠ '\x22' ∧ character ≠ '\\' ∧ 0x20 ≤ character.toNat) ∨
      (∃ letter, escapeCharacter character = ['\\', letter] ∧ letter ≠ 'u' ∧ simpleEscape? letter = some character) ∨
      (character.toNat < 0x20 ∧ escapeCharacter character =
        ['\\', 'u', '0', '0', hexDigit (character.toNat / 16), hexDigit (character.toNat % 16)]) := by
  by_cases lettered : ∃ letter, (character, letter) ∈ letters
  · obtain ⟨letter, listed⟩ := lettered
    have written : ∀ entry ∈ letters, escapeCharacter entry.1 = ['\\', entry.2] ∧ entry.2 ≠ 'u' ∧
        simpleEscape? entry.2 = some entry.1 := by decide
    exact .inr (.inl ⟨letter, written _ listed⟩)
  · have unlettered : ∀ entry ∈ letters, character.toNat ≠ entry.1.toNat := fun entry listed same =>
      lettered ⟨entry.2, by rw [Char.toNat_inj.mp same]; exact listed⟩
    have otherwise : escapeCharacter character = if character.toNat < 0x20 then
        ['\\', 'u', '0', '0', hexDigit (character.toNat / 16), hexDigit (character.toNat % 16)] else [character] := by
      simp only [letters, List.forall_mem_cons] at unlettered
      simp_all [escapeCharacter]
    rw [otherwise]
    split
    · rename_i isControl
      exact .inr (.inr ⟨isControl, rfl⟩)
    · rename_i high
      refine .inl ⟨rfl, ?_, ?_, Nat.le_of_not_lt high⟩
      · rintro rfl
        exact unlettered ('\x22', '\x22') (by decide) rfl
      · rintro rfl
        exact unlettered ('\\', '\\') (by decide) rfl

/-- The reader takes what was written for a character, and nothing behind it. -/
theorem quoted?_escapeCharacter (fuel : Nat) (character : Char) (rest : List Char) :
    quoted? (fuel + 1) (escapeCharacter character ++ rest) =
      (quoted? fuel rest).map fun (inner, tail) => (character :: inner, tail) := by
  rcases escapeCharacter_cases character with ⟨written, notQuote, notBackslash, high⟩ | ⟨letter, written, notU, meant⟩ |
    ⟨isControl, written⟩
  · have notControl : ¬character.toNat < 0x20 := Nat.not_lt.mpr high
    rw [written, List.singleton_append]
    generalize behind : quoted? fuel rest = read
    unfold quoted?
    simp only [beq_iff_eq, notQuote, notBackslash, notControl, if_false, behind]
    cases read <;> rfl
  · rw [written, List.cons_append, List.singleton_append, quoted?.eq_4 _ _ _ _ notU, meant]
    cases quoted? fuel rest <;> rfl
  · rw [written]
    simp only [List.cons_append, List.nil_append, quoted?.eq_3, unicodeEscape?_control isControl, Option.bind_eq_bind,
      Option.bind_some]
    cases quoted? fuel rest <;> rfl

/-- The reader comes to the closing quote with the whole text. -/
theorem quoted?_flatMap_escapeCharacter {fuel : Nat} {text : List Char} (enough : text.length < fuel) (rest : List Char) :
    quoted? fuel (text.flatMap escapeCharacter ++ '\x22' :: rest) = some (text, rest) := by
  induction text generalizing fuel with
  | nil =>
      obtain ⟨fuel, rfl⟩ := Nat.exists_eq_succ_of_ne_zero (Nat.ne_of_gt enough)
      unfold quoted?
      rfl
  | cons character text ih =>
      obtain ⟨fuel, rfl⟩ := Nat.exists_eq_succ_of_ne_zero (Nat.ne_of_gt (Nat.zero_lt_of_lt enough))
      rw [List.flatMap_cons, List.append_assoc, quoted?_escapeCharacter, ih (Nat.lt_of_succ_lt_succ enough)]
      rfl

/-! ## Texts -/

/-- A text of one character or more is written for every character. -/
theorem length_le_flatMap_escapeCharacter (text : List Char) : text.length ≤ (text.flatMap escapeCharacter).length := by
  induction text with
  | nil => exact Nat.le_refl 0
  | cons character text ih =>
      have some : 1 ≤ (escapeCharacter character).length := by
        rcases escapeCharacter_cases character with ⟨written, -⟩ | ⟨letter, written, -⟩ | ⟨-, written⟩
        all_goals rw [written]; simp
      rw [List.flatMap_cons, List.length_append, List.length_cons]
      omega

/-- What stands between quotes is read as the text that was quoted. -/
theorem string?_quoted (text : String) (rest : List Char) :
    string? (text.toList.flatMap escapeCharacter ++ '\x22' :: rest) = some (text, rest) := by
  have longer := length_le_flatMap_escapeCharacter text.toList
  have enough : text.toList.length < (text.toList.flatMap escapeCharacter ++ '\x22' :: rest).length + 1 := by
    rw [List.length_append]
    omega
  rw [string?, quoted?_flatMap_escapeCharacter enough, Option.map_some]
  exact congrArg (fun whole => some (whole, rest)) String.ofList_toList

theorem value?_quote (fuel depth : Nat) (text : String) (rest : List Char) :
    value? (fuel + 1) depth (quote text ++ rest) = some (.text text, rest) := by
  have spaces : skipSpaces (quote text ++ rest) = '\x22' :: (text.toList.flatMap escapeCharacter ++ '\x22' :: rest) := by
    rw [quote, List.cons_append, List.append_assoc, List.singleton_append]
    rfl
  unfold value?
  rw [spaces]
  simp only [string?_quoted]
  rfl

/-- A text that is printed as JSON is read back as it was. -/
theorem parse?_print_text (text : String) : parse? (print (.text text)) = some (.text text) := by
  have read := value?_quote (2 * (quote text).length + 1) maximalDepth text []
  rw [List.append_nil] at read
  have fields : parseFields? (print (.text text)) = some (.text text) := by
    simp only [parseFields?, print, chars, String.toList_ofList, read]
    rfl
  rw [parse?, fields]
  rfl

end Formwork.Json
