import Mathlib.Data.List.TakeWhile
import Formwork.Expression.Printer
import Formwork.Expression.Reader
import Formwork.Proofs.DottedPath
import Formwork.Proofs.Text.Scanning

/-!
# Reading operands

The operand of a condition is a text in quotes, a truth value, a number or a reference, with or without a
suffix. Except for the quoted text, operands are written with the characters of names and with points, signs and
colons: no search for an operator stops in them (`isOperandCharacter`). An operand is read back from its text
where the readings tried before do not accept it: a number wherever its text is numeric
(`readOperand_number`), a reference where its text is neither numeric nor a truth value
(`readOperand_reference`), and a reference with the suffix always (`readOperand_active`).
-/

set_option autoImplicit false

namespace Formwork

namespace Text

/-! ## Characters of operands -/

/-- The characters of names, the point and the sign: those of numbers and references. -/
def isPlainCharacter (character : Char) : Bool :=
  isNameCharacter character || character == '.' || character == '+'

/-- The characters of operands without quotes: those of numbers, references and suffixes. -/
def isOperandCharacter (character : Char) : Bool := isPlainCharacter character || character == ':'

section Characters

variable {character : Char}

theorem isPlainCharacter_of_isNameCharacter (named : isNameCharacter character = true) :
    isPlainCharacter character = true := by
  rw [isPlainCharacter, named]
  rfl

theorem isOperandCharacter_of_isPlainCharacter (plain : isPlainCharacter character = true) :
    isOperandCharacter character = true := by
  rw [isOperandCharacter, plain]
  rfl

theorem not_blank_of_isOperandCharacter (written : isOperandCharacter character = true) :
    isBlank character = false := by
  simp only [isOperandCharacter, isPlainCharacter, Bool.or_eq_true, beq_iff_eq] at written
  rcases written with ((named | rfl) | rfl) | rfl
  · exact (not_blank_of_isNameCharacter named).1
  · decide
  · decide
  · decide

theorem ne_of_isOperandCharacter (written : isOperandCharacter character = true) {other : Char}
    (special : isOperandCharacter other = false) : character ≠ other := by
  rintro rfl
  exact Bool.false_ne_true (special.symm.trans written)

theorem not_mark_of_isOperandCharacter (written : isOperandCharacter character = true) :
    Nesting.top.isMark character = false := by
  have single : character ≠ singleQuote := ne_of_isOperandCharacter written (by decide)
  have double : character ≠ doubleQuote := ne_of_isOperandCharacter written (by decide)
  have opens : character ≠ '(' := ne_of_isOperandCharacter written (by decide)
  have closes : character ≠ ')' := ne_of_isOperandCharacter written (by decide)
  simp [Nesting.isMark, Nesting.top, single, double, opens, closes]

theorem ne_colon_of_isPlainCharacter (plain : isPlainCharacter character = true) : character ≠ ':' := by
  rintro rfl
  exact absurd plain (by decide)

theorem isPlainCharacter_of_isDigit (digit : character.isDigit = true) : isPlainCharacter character = true := by
  refine isPlainCharacter_of_isNameCharacter ?_
  rw [isNameCharacter, Char.isAlphanum, digit, Bool.or_true, Bool.true_or, Bool.true_or]

/-- A character belongs to names if it does so in lower case. -/
theorem isNameCharacter_of_toLower (named : isNameCharacter character.toLower = true) :
    isNameCharacter character = true := by
  unfold Char.toLower at named
  split at named
  · rename_i upper
    have alpha : character.isAlpha = (character.isUpper || character.isLower) := rfl
    have isUpper : character.isUpper = true := decide_eq_true upper
    rw [isNameCharacter, Char.isAlphanum, alpha, isUpper]
    rfl
  · exact named

end Characters

/-! ## Characters of numbers -/

section Numbers

variable {text : List Char}

/-- A sign and what stands behind it is all of a text. -/
theorem mem_signed {character : Char} (inside : character ∈ text) :
    character ∈ (signed text).2 ∨ isPlainCharacter character = true := by
  unfold signed
  split
  · rcases List.mem_cons.mp inside with rfl | inside
    · exact .inr (by decide)
    · exact .inl inside
  · rcases List.mem_cons.mp inside with rfl | inside
    · exact .inr (by decide)
    · exact .inl inside
  · exact .inl inside

theorem isDigit_of_naturalValue? {value : Nat} (valued : naturalValue? text = some value) :
    ∀ character ∈ text, character.isDigit = true := by
  unfold naturalValue? at valued
  split at valued
  · rename_i digits
    exact List.all_eq_true.mp (Bool.and_eq_true_iff.mp digits).2
  · cases valued

/-- Digits in front of a text do not matter. -/
theorem isPlainCharacter_of_dropWhile
    (behind : ∀ character ∈ text.dropWhile Char.isDigit, isPlainCharacter character = true) :
    ∀ character ∈ text, isPlainCharacter character = true := by
  intro character inside
  rw [← List.takeWhile_append_dropWhile (p := Char.isDigit) (l := text)] at inside
  rcases List.mem_append.mp inside with digit | inside
  · exact isPlainCharacter_of_isDigit (List.mem_takeWhile_imp digit)
  · exact behind character inside

theorem isPlainCharacter_of_exponentValue? {value : Int} (valued : exponentValue? text = some value) :
    ∀ character ∈ text, isPlainCharacter character = true := by
  cases text with
  | nil => exact nofun
  | cons mark rest =>
      have signs := @mem_signed rest
      rw [exponentValue?] at valued
      generalize signed rest = parts at signs valued
      obtain ⟨negative, digits⟩ := parts
      split at valued
      · rename_i marks
        obtain ⟨power, powered, -⟩ := Option.map_eq_some_iff.mp valued
        obtain ⟨natural, digitsValued, -⟩ := Option.bind_eq_some_iff.mp powered
        intro character inside
        rcases List.mem_cons.mp inside with rfl | inside
        · rw [Bool.or_eq_true, beq_iff_eq, beq_iff_eq] at marks
          rcases marks with rfl | rfl
          · decide
          · decide
        · rcases signs inside with digit | plain
          · exact isPlainCharacter_of_isDigit (isDigit_of_naturalValue? digitsValued character digit)
          · exact plain
      · cases valued

theorem isPlainCharacter_of_numeral? {numeral : Numeral} (read : numeral? text = some numeral) :
    ∀ character ∈ text, isPlainCharacter character = true := by
  have signs := @mem_signed text
  rw [numeral?] at read
  generalize signed text = parts at signs read
  obtain ⟨negative, body⟩ := parts
  suffices plainBody : ∀ character ∈ body, isPlainCharacter character = true by
    intro character inside
    rcases signs inside with inside | plain
    · exact plainBody character inside
    · exact plain
  refine isPlainCharacter_of_dropWhile ?_
  dsimp only at read
  generalize body.dropWhile Char.isDigit = rest at read ⊢
  split at read
  · rename_i after
    split at read
    · cases read
    · obtain ⟨exponent, exponentRead, -⟩ := Option.map_eq_some_iff.mp read
      have plainAfter := isPlainCharacter_of_dropWhile (isPlainCharacter_of_exponentValue? exponentRead)
      intro character inside
      rcases List.mem_cons.mp inside with rfl | inside
      · decide
      · exact plainAfter character inside
  · split at read
    · cases read
    · obtain ⟨exponent, exponentRead, -⟩ := Option.map_eq_some_iff.mp read
      exact isPlainCharacter_of_exponentValue? exponentRead

/-- The words that name doubles consist of letters. -/
theorem isPlainCharacter_of_wordValue? {negative : Bool} {value : Number.Binary64}
    (valued : wordValue? negative text = some value) : ∀ character ∈ text, isPlainCharacter character = true := by
  have letters (word : List Char) (named : word.all isNameCharacter = true) (same : lowerAscii text = word) :
      ∀ character ∈ text, isPlainCharacter character = true := by
    intro character inside
    have inWord : character.toLower ∈ word := same ▸ List.mem_map_of_mem inside
    exact isPlainCharacter_of_isNameCharacter
      (isNameCharacter_of_toLower (List.all_eq_true.mp named _ inWord))
  simp only [wordValue?, Bool.or_eq_true, decide_eq_true_eq] at valued
  split at valued
  · rename_i infinite
    rcases infinite with short | long
    · exact letters _ (by decide) short
    · exact letters _ (by decide) long
  · split at valued
    · rename_i noNumber
      exact letters _ (by decide) noNumber
    · cases valued

/-- The characters of a numeric text. -/
theorem isPlainCharacter_of_isNumeric (numeric : isNumeric text = true) :
    ∀ character ∈ text, isPlainCharacter character = true := by
  obtain ⟨value, valued⟩ := Option.isSome_iff_exists.mp numeric
  unfold numericValue? at valued
  split at valued
  · rename_i numeral read
    exact isPlainCharacter_of_numeral? read
  · have signs := @mem_signed text
    generalize signed text = parts at signs valued
    obtain ⟨negative, word⟩ := parts
    intro character inside
    rcases signs inside with inside | plain
    · exact isPlainCharacter_of_wordValue? valued character inside
    · exact plain

end Numbers

end Text

/-! ## Texts of references -/

namespace Reference

open Formwork.Text

/-- A reference that can be written: the segments of its path, one at least, are identifiers. -/
structure Named (target : Reference) : Prop where
  nonempty : target.path.segments ≠ []
  identifiers : ∀ segment ∈ target.path.segments, isIdentifier segment.toList = true

instance (target : Reference) : Decidable target.Named :=
  decidable_of_iff (target.path.segments ≠ [] ∧ ∀ segment ∈ target.path.segments, isIdentifier segment.toList = true)
    ⟨fun ⟨nonempty, identifiers⟩ => ⟨nonempty, identifiers⟩, fun ⟨nonempty, identifiers⟩ => ⟨nonempty, identifiers⟩⟩

namespace Named

variable {target : Reference} (named : target.Named)
include named

theorem isNameCharacter_of_mem {segment : String} (listed : segment ∈ target.path.segments) {character : Char}
    (inside : character ∈ segment.toList) : isNameCharacter character = true := by
  have identifier := named.identifiers segment listed
  rw [isIdentifier, Bool.and_eq_true, List.all_eq_true] at identifier
  exact identifier.2 character inside

/-- The pieces of the text of a path are its segments. -/
theorem pieces_text : pieces '.' target.path.text.toList = target.path.segments.map String.toList := by
  rw [Path.text, String.toList_intercalate]
  refine pieces_intercalate (by simpa using named.nonempty) ?_
  intro text isText inside
  obtain ⟨segment, listed, rfl⟩ := List.mem_map.mp isText
  exact (not_blank_of_isNameCharacter (named.isNameCharacter_of_mem listed inside)).2 rfl

/-- The text of a path begins with a name. -/
theorem exists_path_text_eq :
    ∃ character rest, target.path.text.toList = character :: rest ∧ character ≠ '.' := by
  have noGap : [] ∉ pieces '.' target.path.text.toList := by
    rw [named.pieces_text]
    intro isText
    obtain ⟨segment, listed, empty⟩ := List.mem_map.mp isText
    have identifier := named.identifiers segment listed
    rw [empty] at identifier
    exact absurd identifier (by decide)
  cases written : target.path.text.toList with
  | nil =>
      rw [written] at noGap
      exact absurd List.mem_cons_self noGap
  | cons character rest =>
      refine ⟨character, rest, rfl, ?_⟩
      rintro rfl
      rw [written] at noGap
      exact absurd List.mem_cons_self noGap

theorem isPlainCharacter_of_mem_path {character : Char} (inside : character ∈ target.path.text.toList) :
    isPlainCharacter character = true := by
  rcases eq_or_mem_pieces '.' inside with rfl | ⟨piece, isPiece, held⟩
  · decide
  · rw [named.pieces_text] at isPiece
    obtain ⟨segment, listed, rfl⟩ := List.mem_map.mp isPiece
    exact isPlainCharacter_of_isNameCharacter (named.isNameCharacter_of_mem listed held)

omit named in
theorem text_toList : target.text.toList = List.replicate target.ascend '.' ++ target.path.text.toList := by
  rw [text, String.toList_append, String.toList_ofList]

theorem isPlainCharacter_of_mem_text {character : Char} (inside : character ∈ target.text.toList) :
    isPlainCharacter character = true := by
  rw [text_toList] at inside
  rcases List.mem_append.mp inside with isDot | inside
  · rw [List.eq_of_mem_replicate isDot]
    decide
  · exact named.isPlainCharacter_of_mem_path inside

theorem text_ne_nil : target.text.toList ≠ [] := by
  obtain ⟨character, rest, written, -⟩ := named.exists_path_text_eq
  rw [text_toList, written]
  exact List.append_ne_nil_of_right_ne_nil _ (List.cons_ne_nil _ _)

/-- A reference is read back from its text. -/
theorem read_text : read target.text.toList = .ok target := by
  obtain ⟨character, rest, written, noDot⟩ := named.exists_path_text_eq
  have dense : ∀ character ∈ target.text.toList, isBlank character = false := fun character inside =>
    not_blank_of_isOperandCharacter
      (isOperandCharacter_of_isPlainCharacter (named.isPlainCharacter_of_mem_text inside))
  have dots : ∀ character ∈ List.replicate target.ascend '.', (character == '.') = true := fun character inside =>
    beq_iff_eq.mpr (List.eq_of_mem_replicate inside)
  have taken : target.text.toList.takeWhile (· == '.') = List.replicate target.ascend '.' := by
    rw [text_toList, List.takeWhile_append_of_pos dots, written, List.takeWhile_cons_of_neg (by simp [noDot]),
      List.append_nil]
  have left : target.text.toList.dropWhile (· == '.') = target.path.text.toList := by
    rw [text_toList, List.dropWhile_append_of_pos dots, written, List.dropWhile_cons_of_neg (by simp [noDot])]
  have identifiers : (pieces '.' target.path.text.toList).all isIdentifier = true := by
    rw [named.pieces_text, List.all_map, List.all_eq_true]
    exact named.identifiers
  have some : target.path.text.toList.isEmpty = false := by
    rw [written]
    rfl
  have path : Path.parse target.path.text = target.path :=
    Path.parse_text fun segment listed => Path.plain_of_isIdentifier (named.identifiers segment listed)
  simp [read, trim_of_not_blank dense, taken, left, some, identifiers, path]

end Named

end Reference

/-! ## Reading operands back -/

open Formwork.Text in
/-- Nothing is trimmed off a text in quotes. -/
theorem Literal.tight_quoted {quote : Char} (isQuote : quote = singleQuote ∨ quote = doubleQuote)
    (content : List Char) : Tight (quoted quote content) := by
  rcases isQuote with rfl | rfl
  · exact .between content (by decide) (by decide)
  · exact .between content (by decide) (by decide)

namespace Expression

open Formwork.Text

/-- A text in quotes is read as what stands between them. -/
theorem readOperand_quotes {quote : Char} (isQuote : quote = singleQuote ∨ quote = doubleQuote)
    (content : List Char) :
    readOperand (Literal.quoted quote content) = .ok (.literal (.text (String.ofList content))) := by
  rw [readOperand, (Literal.tight_quoted isQuote content).trim_eq, Literal.quoted, unquote_quotes isQuote]

theorem readOperand_flag (value : Bool) :
    readOperand (Literal.flag value).asText.toList = .ok (.literal (.flag value)) := by
  cases value with
  | false => rfl
  | true => rfl

section Unquoted

variable {text : List Char}

/-- A text that is written without blanks and quotes is read as it is, and is no quoted text. -/
theorem readOperand_unquoted (written : ∀ character ∈ text, isOperandCharacter character = true) :
    trim text = text ∧ unquote text = none := by
  refine ⟨trim_of_not_blank fun character inside => not_blank_of_isOperandCharacter (written character inside), ?_⟩
  cases text with
  | nil => rfl
  | cons character rest =>
      have writtenFirst := written character List.mem_cons_self
      have single : character ≠ singleQuote := ne_of_isOperandCharacter writtenFirst (by decide)
      have double : character ≠ doubleQuote := ne_of_isOperandCharacter writtenFirst (by decide)
      simp [unquote, single, double]

/-- A number is read wherever its text is numeric. -/
theorem readOperand_number (numeric : isNumeric text = true) :
    readOperand text = .ok (.literal (.number (String.ofList text))) := by
  have plain := isPlainCharacter_of_isNumeric numeric
  obtain ⟨trims, noQuotes⟩ := readOperand_unquoted fun character inside =>
    isOperandCharacter_of_isPlainCharacter (plain character inside)
  have notTrue : text ≠ ['t', 'r', 'u', 'e'] := by
    rintro rfl
    exact absurd numeric (by decide)
  have notFalse : text ≠ ['f', 'a', 'l', 's', 'e'] := by
    rintro rfl
    exact absurd numeric (by decide)
  simp only [readOperand, trims, noQuotes, if_neg notTrue, if_neg notFalse, if_pos numeric]

end Unquoted

section References

variable {target : Reference} (named : target.Named)
include named

/-- A reference is read where its text is neither a truth value nor numeric. -/
theorem readOperand_reference (notTrue : target.text ≠ "true") (notFalse : target.text ≠ "false")
    (notNumeric : isNumeric target.text.toList = false) :
    readOperand target.text.toList = .ok (.reference target) := by
  have written (character : Char) (inside : character ∈ target.text.toList) :
      isOperandCharacter character = true :=
    isOperandCharacter_of_isPlainCharacter (named.isPlainCharacter_of_mem_text inside)
  obtain ⟨trims, noQuotes⟩ := readOperand_unquoted written
  have isNotTrue : target.text.toList ≠ ['t', 'r', 'u', 'e'] := fun same => notTrue (String.toList_injective same)
  have isNotFalse : target.text.toList ≠ ['f', 'a', 'l', 's', 'e'] :=
    fun same => notFalse (String.toList_injective same)
  have noSuffix : target.text.toList.dropWhile (· != ':') = [] := by
    refine List.dropWhile_eq_nil_iff.mpr fun character inside => ?_
    exact bne_iff_ne.mpr (ne_colon_of_isPlainCharacter (named.isPlainCharacter_of_mem_text inside))
  have noBlank : target.text.toList.any isBlank = false := by
    refine List.any_eq_false.mpr fun character inside => ?_
    rw [not_blank_of_isOperandCharacter (written character inside)]
    exact Bool.false_ne_true
  simp [readOperand, trims, noQuotes, isNotTrue, isNotFalse, notNumeric, noSuffix, noBlank, named.read_text,
    Except.map]

theorem isOperandCharacter_of_mem_active {character : Char}
    (inside : character ∈ target.text.toList ++ activeSuffix) : isOperandCharacter character = true := by
  rcases List.mem_append.mp inside with inside | inside
  · exact isOperandCharacter_of_isPlainCharacter (named.isPlainCharacter_of_mem_text inside)
  · exact List.all_eq_true.mp (by decide : activeSuffix.all isOperandCharacter = true) character inside

/-- A reference with its suffix is read whatever its path is called. -/
theorem readOperand_active : readOperand (target.text.toList ++ activeSuffix) = .ok (.active target) := by
  obtain ⟨trims, noQuotes⟩ := readOperand_unquoted fun _ inside => isOperandCharacter_of_mem_active named inside
  have colon : ':' ∈ target.text.toList ++ activeSuffix := List.mem_append_right _ (by decide)
  have isNotTrue : target.text.toList ++ activeSuffix ≠ ['t', 'r', 'u', 'e'] := by
    intro same
    rw [same] at colon
    exact absurd colon (by decide)
  have isNotFalse : target.text.toList ++ activeSuffix ≠ ['f', 'a', 'l', 's', 'e'] := by
    intro same
    rw [same] at colon
    exact absurd colon (by decide)
  have notNumeric : isNumeric (target.text.toList ++ activeSuffix) = false := by
    rw [Bool.eq_false_iff]
    exact fun numeric => ne_colon_of_isPlainCharacter (isPlainCharacter_of_isNumeric numeric ':' colon) rfl
  have noColon : ∀ character ∈ target.text.toList, (character != ':') = true := fun character inside =>
    bne_iff_ne.mpr (ne_colon_of_isPlainCharacter (named.isPlainCharacter_of_mem_text inside))
  have front : (target.text.toList ++ activeSuffix).takeWhile (· != ':') = target.text.toList := by
    rw [List.takeWhile_append_of_pos noColon]
    exact List.append_nil _
  have back : (target.text.toList ++ activeSuffix).dropWhile (· != ':') = activeSuffix := by
    rw [List.dropWhile_append_of_pos noColon]
    rfl
  have some : activeSuffix.isEmpty = false := rfl
  simp [readOperand, trims, noQuotes, isNotTrue, isNotFalse, notNumeric, front, back, some, named.read_text,
    Except.map]

end References

end Expression

end Formwork
