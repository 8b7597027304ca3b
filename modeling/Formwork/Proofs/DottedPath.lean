import Formwork.Path
import Formwork.Proofs.Text.Trimming
import Formwork.Text.Name
import Formwork.Text.Numeral

/-!
# Reading dotted paths

Reading a dotted text reads the texts in front of and behind a dot on their own, so joining
texts with dots reads as one path after the other (`Path.parse_intercalate`). A segment that is not
empty, holds no dot and has no blanks at its ends reads as itself (`Path.Plain`), as the names of
members and the indices of siblings do. So a path of such segments is read back from its dotted text
(`Path.parse_text`). All paths that are read from texts are of this kind (`Path.isPlain_parse`).
-/

set_option autoImplicit false

namespace Formwork

namespace Text

/-! ## Pieces and blanks -/

theorem pieces_ne_nil (separator : Char) (text : List Char) : pieces separator text ≠ [] := by
  cases text with
  | nil => simp [pieces]
  | cons character rest =>
      rw [pieces]
      split
      · simp
      · split <;> simp

theorem not_mem_of_mem_pieces {separator : Char} {text piece : List Char} (inside : piece ∈ pieces separator text) :
    separator ∉ piece := by
  induction text generalizing piece with
  | nil =>
      rw [pieces, List.mem_singleton] at inside
      simp [inside]
  | cons character rest ih =>
      rw [pieces] at inside
      split at inside
      · rcases List.mem_cons.mp inside with rfl | inside
        · exact List.not_mem_nil
        · exact ih inside
      · rename_i other
        obtain ⟨first, more, split⟩ := List.exists_cons_of_ne_nil (pieces_ne_nil separator rest)
        rw [split] at inside ih
        rcases List.mem_cons.mp inside with rfl | inside
        · exact List.not_mem_cons_of_ne_of_not_mem (Ne.symm other) (ih List.mem_cons_self)
        · exact ih (List.mem_cons_of_mem _ inside)

/-- The pieces around a separator are those in front of it and those behind it. -/
theorem pieces_append (separator : Char) (first second : List Char) :
    pieces separator (first ++ separator :: second) = pieces separator first ++ pieces separator second := by
  induction first with
  | nil => simp [pieces]
  | cons character rest ih =>
      rw [List.cons_append, pieces, ih, pieces]
      split
      · rfl
      · cases front : pieces separator rest with
        | nil => exact absurd front (pieces_ne_nil separator rest)
        | cons piece more => rfl

/-- A text without the separator is a single piece. -/
theorem pieces_of_not_mem {separator : Char} {text : List Char} (absent : separator ∉ text) :
    pieces separator text = [text] := by
  induction text with
  | nil => rfl
  | cons character rest ih =>
      rw [List.mem_cons, not_or] at absent
      rw [pieces, if_neg (Ne.symm absent.1), ih absent.2]

/-- Texts that are joined with a separator they do not hold are the pieces. -/
theorem pieces_intercalate {separator : Char} {texts : List (List Char)} (some : texts ≠ [])
    (absent : ∀ text ∈ texts, separator ∉ text) : pieces separator ([separator].intercalate texts) = texts := by
  induction texts with
  | nil => exact absurd rfl some
  | cons text rest ih =>
      have alone := pieces_of_not_mem (absent text List.mem_cons_self)
      cases rest with
      | nil => rw [List.intercalate_singleton, alone]
      | cons other others =>
          have behind := ih (by simp) fun later inside => absent later (List.mem_cons_of_mem _ inside)
          rw [List.intercalate_cons_cons, List.append_assoc, List.singleton_append, pieces_append, alone, behind]
          rfl

/-- A text is made of its pieces, with the separator between them. -/
theorem intercalate_pieces (separator : Char) (text : List Char) :
    [separator].intercalate (pieces separator text) = text := by
  induction text with
  | nil => rfl
  | cons character rest ih =>
      obtain ⟨piece, more, found⟩ := List.exists_cons_of_ne_nil (pieces_ne_nil separator rest)
      rw [found] at ih
      rw [pieces, found]
      split
      · rename_i same
        rw [List.intercalate_cons_cons, ih, same]
        rfl
      · cases more with
        | nil => simpa using ih
        | cons other others =>
            rw [List.intercalate_cons_cons] at ih ⊢
            rw [← ih]
            rfl

/-- A character of a text is the separator, or it is in one of the pieces. -/
theorem eq_or_mem_pieces (separator : Char) {character : Char} {text : List Char} (inside : character ∈ text) :
    character = separator ∨ ∃ piece ∈ pieces separator text, character ∈ piece := by
  induction text with
  | nil => cases inside
  | cons first rest ih =>
      rw [pieces]
      split
      · rename_i same
        rcases List.mem_cons.mp inside with rfl | inside
        · exact .inl same
        · rcases ih inside with same | ⟨piece, listed, held⟩
          · exact .inl same
          · exact .inr ⟨piece, List.mem_cons_of_mem _ listed, held⟩
      · cases split : pieces separator rest with
        | nil => exact absurd split (pieces_ne_nil separator rest)
        | cons piece more =>
            rw [split] at ih
            rcases List.mem_cons.mp inside with rfl | inside
            · exact .inr ⟨_, List.mem_cons_self, List.mem_cons_self⟩
            · rcases ih inside with same | ⟨other, listed, held⟩
              · exact .inl same
              · refine .inr ?_
                rcases List.mem_cons.mp listed with rfl | listed
                · exact ⟨_, List.mem_cons_self, List.mem_cons_of_mem _ held⟩
                · exact ⟨other, List.mem_cons_of_mem _ listed, held⟩

/-- The characters of identifiers are neither blank nor dots. -/
theorem not_blank_of_isNameCharacter {character : Char} (named : isNameCharacter character = true) :
    isBlank character = false ∧ character ≠ '.' := by
  constructor
  · have alpha : character.isAlpha = (character.isUpper || character.isLower) := rfl
    have upper : character.isUpper = decide ('A'.val ≤ character.val ∧ character.val ≤ 'Z'.val) := rfl
    have lower : character.isLower =
        (decide ('a'.val ≤ character.val) && decide (character.val ≤ 'z'.val)) := rfl
    simp only [isNameCharacter, Char.isAlphanum, alpha, upper, lower, Char.isDigit, Bool.or_eq_true,
      Bool.and_eq_true, decide_eq_true_eq, UInt32.le_iff_toNat_le, ge_iff_le] at named
    have code : character.val.toNat = character.toNat := rfl
    have lowA : 'A'.val.toNat = 65 := rfl
    have lowZ : 'Z'.val.toNat = 90 := rfl
    have smallA : 'a'.val.toNat = 97 := rfl
    have smallZ : 'z'.val.toNat = 122 := rfl
    have zero : '0'.val.toNat = 48 := rfl
    have nine : '9'.val.toNat = 57 := rfl
    rcases named with (letter | rfl) | rfl
    · have low : 48 ≤ character.toNat ∧ character.toNat ≤ 122 := by omega
      simp only [isBlank, Bool.or_eq_false_iff, Bool.and_eq_false_iff, decide_eq_false_iff_not,
        beq_eq_false_iff_ne]
      omega
    · decide
    · decide
  · rintro rfl
    exact absurd named (by decide)

end Text

namespace Path

/-! ## Reading texts that are joined with dots -/

theorem parse_empty : parse "" = root := rfl

/-- The parts of a text around a dot are read on their own. -/
theorem parse_dot (first second : String) :
    parse (first ++ "." ++ second) = (parse first).extend (parse second) := by
  have around : (first ++ "." ++ second).toList = first.toList ++ '.' :: second.toList := by
    simp
  simp only [parse, around, Text.pieces_append, List.map_append, List.filter_append, extend]

/-- Texts that are joined with dots are read one after the other. -/
theorem parse_intercalate (texts : List String) :
    parse (String.intercalate "." texts) = ⟨texts.flatMap fun text => (parse text).segments⟩ := by
  induction texts with
  | nil => rfl
  | cons text rest ih =>
      cases rest with
      | nil => simp
      | cons other others =>
          rw [String.intercalate_cons_cons, parse_dot, ih]
          rfl

/-! ## Segments that read as themselves -/

/-- A segment that is not empty, holds no dot and has no blanks at its ends. -/
structure Plain (segment : String) : Prop where
  nonempty : segment ≠ ""
  dotless : '.' ∉ segment.toList
  trimmed : Text.trim segment.toList = segment.toList

theorem parse_of_plain {segment : String} (plain : Plain segment) : parse segment = ⟨[segment]⟩ := by
  have some : segment.toList.isEmpty = false := by
    simpa using plain.nonempty
  simp [parse, Text.pieces_of_not_mem plain.dotless, plain.trimmed, plain.nonempty]

/-- A path of plain segments is read back from its dotted text. -/
theorem parse_text {path : Path} (plain : ∀ segment ∈ path.segments, Plain segment) :
    parse path.text = path := by
  obtain ⟨segments⟩ := path
  rw [text, parse_intercalate]
  refine congrArg Path.mk ?_
  calc segments.flatMap (fun text => (parse text).segments)
      = segments.flatMap fun text => [text] :=
        List.flatMap_congr fun segment inside => by rw [parse_of_plain (plain segment inside)]
    _ = segments := List.flatMap_singleton' segments

/-- A segment is plain if there is no dot in it and a character that is not blank at either end. -/
theorem plain_iff_tight {segment : String} : Plain segment ↔ Text.Tight segment.toList ∧ '.' ∉ segment.toList := by
  constructor
  · intro plain
    rcases Text.trim_eq_nil_or_tight segment.toList with nothing | tight
    · rw [plain.trimmed, String.toList_eq_nil_iff] at nothing
      exact absurd nothing plain.nonempty
    · rw [plain.trimmed] at tight
      exact ⟨tight, plain.dotless⟩
  · rintro ⟨tight, dotless⟩
    exact ⟨fun empty => tight.ne_nil (String.toList_eq_nil_iff.mpr empty), dotless, tight.trim_eq⟩

/-- A path of plain segments. -/
def IsPlain (path : Path) : Prop := ∀ segment ∈ path.segments, Plain segment

theorem isPlain_root : root.IsPlain := nofun

theorem isPlain_extend_iff {path other : Path} : (path.extend other).IsPlain ↔ path.IsPlain ∧ other.IsPlain :=
  List.forall_mem_append

/-- A path that is read from a text is plain. -/
theorem isPlain_parse (text : String) : (parse text).IsPlain := by
  intro segment among
  obtain ⟨characters, kept, rfl⟩ := List.mem_map.mp among
  obtain ⟨trimmed, some⟩ := List.mem_filter.mp kept
  obtain ⟨piece, inside, rfl⟩ := List.mem_map.mp trimmed
  rw [plain_iff_tight, String.toList_ofList]
  refine ⟨?_, fun dotted => Text.not_mem_of_mem_pieces inside (Text.mem_of_mem_trim dotted)⟩
  rcases Text.trim_eq_nil_or_tight piece with nothing | tight
  · rw [nothing] at some
    cases some
  · exact tight

/-- The dotted text of a path that was read is read as the same path. -/
theorem parse_text_parse (text : String) : parse (parse text).text = parse text := parse_text (isPlain_parse text)

/-- Two plain paths with one dotted text are the same. -/
theorem text_injective {path other : Path} (plain : path.IsPlain) (plainOther : other.IsPlain)
    (same : path.text = other.text) : path = other := by
  rw [← parse_text plain, ← parse_text plainOther, same]

/-- Identifiers are plain. -/
theorem plain_of_isIdentifier {segment : String} (identifier : Text.isIdentifier segment.toList = true) :
    Plain segment := by
  rw [Text.isIdentifier, Bool.and_eq_true, List.all_eq_true] at identifier
  obtain ⟨some, named⟩ := identifier
  have dense := fun character inside => Text.not_blank_of_isNameCharacter (named character inside)
  refine ⟨?_, fun inside => (dense '.' inside).2 rfl, ?_⟩
  · rintro rfl
    simp at some
  · exact Text.trim_of_not_blank fun character inside => (dense character inside).1

theorem isIdentifier_of_isMemberName {name : String} (named : Text.isMemberName name.toList = true) :
    Text.isIdentifier name.toList = true :=
  (Bool.and_eq_true_iff.mp named).1

theorem plain_of_isMemberName {name : String} (named : Text.isMemberName name.toList = true) :
    Plain name :=
  plain_of_isIdentifier (isIdentifier_of_isMemberName named)

theorem isIdentifier_indexText (index : Nat) : Text.isIdentifier (Text.indexText index).toList = true := by
  have digits : ∀ character ∈ Nat.toDigits 10 index, character.isDigit = true := fun character inside =>
    Nat.isDigit_of_mem_toDigits (by decide) (by decide) inside
  simp only [Text.isIdentifier, Text.indexText, String.toList_ofList, Bool.and_eq_true, List.all_eq_true]
  refine ⟨by simp, fun character inside => ?_⟩
  simp [Text.isNameCharacter, Char.isAlphanum, digits character inside]

theorem plain_indexText (index : Nat) : Plain (Text.indexText index) :=
  plain_of_isIdentifier (isIdentifier_indexText index)

end Path

end Formwork
