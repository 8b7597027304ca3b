/-!
# Blank characters

Every reader of this library cuts texts at blank characters and drops them at the
ends of a text. A character is blank when it has the Unicode property `White_Space`.
The module defines the property, the trimming of a text, which removes the blanks
at both ends and nothing else, and the words of a text, its maximal runs of
characters that are not blank.
-/

set_option autoImplicit false

namespace Formwork.Text

/-- What is said of all characters of a text is decided along the text, not over all characters there are. -/
instance (priority := 1100) decidableForallMem (text : List Char) (claim : Char → Prop) [DecidablePred claim] :
    Decidable (∀ character ∈ text, claim character) := List.decidableBAll claim text

/-- The characters with the Unicode property `White_Space`. -/
def isBlank (character : Char) : Bool :=
  let code := character.toNat
  (9 ≤ code && code ≤ 13) || code == 0x20 || code == 0x85 || code == 0xa0 || code == 0x1680 ||
    (0x2000 ≤ code && code ≤ 0x200a) || code == 0x2028 || code == 0x2029 || code == 0x202f ||
    code == 0x205f || code == 0x3000

/-! ## Trimming -/

/-- The text without the blanks in front. -/
def trimStart (text : List Char) : List Char := text.dropWhile isBlank

/-- The text without the blanks at the end. -/
def trimEnd : List Char → List Char
  | [] => []
  | character :: rest =>
    match trimEnd rest with
    | [] => if isBlank character then [] else [character]
    | kept => character :: kept

/-- The text without the blanks at both ends. -/
def trim (text : List Char) : List Char := trimEnd (trimStart text)

theorem length_trimStart_le : ∀ text : List Char, (trimStart text).length ≤ text.length
  | [] => Nat.le_refl _
  | character :: rest => by
      rw [trimStart, List.dropWhile_cons]
      split
      · exact Nat.le_succ_of_le (length_trimStart_le rest)
      · exact Nat.le_refl _

theorem length_trimEnd_le (text : List Char) : (trimEnd text).length ≤ text.length := by
  induction text with
  | nil => exact Nat.le_refl _
  | cons character rest ih =>
    unfold trimEnd
    split
    · split <;> simp
    · simpa using ih

/-- Trimming never lengthens a text. -/
theorem length_trim_le (text : List Char) : (trim text).length ≤ text.length :=
  Nat.le_trans (length_trimEnd_le _) (length_trimStart_le _)

/-- `String` form of `trim`. -/
def trimmed (text : String) : String := String.ofList (trim text.toList)

/-! ## Words -/

/-- Runs of characters that fail `separates`, read from `text` with the run
`current` already under way; empty runs are left out. -/
def runs (separates : Char → Bool) : List Char → List Char → List (List Char)
  | current, [] => if current.isEmpty then [] else [current]
  | current, character :: rest =>
    if separates character then
      if current.isEmpty then runs separates [] rest else current :: runs separates [] rest
    else runs separates (current ++ [character]) rest

/-- The maximal runs of characters that are not blank, in order. -/
def words (text : List Char) : List (List Char) := runs isBlank [] text

/-- The pieces of a text between the separator characters; there is one more piece
than there are separators. -/
def pieces (separator : Char) : List Char → List (List Char)
  | [] => [[]]
  | character :: rest =>
    if character = separator then [] :: pieces separator rest
    else
      match pieces separator rest with
      | [] => [[character]]
      | piece :: more => (character :: piece) :: more

/-- The texts in front of and behind the last separator, if there is one. -/
def splitLast? (separator : Char) : List Char → Option (List Char × List Char)
  | [] => none
  | character :: rest =>
    match splitLast? separator rest with
    | some (before, after) => some (character :: before, after)
    | none => if character = separator then some ([], rest) else none

end Formwork.Text
