import Mathlib.Data.List.Infix
import Mathlib.Data.List.TakeWhile
import Formwork.Redaction

/-!
# The leads of credentials

A credential is found by the lead in front of it (`Lead`): a fixed word in upper or lower case or, for the member of a
JSON object, its quoted name, a colon and a quote, with blanks in between. Two leads never overlap
(`behindLead?_inside`), except that the quote at the end of a member may be the one at the beginning of another; and no
lead begins in the mark that replaces a credential (`behindLead?_mark`). All of this is a matter of the words alone: two
words cannot begin at one place if they differ where both have a character (`clash`).
-/

set_option autoImplicit false

namespace Formwork.Redaction

open Formwork.Text

/-! ## The tables of characters -/

/-- Nothing is folded to something below the small letters, and up to there only the capital letters are folded. -/
theorem foldRanges_bounds : ∀ range ∈ Pattern.foldRanges, (97 : Int) ≤ range.first + range.distance ∧
    (122 < range.first ∨ (65 ≤ range.first ∧ range.last ≤ 90)) := by decide +kernel

/-- Codes of characters that do not belong to words, in pairs. All characters that do lie between the two of a pair. -/
def gaps : List (Nat × Nat) :=
  [(0x3000, 0x110000), (0xa0, 0x1680), (0x1680, 0x2000), (0x205f, 0x3000), (0x3c, 0x85), (0x202f, 0x205f),
    (0x200a, 0x2028), (0x22, 0x3c)]

/-- What lies in none of the gaps does not belong to words. -/
theorem isWord_eq_false {character : Char}
    (outside : ∀ gap ∈ gaps, character.toNat ≤ gap.1 ∨ gap.2 ≤ character.toNat) : Pattern.isWord character = false := by
  have between : ∀ range ∈ Pattern.wordRanges, ∃ gap ∈ gaps, gap.1 < range.1 ∧ range.2 < gap.2 := by decide +kernel
  refine List.any_eq_false.mpr fun range listed => ?_
  obtain ⟨gap, isGap, front, behind⟩ := between range listed
  have apart := outside gap isGap
  simp only [Bool.and_eq_true, decide_eq_true_eq]
  omega

theorem isTokenCharacter_eq_false {character : Char}
    (outside : ∀ gap ∈ gaps, character.toNat ≤ gap.1 ∨ gap.2 ≤ character.toNat)
    (noSign : ['-', '.', '=', ':', '/', '+'].contains character = false) : isTokenCharacter character = false := by
  rw [isTokenCharacter, isWord_eq_false outside, noSign, Bool.or_self]

/-! ## Words in upper or lower case -/

/-- What a text folds to, character by character. -/
def folded (text : List Char) : List Nat := text.map fun character => Pattern.fold character.toNat

/-- What folds to something below the small letters is not folded at all. -/
theorem eq_of_fold_eq {code target : Nat} (small : target < 97) (same : Pattern.fold code = target) :
    code = target := by
  unfold Pattern.fold at same
  split at same
  · rename_i range found
    have least := (foldRanges_bounds range (List.mem_of_find?_eq_some found)).1
    have holds : range.holds code = true :=
      @List.find?_some _ (fun range : Pattern.FoldRange => range.holds code) _ _ found
    simp only [Pattern.FoldRange.holds, Bool.and_eq_true, decide_eq_true_eq] at holds
    omega
  · exact same

/-- What is at most a small letter is not folded, unless it is a capital letter. -/
theorem fold_eq_self {code : Nat} (small : code ≤ 122) (noCapital : code < 65 ∨ 90 < code) : Pattern.fold code = code := by
  unfold Pattern.fold
  split
  · rename_i range found
    have outside := (foldRanges_bounds range (List.mem_of_find?_eq_some found)).2
    have holds : range.holds code = true :=
      @List.find?_some _ (fun range : Pattern.FoldRange => range.holds code) _ _ found
    simp only [Pattern.FoldRange.holds, Bool.and_eq_true, decide_eq_true_eq] at holds
    omega
  · rfl

/-- The codes of the blanks. -/
def blankCodes : List Nat :=
  [9, 10, 11, 12, 13, 0x20, 0x85, 0xa0, 0x1680, 0x2000, 0x2001, 0x2002, 0x2003, 0x2004, 0x2005, 0x2006, 0x2007, 0x2008,
    0x2009, 0x200a, 0x2028, 0x2029, 0x202f, 0x205f, 0x3000]

theorem mem_blankCodes {character : Char} (blank : isBlank character = true) : character.toNat ∈ blankCodes := by
  simp only [isBlank, Bool.or_eq_true, Bool.and_eq_true, decide_eq_true_eq, beq_iff_eq] at blank
  simp only [blankCodes, List.mem_cons, List.not_mem_nil, or_false]
  omega

/-- Blanks are not folded. -/
theorem fold_of_isBlank {character : Char} (blank : isBlank character = true) :
    Pattern.fold character.toNat = character.toNat := by
  have fixed : ∀ code ∈ blankCodes, Pattern.fold code = code := by decide
  exact fixed _ (mem_blankCodes blank)

/-- A text begins with a word if its beginning folds to the same. -/
theorem behindWord?_eq_some_iff {word text behind : List Char} :
    behindWord? word text = some behind ↔ ∃ front, folded front = folded word ∧ text = front ++ behind := by
  induction word generalizing text with
  | nil =>
      rw [behindWord?, Option.some.injEq]
      constructor
      · rintro rfl
        exact ⟨[], rfl, rfl⟩
      · rintro ⟨front, same, rfl⟩
        rw [List.map_eq_nil_iff.mp same, List.nil_append]
  | cons letter word ih =>
      cases text with
      | nil =>
          refine ⟨nofun, ?_⟩
          rintro ⟨front, same, nothing⟩
          rw [(List.append_eq_nil_iff.mp nothing.symm).1] at same
          cases same
      | cons character text =>
          rw [behindWord?]
          constructor
          · intro found
            split at found
            · rename_i sameLetter
              obtain ⟨front, same, rfl⟩ := ih.mp found
              exact ⟨character :: front, congrArg₂ List.cons sameLetter.symm same, rfl⟩
            · cases found
          · rintro ⟨front, same, split⟩
            cases front with
            | nil => cases same
            | cons first front =>
                obtain ⟨rfl, rfl⟩ := List.cons.inj split
                obtain ⟨sameLetter, same⟩ := List.cons.inj same
                rw [if_pos sameLetter.symm]
                exact ih.mpr ⟨front, same, rfl⟩

/-- Whether two texts differ at a place where both have a character. -/
def clash : List Nat → List Nat → Bool
  | first :: rest, other :: others => first != other || clash rest others
  | _, _ => false

/-- Texts that clash do not begin one text. -/
theorem ne_of_clash {front back : List Char} (clashes : clash (folded front) (folded back) = true)
    (rest more : List Char) : front ++ rest ≠ back ++ more := by
  induction front generalizing back with
  | nil => simp [folded, clash] at clashes
  | cons first front ih =>
      cases back with
      | nil => simp [folded, clash] at clashes
      | cons other back =>
          intro whole
          obtain ⟨rfl, others⟩ := List.cons.inj whole
          have inRest : clash (folded front) (folded back) = true := by simpa [folded, clash] using clashes
          exact ih inRest others

/-! ## Kinds and their leads -/

/-- The kinds of credentials. -/
inductive Kind where
  | authorization
  | tokenHeader
  | assignment
  | jsonMember
deriving DecidableEq

namespace Kind

def rule : Kind → Rule
  | .authorization => Redaction.authorization
  | .tokenHeader => Redaction.tokenHeader
  | .assignment => Redaction.assignment
  | .jsonMember => Redaction.jsonMember

def all : List Kind := [.authorization, .tokenHeader, .assignment, .jsonMember]

/-- The words with which the leads of a kind begin. -/
def starts : Kind → List (List Char)
  | .authorization => ["authorization: ".toList]
  | .tokenHeader => ["x-csrftoken: ".toList]
  | .assignment => secretNames
  | .jsonMember => ["\"csrf_token\"".toList]

end Kind

/-- The words are in lower case, so they fold to themselves. -/
theorem folded_starts {kind : Kind} {word : List Char} (listed : word ∈ kind.starts) :
    folded word = word.map Char.toNat := by
  have lower : ∀ kind : Kind, ∀ word ∈ kind.starts, ∀ letter ∈ word,
      letter.toNat ≤ 122 ∧ (letter.toNat < 65 ∨ 90 < letter.toNat) := by
    intro kind
    cases kind <;> decide
  refine List.map_congr_left fun letter inside => ?_
  obtain ⟨small, noCapital⟩ := lower kind word listed letter inside
  exact fold_eq_self small noCapital

/-- The leads of a kind: a word, or the name of a member up to the quote in front of its value. -/
inductive Lead : Kind → List Char → Prop where
  | word {kind : Kind} {word lead : List Char} (noMember : kind ≠ .jsonMember) (listed : word ∈ kind.starts)
      (same : folded lead = folded word) : Lead kind lead
  | member {name inFront behind : List Char} (same : folded name = folded "\"csrf_token\"".toList)
      (blankInFront : ∀ character ∈ inFront, isBlank character = true)
      (blankBehind : ∀ character ∈ behind, isBlank character = true) :
      Lead .jsonMember (name ++ (inFront ++ ':' :: (behind ++ ['\x22'])))

theorem exists_word_of_secretName {text behind : List Char} :
    assignment.behindLead? text = some behind ↔
      ∃ word ∈ secretNames, ∃ front, folded front = folded word ∧ text = front ++ behind := by
  have apart : ∀ word ∈ secretNames, ∀ other ∈ secretNames, word ≠ other →
      clash (word.map Char.toNat) (other.map Char.toNat) = true := by decide
  constructor
  · intro found
    obtain ⟨word, listed, found⟩ := List.exists_of_findSome?_eq_some found
    exact ⟨word, listed, behindWord?_eq_some_iff.mp found⟩
  · rintro ⟨word, listed, front, same, rfl⟩
    have known : behindWord? word (front ++ behind) = some behind := behindWord?_eq_some_iff.mpr ⟨front, same, rfl⟩
    cases found : assignment.behindLead? (front ++ behind) with
    | none =>
        have nothing := List.findSome?_eq_none_iff.mp found word listed
        exact absurd (nothing.symm.trans known) nofun
    | some other =>
        obtain ⟨otherWord, otherListed, otherFound⟩ := List.exists_of_findSome?_eq_some found
        have sameWord : word = otherWord := by
          by_contra differ
          obtain ⟨otherFront, otherSame, split⟩ := behindWord?_eq_some_iff.mp otherFound
          have clashes := apart word listed otherWord otherListed differ
          rw [← @folded_starts .assignment _ listed, ← @folded_starts .assignment _ otherListed, ← same,
            ← otherSame] at clashes
          exact ne_of_clash clashes _ _ split
        rw [← otherFound, ← sameWord, known]

/-- A blank is none of the characters around it in the lead of a member. -/
theorem dropWhile_blank {blanks : List Char} (blank : ∀ character ∈ blanks, isBlank character = true)
    {first : Char} (visible : isBlank first = false) (rest : List Char) :
    (blanks ++ first :: rest).dropWhile isBlank = first :: rest := by
  rw [List.dropWhile_append_of_pos blank, List.dropWhile_cons_of_neg (by simp [visible])]

/-- The lead of a member is read piece by piece. -/
theorem behindMember?_eq_some_iff {text behind : List Char} :
    behindMember? text = some behind ↔ ∃ lead, Lead .jsonMember lead ∧ text = lead ++ behind := by
  have single (sign : Char) (small : sign.toNat < 97) (fixed : Pattern.fold sign.toNat = sign.toNat)
      {text behind : List Char} : behindWord? [sign] text = some behind ↔ text = sign :: behind := by
    rw [behindWord?_eq_some_iff]
    constructor
    · rintro ⟨front, same, rfl⟩
      obtain ⟨first, rfl⟩ := List.length_eq_one_iff.mp ((List.length_map _).symm.trans (congrArg List.length same))
      have sameCode := eq_of_fold_eq small ((List.cons.inj same).1.trans fixed)
      rw [Char.toNat_inj.mp sameCode, List.singleton_append]
    · rintro rfl
      exact ⟨[sign], rfl, rfl⟩
  simp only [behindMember?, bind, Option.bind_eq_some_iff, @behindWord?_eq_some_iff "\"csrf_token\"".toList,
    single ':' (by decide) (by decide), single '\x22' (by decide) (by decide)]
  constructor
  · rintro ⟨behindName, ⟨name, same, rfl⟩, behindColon, colon, quote⟩
    have blanks (text : List Char) : ∀ character ∈ text.takeWhile isBlank, isBlank character = true :=
      List.all_eq_true.mp List.all_takeWhile
    refine ⟨_, .member same (blanks behindName) (blanks behindColon), ?_⟩
    have first := @List.takeWhile_append_dropWhile _ isBlank behindName
    have second := @List.takeWhile_append_dropWhile _ isBlank behindColon
    rw [colon] at first
    rw [quote] at second
    simp only [List.append_assoc, List.cons_append, List.nil_append, second, first]
  · rintro ⟨lead, isLead, rfl⟩
    cases isLead with
    | word noMember => exact absurd rfl noMember
    | @member name inFront blanks same blankInFront blankBehind =>
        have first : (inFront ++ ':' :: (blanks ++ '\x22' :: behind)).dropWhile isBlank =
            ':' :: (blanks ++ '\x22' :: behind) := dropWhile_blank blankInFront (by decide) _
        refine ⟨inFront ++ ':' :: (blanks ++ '\x22' :: behind), ⟨name, same, by simp⟩,
          blanks ++ '\x22' :: behind, first, dropWhile_blank blankBehind (by decide) _⟩

/-- What is left behind a lead is what follows it. -/
theorem behindLead?_eq_some_iff {kind : Kind} {text behind : List Char} :
    kind.rule.behindLead? text = some behind ↔ ∃ lead, Lead kind lead ∧ text = lead ++ behind := by
  have words (noMember : kind ≠ .jsonMember) : (∃ lead, Lead kind lead ∧ text = lead ++ behind) ↔
      ∃ word ∈ kind.starts, ∃ front, folded front = folded word ∧ text = front ++ behind := by
    constructor
    · rintro ⟨lead, isLead, rfl⟩
      cases isLead with
      | word _ listed same => exact ⟨_, listed, lead, same, rfl⟩
      | member => exact absurd rfl noMember
    · rintro ⟨word, listed, front, same, rfl⟩
      exact ⟨front, .word noMember listed same, rfl⟩
  cases kind with
  | authorization =>
      rw [words nofun]
      exact behindWord?_eq_some_iff.trans (by simp [Kind.starts])
  | tokenHeader =>
      rw [words nofun]
      exact behindWord?_eq_some_iff.trans (by simp [Kind.starts])
  | assignment =>
      rw [words nofun]
      exact exists_word_of_secretName
  | jsonMember => exact behindMember?_eq_some_iff

/-! ## Where no lead begins -/

/-- A suffix of two texts joined is one of the second text, or reaches into the first. -/
theorem suffix_append_cases {back front rest : List Char} (suffix : back <:+ front ++ rest) :
    (∃ inner, inner ≠ [] ∧ inner <:+ front ∧ back = inner ++ rest) ∨ back <:+ rest := by
  obtain ⟨before, whole⟩ := suffix
  rcases List.append_eq_append_iff.mp whole with ⟨inner, rfl, rfl⟩ | ⟨more, -, rfl⟩
  · by_cases nothing : inner = []
    · subst nothing
      exact .inr (List.suffix_refl _)
    · exact .inl ⟨inner, nothing, List.suffix_append _ _, rfl⟩
  · exact .inr (List.suffix_append _ _)

theorem Lead.exists_start {kind : Kind} {lead : List Char} (isLead : Lead kind lead) :
    ∃ word ∈ kind.starts, ∃ front rest, folded front = folded word ∧ lead = front ++ rest := by
  cases isLead with
  | word _ listed same => exact ⟨_, listed, lead, [], same, (List.append_nil lead).symm⟩
  | member same => exact ⟨_, List.mem_singleton_self _, _, _, same, rfl⟩

theorem Lead.ne_nil {kind : Kind} {lead : List Char} (isLead : Lead kind lead) : lead ≠ [] := by
  have some : ∀ kind : Kind, ∀ word ∈ kind.starts, folded word ≠ [] := by
    intro kind
    cases kind <;> decide
  obtain ⟨word, listed, front, rest, same, rfl⟩ := isLead.exists_start
  intro nothing
  rw [(List.append_eq_nil_iff.mp nothing).1] at same
  exact some kind word listed same.symm

/-- A character that folds to no character of the words is in no lead that is a word. -/
theorem not_mem_of_folded {text word : List Char} {kind : Kind} (listed : word ∈ kind.starts)
    (same : folded text = folded word) {character : Char}
    (outside : ∀ word ∈ kind.starts, Pattern.fold character.toNat ∉ word.map Char.toNat) : character ∉ text := by
  intro inside
  have code : Pattern.fold character.toNat ∈ folded text := List.mem_map_of_mem inside
  rw [same, folded_starts listed] at code
  exact outside word listed code

/-- The sign with which the mark begins is in no lead. -/
theorem Lead.not_mem_mark {kind : Kind} {lead : List Char} (isLead : Lead kind lead) : '<' ∉ lead := by
  have outside : ∀ kind : Kind, ∀ word ∈ kind.starts, Pattern.fold '<'.toNat ∉ word.map Char.toNat := by
    intro kind
    cases kind <;> decide
  cases isLead with
  | word _ listed same => exact not_mem_of_folded listed same (outside _)
  | @member name inFront behind same blankInFront blankBehind =>
      have notInName : '<' ∉ name :=
        @not_mem_of_folded _ _ .jsonMember (List.mem_singleton_self _) same _ (outside .jsonMember)
      have notBlank {blanks : List Char} (blank : ∀ character ∈ blanks, isBlank character = true) : '<' ∉ blanks :=
        fun inside => absurd (blank '<' inside) (by decide)
      simp [notInName, notBlank blankInFront, notBlank blankBehind]

/-- No lead begins where all words of its kind clash with the text. -/
theorem behindLead?_eq_none {kind : Kind} {front : List Char}
    (clashes : ∀ word ∈ kind.starts, clash (folded word) (folded front) = true) (rest : List Char) :
    kind.rule.behindLead? (front ++ rest) = none := by
  refine Option.eq_none_iff_forall_ne_some.mpr fun behind found => ?_
  obtain ⟨lead, isLead, split⟩ := behindLead?_eq_some_iff.mp found
  obtain ⟨word, listed, start, more, same, rfl⟩ := isLead.exists_start
  have clashesStart := clashes word listed
  rw [← same] at clashesStart
  rw [List.append_assoc] at split
  exact ne_of_clash clashesStart _ _ split.symm

/-- No lead begins in the mark. -/
theorem behindLead?_mark (kind : Kind) {back : List Char} (some : back ≠ []) (suffix : back <:+ mark)
    (rest : List Char) : kind.rule.behindLead? (back ++ rest) = none := by
  have fixed : folded mark = mark.map Char.toNat := by decide
  have clashes : ∀ kind : Kind, ∀ word ∈ kind.starts, ∀ tail ∈ (mark.map Char.toNat).tails, tail ≠ [] →
      clash (word.map Char.toNat) tail = true := by
    intro kind
    cases kind <;> decide
  refine behindLead?_eq_none (fun word listed => ?_) rest
  have among : folded back <:+ mark.map Char.toNat := fixed ▸ suffix.map _
  rw [folded_starts listed]
  exact clashes kind word listed _ ((List.mem_tails _ _).mpr among) fun nothing => some (List.map_eq_nil_iff.mp nothing)

/-- The words clash with the ends of one another; the quote alone, at which a name ends and another begins, is
excepted. -/
theorem clash_tails {first second : Kind} {word other : List Char} (listed : word ∈ first.starts)
    (otherListed : other ∈ second.starts) {tail : List Nat} (among : tail <:+ folded other) (some : tail ≠ [])
    (apart : first ≠ second ∨ tail ≠ folded other ∧ tail ≠ [34]) : clash (folded word) tail = true := by
  have clashes : ∀ first second : Kind, ∀ word ∈ first.starts, ∀ other ∈ second.starts,
      ∀ tail ∈ (other.map Char.toNat).tails, tail ≠ [] →
        (first ≠ second ∨ tail ≠ other.map Char.toNat ∧ tail ≠ [34]) → clash (word.map Char.toNat) tail = true := by
    intro first second
    cases first <;> cases second <;> decide
  rw [folded_starts otherListed] at among apart
  rw [folded_starts listed]
  exact clashes first second word listed other otherListed tail ((List.mem_tails _ _).mpr among) some apart

/-- The lead of a member is its name, blanks with a colon, and a quote. -/
theorem Lead.exists_member {lead : List Char} (isLead : Lead .jsonMember lead) : ∃ name between,
    folded name = folded "\"csrf_token\"".toList ∧ between ≠ [] ∧
      (∀ character ∈ between, isBlank character = true ∨ character = ':') ∧ lead = name ++ (between ++ ['\x22']) := by
  cases isLead with
  | word noMember => exact absurd rfl noMember
  | @member name inFront behind same blankInFront blankBehind =>
      refine ⟨name, inFront ++ ':' :: behind, same, by simp, fun character inside => ?_, by simp⟩
      rcases List.mem_append.mp inside with inside | inside
      · exact .inl (blankInFront character inside)
      · exact (List.mem_cons.mp inside).elim .inr fun inside => .inl (blankBehind character inside)

/-- What stands between name and quote folds to no letter and to no quote. -/
theorem fold_between {character : Char} (between : isBlank character = true ∨ character = ':') :
    Pattern.fold character.toNat ≠ 34 ∧ ¬(97 ≤ Pattern.fold character.toNat ∧ Pattern.fold character.toNat ≤ 122) := by
  rcases between with blank | rfl
  · rw [fold_of_isBlank blank]
    simp only [isBlank, Bool.or_eq_true, Bool.and_eq_true, decide_eq_true_eq, beq_iff_eq] at blank
    omega
  · decide

/-- A word clashes with every text that does not begin with a letter. -/
theorem clash_letter {kind : Kind} (noMember : kind ≠ .jsonMember) {word : List Char} (listed : word ∈ kind.starts)
    {code : Nat} (noLetter : ¬(97 ≤ code ∧ code ≤ 122)) (codes : List Nat) :
    clash (folded word) (code :: codes) = true := by
  have letters : ∀ kind : Kind, kind ≠ .jsonMember → ∀ word ∈ kind.starts,
      ((word.map Char.toNat).head?.any fun letter => 97 ≤ letter && letter ≤ 122) = true := by
    intro kind
    cases kind <;> decide
  have letter := letters kind noMember word listed
  rw [← folded_starts listed] at letter
  cases codes : folded word with
  | nil =>
      rw [codes] at letter
      cases letter
  | cons first rest =>
      have isLetter : 97 ≤ first ∧ first ≤ 122 := by simpa [codes] using letter
      have differ : first ≠ code := fun same => noLetter (same ▸ isLetter)
      simp [clash, differ]

/-- The words are not in one another, and the lead of a member holds no word. -/
theorem behindLead?_inside {first second : Kind} {lead back : List Char} (isLead : Lead second lead) (some : back ≠ [])
    (suffix : back <:+ lead) (apart : first ≠ second ∨ second ≠ .jsonMember ∧ back ≠ lead) (rest : List Char) :
    first.rule.behindLead? (back ++ rest) = none := by
  have someFolded {text : List Char} (some : text ≠ []) : folded text ≠ [] := fun nothing =>
    some (List.map_eq_nil_iff.mp nothing)
  have clashes {text other : List Char} (listed : other ∈ second.starts) (some : text ≠ [])
      (among : folded text <:+ folded other)
      (apart : first ≠ second ∨ folded text ≠ folded other ∧ folded text ≠ [34]) :
      ∀ word ∈ first.starts, clash (folded word) (folded text) = true := fun word inside =>
    clash_tails inside listed among (someFolded some) apart
  by_cases isMember : second = .jsonMember
  · subst isMember
    have differ : first ≠ .jsonMember := apart.resolve_right fun both => both.1 rfl
    obtain ⟨name, between, same, -, blank, rfl⟩ := isLead.exists_member
    rcases suffix_append_cases suffix with ⟨inner, someInner, inName, rfl⟩ | inTail
    · rw [List.append_assoc]
      refine behindLead?_eq_none (clashes (List.mem_singleton_self _) someInner ?_ (.inl differ)) _
      rw [← same]
      exact inName.map _
    · obtain ⟨character, more, rfl⟩ := List.exists_cons_of_ne_nil some
      have noLetter : ¬(97 ≤ Pattern.fold character.toNat ∧ Pattern.fold character.toNat ≤ 122) := by
        rcases List.mem_append.mp (inTail.subset List.mem_cons_self) with inside | inside
        · exact (fold_between (blank character inside)).2
        · rw [List.mem_singleton.mp inside]
          decide
      exact @behindLead?_eq_none first (character :: more)
        (fun word listed => clash_letter differ listed noLetter (folded more)) rest
  · cases isLead with
    | member => exact absurd rfl isMember
    | @word _ word _ _ listed same =>
        have among : folded back <:+ folded word := same ▸ suffix.map _
        refine behindLead?_eq_none
          (clashes listed some among (apart.imp_right fun proper => ⟨fun whole => ?_, ?_⟩)) rest
        · have lengths : back.length = lead.length := by
            simpa [folded] using congrArg List.length (whole.trans same.symm)
          exact proper.2 (suffix.eq_of_length lengths)
        · have noQuote : ∀ kind : Kind, kind ≠ .jsonMember → ∀ word ∈ kind.starts, 34 ∉ word.map Char.toNat := by
            intro kind
            cases kind <;> decide
          intro isQuote
          rw [isQuote, folded_starts listed] at among
          exact noQuote second isMember word listed (among.subset (List.mem_singleton_self 34))

/-- Within the lead of a member, no letter follows a quote. -/
theorem Lead.inner_quote {lead rest : List Char} {first : Char} (isLead : Lead .jsonMember lead)
    (suffix : first :: rest <:+ lead) (proper : first :: rest ≠ lead) (quote : Pattern.fold first.toNat = 34) :
    rest = [] ∨ ∃ second more, rest = second :: more ∧
      ¬(97 ≤ Pattern.fold second.toNat ∧ Pattern.fold second.toNat ≤ 122) := by
  obtain ⟨name, between, same, someBetween, blank, rfl⟩ := isLead.exists_member
  rcases suffix_append_cases suffix with ⟨inner, someInner, inName, split⟩ | inTail
  · obtain ⟨head, tail, rfl⟩ := List.exists_cons_of_ne_nil someInner
    obtain ⟨rfl, rfl⟩ := List.cons.inj split
    -- a quote at which the name does not begin is the one at its end
    have quotes : ∀ codes ∈ ("\"csrf_token\"".toList.map Char.toNat).tails, codes.head? = some 34 →
        codes = [34] ∨ codes = "\"csrf_token\"".toList.map Char.toNat := by decide
    have among : folded (first :: tail) <:+ "\"csrf_token\"".toList.map Char.toNat := by
      rw [← @folded_starts .jsonMember _ (List.mem_singleton_self _), ← same]
      exact inName.map _
    rcases quotes _ ((List.mem_tails _ _).mpr among) (congrArg some quote) with last | whole
    · obtain rfl : tail = [] := List.map_eq_nil_iff.mp (List.cons.inj last).2
      obtain ⟨second, more, rfl⟩ := List.exists_cons_of_ne_nil someBetween
      exact .inr ⟨second, more ++ ['\x22'], rfl, (fold_between (blank second List.mem_cons_self)).2⟩
    · rw [← @folded_starts .jsonMember _ (List.mem_singleton_self _), ← same] at whole
      have lengths : (first :: tail).length = name.length := by simpa [folded] using congrArg List.length whole
      exact absurd (congrArg (· ++ _) (inName.eq_of_length lengths)) proper
  · rcases suffix_append_cases inTail with ⟨inner, someInner, inBetween, split⟩ | last
    · obtain ⟨head, tail, rfl⟩ := List.exists_cons_of_ne_nil someInner
      obtain ⟨rfl, -⟩ := List.cons.inj split
      exact absurd quote (fold_between (blank first (inBetween.subset List.mem_cons_self))).1
    · have length := last.length_le
      exact .inl (List.length_eq_zero_iff.mp (Nat.le_zero.mp (Nat.le_of_succ_le_succ length)))

/-- Within the lead of a member no other one begins, unless at its last quote; and there the mark follows. -/
theorem behindLead?_insideMember {lead back : List Char} (isLead : Lead .jsonMember lead) (some : back ≠ [])
    (suffix : back <:+ lead) (proper : back ≠ lead) (rest : List Char) :
    jsonMember.behindLead? (back ++ '<' :: rest) = none := by
  have clashing {text : List Char} (clashes : clash (folded "\"csrf_token\"".toList) (folded text) = true)
      (rest : List Char) : jsonMember.behindLead? (text ++ rest) = none :=
    @behindLead?_eq_none .jsonMember text (fun word listed => by rwa [List.mem_singleton.mp listed]) rest
  obtain ⟨codes, quoted⟩ : ∃ codes, folded "\"csrf_token\"".toList = 34 :: 99 :: codes :=
    ⟨(folded "\"csrf_token\"".toList).drop 2, by decide⟩
  obtain ⟨first, tail, rfl⟩ := List.exists_cons_of_ne_nil some
  by_cases quote : Pattern.fold first.toNat = 34
  · rcases isLead.inner_quote suffix proper quote with rfl | ⟨second, more, rfl, noLetter⟩
    · have split : [first] ++ '<' :: rest = [first, '<'] ++ rest := rfl
      rw [split]
      refine clashing ?_ _
      have differ : 99 ≠ Pattern.fold '<'.toNat := by decide
      rw [quoted]
      simp only [clash, folded, List.map_cons, Bool.or_eq_true, bne_iff_ne]
      exact .inr (.inl differ)
    · have split : first :: second :: more ++ '<' :: rest = [first, second] ++ (more ++ '<' :: rest) := rfl
      rw [split]
      refine clashing ?_ _
      have differ : 99 ≠ Pattern.fold second.toNat := fun same => noLetter (by omega)
      rw [quoted]
      simp only [clash, folded, List.map_cons, Bool.or_eq_true, bne_iff_ne]
      exact .inr (.inl differ)
  · refine clashing ?_ _
    rw [quoted]
    simp only [clash, folded, List.map_cons, Bool.or_eq_true, bne_iff_ne]
    exact .inl (Ne.symm quote)

/-- Within a lead with a mark behind it only the lead itself begins. -/
theorem behindLead?_insideMarked {first second : Kind} {lead back : List Char} (isLead : Lead second lead)
    (some : back ≠ []) (suffix : back <:+ lead) (proper : ¬(first = second ∧ back = lead)) (rest : List Char) :
    first.rule.behindLead? (back ++ (mark ++ rest)) = none := by
  by_cases members : first = .jsonMember ∧ second = .jsonMember
  · obtain ⟨rfl, rfl⟩ := members
    exact behindLead?_insideMember isLead some suffix (fun whole => proper ⟨rfl, whole⟩) _
  · refine behindLead?_inside isLead some suffix ?_ _
    by_cases same : first = second
    · subst same
      exact .inr ⟨fun isMember => members ⟨isMember, isMember⟩, fun whole => proper ⟨rfl, whole⟩⟩
    · exact .inl same

end Formwork.Redaction
