import Formwork.Proofs.Redaction.Leads

/-!
# Redacting twice

What a rule makes of a text is said by three equations: of the empty text, of a lead with a credential behind it
(`apply_lead`), and of a character at which there is none (`apply_cons`). A rule passes over the beginning of a text if
no credential is found in it (`apply_append`), and it changes neither the first character of a text (`head?_apply`) nor
anything else in front of a mark (`exists_of_apply_eq`).

A text is settled for a rule if only marks stand behind its leads (`Settled`). A settled text is left alone
(`apply_of_settled`), a rule settles every text, and what is settled for a rule stays so under the later ones
(`settled_apply`). So redacting a second time changes nothing (`redact_redact`).
-/

set_option autoImplicit false

namespace Formwork.Redaction

open Formwork.Text

/-! ## One rule -/

variable {kind : Kind} {text behind lead : List Char}

namespace Kind

/-- What a rule makes of a text. -/
def apply (kind : Kind) (text : List Char) : List Char := kind.rule.apply text

/-- The characters of a credential at the beginning of a text. -/
def secret (kind : Kind) (text : List Char) : List Char := text.takeWhile kind.rule.isSecret

/-- What is left of a text behind the credential at its beginning. -/
def behindSecret (kind : Kind) (text : List Char) : List Char := text.dropWhile kind.rule.isSecret

/-- Whether what stands at the beginning of a text is replaced behind a lead. -/
def Replaces (kind : Kind) (text : List Char) : Prop := kind.rule.replacesEmpty = true ∨ kind.secret text ≠ []

instance (kind : Kind) (text : List Char) : Decidable (kind.Replaces text) := inferInstanceAs (Decidable (_ ∨ _))

/-- Whether a lead and a credential stand at the beginning of a text. -/
def Hits (kind : Kind) (text : List Char) : Prop :=
  ∃ behind, kind.rule.behindLead? text = some behind ∧ kind.Replaces behind

instance (kind : Kind) (text : List Char) : Decidable (kind.Hits text) :=
  match found : kind.rule.behindLead? text with
  | none => isFalse fun ⟨_, other, _⟩ => nomatch found.symm.trans other
  | some behind => decidable_of_iff (kind.Replaces behind) (by rw [Hits, found]; simp)

end Kind

theorem Lead.behindLead? (isLead : Lead kind lead) (behind : List Char) :
    kind.rule.behindLead? (lead ++ behind) = some behind :=
  behindLead?_eq_some_iff.mpr ⟨lead, isLead, rfl⟩

theorem length_behindLead? (found : kind.rule.behindLead? text = some behind) : behind.length < text.length := by
  obtain ⟨lead, isLead, rfl⟩ := behindLead?_eq_some_iff.mp found
  have some := List.length_pos_iff.mpr isLead.ne_nil
  rw [List.length_append]
  omega

theorem Kind.length_behindSecret_le (kind : Kind) (text : List Char) : (kind.behindSecret text).length ≤ text.length :=
  (text.dropWhile_suffix kind.rule.isSecret).length_le

theorem replaces_iff : kind.Replaces text ↔
    ¬((text.takeWhile kind.rule.isSecret).isEmpty && !kind.rule.replacesEmpty) = true := by
  rw [Kind.Replaces, Kind.secret]
  cases kind.rule.replacesEmpty <;> simp

/-- Any number of steps that is large enough will do. -/
theorem applyUpTo_eq {bound other : Nat} (enough : text.length ≤ bound) (enoughOther : text.length ≤ other) :
    kind.rule.applyUpTo bound text = kind.rule.applyUpTo other text := by
  induction bound generalizing text other with
  | zero =>
      obtain rfl := List.length_eq_zero_iff.mp (Nat.le_zero.mp enough)
      cases other <;> rfl
  | succ bound ih =>
      cases text with
      | nil => cases other <;> rfl
      | cons character rest =>
          cases other with
          | zero => cases enoughOther
          | succ other =>
              have shorter : rest.length ≤ bound ∧ rest.length ≤ other :=
                ⟨Nat.le_of_succ_le_succ enough, Nat.le_of_succ_le_succ enoughOther⟩
              rw [Rule.applyUpTo, Rule.applyUpTo]
              cases found : kind.rule.behindLead? (character :: rest) with
              | none => simp only [ih shorter.1 shorter.2]
              | some behind =>
                  have less := length_behindLead? found
                  have least := kind.length_behindSecret_le behind
                  rw [List.length_cons] at less
                  have further : kind.rule.applyUpTo bound (kind.behindSecret behind) =
                      kind.rule.applyUpTo other (kind.behindSecret behind) := ih (by omega) (by omega)
                  rw [Kind.behindSecret] at further
                  simp only [ih shorter.1 shorter.2, further]

theorem apply_nil : kind.apply [] = [] := rfl

/-- A character stays if no credential is found at it. -/
theorem apply_cons {character : Char} {rest : List Char} (miss : ¬kind.Hits (character :: rest)) :
    kind.apply (character :: rest) = character :: kind.apply rest := by
  rw [Kind.apply, Kind.apply, Rule.apply, Rule.apply, List.length_cons, Rule.applyUpTo]
  cases found : kind.rule.behindLead? (character :: rest) with
  | none => rfl
  | some behind =>
      have empty : ¬kind.Replaces behind := fun replaces => miss ⟨behind, found, replaces⟩
      rw [replaces_iff, not_not] at empty
      exact if_pos empty

/-- A credential is replaced behind its lead. -/
theorem apply_lead (isLead : Lead kind lead) (replaces : kind.Replaces behind) :
    kind.apply (lead ++ behind) = lead ++ (mark ++ kind.apply (kind.behindSecret behind)) := by
  have found := isLead.behindLead? behind
  have front : (lead ++ behind).take ((lead ++ behind).length - behind.length) = lead := by
    rw [List.length_append, Nat.add_sub_cancel, List.take_left]
  obtain ⟨first, more, same⟩ := List.exists_cons_of_ne_nil isLead.ne_nil
  rw [Kind.apply, Rule.apply]
  generalize whole : lead ++ behind = text at found front ⊢
  have split : text = first :: (more ++ behind) := by rw [← whole, same, List.cons_append]
  subst split
  rw [List.length_cons, Rule.applyUpTo]
  have enough : (kind.behindSecret behind).length ≤ (more ++ behind).length := by
    have least := kind.length_behindSecret_le behind
    rw [List.length_append]
    omega
  simp only [found, if_neg (replaces_iff.mp replaces)]
  rw [front, List.append_assoc]
  exact congrArg (fun rest => lead ++ (mark ++ rest)) (applyUpTo_eq enough le_rfl)

/-- A text is gone through from one lead with a credential to the next. -/
theorem apply_induction {motive : List Char → Prop} (nil : motive [])
    (miss : ∀ character rest, ¬kind.Hits (character :: rest) → motive rest → motive (character :: rest))
    (hit : ∀ lead behind, Lead kind lead → kind.Replaces behind → motive (kind.behindSecret behind) →
      motive (lead ++ behind)) (text : List Char) : motive text := by
  induction size : text.length using Nat.strong_induction_on generalizing text with
  | _ size ih =>
      cases text with
      | nil => exact nil
      | cons character rest =>
          by_cases hits : kind.Hits (character :: rest)
          · obtain ⟨behind, found, replaces⟩ := hits
            have less := length_behindLead? found
            have least := kind.length_behindSecret_le behind
            obtain ⟨lead, isLead, split⟩ := behindLead?_eq_some_iff.mp found
            rw [split]
            exact hit lead behind isLead replaces (ih _ (by omega) _ rfl)
          · exact miss character rest hits (ih _ (by rw [← size, List.length_cons]; omega) _ rfl)

/-! ## What a rule leaves as it is -/

/-- A rule leaves the first character of a text, which may be that of a lead. -/
theorem head?_apply (kind : Kind) (text : List Char) : (kind.apply text).head? = text.head? := by
  induction text using @apply_induction kind with
  | nil => rfl
  | miss character rest misses => rw [apply_cons misses, List.head?_cons, List.head?_cons]
  | hit lead behind isLead replaces =>
      obtain ⟨first, more, rfl⟩ := List.exists_cons_of_ne_nil isLead.ne_nil
      rw [apply_lead isLead replaces]
      rfl

/-- No credential is found in the beginning of a text, also none that goes on behind it. -/
def Kind.Passes (kind : Kind) (front rest : List Char) : Prop :=
  ∀ back, back ≠ [] → back <:+ front → ¬kind.Hits (back ++ rest)

/-- No lead begins in the beginning of a text, also none that goes on behind it. -/
def Kind.NoLead (kind : Kind) (front rest : List Char) : Prop :=
  ∀ back, back ≠ [] → back <:+ front → kind.rule.behindLead? (back ++ rest) = none

instance (kind : Kind) (front rest : List Char) : Decidable (kind.Passes front rest) :=
  decidable_of_iff (∀ back ∈ front.tails, back ≠ [] → ¬kind.Hits (back ++ rest))
    ⟨fun among back some suffix => among back ((List.mem_tails back front).mpr suffix) some,
      fun passes back among some => passes back some ((List.mem_tails back front).mp among)⟩

instance (kind : Kind) (front rest : List Char) : Decidable (kind.NoLead front rest) :=
  decidable_of_iff (∀ back ∈ front.tails, back ≠ [] → kind.rule.behindLead? (back ++ rest) = none)
    ⟨fun among back some suffix => among back ((List.mem_tails back front).mpr suffix) some,
      fun noLead back among some => noLead back some ((List.mem_tails back front).mp among)⟩

theorem Kind.NoLead.passes {front rest : List Char} (noLead : kind.NoLead front rest) : kind.Passes front rest := by
  rintro back some suffix ⟨behind, found, -⟩
  exact absurd ((noLead back some suffix).symm.trans found) nofun

/-- A rule passes over a beginning in which it finds nothing. -/
theorem Kind.Passes.apply_append {front rest : List Char} (passes : kind.Passes front rest) :
    kind.apply (front ++ rest) = front ++ kind.apply rest := by
  induction front with
  | nil => rfl
  | cons first front ih =>
      have inner : kind.Passes front rest := fun back some suffix =>
        passes back some (suffix.trans (List.suffix_cons first front))
      have misses : ¬kind.Hits (first :: (front ++ rest)) :=
        passes (first :: front) (List.cons_ne_nil _ _) (List.suffix_refl _)
      rw [List.cons_append, apply_cons misses, ih inner, List.cons_append]

theorem passes_mark (kind : Kind) (rest : List Char) : kind.Passes mark rest :=
  Kind.NoLead.passes fun _ some suffix => behindLead?_mark kind some suffix rest

/-- What a rule makes of a text is the text up to the first mark. -/
theorem exists_of_apply_eq {front rest : List Char} (same : kind.apply text = front ++ rest) (noMark : '<' ∉ front) :
    ∃ more, text = front ++ more := by
  induction text using @apply_induction kind generalizing front with
  | nil => exact ⟨[], by rw [apply_nil] at same; rw [(List.append_eq_nil_iff.mp same.symm).1]; rfl⟩
  | miss character text misses ih =>
      rw [apply_cons misses] at same
      cases front with
      | nil => exact ⟨_, rfl⟩
      | cons first front =>
          obtain ⟨rfl, others⟩ := List.cons.inj same
          obtain ⟨more, rfl⟩ := ih others fun inside => noMark (List.mem_cons_of_mem _ inside)
          exact ⟨more, rfl⟩
  | hit lead behind isLead replaces =>
      rw [apply_lead isLead replaces] at same
      rcases List.append_eq_append_iff.mp same with ⟨between, rfl, split⟩ | ⟨more, rfl, -⟩
      · cases between with
        | nil => exact ⟨behind, by rw [List.append_nil]⟩
        | cons first between =>
            obtain ⟨rfl, -⟩ := List.cons.inj split
            exact absurd (List.mem_append_right _ List.mem_cons_self) noMark
      · exact ⟨more ++ behind, List.append_assoc _ _ _⟩

/-! ## Settled texts -/

/-- What stands behind a lead is a mark, or nothing that is replaced. -/
def Kind.Marked (kind : Kind) (text : List Char) : Prop := kind.secret text = mark ∨ ¬kind.Replaces text

/-- Only marks are left for a rule to replace. -/
def Kind.Settled (kind : Kind) (text : List Char) : Prop :=
  ∀ back, back <:+ text → ∀ behind, kind.rule.behindLead? back = some behind → kind.Marked behind

theorem Kind.Settled.suffix {back : List Char} (settled : kind.Settled text) (suffix : back <:+ text) :
    kind.Settled back := fun inner inside => settled inner (inside.trans suffix)

theorem secret_append_behindSecret (kind : Kind) (text : List Char) :
    kind.secret text ++ kind.behindSecret text = text := List.takeWhile_append_dropWhile

/-- A credential ends where it ends. -/
theorem secret_behindSecret (kind : Kind) (text : List Char) : kind.secret (kind.behindSecret text) = [] := by
  rw [Kind.secret, Kind.behindSecret]
  induction text with
  | nil => rfl
  | cons first rest ih =>
      by_cases isSecret : kind.rule.isSecret first = true
      · rw [List.dropWhile_cons_of_pos isSecret, ih]
      · rw [List.dropWhile_cons_of_neg isSecret, List.takeWhile_cons_of_neg isSecret]

/-- Whether there is a credential at the beginning of a text, its first character tells. -/
theorem secret_eq_nil_congr {other : List Char} (same : text.head? = other.head?) :
    kind.secret text = [] ↔ kind.secret other = [] := by
  rw [Kind.secret, Kind.secret]
  cases text with
  | nil =>
      cases other with
      | nil => rfl
      | cons => cases same
  | cons first rest =>
      cases other with
      | nil => cases same
      | cons second more =>
          obtain rfl := Option.some.inj same
          cases isSecret : kind.rule.isSecret first <;> simp [isSecret]

/-- Behind a mark that is a credential as a whole, and where none goes on, there is a mark. -/
theorem secret_mark_append (within : ∀ character ∈ mark, kind.rule.isSecret character = true)
    (ends : kind.secret text = []) : kind.secret (mark ++ text) = mark := by
  rw [Kind.secret, List.takeWhile_append_of_pos within]
  exact (congrArg (mark ++ ·) ends).trans (List.append_nil mark)

/-- A mark in front of which a credential was is a mark, or no credential to this rule. -/
theorem marked_mark (ends : kind.secret text = []) : kind.Marked (mark ++ text) := by
  cases kind with
  | authorization =>
      have noToken : isTokenCharacter '<' = false := isTokenCharacter_eq_false (by decide) (by decide)
      have noSecret : ¬Kind.authorization.rule.isSecret '<' = true := by
        have same (character : Char) : Kind.authorization.rule.isSecret character = isTokenCharacter character := rfl
        rw [same, noToken]
        exact Bool.false_ne_true
      have split : mark ++ text = '<' :: ("redacted>".toList ++ text) := rfl
      have empty : Kind.authorization.secret (mark ++ text) = [] := by
        rw [split, Kind.secret, List.takeWhile_cons_of_neg noSecret]
      exact .inr fun replaces => replaces.elim nofun fun some => some empty
  | tokenHeader => exact .inl (secret_mark_append (by decide) ends)
  | assignment => exact .inl (secret_mark_append (by decide) ends)
  | jsonMember => exact .inl (secret_mark_append (by decide) ends)

/-- A rule leaves a mark at the beginning of a text, and the absence of a credential there. -/
theorem Kind.Marked.apply (marked : kind.Marked text) (other : Kind) : kind.Marked (other.apply text) := by
  rcases marked with isMark | nothing
  · left
    have within : ∀ character ∈ mark, kind.rule.isSecret character = true := by
      rw [← isMark]
      exact List.all_eq_true.mp List.all_takeWhile
    have split := secret_append_behindSecret kind text
    rw [isMark] at split
    rw [← split, (passes_mark other _).apply_append]
    refine secret_mark_append within ?_
    exact (secret_eq_nil_congr (head?_apply other _)).mpr (secret_behindSecret kind text)
  · right
    intro replaces
    refine nothing (replaces.imp_right fun some nil => some ?_)
    exact (secret_eq_nil_congr (head?_apply other text)).mpr nil

/-- A settled text is left as it is. -/
theorem apply_of_settled (settled : kind.Settled text) : kind.apply text = text := by
  induction text using @apply_induction kind with
  | nil => rfl
  | miss character rest misses ih =>
      rw [apply_cons misses, ih (settled.suffix (List.suffix_cons character rest))]
  | hit lead behind isLead replaces ih =>
      have isMark := (settled _ (List.suffix_refl _) behind (isLead.behindLead? behind)).resolve_right fun nothing =>
        nothing replaces
      have split := secret_append_behindSecret kind behind
      have inner : kind.behindSecret behind <:+ lead ++ behind :=
        (List.dropWhile_suffix _).trans (List.suffix_append lead behind)
      rw [apply_lead isLead replaces, ih (settled.suffix inner), ← isMark, split]

/-- A rule passes over a lead, also of another kind, if it finds no credential behind it. -/
theorem Lead.passes_of_miss {first second : Kind} (isLead : Lead first lead) (misses : ¬second.Hits (lead ++ behind)) :
    second.Passes lead behind := by
  intro back some suffix
  by_cases isWhole : back = lead
  · rwa [isWhole]
  · rintro ⟨_, found, -⟩
    refine absurd ((behindLead?_inside isLead some suffix ?_ behind).symm.trans found) nofun
    by_cases same : second = first
    · refine .inr ⟨fun isMember => misses ⟨behind, ?_, .inl (by rw [same, isMember]; rfl)⟩, isWhole⟩
      rw [same]
      exact isLead.behindLead? behind
    · exact .inl same

/-- A rule settles a text, and so does every later one leave a text that is settled. -/
theorem settled_apply {first second : Kind} (stays : first = second ∨ first.Settled text) :
    first.Settled (second.apply text) := by
  induction text using @apply_induction second with
  | nil =>
      intro back suffix behind found
      have less := length_behindLead? found
      have least := suffix.length_le
      rw [apply_nil, List.length_nil] at least
      omega
  | miss character rest misses ih =>
      have inner : first = second ∨ first.Settled rest :=
        stays.imp_right fun settled => settled.suffix (List.suffix_cons character rest)
      rw [apply_cons misses]
      intro back suffix behind found
      rcases List.suffix_cons_iff.mp suffix with rfl | inRest
      · -- a lead that is there afterwards was there before, and nothing was replaced in it
        rw [← apply_cons misses] at found
        obtain ⟨lead, isLead, split⟩ := behindLead?_eq_some_iff.mp found
        obtain ⟨before, whole⟩ := exists_of_apply_eq split isLead.not_mem_mark
        rw [whole] at misses split stays
        have passes := isLead.passes_of_miss misses
        rw [passes.apply_append, List.append_cancel_left_eq] at split
        rw [← split]
        refine Kind.Marked.apply ?_ second
        rcases stays with rfl | settled
        · exact .inr fun replaces => misses ⟨before, isLead.behindLead? before, replaces⟩
        · exact settled _ (List.suffix_refl _) before (isLead.behindLead? before)
      · exact ih inner back inRest behind found
  | hit lead behind isLead replaces ih =>
      have inner : second.behindSecret behind <:+ lead ++ behind :=
        (List.dropWhile_suffix _).trans (List.suffix_append lead behind)
      have ends : second.secret (second.apply (second.behindSecret behind)) = [] :=
        (secret_eq_nil_congr (head?_apply second _)).mpr (secret_behindSecret second behind)
      rw [apply_lead isLead replaces]
      intro back suffix other found
      rcases suffix_append_cases suffix with ⟨tail, some, inLead, rfl⟩ | suffix
      · by_cases isWhole : first = second ∧ tail = lead
        · obtain ⟨rfl, rfl⟩ := isWhole
          obtain rfl := Option.some.inj ((isLead.behindLead? _).symm.trans found)
          exact marked_mark ends
        · have nothing := behindLead?_insideMarked isLead some inLead isWhole (second.apply (second.behindSecret behind))
          exact absurd (nothing.symm.trans found) nofun
      · rcases suffix_append_cases suffix with ⟨tail, some, inMark, rfl⟩ | inRest
        · exact absurd ((behindLead?_mark first some inMark _).symm.trans found) nofun
        · exact ih (stays.imp_right fun settled => settled.suffix inner) back inRest other found

/-! ## All rules -/

/-- What all rules make of a text, one after the other. -/
def applyAll (text : List Char) : List Char :=
  Kind.jsonMember.apply (Kind.assignment.apply (Kind.tokenHeader.apply (Kind.authorization.apply text)))

theorem redact_eq (text : String) : redact text = String.ofList (applyAll text.toList) := rfl

/-- In the end a text is settled for all rules. -/
theorem settled_applyAll (kind : Kind) (text : List Char) : kind.Settled (applyAll text) := by
  have own (text : List Char) : kind.Settled (kind.apply text) := settled_apply (.inl rfl)
  have kept {text : List Char} (settled : kind.Settled text) (later : Kind) : kind.Settled (later.apply text) :=
    settled_apply (.inr settled)
  cases kind with
  | authorization => exact kept (kept (kept (own text) _) _) _
  | tokenHeader => exact kept (kept (own _) _) _
  | assignment => exact kept (own _) _
  | jsonMember => exact own _

/-- Redacting a second time changes nothing. -/
theorem redact_redact (text : String) : redact (redact text) = redact text := by
  have settled (kind : Kind) : kind.apply (applyAll text.toList) = applyAll text.toList :=
    apply_of_settled (settled_applyAll kind text.toList)
  rw [redact_eq, redact_eq, String.toList_ofList]
  conv_lhs => rw [applyAll, settled, settled, settled, settled]

end Formwork.Redaction
