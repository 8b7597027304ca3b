import Formwork.Proofs.Redaction.Repeating

/-!
# What redacting hides

Texts that differ in a credential only are redacted to the same text, at each place where a credential is looked for
(`redact_hides`). The rules before that of the place leave the credential as it is, or remove it together with what is in
front of it; the rule of the place removes it; and the later ones no longer see it. For this no lead of another kind may
begin in front of the place and go on in it, or begin in the credential and go on behind it (`Place.Fits`).

Of an authorization the first word is hidden, and what stands behind it is redacted as if nothing were in front of it
(`applyAll_authorization`). So behind a scheme the credential is left (`redact_behind_scheme`).
-/

set_option autoImplicit false

namespace Formwork.Redaction

open Formwork.Text

variable {kind : Kind} {front back rest lead credential : List Char}

/-! ## Texts that are passed over -/

/-- A credential that is found only with what follows has a lead that takes in all of the text in front. -/
theorem Kind.Passes.exists_lead (clean : kind.Passes front []) (some : back ≠ []) (suffix : back <:+ front)
    (hits : kind.Hits (back ++ rest)) : ∃ more behind, Lead kind (back ++ more) ∧ rest = more ++ behind ∧
      (more = [] → kind.rule.replacesEmpty = false) := by
  have misses : ¬kind.Hits (back ++ []) := clean back some suffix
  have closed (isLead : Lead kind back) : kind.rule.replacesEmpty = false :=
    Bool.eq_false_iff.mpr fun replaces => misses ⟨[], isLead.behindLead? [], .inl replaces⟩
  obtain ⟨behind, found, replaces⟩ := hits
  obtain ⟨lead, isLead, split⟩ := behindLead?_eq_some_iff.mp found
  rcases List.append_eq_append_iff.mp split with ⟨more, rfl, rfl⟩ | ⟨inner, rfl, rfl⟩
  · refine ⟨more, behind, isLead, rfl, ?_⟩
    rintro rfl
    exact closed (List.append_nil back ▸ isLead)
  · cases inner with
    | nil =>
        rw [List.append_nil] at closed ⊢
        exact ⟨[], rest, by rwa [List.append_nil], rfl, fun _ => closed isLead⟩
    | cons first inner =>
        refine absurd ⟨first :: inner, ?_, replaces.imp_right fun some nothing => some ?_⟩ misses
        · rw [List.append_nil]
          exact isLead.behindLead? _
        · exact (secret_eq_nil_congr (by rfl)).mp nothing

/-- What ends in a character that is in no lead is passed over, whatever follows. -/
theorem Kind.Passes.of_last {last : Char} (clean : kind.Passes (front ++ [last]) [])
    (outside : ∀ lead, Lead kind lead → last ∉ lead) (rest : List Char) : kind.Passes (front ++ [last]) rest := by
  intro back some suffix hits
  obtain ⟨more, -, isLead, -, -⟩ := clean.exists_lead some suffix hits
  obtain ⟨inner, rfl, -⟩ := (List.suffix_concat_iff.mp suffix).resolve_left some
  exact outside _ isLead (by simp)

/-- Whether a text ends in a lead. -/
def Kind.Opens (kind : Kind) (front : List Char) : Prop := ∃ back, back <:+ front ∧ Lead kind back

/-- What ends in no lead is passed over if all ends of leads clash with what follows. -/
theorem Kind.Passes.of_clash {start : List Char} (clean : kind.Passes front []) (closed : ¬kind.Opens front)
    (clashes : ∀ back more, Lead kind (back ++ more) → more ≠ [] → clash (folded more) (folded start) = true)
    (rest : List Char) : kind.Passes front (start ++ rest) := by
  intro back some suffix hits
  obtain ⟨more, behind, isLead, split, -⟩ := clean.exists_lead some suffix hits
  by_cases nothing : more = []
  · subst nothing
    exact closed ⟨back, suffix, List.append_nil back ▸ isLead⟩
  · exact ne_of_clash (clashes back more isLead nothing) behind rest split.symm

/-- Where no lead begins, none does if a character follows that is in none. -/
theorem Kind.NoLead.of_next (noLead : kind.NoLead front [])
    (outside : ∀ next ∈ rest.head?, ∀ lead, Lead kind lead → next ∉ lead) : kind.NoLead front rest := by
  intro back some suffix
  refine Option.eq_none_iff_forall_ne_some.mpr fun behind found => ?_
  have nothing := noLead back some suffix
  rw [List.append_nil] at nothing
  obtain ⟨lead, isLead, split⟩ := behindLead?_eq_some_iff.mp found
  rcases List.append_eq_append_iff.mp split with ⟨more, rfl, rfl⟩ | ⟨inner, rfl, -⟩
  · cases more with
    | nil =>
        have found := isLead.behindLead? []
        rw [List.append_nil, List.append_nil] at found
        cases nothing.symm.trans found
    | cons next more => exact outside next rfl _ isLead (by simp)
  · cases nothing.symm.trans (isLead.behindLead? inner)

/-- A rule makes no leads in what follows. -/
theorem Kind.NoLead.apply (noLead : kind.NoLead front rest) (other : Kind) : kind.NoLead front (other.apply rest) := by
  intro back some suffix
  refine Option.eq_none_iff_forall_ne_some.mpr fun behind found => ?_
  have nothing := noLead back some suffix
  obtain ⟨lead, isLead, split⟩ := behindLead?_eq_some_iff.mp found
  rcases List.append_eq_append_iff.mp split with ⟨more, rfl, after⟩ | ⟨inner, rfl, -⟩
  · have noMark : '<' ∉ more := fun inside => isLead.not_mem_mark (List.mem_append_right back inside)
    obtain ⟨before, rfl⟩ := exists_of_apply_eq after noMark
    have found := isLead.behindLead? before
    rw [List.append_assoc] at found
    cases nothing.symm.trans found
  · rw [List.append_assoc] at nothing
    cases nothing.symm.trans (isLead.behindLead? _)

/-- Within a lead none of another kind begins. -/
theorem Lead.noLead {other : Kind} (isLead : Lead other lead) (differ : kind ≠ other) (rest : List Char) :
    kind.NoLead lead rest := fun _ some suffix => behindLead?_inside isLead some suffix (.inl differ) rest

/-! ## The characters of leads -/

/-- Neither an end of a line nor a quote is in a word. -/
theorem Lead.not_mem_of_word (isLead : Lead kind lead) (noMember : kind ≠ .jsonMember) {sign : Char}
    (listed : sign ∈ ['\n', '\x22']) : sign ∉ lead := by
  have outside : ∀ kind : Kind, kind ≠ .jsonMember → ∀ sign ∈ ['\n', '\x22'], ∀ word ∈ kind.starts,
      Pattern.fold sign.toNat ∉ word.map Char.toNat := by
    intro kind
    cases kind <;> decide
  cases isLead with
  | word _ inStarts same => exact not_mem_of_folded inStarts same (outside kind noMember sign listed)
  | member => exact absurd rfl noMember

/-- There is a blank in the lead of a header. -/
theorem Lead.blank_mem (isHeader : kind = .authorization ∨ kind = .tokenHeader) (isLead : Lead kind lead) :
    ' ' ∈ lead := by
  have inWords : ∀ kind : Kind, kind = .authorization ∨ kind = .tokenHeader → ∀ word ∈ kind.starts,
      32 ∈ word.map Char.toNat := by
    intro kind
    cases kind <;> decide
  obtain ⟨word, listed, start, more, same, rfl⟩ := isLead.exists_start
  have code := inWords kind isHeader word listed
  rw [← folded_starts listed, ← same] at code
  obtain ⟨character, inside, isBlank⟩ := List.mem_map.mp code
  have blank : character = ' ' := Char.toNat_inj.mp (eq_of_fold_eq (by decide) isBlank)
  exact List.mem_append_left more (blank ▸ inside)

/-! ## Credentials -/

/-- The texts that are taken for credentials at every place. -/
def IsCredential (text : List Char) : Prop := text ≠ [] ∧ ∀ character ∈ text, isTokenCharacter character = true

instance (text : List Char) : Decidable (IsCredential text) := inferInstanceAs (Decidable (_ ∧ _))

theorem isBlank_of_isTokenCharacter {character : Char} (token : isTokenCharacter character = true) :
    isBlank character = false := by
  refine Bool.eq_false_iff.mpr fun blank => ?_
  rcases Bool.or_eq_true_iff.mp token with word | sign
  · have apart : ∀ code ∈ blankCodes, ∀ gap ∈ gaps, code ≤ gap.1 ∨ gap.2 ≤ code := by decide
    exact absurd ((isWord_eq_false (apart _ (mem_blankCodes blank))).symm.trans word) nofun
  · have visible : ∀ sign ∈ ['-', '.', '=', ':', '/', '+'], isBlank sign = false := by decide
    exact absurd ((visible _ (List.contains_iff_mem.mp sign)).symm.trans blank) nofun

/-- A credential is one at every place. -/
theorem IsCredential.isSecret (isCredential : IsCredential credential) (kind : Kind) :
    ∀ character ∈ credential, kind.rule.isSecret character = true := by
  intro character inside
  have token := isCredential.2 character inside
  have visible : (!isBlank character) = true := by rw [isBlank_of_isTokenCharacter token]; rfl
  cases kind with
  | authorization => exact token
  | tokenHeader => exact visible
  | assignment => exact visible
  | jsonMember =>
      have noQuote : isTokenCharacter '\x22' = false := isTokenCharacter_eq_false (by decide) (by decide)
      refine bne_iff_ne.mpr fun isQuote => ?_
      rw [isQuote] at token
      exact absurd (noQuote.symm.trans token) nofun

theorem IsCredential.replaces (isCredential : IsCredential credential) (kind : Kind) (rest : List Char) :
    kind.Replaces (credential ++ rest) := by
  refine .inr fun nothing => isCredential.1 ?_
  rw [Kind.secret, List.takeWhile_append_of_pos (isCredential.isSecret kind)] at nothing
  exact (List.append_eq_nil_iff.mp nothing).1

theorem IsCredential.behindSecret (isCredential : IsCredential credential) (kind : Kind) (rest : List Char) :
    kind.behindSecret (credential ++ rest) = kind.behindSecret rest :=
  List.dropWhile_append_of_pos (isCredential.isSecret kind)

/-- A rule removes a credential behind its lead. -/
theorem apply_credential (isLead : Lead kind lead) (isCredential : IsCredential credential) :
    kind.apply (lead ++ (credential ++ rest)) = lead ++ (mark ++ kind.apply (kind.behindSecret rest)) := by
  rw [apply_lead isLead (isCredential.replaces kind rest), isCredential.behindSecret]

/-- A rule removes a credential behind a text that ends in a lead. -/
theorem apply_opens (noMember : kind ≠ .jsonMember) (clean : kind.Passes front []) (opens : kind.Opens front)
    (isCredential : IsCredential credential) : kind.apply (front ++ (credential ++ rest)) =
      front ++ (mark ++ kind.apply (kind.behindSecret rest)) := by
  obtain ⟨lead, ⟨before, rfl⟩, isLead⟩ := opens
  have passes : kind.Passes before (lead ++ (credential ++ rest)) := by
    intro back some suffix hits
    rw [← List.append_assoc] at hits
    have inFront : back ++ lead <:+ before ++ lead := by
      obtain ⟨start, rfl⟩ := suffix
      exact ⟨start, by simp⟩
    obtain ⟨more, behind, isLonger, split, -⟩ := clean.exists_lead (by simp [some]) inFront hits
    rw [List.append_assoc] at isLonger
    have proper : lead ++ more ≠ back ++ (lead ++ more) := fun same => some (List.self_eq_append_left.mp same)
    have nothing : kind.rule.behindLead? ((lead ++ more) ++ []) = none :=
      behindLead?_inside isLonger (by simp [isLead.ne_nil]) (List.suffix_append _ _) (.inr ⟨noMember, proper⟩) []
    rw [List.append_assoc] at nothing
    exact absurd (nothing.symm.trans (isLead.behindLead? _)) nofun
  rw [List.append_assoc, passes.apply_append, apply_credential isLead isCredential, List.append_assoc]

/-- No lead of a header is within a credential. -/
theorem IsCredential.noLead (isCredential : IsCredential credential)
    (isHeader : kind = .authorization ∨ kind = .tokenHeader) : kind.NoLead credential [] := by
  intro back some suffix
  refine Option.eq_none_iff_forall_ne_some.mpr fun behind found => ?_
  obtain ⟨lead, isLead, split⟩ := behindLead?_eq_some_iff.mp found
  rw [List.append_nil] at split
  have inside : ' ' ∈ back := by
    rw [split]
    exact List.mem_append_left _ (isLead.blank_mem isHeader)
  have noToken : isTokenCharacter ' ' = false := isTokenCharacter_eq_false (by decide) (by decide)
  exact absurd (noToken.symm.trans (isCredential.2 _ (suffix.subset inside))) nofun

/-! ## Places -/

/-- No credential is found in a text. -/
def IsClean (text : List Char) : Prop := ∀ kind : Kind, kind.Passes text []

instance (text : List Char) : Decidable (IsClean text) :=
  decidable_of_iff (∀ kind ∈ Kind.all, kind.Passes text [])
    ⟨fun among kind => among kind (by cases kind <;> decide), fun clean kind _ => clean kind⟩

/-- The last line of a text is ended, so that what follows begins a line. -/
def EndsWithLineEnd (before : List Char) : Prop := ∀ last ∈ before.getLast?, last = '\n'

instance (before : List Char) : Decidable (EndsWithLineEnd before) :=
  inferInstanceAs (Decidable (∀ last ∈ before.getLast?, last = '\n'))

/-- A text begins with the end of the line that it follows on. -/
def BeginsWithLineEnd (after : List Char) : Prop := ∀ next ∈ after.head?, next = '\n'

instance (after : List Char) : Decidable (BeginsWithLineEnd after) :=
  inferInstanceAs (Decidable (∀ next ∈ after.head?, next = '\n'))

/-- Where a credential is expected. -/
inductive Place where
  | authorization
  | tokenHeader
  | assignment
  /-- The string of a member, with blanks in front of the colon and behind it. -/
  | jsonMember (inFront behind : List Char)

namespace Place

/-- What stands in front of the credential. -/
def opening : Place → List Char
  | .authorization => "Authorization: ".toList
  | .tokenHeader => "X-CSRFToken: ".toList
  | .assignment => "FORMSET_CSRF_TOKEN=".toList
  | .jsonMember inFront behind => "\"csrf_token\"".toList ++ (inFront ++ ':' :: (behind ++ ['\x22']))

/-- What stands behind the credential. -/
def closing : Place → List Char
  | .jsonMember _ _ => ['\x22']
  | _ => []

/-- A text with a credential at a place. -/
def text (place : Place) (before credential after : List Char) : List Char :=
  before ++ (place.opening ++ (credential ++ (place.closing ++ after)))

/-- No other lead takes part in what stands around a credential: a header has a line of its own, and no header begins at
the end of what is assigned, nor in front of the name of a member, nor is there an assignment within its string. -/
def Fits (before credential after : List Char) : Place → Prop
  | .authorization => EndsWithLineEnd before
  | .tokenHeader => EndsWithLineEnd before ∧ BeginsWithLineEnd after
  | .assignment => Kind.authorization.NoLead credential after ∧ Kind.tokenHeader.NoLead credential after
  | .jsonMember inFront behind => (∀ character ∈ inFront, isBlank character = true) ∧
      (∀ character ∈ behind, isBlank character = true) ∧ IsClean (before ++ ['\x22']) ∧
      Kind.assignment.NoLead credential []

instance (place : Place) (before credential after : List Char) : Decidable (place.Fits before credential after) :=
  match place with
  | .authorization => inferInstanceAs (Decidable (EndsWithLineEnd before))
  | .tokenHeader => inferInstanceAs (Decidable (_ ∧ _))
  | .assignment => inferInstanceAs (Decidable (_ ∧ _))
  | .jsonMember _ _ => inferInstanceAs (Decidable (_ ∧ _ ∧ _ ∧ _))

end Place

/-! ## Headers -/

/-- Words pass over the lines in front of a line. -/
theorem Kind.Passes.of_endsWithLineEnd {before : List Char} (clean : kind.Passes before [])
    (noMember : kind ≠ .jsonMember) (line : EndsWithLineEnd before) (rest : List Char) : kind.Passes before rest := by
  rcases before.eq_nil_or_concat with rfl | ⟨lines, last, rfl⟩
  · intro back some suffix
    exact absurd (List.suffix_nil.mp suffix) some
  · obtain rfl : last = '\n' := line last (by simp)
    rw [List.concat_eq_append] at clean ⊢
    exact clean.of_last (fun lead isLead => isLead.not_mem_of_word noMember (by decide)) rest

theorem lead_authorization : Lead .authorization Place.authorization.opening :=
  .word nofun (List.mem_singleton_self _) (by decide)

theorem lead_tokenHeader : Lead .tokenHeader Place.tokenHeader.opening :=
  .word nofun (List.mem_singleton_self _) (by decide)

/-- An authorization is removed by the first rule. -/
theorem apply_authorization {before after : List Char} (clean : IsClean before) (isCredential : IsCredential credential)
    (line : EndsWithLineEnd before) : Kind.authorization.apply (Place.authorization.text before credential after) =
      before ++ (Place.authorization.opening ++
        (mark ++ Kind.authorization.apply (Kind.authorization.behindSecret after))) := by
  rw [Place.text, ((clean .authorization).of_endsWithLineEnd nofun line _).apply_append]
  exact congrArg (before ++ ·) (apply_credential lead_authorization isCredential)

/-- The token of a header is left by the first rule and removed by the second one. -/
theorem apply_tokenHeader {before after : List Char} (clean : IsClean before) (isCredential : IsCredential credential)
    (fits : Place.tokenHeader.Fits before credential after) :
    Kind.tokenHeader.apply (Kind.authorization.apply (Place.tokenHeader.text before credential after)) =
      before ++ (Place.tokenHeader.opening ++
        (mark ++ Kind.tokenHeader.apply (Kind.tokenHeader.behindSecret (Kind.authorization.apply after)))) := by
  obtain ⟨line, endsLine⟩ := fits
  have noLead : Kind.authorization.NoLead credential after :=
    (isCredential.noLead (.inl rfl)).of_next fun next first lead isLead =>
      isLead.not_mem_of_word nofun (by rw [endsLine next first]; decide)
  have first : Kind.authorization.apply (Place.tokenHeader.text before credential after) =
      before ++ (Place.tokenHeader.opening ++ (credential ++ Kind.authorization.apply after)) := by
    rw [Place.text, ((clean .authorization).of_endsWithLineEnd nofun line _).apply_append,
      (@Lead.noLead .authorization _ _ lead_tokenHeader nofun _).passes.apply_append]
    exact congrArg (fun rest => before ++ (_ ++ rest)) noLead.passes.apply_append
  rw [first, ((clean .tokenHeader).of_endsWithLineEnd nofun line _).apply_append,
    apply_credential lead_tokenHeader isCredential]

/-- What stands behind the first word of an authorization is redacted as if nothing were in front of it. -/
theorem applyAll_authorization (isCredential : IsCredential credential) (after : List Char) :
    applyAll (Place.authorization.text [] credential after) =
      Place.authorization.opening ++ (mark ++ applyAll (Kind.authorization.behindSecret after)) := by
  have later (kind : Kind) (differ : kind ≠ .authorization) (rest : List Char) :
      kind.apply (Place.authorization.opening ++ (mark ++ rest)) =
        Place.authorization.opening ++ (mark ++ kind.apply rest) := by
    rw [(lead_authorization.noLead differ _).passes.apply_append, (passes_mark kind rest).apply_append]
  have nothing : IsClean [] := fun _ _ some suffix => absurd (List.suffix_nil.mp suffix) some
  have line : EndsWithLineEnd [] := fun _ last => absurd last (Option.not_mem_none _)
  rw [applyAll, apply_authorization nothing isCredential line, List.nil_append, later .tokenHeader (by decide),
    later .assignment (by decide), later .jsonMember (by decide), applyAll]

/-! ## Assignments -/

/-- The name of the variable, up to the word that makes it a secret one. -/
def variableFront : List Char := "FORMSET_CSRF_".toList

theorem opening_assignment : Place.assignment.opening = variableFront ++ "TOKEN=".toList := by decide

theorem lead_assignment : Lead .assignment "TOKEN=".toList :=
  .word nofun (by decide : "token=".toList ∈ secretNames) (by decide)

/-- No word begins in the name of the variable. -/
theorem noLead_variable (noMember : kind ≠ .jsonMember) (rest : List Char) : kind.NoLead variableFront rest := by
  have clashes : ∀ kind : Kind, kind ≠ .jsonMember → ∀ word ∈ kind.starts, ∀ tail ∈ (folded variableFront).tails,
      tail ≠ [] → clash (word.map Char.toNat) tail = true := by
    intro kind
    cases kind <;> decide
  intro back some suffix
  refine behindLead?_eq_none (fun word listed => ?_) rest
  rw [folded_starts listed]
  have among : folded back ∈ (folded variableFront).tails := (List.mem_tails _ _).mpr (suffix.map _)
  exact clashes kind noMember word listed _ among fun nothing => some (List.map_eq_nil_iff.mp nothing)

/-- No word goes on in the name of the variable. -/
theorem clash_variable (noMember : kind ≠ .jsonMember) {more : List Char} (isLead : Lead kind (back ++ more))
    (some : more ≠ []) : clash (folded more) (folded variableFront) = true := by
  have clashes : ∀ kind : Kind, kind ≠ .jsonMember → ∀ word ∈ kind.starts, ∀ tail ∈ (word.map Char.toNat).tails,
      tail ≠ [] → clash tail (folded variableFront) = true := by
    intro kind
    cases kind <;> decide
  generalize whole : back ++ more = lead at isLead
  cases isLead with
  | member => exact absurd rfl noMember
  | word _ listed same =>
      have suffix : more <:+ lead := ⟨back, whole⟩
      have among : folded more <:+ folded lead := suffix.map _
      rw [same, folded_starts listed, ← List.mem_tails] at among
      exact clashes kind noMember _ listed _ among fun nothing => some (List.map_eq_nil_iff.mp nothing)

/-- A rule passes over the name of the variable if the text in front of it does not end in a lead. -/
theorem apply_variable {before : List Char} (clean : kind.Passes before []) (noMember : kind ≠ .jsonMember)
    (closed : ¬kind.Opens before) (rest : List Char) :
    kind.apply (before ++ (variableFront ++ rest)) = before ++ (variableFront ++ kind.apply rest) := by
  have clashes (back more : List Char) (isLead : Lead kind (back ++ more)) (some : more ≠ []) :
      clash (folded more) (folded variableFront) = true := clash_variable noMember isLead some
  rw [(clean.of_clash closed clashes rest).apply_append, (noLead_variable noMember rest).passes.apply_append]

/-- The variable with its value is a credential itself, for a lead in front of it. -/
theorem IsCredential.assignment (isCredential : IsCredential credential) :
    IsCredential (Place.assignment.opening ++ credential) := by
  have letters : ∀ character ∈ Place.assignment.opening, ['-', '.', '=', ':', '/', '+'].contains character = true ∨
      Pattern.isWord character = true := by decide
  refine ⟨fun nothing => isCredential.1 (List.append_eq_nil_iff.mp nothing).2, fun character inside => ?_⟩
  exact (List.mem_append.mp inside).elim (fun among => Bool.or_eq_true_iff.mpr (letters character among).symm)
    (isCredential.2 character)

/-- Behind a lead at the end of the text in front, the variable is removed with its value. -/
theorem apply_opens_assignment {before : List Char} (clean : kind.Passes before []) (noMember : kind ≠ .jsonMember)
    (opens : kind.Opens before) (isCredential : IsCredential credential) (rest : List Char) :
    kind.apply (before ++ (Place.assignment.opening ++ (credential ++ rest))) =
      before ++ (mark ++ kind.apply (kind.behindSecret rest)) := by
  rw [← List.append_assoc _ credential]
  exact apply_opens noMember clean opens isCredential.assignment

/-- The rule of a header removes the variable with its value, or leaves both. -/
theorem apply_header_assignment {before first second : List Char}
    (isHeader : kind = .authorization ∨ kind = .tokenHeader) (clean : kind.Passes before [])
    (isFirst : IsCredential first) (isSecond : IsCredential second)
    (noLeadFirst : kind.NoLead first rest) (noLeadSecond : kind.NoLead second rest) :
    kind.apply (before ++ (Place.assignment.opening ++ (first ++ rest))) =
        kind.apply (before ++ (Place.assignment.opening ++ (second ++ rest))) ∨
      kind.apply (before ++ (Place.assignment.opening ++ (first ++ rest))) =
          before ++ (Place.assignment.opening ++ (first ++ kind.apply rest)) ∧
        kind.apply (before ++ (Place.assignment.opening ++ (second ++ rest))) =
          before ++ (Place.assignment.opening ++ (second ++ kind.apply rest)) := by
  have noMember : kind ≠ .jsonMember := by rcases isHeader with rfl | rfl <;> decide
  have noAssignment : kind ≠ .assignment := by rcases isHeader with rfl | rfl <;> decide
  by_cases opens : kind.Opens before
  · left
    rw [apply_opens_assignment clean noMember opens isFirst, apply_opens_assignment clean noMember opens isSecond]
  · have leaves {credential : List Char} (noLead : kind.NoLead credential rest) :
        kind.apply (before ++ (Place.assignment.opening ++ (credential ++ rest))) =
          before ++ (Place.assignment.opening ++ (credential ++ kind.apply rest)) := by
      rw [opening_assignment, List.append_assoc, List.append_assoc, apply_variable clean noMember opens,
        (lead_assignment.noLead noAssignment _).passes.apply_append, noLead.passes.apply_append]
    exact .inr ⟨leaves noLeadFirst, leaves noLeadSecond⟩

/-- The third rule removes the value of the variable, alone or with the variable. -/
theorem apply_assignment {before first second : List Char} (clean : IsClean before) (isFirst : IsCredential first)
    (isSecond : IsCredential second) (rest : List Char) :
    Kind.assignment.apply (before ++ (Place.assignment.opening ++ (first ++ rest))) =
      Kind.assignment.apply (before ++ (Place.assignment.opening ++ (second ++ rest))) := by
  by_cases opens : Kind.assignment.Opens before
  · rw [apply_opens_assignment (clean .assignment) nofun opens isFirst,
      apply_opens_assignment (clean .assignment) nofun opens isSecond]
  · simp only [opening_assignment, List.append_assoc]
    rw [apply_variable (clean .assignment) nofun opens, apply_variable (clean .assignment) nofun opens,
      apply_credential lead_assignment isFirst, apply_credential lead_assignment isSecond]

/-- What is assigned to the variable is hidden. -/
theorem applyAll_assignment {before after first second : List Char} (clean : IsClean before)
    (isFirst : IsCredential first) (isSecond : IsCredential second)
    (fitsFirst : Place.assignment.Fits before first after) (fitsSecond : Place.assignment.Fits before second after) :
    applyAll (Place.assignment.text before first after) = applyAll (Place.assignment.text before second after) := by
  have split (credential : List Char) : Place.assignment.text before credential after =
      before ++ (Place.assignment.opening ++ (credential ++ after)) := rfl
  rw [applyAll, applyAll, split, split]
  rcases apply_header_assignment (.inl rfl) (clean _) isFirst isSecond fitsFirst.1 fitsSecond.1 with
    same | ⟨left, leftToo⟩
  · rw [same]
  · rw [left, leftToo]
    rcases apply_header_assignment (.inr rfl) (clean _) isFirst isSecond (fitsFirst.2.apply .authorization)
      (fitsSecond.2.apply .authorization) with same | ⟨left, leftToo⟩
    · rw [same]
    · rw [left, leftToo, apply_assignment clean isFirst isSecond]

/-! ## Members -/

theorem lead_jsonMember {inFront behind : List Char} (blankInFront : ∀ character ∈ inFront, isBlank character = true)
    (blankBehind : ∀ character ∈ behind, isBlank character = true) :
    Lead .jsonMember (Place.jsonMember inFront behind).opening := .member rfl blankInFront blankBehind

/-- What is passed over with a quote at its end is passed over in front of the name of a member. -/
theorem Kind.Passes.of_name {before : List Char} (clean : kind.Passes (before ++ ['\x22']) []) (rest : List Char) :
    kind.Passes before ('\x22' :: 'c' :: rest) := by
  intro back some suffix hits
  have inFront : back ++ ['\x22'] <:+ before ++ ['\x22'] := by
    obtain ⟨start, rfl⟩ := suffix
    exact ⟨start, by simp⟩
  have split : back ++ '\x22' :: 'c' :: rest = (back ++ ['\x22']) ++ 'c' :: rest := by simp
  obtain ⟨more, behind, isLead, rest, notEmpty⟩ := clean.exists_lead (by simp) inFront (split ▸ hits)
  by_cases isMember : kind = .jsonMember
  · subst isMember
    cases more with
    | nil => exact absurd (notEmpty rfl) nofun
    | cons next more =>
        obtain ⟨rfl, -⟩ := List.cons.inj rest
        have proper : '\x22' :: 'c' :: more ≠ back ++ ['\x22'] ++ 'c' :: more := fun same =>
          some (by simpa using same)
        have letter : 97 ≤ Pattern.fold 'c'.toNat ∧ Pattern.fold 'c'.toNat ≤ 122 := by decide
        rcases isLead.inner_quote ⟨back, by simp⟩ proper (by decide) with nothing | ⟨_, _, whole, noLetter⟩
        · cases nothing
        · obtain ⟨rfl, -⟩ := List.cons.inj whole
          exact noLetter letter
  · exact isLead.not_mem_of_word isMember (by decide : '\x22' ∈ ['\n', '\x22']) (by simp)

/-- The words pass over a quote. -/
theorem apply_quote (noMember : kind ≠ .jsonMember) (rest : List Char) :
    kind.apply ('\x22' :: rest) = '\x22' :: kind.apply rest := by
  refine apply_cons ?_
  rintro ⟨behind, found, -⟩
  obtain ⟨lead, isLead, split⟩ := behindLead?_eq_some_iff.mp found
  obtain ⟨first, more, rfl⟩ := List.exists_cons_of_ne_nil isLead.ne_nil
  obtain ⟨rfl, -⟩ := List.cons.inj split
  exact isLead.not_mem_of_word noMember (by decide : '\x22' ∈ ['\n', '\x22']) List.mem_cons_self

/-- The words pass over a member, and over a string in which they do not begin. -/
theorem apply_member_of_word {before inFront behind : List Char} (clean : IsClean (before ++ ['\x22']))
    (isLead : Lead .jsonMember (Place.jsonMember inFront behind).opening) (noLead : kind.NoLead credential [])
    (noMember : kind ≠ .jsonMember) (rest : List Char) :
    kind.apply ((Place.jsonMember inFront behind).text before credential rest) =
      (Place.jsonMember inFront behind).text before credential (kind.apply rest) := by
  have noLeadHere : kind.NoLead credential ('\x22' :: rest) := noLead.of_next fun next first lead isWord =>
    isWord.not_mem_of_word noMember (by rw [← Option.some.inj first]; decide)
  have passes (rest : List Char) : kind.Passes before ((Place.jsonMember inFront behind).opening ++ rest) :=
    (clean kind).of_name _
  have closing (rest : List Char) : (Place.jsonMember inFront behind).closing ++ rest = '\x22' :: rest := rfl
  rw [Place.text, Place.text, closing, closing, (passes _).apply_append,
    (isLead.noLead noMember _).passes.apply_append, noLeadHere.passes.apply_append, apply_quote noMember]

/-- The string of a member is hidden. -/
theorem applyAll_jsonMember {before after inFront behind : List Char} (isCredential : IsCredential credential)
    (fits : (Place.jsonMember inFront behind).Fits before credential after) :
    applyAll ((Place.jsonMember inFront behind).text before credential after) =
      before ++ ((Place.jsonMember inFront behind).opening ++ (mark ++ Kind.jsonMember.apply
        ('\x22' :: Kind.assignment.apply (Kind.tokenHeader.apply (Kind.authorization.apply after))))) := by
  obtain ⟨blankInFront, blankBehind, clean, noLead⟩ := fits
  have isLead := lead_jsonMember blankInFront blankBehind
  have passes (rest : List Char) : Kind.jsonMember.Passes before ((Place.jsonMember inFront behind).opening ++ rest) :=
    (clean .jsonMember).of_name _
  have noHeader {kind : Kind} (isHeader : kind = .authorization ∨ kind = .tokenHeader) :=
    apply_member_of_word clean isLead (isCredential.noLead isHeader) (by rcases isHeader with rfl | rfl <;> decide)
  rw [applyAll, noHeader (.inl rfl), noHeader (.inr rfl), apply_member_of_word clean isLead noLead (by decide),
    Place.text, (passes _).apply_append, apply_credential isLead isCredential]
  rfl

/-! ## Any place -/

/-- Texts that differ in a credential only are redacted to the same text, and redacting any text twice is redacting it
once. -/
theorem redact_hides {place : Place} {before after first second : List Char} (clean : IsClean before)
    (isFirst : IsCredential first) (isSecond : IsCredential second) (fitsFirst : place.Fits before first after)
    (fitsSecond : place.Fits before second after) :
    redact (String.ofList (place.text before first after)) = redact (String.ofList (place.text before second after)) ∧
      ∀ text : String, redact (redact text) = redact text := by
  refine ⟨?_, redact_redact⟩
  rw [redact_eq, redact_eq, String.toList_ofList, String.toList_ofList]
  refine congrArg String.ofList ?_
  cases place with
  | authorization =>
      rw [applyAll, applyAll, apply_authorization clean isFirst fitsFirst,
        apply_authorization clean isSecond fitsSecond]
  | tokenHeader =>
      rw [applyAll, applyAll, apply_tokenHeader clean isFirst fitsFirst,
        apply_tokenHeader clean isSecond fitsSecond]
  | assignment => exact applyAll_assignment clean isFirst isSecond fitsFirst fitsSecond
  | jsonMember inFront behind =>
      rw [applyAll_jsonMember isFirst fitsFirst, applyAll_jsonMember isSecond fitsSecond]

/-- The value of the variable is hidden in a line. -/
theorem redact_hides_assignment :
    redact "POST FORMSET_CSRF_TOKEN=abc123 other" = redact "POST FORMSET_CSRF_TOKEN=xyz-7= other" := by
  have alike := @redact_hides .assignment "POST ".toList " other".toList "abc123".toList "xyz-7=".toList
    (by decide +kernel) (by decide +kernel) (by decide +kernel) (by decide +kernel) (by decide +kernel)
  exact alike.1

/-- A scheme is taken for the credential, which is left as it is. -/
theorem redact_behind_scheme : redact "Authorization: Bearer abc" = "Authorization: <redacted> abc" ∧
    redact "Authorization: Bearer abc" ≠ redact "Authorization: Bearer xyz" := by
  have scheme : IsCredential "Bearer".toList := by decide
  have left (text value result : String) (header : text.toList = Place.authorization.text [] "Bearer".toList value.toList)
      (untouched : applyAll (Kind.authorization.behindSecret value.toList) = value.toList)
      (rest : String.ofList (Place.authorization.opening ++ (mark ++ value.toList)) = result) : redact text = result := by
    rw [redact_eq, header, applyAll_authorization scheme, untouched, rest]
  have first : redact "Authorization: Bearer abc" = "Authorization: <redacted> abc" :=
    left _ " abc" _ (by decide) (by decide +kernel) (by decide +kernel)
  have second : redact "Authorization: Bearer xyz" = "Authorization: <redacted> xyz" :=
    left _ " xyz" _ (by decide) (by decide +kernel) (by decide +kernel)
  rw [first, second]
  exact ⟨rfl, by decide⟩

end Formwork.Redaction
