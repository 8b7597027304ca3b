import Formwork.Proofs.Expression.Operands
import Formwork.Proofs.Outcomes
import Formwork.Proofs.Text.Splitting

/-!
# The grammar of conditions

A condition is a disjunction of conjunctions of comparisons, each of two negated operands at most or of one, and an
operand is a quoted text, a truth value, a number, a reference with or without its suffix, or a condition in
parentheses, with blanks between all of these (`Derives`). What may stand between two quotes is left open: in the
documented grammar a quotation ends at the first occurrence of its quote (`Documented`).

The reader accepts nothing that cannot be derived (`Derived.of_readNode`). But it takes a text for quoted as soon as
its first and its last character are the same quote, so it accepts quotations that hold their own quote. Whatever is
accepted can be derived in the documented grammar unless this happens (`parse_derives`), and it does happen
(`exists_not_documented`): two texts in quotes with nothing between them but a blank are read as one.
-/

set_option autoImplicit false

namespace Formwork

open Formwork.Text

/-! ## References and lists -/

/-- A reference that is read has a name, and the text is its text, between blanks. -/
theorem Reference.read_eq_ok {text : List Char} {target : Reference} (done : read text = .ok target) :
    target.Named ∧ trim text = target.text.toList := by
  rw [read] at done
  split at done
  · rename_i named
    rw [Bool.and_eq_true, List.all_eq_true] at named
    let dots := (trim text).takeWhile (· == '.')
    let rest := (trim text).dropWhile (· == '.')
    let written : Reference := ⟨dots.length, ⟨(pieces '.' rest).map String.ofList⟩⟩
    have isNamed : written.Named := by
      refine ⟨by simpa [written] using pieces_ne_nil '.' rest, fun segment listed => ?_⟩
      obtain ⟨piece, isPiece, rfl⟩ := List.mem_map.mp listed
      rw [String.toList_ofList]
      exact named.2 piece isPiece
    have path : written.path.text.toList = rest := by
      rw [Path.text, String.toList_intercalate, List.map_map]
      simp [Function.comp_def, intercalate_pieces]
    have same : target = written := by
      have parsed : Path.parse (String.ofList rest) = written.path := by
        rw [← path, String.ofList_toList]
        exact Path.parse_text fun segment listed => Path.plain_of_isIdentifier (isNamed.identifiers segment listed)
      cases done
      exact congrArg (Reference.mk dots.length) parsed
    have areDots : dots = List.replicate dots.length '.' :=
      List.eq_replicate_of_mem fun character inside => by simpa using List.mem_takeWhile_imp inside
    rw [same]
    refine ⟨isNamed, ?_⟩
    rw [Named.text_toList, path, ← areDots]
    exact List.takeWhile_append_dropWhile.symm
  · cases done

/-- The references that can be written are the ones that are read from some text. -/
theorem Reference.named_iff {target : Reference} : target.Named ↔ ∃ text, read text = .ok target :=
  ⟨fun named => ⟨target.text.toList, named.read_text⟩, fun ⟨_, done⟩ => (read_eq_ok done).1⟩

/-- Items that are all read are each read. -/
theorem Text.exists_pairs_of_readEach {α β γ ε : Type} {part : γ → α} {items : List γ} {results : List β}
    {read : (text : α) → text ∈ items.map part → Except ε β}
    (done : readEach (items.map part) read = .ok results) :
    ∃ pairs : List (γ × β), pairs.map Prod.fst = items ∧ pairs.map Prod.snd = results ∧
      ∀ pair ∈ pairs, ∃ member, read (part pair.1) member = .ok pair.2 := by
  induction items generalizing results with
  | nil =>
      cases done
      exact ⟨[], rfl, rfl, by simp⟩
  | cons item rest ih =>
      change readEach (part item :: rest.map part) read = .ok results at done
      rw [readEach] at done
      split at done
      · cases done
      · rename_i first readFirst
        split at done
        · cases done
        · rename_i others readOthers
          cases done
          obtain ⟨pairs, rfl, rfl, reads⟩ := ih readOthers
          refine ⟨(item, first) :: pairs, rfl, rfl, List.forall_mem_cons.mpr ⟨⟨_, readFirst⟩, fun pair inside => ?_⟩⟩
          obtain ⟨member, same⟩ := reads pair inside
          exact ⟨_, same⟩

namespace Expression

/-! ## Derivations -/

/-- How tightly the parts of a condition bind. -/
inductive Level where
  | disjunction
  | conjunction
  | comparison
  | unary

section Grammar

variable (admits : Char → List Char → Prop)

/-- A text is an operand, if only admitted contents stand between quotes. -/
inductive Atom : List Char → Expression → Prop
  | text {quote : Char} {content : List Char} (isQuote : quote = singleQuote ∨ quote = doubleQuote)
      (admitted : admits quote content) :
      Atom (Literal.quoted quote content) (.literal (.text (String.ofList content)))
  | flag (value : Bool) : Atom (Literal.flag value).asText.toList (.literal (.flag value))
  | number {text : List Char} (numeric : isNumeric text = true) :
      Atom text (.literal (.number (String.ofList text)))
  | reference {target : Reference} (named : target.Named) : Atom target.text.toList (.reference target)
  | active {target : Reference} (named : target.Named) {blanks : List Char}
      (blank : ∀ character ∈ blanks, isBlank character = true) :
      Atom (target.text.toList ++ (blanks ++ activeSuffix)) (.active target)

/-- A text can be derived from the grammar, as a condition of a level. -/
inductive Derives : Level → List Char → Expression → Prop
  | spaced {level : Level} {front text back : List Char} {expression : Expression}
      (blankFront : ∀ character ∈ front, isBlank character = true)
      (blankBack : ∀ character ∈ back, isBlank character = true) (derives : Derives level text expression) :
      Derives level (front ++ (text ++ back)) expression
  | any {parts : List (List Char × Expression)} (several : 2 ≤ parts.length)
      (derive : ∀ part ∈ parts, Derives .conjunction part.1 part.2) :
      Derives .disjunction (orOperator.intercalate (parts.map Prod.fst)) (.any (parts.map Prod.snd))
  | conjunction {text : List Char} {expression : Expression} (derives : Derives .conjunction text expression) :
      Derives .disjunction text expression
  | all {parts : List (List Char × Expression)} (several : 2 ≤ parts.length)
      (derive : ∀ part ∈ parts, Derives .comparison part.1 part.2) :
      Derives .conjunction (andOperator.intercalate (parts.map Prod.fst)) (.all (parts.map Prod.snd))
  | comparison {text : List Char} {expression : Expression} (derives : Derives .comparison text expression) :
      Derives .conjunction text expression
  | compare {left right : List Char} {first second : Expression} (comparison : Comparison)
      (deriveLeft : Derives .unary left first) (deriveRight : Derives .unary right second) :
      Derives .comparison (left ++ (comparison.operator.toList ++ right)) (.compare first comparison second)
  | unary {text : List Char} {expression : Expression} (derives : Derives .unary text expression) :
      Derives .comparison text expression
  | not {text : List Char} {expression : Expression} (derives : Derives .unary text expression) :
      Derives .unary ('!' :: text) (.not expression)
  | parentheses {text : List Char} {expression : Expression} (derives : Derives .disjunction text expression) :
      Derives .unary ('(' :: (text ++ [')'])) expression
  | operand {text : List Char} {expression : Expression} (operand : Atom admits text expression) :
      Derives .unary text expression

end Grammar

variable {admits : Char → List Char → Prop}

namespace Derives

theorem of_trim {level : Level} {text : List Char} {expression : Expression}
    (derives : Derives admits level (trim text) expression) : Derives admits level text expression := by
  obtain ⟨front, back, blankFront, blankBack, whole⟩ := exists_margins text
  rw [← whole]
  exact .spaced blankFront blankBack derives

/-- What is left without the negations in front is negated by them. -/
theorem of_stripNegations {text : List Char} {expression : Expression}
    (derives : Derives admits .unary (stripNegations text).2 expression) :
    Derives admits .unary text (negations (stripNegations text).1 expression) := by
  induction text with
  | nil => exact derives
  | cons character rest ih =>
      rw [stripNegations] at derives ⊢
      split
      · rename_i blank
        rw [if_pos blank] at derives
        have spaced := @Derives.spaced admits .unary [character] rest [] _ (by simpa using blank) (by simp) (ih derives)
        rwa [List.append_nil] at spaced
      · rename_i visible
        rw [if_neg visible] at derives
        split
        · rename_i negates
          rw [if_pos negates] at derives
          rw [Bool.and_eq_true, beq_iff_eq] at negates
          rw [negates.1]
          exact .not (ih derives)
        · rename_i other
          rw [if_neg other] at derives
          exact derives

end Derives

/-- What is read as an operand is one. -/
theorem derives_of_readOperand {text : List Char} {expression : Expression} (read : readOperand text = .ok expression)
    (admitted : ∀ quote content, expression = .literal (.text (String.ofList content)) →
      trim text = Literal.quoted quote content → admits quote content) : Derives admits .unary text expression := by
  refine .of_trim ?_
  rw [readOperand] at read
  dsimp only at read
  split at read
  · rename_i content unquoted
    cases read
    obtain ⟨quote, isQuote, same⟩ := unquote_eq_some unquoted
    rw [same]
    exact .operand (.text isQuote (admitted quote content rfl same))
  · split at read
    · rename_i same
      cases read
      rw [same]
      exact .operand (.flag true)
    · split at read
      · rename_i same
        cases read
        rw [same]
        exact .operand (.flag false)
      · split at read
        · rename_i numeric
          cases read
          exact .operand (.number numeric)
        · split at read
          · split at read
            · rename_i suffixed
              obtain ⟨target, readTarget, rfl⟩ := map_eq_ok.mp read
              obtain ⟨named, written⟩ := Reference.read_eq_ok readTarget
              -- There may be blanks between a reference and its suffix.
              obtain ⟨front, blanks, blankFront, blank, path⟩ := exists_margins ((trim text).takeWhile (· != ':'))
              have whole : front ++ (target.text.toList ++ (blanks ++ activeSuffix) ++ []) = trim text := by
                rw [← List.takeWhile_append_dropWhile (p := (· != ':')) (l := trim text), suffixed, ← path, written]
                simp only [List.append_assoc, List.append_nil]
              rw [← whole]
              exact .spaced blankFront (by simp) (.operand (.active named blank))
            · cases read
          · split at read
            · cases read
            · rename_i dense
              obtain ⟨target, readTarget, rfl⟩ := map_eq_ok.mp read
              obtain ⟨named, written⟩ := Reference.read_eq_ok readTarget
              have tight : trim (trim text) = trim text := trim_of_not_blank (by simpa using dense)
              rw [← tight, written]
              exact .operand (.reference named)

/-! ## What is read can be derived -/

mutual
/-- The literals of a condition. -/
def literals : Expression → List Literal
  | .reference _ => []
  | .active _ => []
  | .literal value => [value]
  | .not operand => operand.literals
  | .all operands => literalsAll operands
  | .any operands => literalsAll operands
  | .compare left _ right => left.literals ++ right.literals

/-- The literals of some conditions. -/
def literalsAll : List Expression → List Literal
  | [] => []
  | first :: rest => first.literals ++ literalsAll rest
end

theorem literals_subset_of_mem {operand : Expression} {operands : List Expression} (inside : operand ∈ operands) :
    operand.literals ⊆ literalsAll operands := by
  induction operands with
  | nil => cases inside
  | cons first rest ih =>
      rw [literalsAll]
      rcases List.mem_cons.mp inside with rfl | inside
      · exact List.subset_append_left ..
      · exact List.Subset.trans (ih inside) (List.subset_append_right ..)

theorem literals_negations (count : Nat) (expression : Expression) :
    (negations count expression).literals = expression.literals := by
  induction count with
  | zero => rfl
  | succ count ih => exact ih

/-- Every text of a condition is admitted between the quotes between which it stands in the source. -/
def Admitted (admits : Char → List Char → Prop) (source : List Char) (expression : Expression) : Prop :=
  ∀ quote content, .text (String.ofList content) ∈ expression.literals →
    Literal.quoted quote content <:+: source → admits quote content

theorem Admitted.part {source part : List Char} {expression operand : Expression}
    (admitted : Admitted admits source expression) (inside : part <:+: source)
    (subset : operand.literals ⊆ expression.literals) : Admitted admits part operand :=
  fun quote content listed stands => admitted quote content (subset listed) (stands.trans inside)

/-- A text can be derived as a condition, and as one that binds more tightly if it is free of the looser operators. -/
structure Derived (admits : Char → List Char → Prop) (text : List Char) (expression : Expression) : Prop where
  disjunction : Derives admits .disjunction text expression
  conjunction : breakTopLevel orOperator .top text = none → Derives admits .conjunction text expression
  comparison : breakTopLevel orOperator .top text = none → breakTopLevel andOperator .top text = none →
    Derives admits .comparison text expression

theorem Derived.of_comparison {text : List Char} {expression : Expression}
    (derives : Derives admits .comparison text expression) : Derived admits text expression :=
  ⟨.conjunction (.comparison derives), fun _ => .comparison derives, fun _ _ => derives⟩

theorem Derived.of_trim {text : List Char} {expression : Expression} (derived : Derived admits (trim text) expression) :
    Derived admits text expression :=
  ⟨.of_trim derived.disjunction, fun noOr => .of_trim (derived.conjunction ((isPart_trim text).free noOr)),
    fun noOr noAnd => .of_trim (derived.comparison ((isPart_trim text).free noOr) ((isPart_trim text).free noAnd))⟩

/-! ### The parts of a text -/

theorem trim_isInfix (text : List Char) : trim text <:+: text := (isPart_trim text).isInfix

/-- The sides of an operator stand around it, between blanks. -/
theorem sides?_eq_some {operator text left right : List Char} (found : sides? operator text = some (left, right)) :
    ∃ front back, front ++ (operator ++ back) = text ∧ left = trim front ∧ right = trim back := by
  obtain ⟨⟨front, behind⟩, broken, same⟩ := Option.map_eq_some_iff.mp found
  cases same
  obtain ⟨-, -, back, rfl⟩ := breakTopLevel_eq_some broken
  exact ⟨front, back, append_of_breakTopLevel _ _ _ _ _ broken, rfl, by rw [List.drop_left]⟩

theorem isInfix_of_sides? {operator text left right : List Char} (found : sides? operator text = some (left, right)) :
    left <:+: text ∧ right <:+: text := by
  obtain ⟨front, back, rfl, rfl, rfl⟩ := sides?_eq_some found
  refine ⟨(trim_isInfix front).trans ⟨[], operator ++ back, rfl⟩, (trim_isInfix back).trans ⟨front ++ operator, [], ?_⟩⟩
  simp only [List.append_assoc, List.append_nil]

theorem Derives.of_sides {text left right : List Char} {first second : Expression} {comparison : Comparison}
    (found : sides? comparison.operator.toList text = some (left, right))
    (deriveLeft : Derives admits .unary left first) (deriveRight : Derives admits .unary right second) :
    Derives admits .comparison text (.compare first comparison second) := by
  obtain ⟨front, back, rfl, rfl, rfl⟩ := sides?_eq_some found
  exact .compare comparison (.of_trim deriveLeft) (.of_trim deriveRight)

/-- The operands of an operator are read from the pieces of the text around it. -/
theorem exists_operands {first : Char} {operator text : List Char} (balanced : isBalanced (first :: operator) = true)
    {parts : List (List Char)} (found : splitTopLevel (first :: operator) text = some parts)
    {read : (part : List Char) → part ∈ parts → Except ExpressionError Expression} {operands : List Expression}
    (done : readEach parts read = .ok operands) :
    ∃ pairs : List (List Char × Expression), (first :: operator).intercalate (pairs.map Prod.fst) = text ∧
      pairs.map Prod.snd = operands ∧ 2 ≤ pairs.length ∧
        ∀ pair ∈ pairs, IsPart pair.1 text ∧ breakTopLevel (first :: operator) .top pair.1 = none ∧
          ∃ member, read (trim pair.1) member = .ok pair.2 := by
  obtain ⟨pieces, rfl, several, whole, isPiece⟩ := splitTopLevel_eq_some balanced found
  obtain ⟨pairs, rfl, isOperands, reads⟩ := exists_pairs_of_readEach done
  refine ⟨pairs, whole, isOperands, by simpa using several, fun pair inside => ?_⟩
  obtain ⟨isPart, free⟩ := isPiece pair.1 (List.mem_map_of_mem inside)
  exact ⟨isPart, free, reads pair inside⟩

section Steps

variable {text : List Char} {expression : Expression}

/-- A comparison can be derived if its sides can. -/
theorem Derives.of_readSides {left right : List Char} {comparison : Comparison} {missing : ExpressionError}
    (found : sides? comparison.operator.toList text = some (left, right))
    (read : (if left.isEmpty || right.isEmpty then .error missing
      else do return .compare (← readUnary left) comparison (← readUnary right)) = Except.ok expression)
    (admitted : Admitted admits text expression)
    (unary : ∀ side, side.length ≤ text.length → ∀ operand, readUnary side = .ok operand →
      Admitted admits side operand → Derives admits .unary side operand) :
    Derives admits .comparison text expression := by
  split at read
  · cases read
  · obtain ⟨first, readLeft, read⟩ := bind_eq_ok.mp read
    obtain ⟨second, readRight, read⟩ := bind_eq_ok.mp read
    cases read
    obtain ⟨lengthLeft, lengthRight⟩ := length_le_of_sides? found
    obtain ⟨standsLeft, standsRight⟩ := isInfix_of_sides? found
    exact .of_sides found
      (unary left lengthLeft first readLeft (admitted.part standsLeft (List.subset_append_left ..)))
      (unary right lengthRight second readRight (admitted.part standsRight (List.subset_append_right ..)))

/-- The operands of an operator can be derived from the pieces of the text around it, if each of them can. -/
theorem exists_derived {first : Char} {operator : List Char} (balanced : isBalanced (first :: operator) = true)
    {parts : List (List Char)} (found : splitTopLevel (first :: operator) text = some parts)
    {missing : ExpressionError} {operands : List Expression}
    (done : (readEach parts fun part _ => if part.isEmpty then .error missing else readNode part) = .ok operands)
    (admitted : Admitted admits text (.any operands))
    (node : ∀ part, part.length < text.length → ∀ operand, readNode part = .ok operand →
      Admitted admits part operand → Derived admits part operand) :
    breakTopLevel (first :: operator) .top text ≠ none ∧
      ∃ pairs : List (List Char × Expression), (first :: operator).intercalate (pairs.map Prod.fst) = text ∧
        pairs.map Prod.snd = operands ∧ 2 ≤ pairs.length ∧
          ∀ pair ∈ pairs, IsPart pair.1 text ∧ breakTopLevel (first :: operator) .top pair.1 = none ∧
            Derived admits pair.1 pair.2 := by
  refine ⟨fun free => Option.some_ne_none parts (found.symm.trans (splitTopLevel_eq_none_iff.mpr free)), ?_⟩
  obtain ⟨pairs, whole, rfl, several, reads⟩ := exists_operands balanced found done
  refine ⟨pairs, whole, rfl, several, fun pair inside => ?_⟩
  obtain ⟨isPart, free, member, readPart⟩ := reads pair inside
  split at readPart
  · cases readPart
  · have part := admitted.part ((trim_isInfix pair.1).trans isPart.isInfix)
      (literals_subset_of_mem (List.mem_map_of_mem inside))
    exact ⟨isPart, free, .of_trim (node _ (length_lt_of_mem_splitTopLevel found _ member) _ readPart part)⟩

end Steps

mutual
/-- What is read as a condition can be derived as one. -/
theorem Derived.of_readNode {text : List Char} {expression : Expression} (read : readNode text = .ok expression)
    (admitted : Admitted admits text expression) : Derived admits text expression := by
  have le := length_trim_le text
  have trimmed := admitted.part (trim_isInfix text) (List.Subset.refl _)
  refine .of_trim ?_
  rw [readNode] at read
  split at read
  · cases read
  · split at read
    · rename_i parts orParts
      obtain ⟨operands, done, rfl⟩ := map_eq_ok.mp read
      obtain ⟨occurs, pairs, whole, rfl, several, derived⟩ := exists_derived rfl orParts done trimmed
        fun part shorter operand read admitted => Derived.of_readNode read admitted
      rw [← whole] at occurs ⊢
      have derives := Derives.any several fun pair inside =>
        (derived pair inside).2.2.conjunction (derived pair inside).2.1
      exact ⟨derives, fun noOr => absurd noOr occurs, fun noOr => absurd noOr occurs⟩
    · rename_i noOr
      rw [orOperator, splitTopLevel_eq_none_iff] at noOr
      split at read
      · rename_i parts andParts
        obtain ⟨operands, done, rfl⟩ := map_eq_ok.mp read
        obtain ⟨occurs, pairs, whole, rfl, several, derived⟩ := exists_derived rfl andParts done trimmed
          fun part shorter operand read admitted => Derived.of_readNode read admitted
        have derives := Derives.all several fun pair inside =>
          (derived pair inside).2.2.comparison ((derived pair inside).1.free noOr) (derived pair inside).2.1
        rw [← whole] at occurs ⊢
        exact ⟨.conjunction derives, fun _ => derives, fun _ noAnd => absurd noAnd occurs⟩
      · -- Without `||` and `&&` there is one comparison at most.
        refine .of_comparison ?_
        have unary (side : List Char) (shorter : side.length ≤ (trim text).length) (operand : Expression)
            (read : readUnary side = .ok operand) (admitted : Admitted admits side operand) :
            Derives admits .unary side operand := Derives.of_readUnary read admitted
        split at read
        · rename_i left right sides
          have found : sides? Comparison.unequal.operator.toList (trim text) = some (left, right) := sides
          exact .of_readSides found read trimmed unary
        · split at read
          · rename_i left right sides
            have found : sides? Comparison.equal.operator.toList (trim text) = some (left, right) := sides
            exact .of_readSides found read trimmed unary
          · exact .unary (unary _ le_rfl _ read trimmed)
termination_by 2 * text.length + 1
decreasing_by all_goals omega

/-- What is read as a unary condition can be derived as one. -/
theorem Derives.of_readUnary {text : List Char} {expression : Expression} (read : readUnary text = .ok expression)
    (admitted : Admitted admits text expression) : Derives admits .unary text expression := by
  have le := length_trim_stripNegations_le text
  have stands : trim (stripNegations (trim text)).2 <:+: text :=
    ((trim_isInfix _).trans (stripNegations_isSuffix (trim text)).isInfix).trans (trim_isInfix text)
  refine .of_trim ?_
  rw [readUnary] at read
  split at read
  · split at read
    · cases read
    · obtain ⟨inner, readInner, rfl⟩ := map_eq_ok.mp read
      have part : Admitted admits (trim (stripNegations (trim text)).2) inner :=
        admitted.part stands (by rw [literals_negations]; exact List.Subset.refl _)
      exact .of_stripNegations (.of_trim (Derives.of_readUnary readInner part))
  · rename_i uncounted
    have none : (stripNegations (trim text)).1 = 0 := Nat.eq_zero_of_not_pos uncounted
    have strip (derives : Derives admits .unary (trim (stripNegations (trim text)).2) expression) :
        Derives admits .unary (trim text) expression := by
      have negated := Derives.of_stripNegations (.of_trim derives)
      rwa [none] at negated
    refine strip ?_
    have inner := admitted.part stands (List.Subset.refl _)
    split at read
    · rename_i content unwrapped
      have shorter := length_lt_of_stripParentheses unwrapped
      obtain ⟨content, same, -, rfl⟩ := stripParentheses_eq_some_iff.mp unwrapped
      have isInside : trim content <:+: trim (stripNegations (trim text)).2 := by
        rw [same]
        exact (trim_isInfix content).trans ⟨['('], [')'], rfl⟩
      have derived := Derived.of_readNode read (inner.part isInside (List.Subset.refl _))
      rw [same]
      exact .parentheses (.of_trim derived.disjunction)
    · refine derives_of_readOperand read fun quote content isText written => inner quote content ?_ ?_
      · rw [isText]
        exact List.mem_singleton_self _
      · rw [← written]
        exact trim_isInfix _
termination_by 2 * text.length
decreasing_by all_goals omega
end

/-! ## The documented grammar -/

/-- A text can be derived from the grammar in which a quotation ends at the first occurrence of its quote. -/
def Documented (source : String) (expression : Expression) : Prop :=
  Derives (fun quote content => quote ∉ content) .disjunction source.toList expression

/-- A source is accepted only if it can be derived as what it is parsed as, if anything may stand between two quotes
of a kind. It can be derived in the documented grammar, unless a text of the condition stands in it between two quotes
that this text holds itself. -/
theorem parse_derives {source : String} {expression : Expression} (parsed : parse source = .ok expression) :
    Derives (fun _ _ => True) .disjunction source.toList expression ∧
      ((∀ quote content, .text (String.ofList content) ∈ expression.literals →
        Literal.quoted quote content <:+: source.toList → quote ∉ content) → Documented source expression) := by
  have derives {admits : Char → List Char → Prop} (admitted : Admitted admits source.toList expression) :
      Derives admits .disjunction source.toList expression := by
    rw [parse, read] at parsed
    split at parsed
    · cases parsed
    · split at parsed
      · cases parsed
      · split at parsed
        · cases parsed
        · exact .of_trim (Derived.of_readNode parsed (admitted.part (trim_isInfix _) (List.Subset.refl _))).disjunction
  exact ⟨derives fun _ _ _ _ => trivial, derives⟩

/-- A quoted text with a quote of the other kind in it is parsed and can be derived. -/
theorem parse_derives_apostrophe : ∃ expression,
    parse "kind == \x22it\x27s\x22 && !(.note || ..send:active)" = .ok expression ∧
      Documented "kind == \x22it\x27s\x22 && !(.note || ..send:active)" expression := by
  have accepted : (parse "kind == \x22it\x27s\x22 && !(.note || ..send:active)").toOption.map literals =
      some [.text "it\x27s"] := by decide +kernel
  obtain ⟨expression, parsed, listed⟩ := Option.map_eq_some_iff.mp accepted
  rw [toOption_eq_some] at parsed
  refine ⟨expression, parsed, (parse_derives parsed).2 fun quote content isText stands inside => ?_⟩
  have same : content = "it\x27s".toList := by
    rw [listed] at isText
    simpa using congrArg String.toList (Literal.text.inj (List.mem_singleton.mp isText))
  subst same
  let written := "kind == \x22it\x27s\x22 && !(.note || ..send:active)".toList
  have apart : ("it\x27s".toList.all fun quote =>
      !decide (Literal.quoted quote "it\x27s".toList <:+: written)) = true := by decide +kernel
  have nowhere := List.all_eq_true.mp apart quote inside
  rw [Bool.not_eq_true', decide_eq_false_iff_not] at nowhere
  exact nowhere stands

/-! ## Quotations that do not end -/

/-- An operand that begins with a quote is a quotation. -/
theorem Atom.eq_quoted {quote : Char} (isQuote : quote = singleQuote ∨ quote = doubleQuote) {rest : List Char}
    {expression : Expression} (operand : Atom admits (quote :: rest) expression) :
    ∃ content, rest = content ++ [quote] ∧ admits quote content := by
  have outside : isPlainCharacter quote = false := by
    rcases isQuote with rfl | rfl
    · decide
    · decide
  generalize written : quote :: rest = text at operand
  cases operand with
  | @text other content _ admitted =>
      cases written
      exact ⟨content, rfl, admitted⟩
  | flag value =>
      have plain : ∀ value, (Literal.flag value).asText.toList.all isPlainCharacter = true := by decide +kernel
      exact absurd (List.all_eq_true.mp (plain value) quote (written ▸ List.mem_cons_self)) (by simp [outside])
  | number numeric =>
      exact absurd (isPlainCharacter_of_isNumeric numeric quote (written ▸ List.mem_cons_self)) (by simp [outside])
  | reference named =>
      exact absurd (named.isPlainCharacter_of_mem_text (written ▸ List.mem_cons_self)) (by simp [outside])
  | active named =>
      obtain ⟨first, more, begins⟩ := List.exists_cons_of_ne_nil named.text_ne_nil
      rw [begins, List.cons_append] at written
      cases written
      exact absurd (named.isPlainCharacter_of_mem_text (begins ▸ List.mem_cons_self)) (by simp [outside])

/-- The characters with which operators begin, and the parenthesis. -/
def connectives : List Char := ['|', '&', '=', '!', '(']

theorem mem_intercalate {operator : List Char} {texts : List (List Char)} (several : 2 ≤ texts.length)
    {character : Char} (inside : character ∈ operator) : character ∈ operator.intercalate texts := by
  match texts, several with
  | first :: second :: rest, _ =>
      rw [List.intercalate_cons_cons]
      exact List.mem_append_left _ (List.mem_append_right _ inside)

/-- A text without operators is an operand, between blanks. -/
theorem Derives.exists_operand {level : Level} {text : List Char} {expression : Expression}
    (derives : Derives admits level text expression) (plain : ∀ character ∈ text, character ∉ connectives) :
    ∃ front inner back, (∀ character ∈ front, isBlank character = true) ∧
      (∀ character ∈ back, isBlank character = true) ∧ front ++ (inner ++ back) = text ∧
        Atom admits inner expression := by
  induction derives with
  | @spaced _ front text back _ blankFront blankBack _ ih =>
      obtain ⟨before, inner, behind, blankBefore, blankBehind, rfl, operand⟩ := ih fun character inside =>
        plain character (List.mem_append_right _ (List.mem_append_left _ inside))
      refine ⟨front ++ before, inner, behind ++ back, ?_, ?_, by simp only [List.append_assoc], operand⟩
      · exact List.forall_mem_append.mpr ⟨blankFront, blankBefore⟩
      · exact List.forall_mem_append.mpr ⟨blankBehind, blankBack⟩
  | any several => exact absurd (by decide) (plain '|' (mem_intercalate (by simpa using several) (by decide)))
  | all several => exact absurd (by decide) (plain '&' (mem_intercalate (by simpa using several) (by decide)))
  | compare comparison =>
      have sign : '=' ∈ comparison.operator.toList := by cases comparison <;> decide
      exact absurd (by decide) (plain '=' (List.mem_append_right _ (List.mem_append_left _ sign)))
  | not => exact absurd (by decide) (plain '!' List.mem_cons_self)
  | parentheses => exact absurd (by decide) (plain '(' List.mem_cons_self)
  | conjunction _ ih => exact ih plain
  | comparison _ ih => exact ih plain
  | unary _ ih => exact ih plain
  | operand operand => exact ⟨[], _, [], by simp, by simp, by simp, operand⟩

/-- A text without operators between two quotes of a kind can be derived only if it is admitted between them. -/
theorem Derives.admits_of_quoted {level : Level} {quote : Char} {content : List Char} {expression : Expression}
    (isQuote : quote = singleQuote ∨ quote = doubleQuote) (plain : ∀ character ∈ content, character ∉ connectives)
    (derives : Derives admits level (Literal.quoted quote content) expression) : admits quote content := by
  have visible : isBlank quote = false ∧ quote ∉ connectives := by
    rcases isQuote with rfl | rfl
    · decide
    · decide
  obtain ⟨front, inner, back, blankFront, blankBack, whole, operand⟩ := derives.exists_operand <| by
    simpa [Literal.quoted, visible.2, or_imp, forall_and] using plain
  have noFront : front = [] := by
    cases front with
    | nil => rfl
    | cons character rest =>
        have begins : character = quote := (List.cons.inj whole).1
        exact absurd (blankFront _ List.mem_cons_self) (by simp [begins, visible.1])
  have noBack : back = [] := by
    rcases back.eq_nil_or_concat with none | ⟨rest, character, same⟩
    · exact none
    · rw [List.concat_eq_append] at same
      have last := congrArg List.getLast? whole
      rw [same, Literal.quoted, ← List.cons_append, List.getLast?_concat, ← List.append_assoc, ← List.append_assoc,
        List.getLast?_concat, Option.some.injEq] at last
      exact absurd (blankBack character (by simp [same])) (by simp [last, visible.1])
  rw [noFront, noBack, List.nil_append, List.append_nil] at whole
  subst whole
  obtain ⟨_, same, admitted⟩ := operand.eq_quoted isQuote
  rwa [List.append_left_injective _ same]

/-- Two texts in quotes with a blank between them are accepted as one text, which is no condition of the documented
grammar. -/
theorem exists_not_documented : (∃ expression, parse "\x27a\x27 \x27b\x27" = .ok expression) ∧
    ¬∃ expression, Documented "\x27a\x27 \x27b\x27" expression := by
  constructor
  · have accepted : (parse "\x27a\x27 \x27b\x27").toOption.isSome = true := by decide +kernel
    obtain ⟨expression, parsed⟩ := Option.isSome_iff_exists.mp accepted
    exact ⟨expression, toOption_eq_some.mp parsed⟩
  · rintro ⟨expression, derives⟩
    have admitted := @Derives.admits_of_quoted _ _ singleQuote ['a', singleQuote, ' ', singleQuote, 'b'] _ (.inl rfl)
      (by simp [connectives, singleQuote]) derives
    exact absurd admitted (by decide)

end Expression

end Formwork
