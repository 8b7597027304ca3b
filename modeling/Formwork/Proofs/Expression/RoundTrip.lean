import Formwork.Proofs.Expression.Reading

/-!
# Printed conditions are read back

Whatever a condition is made of, its text is read as the condition again (`parse_print`), in every style of
printing: with any choice of quotes that the quoted texts do not hold, and with any blanks around the operators.
What a condition must be made of is only that it can be written at all (`Printable`).

The argument is one step for each way to build a condition. A text that stands for a condition is balanced and
shows on its top level no operator that binds more loosely than the condition (`Stands`); in a context, it shows
none that binds as loosely as the context, because it is in parentheses where it would (`Stands.inContext`). So
the search that the reader begins with finds the operator the printer has written, and no other.
-/

set_option autoImplicit false

namespace Formwork

open Formwork.Text

namespace Expression

/-! ## Texts that stand for conditions -/

theorem tightness_le (expression : Expression) : expression.tightness ≤ 4 := by
  cases expression <;> simp [tightness]

/-- The operators that are searched for, each with how tightly a condition has to bind to be free of them on its
top level. -/
def searched : List (Nat × List Char) :=
  unsupportedOperators.map (fun operator => (0, operator.toList)) ++
    [(1, orOperator), (2, andOperator), (3, unequalOperator), (3, equalOperator)]

/-- A text that may stand for a condition which binds as tightly as given. -/
structure Stands (tightness : Nat) (text : List Char) : Prop where
  tight : Tight text
  balanced : isBalanced text = true
  passes : ∀ entry ∈ searched, entry.1 ≤ tightness → passesOver entry.2 .top text = true
  noEqual : text.head? ≠ some '='
  noNegation : 4 ≤ tightness → text.head? ≠ some '!'

/-- An operator begins with a character that is no blank, quote or parenthesis, and that no operand is written
with. -/
theorem exists_first_of_searched {entry : Nat × List Char} (listed : entry ∈ searched) :
    ∃ first rest, entry.2 = first :: rest ∧ isBlank first = false ∧ Nesting.top.isMark first = false ∧
      isOperandCharacter first = false := by
  have begins : ∀ entry ∈ searched, (entry.2.head?.any fun first =>
      !isBlank first && (!Nesting.top.isMark first && !isOperandCharacter first)) = true := by decide
  obtain ⟨first, isFirst, outside⟩ := (Option.any_eq_true _ _).mp (begins entry listed)
  obtain ⟨rest, written⟩ := List.head?_eq_some_iff.mp isFirst
  rw [Bool.and_eq_true, Bool.and_eq_true, Bool.not_eq_true', Bool.not_eq_true', Bool.not_eq_true'] at outside
  exact ⟨first, rest, written, outside⟩

/-- Behind `!` or `=`, an operator goes on with an equals sign, and one that binds more loosely than a comparison
with two. -/
theorem rest_of_searched {entry : Nat × List Char} (listed : entry ∈ searched) {first : Char} {rest : List Char}
    (isOperator : entry.2 = first :: rest) (begins : first = '!' ∨ first = '=') :
    (∃ more, rest = '=' :: more) ∧ (entry.1 ≤ 2 → rest = ['=', '=']) := by
  have goesOn : ∀ entry ∈ searched, entry.2.head? = some '!' ∨ entry.2.head? = some '=' →
      entry.2.tail.head? = some '=' ∧ (entry.1 ≤ 2 → entry.2.tail = ['=', '=']) := by decide
  have known := goesOn entry listed (by simpa [isOperator] using begins)
  rw [isOperator, List.tail_cons] at known
  exact ⟨List.head?_eq_some_iff.mp known.1, known.2⟩

theorem not_meets_of_head {text more : List Char} (some : text ≠ []) (noEqual : text.head? ≠ Option.some '=') :
    ¬Meets ('=' :: more) text := by
  obtain ⟨character, rest, rfl⟩ := List.exists_cons_of_ne_nil some
  exact fun meets => noEqual (congrArg Option.some (meets_cons.mp meets).1.symm)

theorem head?_ne_of_unquoted {text : List Char} (written : ∀ character ∈ text, isOperandCharacter character = true)
    {special : Char} (outside : isOperandCharacter special = false) : text.head? ≠ some special :=
  fun first => ne_of_isOperandCharacter (written special (List.mem_of_mem_head? first)) outside rfl

namespace Stands

variable {tightness : Nat} {text : List Char}

theorem anti (stands : Stands tightness text) {looser : Nat} (le : looser ≤ tightness) : Stands looser text :=
  { stands with
    passes := fun entry listed loose => stands.passes entry listed (loose.trans le)
    noNegation := fun binds => stands.noNegation (binds.trans le) }

theorem whole (stands : Stands tightness text) {entry : Nat × List Char} (listed : entry ∈ searched)
    (loose : entry.1 ≤ tightness) : Whole entry.2 text :=
  ⟨stands.balanced, stands.passes entry listed loose⟩

/-- Parentheses make a text bind as tightly as an operand. -/
theorem parenthesized (stands : Stands tightness text) (within : Nat) :
    Stands within (Expression.parenthesized text) where
  tight := .between text (by decide) (by decide)
  balanced := isBalanced_parentheses stands.balanced
  passes _ _ _ := passesOver_parentheses stands.balanced
  noEqual := by simp [Expression.parenthesized]
  noNegation _ := by simp [Expression.parenthesized]

/-- In a context, a text binds tighter than the context. -/
theorem inContext (stands : Stands tightness text) (context : Nat) :
    Stands (context + 1) (Expression.inContext context tightness text) := by
  unfold Expression.inContext
  split
  · rename_i tighter
    exact stands.anti tighter
  · exact stands.parenthesized _

/-- A text without quotes, blanks and operators may stand for an operand. -/
theorem of_unquoted (some : text ≠ []) (written : ∀ character ∈ text, isOperandCharacter character = true)
    (within : Nat) : Stands within text := by
  have ne {special : Char} (outside : isOperandCharacter special = false) := head?_ne_of_unquoted written outside
  refine ⟨.of_not_blank some fun character inside => not_blank_of_isOperandCharacter (written character inside),
    isBalanced_of_not_mark fun character inside => not_mark_of_isOperandCharacter (written character inside), ?_,
    ne (by decide), fun _ => ne (by decide)⟩
  intro entry listed _
  obtain ⟨first, rest, isOperator, -, -, outside⟩ := exists_first_of_searched listed
  rw [isOperator]
  exact passesOver_of_not_mem fun inside => ne_of_isOperandCharacter (written first inside) outside rfl

/-- A text in quotes that it does not hold may stand for an operand. -/
theorem of_quoted {quote : Char} (isQuote : quote = singleQuote ∨ quote = doubleQuote) {content : List Char}
    (absent : quote ∉ content) (within : Nat) : Stands within (Literal.quoted quote content) where
  tight := Literal.tight_quoted isQuote content
  balanced := isBalanced_quotes isQuote absent
  passes _ _ _ := passesOver_quotes isQuote absent
  noEqual := by rcases isQuote with rfl | rfl <;> simp [Literal.quoted, singleQuote, doubleQuote]
  noNegation _ := by rcases isQuote with rfl | rfl <;> simp [Literal.quoted, singleQuote, doubleQuote]

/-- A `!` in front of a text that binds tighter than a comparison makes another one. -/
theorem negation (stands : Stands 3 text) : Stands 3 ('!' :: text) where
  tight := stands.tight.cons (by decide)
  balanced := balancedFrom_cons.mpr ⟨rfl, stands.balanced⟩
  passes entry listed loose := by
    refine passesOver_cons.mpr ⟨fun _ _ meets => ?_, stands.passes entry listed loose⟩
    obtain ⟨first, rest, isOperator, -⟩ := exists_first_of_searched listed
    rw [isOperator] at meets
    obtain ⟨isNegation, meets⟩ := meets_cons.mp meets
    obtain ⟨⟨more, rfl⟩, -⟩ := rest_of_searched listed isOperator (.inl isNegation)
    exact not_meets_of_head stands.tight.ne_nil stands.noEqual meets
  noEqual := by simp
  noNegation binds := absurd binds (by decide)

end Stands

/-! ## Operators between operands -/

/-- The searches that stop nowhere in a condition of some level do not stop at an operator either, where they pass
over the text behind it, unless this text goes on with an equals sign. -/
def Connects (level : Nat) (operator : List Char) : Prop :=
  ∀ entry ∈ searched, entry.1 ≤ level → ∀ {text : List Char}, text ≠ [] → text.head? ≠ some '=' →
    passesOver entry.2 .top text = true → passesOver entry.2 .top (operator ++ text) = true

theorem connects_or : Connects 0 orOperator := by
  intro entry listed loose text _ _ passes
  have alone : ∀ entry ∈ searched, entry.1 ≤ 0 → passesOver entry.2 .top orOperator = true := by decide
  exact passesOver_append (alone entry listed loose) passes

theorem connects_and : Connects 1 andOperator := by
  intro entry listed loose text _ _ passes
  have alone : ∀ entry ∈ searched, entry.1 ≤ 1 → passesOver entry.2 .top andOperator = true := by decide
  exact passesOver_append (alone entry listed loose) passes

theorem connects_comparison (comparison : Comparison) : Connects 2 comparison.operator.toList := by
  intro entry listed loose text some noEqual passes
  obtain ⟨first, rest, isOperator, -⟩ := exists_first_of_searched listed
  have equals {text : List Char} {sign : Char} (begins : sign = '!' ∨ sign = '=')
      (differs : ¬Meets ['=', '='] text) : ¬Meets entry.2 (sign :: text) := by
    intro meets
    rw [isOperator] at meets
    obtain ⟨rfl, agrees⟩ := meets_cons.mp meets
    rw [(rest_of_searched listed isOperator begins).2 loose] at agrees
    exact differs agrees
  have single : ¬Meets ['=', '='] text := not_meets_of_head some noEqual
  have double : ¬Meets ['=', '='] ('=' :: text) := fun meets =>
    not_meets_of_head some noEqual (meets_cons.mp meets).2
  cases comparison with
  | equal =>
      refine passesOver_cons.mpr ⟨fun _ _ => equals (.inr rfl) double, ?_⟩
      exact passesOver_cons.mpr ⟨fun _ _ => equals (.inr rfl) single, passes⟩
  | unequal =>
      refine passesOver_cons.mpr ⟨fun _ _ => equals (.inl rfl) double, ?_⟩
      exact passesOver_cons.mpr ⟨fun _ _ => equals (.inr rfl) single, passes⟩

/-- Two texts around an operator may stand where both of them may. -/
theorem Stands.join {level : Nat} {operator front back blanks : List Char} (standsFront : Stands level front)
    (standsBack : Stands level back) (loose : level < 4) (connects : Connects level operator)
    (balanced : isBalanced operator = true) (blank : ∀ character ∈ blanks, isBlank character = true) :
    Stands level (front ++ ((blanks ++ (operator ++ blanks)) ++ back)) where
  tight := standsFront.tight.join _ standsBack.tight
  balanced := isBalanced_append standsFront.balanced (isBalanced_append (isBalanced_append
    (isBalanced_of_blank blank) (isBalanced_append balanced (isBalanced_of_blank blank))) standsBack.balanced)
  passes entry listed loose := by
    obtain ⟨first, rest, isOperator, visible, -⟩ := exists_first_of_searched listed
    have wholeBlanks : Whole entry.2 blanks := isOperator ▸ whole_of_blank visible blank
    have wholeFront : Whole entry.2 (front ++ blanks) := (standsFront.whole listed loose).append wholeBlanks
    have wholeBack : Whole entry.2 (blanks ++ back) := wholeBlanks.append (standsBack.whole listed loose)
    have noEqual : (blanks ++ back).head? ≠ some '=' := by
      cases blanks with
      | nil => exact standsBack.noEqual
      | cons character others =>
          intro isFirst
          cases isFirst
          exact absurd (blank '=' List.mem_cons_self) (by decide)
    have some : blanks ++ back ≠ [] := List.append_ne_nil_of_right_ne_nil _ standsBack.tight.ne_nil
    have behind := connects entry listed loose some noEqual wholeBack.passes
    have regroup : front ++ ((blanks ++ (operator ++ blanks)) ++ back) =
        (front ++ blanks) ++ (operator ++ (blanks ++ back)) := by
      simp only [List.append_assoc]
    rw [regroup]
    refine passesOver_append wholeFront.passes ?_
    rw [after_of_isBalanced wholeFront.balanced]
    exact behind
  noEqual := by
    obtain ⟨character, rest, rfl⟩ := List.exists_cons_of_ne_nil standsFront.tight.ne_nil
    exact standsFront.noEqual
  noNegation binds := absurd binds (Nat.not_le_of_lt loose)

/-- The same for texts with an operator between any two. -/
theorem Stands.intercalate {level : Nat} {operator blanks : List Char} (loose : level < 4)
    (connects : Connects level operator) (balanced : isBalanced operator = true)
    (blank : ∀ character ∈ blanks, isBlank character = true) {texts : List (List Char)} (some : texts ≠ [])
    (stands : ∀ text ∈ texts, Stands level text) :
    Stands level ((blanks ++ (operator ++ blanks)).intercalate texts) := by
  induction texts with
  | nil => exact absurd rfl some
  | cons text rest ih =>
      have standsFirst := stands text List.mem_cons_self
      cases rest with
      | nil => rwa [List.intercalate_singleton]
      | cons other others =>
          have behind := ih (by simp) fun later inside => stands later (List.mem_cons_of_mem _ inside)
          rw [List.intercalate_cons_cons, List.append_assoc]
          exact standsFirst.join behind loose connects balanced blank

/-! ## Reading what stands for a condition -/

/-- A text without operators on its top level is read for negations. -/
theorem Stands.readNode_eq {text : List Char} (stands : Stands 3 text) : readNode text = readUnary text := by
  exact readNode_unary stands.tight
    (splitTopLevel_eq_none (stands.passes (1, orOperator) (by decide) (by decide)))
    (splitTopLevel_eq_none (stands.passes (2, andOperator) (by decide) (by decide)))
    (sides?_eq_none (stands.passes (3, unequalOperator) (by decide) le_rfl))
    (sides?_eq_none (stands.passes (3, equalOperator) (by decide) le_rfl))

/-- A text that may stand for a condition and is read as it. -/
structure Spells (text : List Char) (expression : Expression) : Prop where
  stands : Stands expression.tightness text
  reads : readNode text = .ok expression

namespace Spells

variable {text : List Char} {expression : Expression}

/-- In parentheses a condition is read as a whole, wherever it stands. -/
theorem readUnary_inContext (spells : Spells text expression) {context : Nat} (tight : 2 ≤ context) :
    readUnary (inContext context expression.tightness text) = .ok expression := by
  unfold inContext
  split
  · rename_i tighter
    rw [← (spells.stands.anti (Nat.le_trans (Nat.succ_le_succ tight) tighter)).readNode_eq]
    exact spells.reads
  · rw [readUnary_parenthesized spells.stands.tight spells.stands.balanced]
    exact spells.reads

/-- Parentheses leave no trace in what a text spells. -/
theorem parenthesized (spells : Spells text expression) : Spells (Expression.parenthesized text) expression := by
  refine ⟨spells.stands.parenthesized _, ?_⟩
  rw [(spells.stands.parenthesized 3).readNode_eq,
    readUnary_parenthesized spells.stands.tight spells.stands.balanced]
  exact spells.reads

theorem readNode_inContext (spells : Spells text expression) (context : Nat) :
    readNode (inContext context expression.tightness text) = .ok expression := by
  unfold inContext
  split
  · exact spells.reads
  · exact spells.parenthesized.reads

/-- An operand is spelled by the text it is read from. -/
theorem of_operand (stands : Stands 4 text) (noParenthesis : text.head? ≠ some '(')
    (reads : readOperand text = .ok expression) : Spells text expression := by
  refine ⟨stands.anti expression.tightness_le, ?_⟩
  rw [(stands.anti (by decide)).readNode_eq, readUnary_operand stands.tight (stands.noNegation le_rfl) noParenthesis,
    reads]

/-- An operand without quotes is spelled by the text it is read from. -/
theorem of_unquoted (some : text ≠ []) (written : ∀ character ∈ text, isOperandCharacter character = true)
    (reads : readOperand text = .ok expression) : Spells text expression :=
  of_operand (.of_unquoted some written 4) (head?_ne_of_unquoted written (by decide)) reads

/-- A text is spelled in quotes that it does not hold. -/
theorem of_quoted {quote : Char} (isQuote : quote = singleQuote ∨ quote = doubleQuote) {content : List Char}
    (absent : quote ∉ content) :
    Spells (Literal.quoted quote content) (.literal (.text (String.ofList content))) := by
  refine of_operand (.of_quoted isQuote absent 4) ?_ (readOperand_quotes isQuote content)
  rcases isQuote with rfl | rfl <;> simp [Literal.quoted, singleQuote, doubleQuote]

/-- A negation is spelled by a `!` in front of its operand. -/
theorem not (spells : Spells text expression) :
    Spells ('!' :: inContext 3 expression.tightness text) (.not expression) := by
  have operand : Stands 4 (inContext 3 expression.tightness text) := spells.stands.inContext 3
  have stands : Stands 3 ('!' :: inContext 3 expression.tightness text) := (operand.anti (by decide)).negation
  refine ⟨stands, ?_⟩
  rw [stands.readNode_eq, readUnary_negation operand.tight (operand.noNegation le_rfl) operand.noEqual,
    spells.readUnary_inContext (by decide)]
  rfl

/-- A comparison is spelled by its operator between its sides. -/
theorem compare {left right blanks : List Char} {first second : Expression} (spellsFirst : Spells left first)
    (spellsSecond : Spells right second) (comparison : Comparison)
    (blank : ∀ character ∈ blanks, isBlank character = true) :
    Spells (inContext 2 first.tightness left ++ ((blanks ++ (comparison.operator.toList ++ blanks)) ++
      inContext 2 second.tightness right)) (.compare first comparison second) := by
  have standsLeft := spellsFirst.stands.inContext 2
  have standsRight := spellsSecond.stands.inContext 2
  have readsLeft : readUnary (inContext 2 first.tightness left) = .ok first := spellsFirst.readUnary_inContext le_rfl
  have readsRight : readUnary (inContext 2 second.tightness right) = .ok second :=
    spellsSecond.readUnary_inContext le_rfl
  generalize inContext 2 first.tightness left = left at standsLeft readsLeft ⊢
  generalize inContext 2 second.tightness right = right at standsRight readsRight ⊢
  have balanced : isBalanced comparison.operator.toList = true := by cases comparison <;> rfl
  have stands := (standsLeft.anti (by decide)).join (standsRight.anti (by decide)) (by decide : 2 < 4)
    (connects_comparison comparison) balanced blank
  have listed : (3, comparison.operator.toList) ∈ searched := by cases comparison <;> decide
  refine ⟨stands, readNode_compare stands.tight ?_ ?_ ?_ ?_ standsLeft.tight.ne_nil standsRight.tight.ne_nil readsLeft
    readsRight⟩
  · exact splitTopLevel_eq_none (stands.passes (1, orOperator) (by decide) (by decide))
  · exact splitTopLevel_eq_none (stands.passes (2, andOperator) (by decide) (by decide))
  · -- `!=` is looked for first, so a text with `==` must be free of it
    rintro rfl
    have listed : (3, unequalOperator) ∈ searched := by decide
    have wholeOperator : Whole unequalOperator Comparison.equal.operator.toList := ⟨rfl, by decide⟩
    have wholeBlanks : Whole unequalOperator blanks := whole_of_blank (by decide) blank
    have wholeLeft : Whole unequalOperator left := standsLeft.whole listed le_rfl
    have wholeRight : Whole unequalOperator right := standsRight.whole listed le_rfl
    exact sides?_eq_none (wholeLeft.append ((wholeBlanks.append (wholeOperator.append wholeBlanks)).append
      wholeRight)).passes
  · obtain ⟨sign, rest, isOperator, visible, unmarked, -⟩ := exists_first_of_searched listed
    have wholeLeft := standsLeft.whole listed le_rfl
    dsimp only at isOperator wholeLeft
    rw [isOperator] at wholeLeft ⊢
    exact sides?_join unmarked visible blank standsLeft.tight standsRight.tight wholeLeft

/-- Whatever spells a condition is parsed as it: it is balanced, and has no operator that is refused. -/
theorem parse (spells : Spells text expression) : parse (String.ofList text) = .ok expression := by
  have supported : (unsupportedOperators.find? fun operator => occursAtTop operator.toList text) = none := by
    refine List.find?_eq_none.mpr fun operator listed found => ?_
    have absent := occursAtTop_eq_false (spells.stands.passes (0, operator.toList)
      (List.mem_append_left _ (List.mem_map_of_mem listed)) (Nat.zero_le _))
    exact Bool.false_ne_true (absent.symm.trans found)
  have some : text.isEmpty = false := by simpa using spells.stands.tight.ne_nil
  rw [Expression.parse, String.toList_ofList, read]
  simp [spells.stands.tight.trim_eq, some, spells.stands.balanced, supported, spells.reads]

section Operands

variable {operands : List Expression} {written : Expression → List Char} {blanks : List Char}
variable (spells : ∀ operand ∈ operands, Spells (written operand) operand) (several : 2 ≤ operands.length)
variable (blank : ∀ character ∈ blanks, isBlank character = true)
include spells several blank

/-- Operands in the context of an operator, with the operator between them, may stand where the operator may, and
the operator splits them again. -/
theorem stands_and_splits {level : Nat} {operator : List Char} (listed : (level + 1, operator) ∈ searched)
    (loose : level < 4) (connects : Connects level operator) (balanced : isBalanced operator = true) :
    let texts := operands.map fun operand => inContext level operand.tightness (written operand)
    Stands level ((blanks ++ (operator ++ blanks)).intercalate texts) ∧
      splitTopLevel operator ((blanks ++ (operator ++ blanks)).intercalate texts) = some texts := by
  intro texts
  have stands : ∀ text ∈ texts, Stands (level + 1) text := by
    intro text inside
    obtain ⟨operand, member, rfl⟩ := List.mem_map.mp inside
    exact (spells operand member).stands.inContext level
  have severalTexts : 2 ≤ texts.length := by rwa [List.length_map]
  have someTexts : texts ≠ [] := by
    intro none
    rw [none] at severalTexts
    cases severalTexts
  refine ⟨.intercalate loose connects balanced blank someTexts fun text inside =>
    (stands text inside).anti (Nat.le_succ level), ?_⟩
  obtain ⟨first, rest, isOperator, visible, unmarked, -⟩ := exists_first_of_searched listed
  dsimp only at isOperator
  rw [isOperator] at listed ⊢
  exact splitTopLevel_intercalate unmarked visible blank blank (fun text inside =>
    ⟨(stands text inside).tight, (stands text inside).whole listed le_rfl⟩) severalTexts

omit several blank in
theorem reads_inContext (level : Nat) : ∀ operand ∈ operands,
    inContext level operand.tightness (written operand) ≠ [] ∧
      readNode (inContext level operand.tightness (written operand)) = .ok operand := fun operand inside =>
  ⟨((spells operand inside).stands.inContext level).tight.ne_nil, (spells operand inside).readNode_inContext level⟩

/-- A disjunction is spelled by `||` between its operands. -/
theorem any : Spells ((blanks ++ (orOperator ++ blanks)).intercalate
    (operands.map fun operand => inContext 0 operand.tightness (written operand))) (.any operands) := by
  have listed : (0 + 1, orOperator) ∈ searched := by decide
  obtain ⟨stands, splits⟩ := stands_and_splits spells several blank listed (by decide) connects_or rfl
  exact ⟨stands, readNode_any stands.tight (reads_inContext spells 0) splits⟩

/-- A conjunction is spelled by `&&` between its operands. -/
theorem all : Spells ((blanks ++ (andOperator ++ blanks)).intercalate
    (operands.map fun operand => inContext 1 operand.tightness (written operand))) (.all operands) := by
  have listed : (1 + 1, andOperator) ∈ searched := by decide
  obtain ⟨stands, splits⟩ := stands_and_splits spells several blank listed (by decide) connects_and rfl
  have noOr := splitTopLevel_eq_none (stands.passes (1, orOperator) (by decide) le_rfl)
  exact ⟨stands, readNode_all stands.tight (reads_inContext spells 1) noOr splits⟩

end Operands

end Spells

/-! ## Printing -/

/-- A condition that can be written: its operators have their operands, its texts do not hold both quotes, and its
numbers and references read as what they are. -/
inductive Printable : Expression → Prop
  | reference {target : Reference} (named : target.Named) (notNumeric : isNumeric target.text.toList = false)
      (notTrue : target.text ≠ "true") (notFalse : target.text ≠ "false") : Printable (.reference target)
  | active {target : Reference} (named : target.Named) : Printable (.active target)
  | text {content : String} (oneAtMost : ¬(singleQuote ∈ content.toList ∧ doubleQuote ∈ content.toList)) :
      Printable (.literal (.text content))
  | flag (value : Bool) : Printable (.literal (.flag value))
  | number {source : String} (numeric : isNumeric source.toList = true) : Printable (.literal (.number source))
  | not {operand : Expression} (printable : Printable operand) : Printable (.not operand)
  | all {operands : List Expression} (several : 2 ≤ operands.length)
      (printable : ∀ operand ∈ operands, Printable operand) : Printable (.all operands)
  | any {operands : List Expression} (several : 2 ≤ operands.length)
      (printable : ∀ operand ∈ operands, Printable operand) : Printable (.any operands)
  | compare {left right : Expression} (comparison : Comparison) (printableLeft : Printable left)
      (printableRight : Printable right) : Printable (.compare left comparison right)

section Printing

variable (style : Style)

/-- Printed operands stand in their context, with the operator between them. -/
theorem printOperands_eq (context : Nat) (operator : String) (operands : List Expression) :
    printOperands style context operator true operands = (spaced style operator).intercalate
      (operands.map fun operand => inContext context operand.tightness (printChars style operand)) := by
  induction operands with
  | nil => rfl
  | cons operand rest ih =>
      cases rest with
      | nil => simp [printOperands]
      | cons other others =>
          rw [List.map_cons] at ih
          rw [List.map_cons, List.map_cons, List.intercalate_cons_cons, ← ih]
          simp [printOperands]

/-- The text of a condition that can be written stands for it and is read as it. -/
theorem spells_printChars {expression : Expression} (printable : expression.Printable) :
    Spells (printChars style expression) expression := by
  induction printable with
  | reference named notNumeric notTrue notFalse =>
      rw [printChars]
      exact .of_unquoted named.text_ne_nil (fun _ inside =>
        isOperandCharacter_of_isPlainCharacter (named.isPlainCharacter_of_mem_text inside))
        (readOperand_reference named notTrue notFalse notNumeric)
  | active named =>
      rw [printChars]
      exact .of_unquoted (List.append_ne_nil_of_left_ne_nil named.text_ne_nil _)
        (fun _ inside => isOperandCharacter_of_mem_active named inside) (readOperand_active named)
  | text oneAtMost =>
      rename_i content
      have spells := Spells.of_quoted (style.quotes content.toList) (style.absent content.toList oneAtMost)
      rwa [String.ofList_toList] at spells
  | flag value =>
      have written : ∀ value, (Literal.flag value).asText.toList.all isOperandCharacter = true := by decide
      have some : ∀ value, (Literal.flag value).asText.toList ≠ [] := by decide
      exact .of_unquoted (some value) (List.all_eq_true.mp (written value)) (readOperand_flag value)
  | number numeric =>
      rename_i source
      have reads := readOperand_number numeric
      rw [String.ofList_toList] at reads
      have some : source.toList ≠ [] := by
        intro empty
        rw [empty] at numeric
        exact absurd numeric (by decide)
      exact .of_unquoted some (fun character inside =>
        isOperandCharacter_of_isPlainCharacter (isPlainCharacter_of_isNumeric numeric character inside)) reads
  | not _ ih =>
      rw [printChars]
      exact ih.not
  | all several _ ih =>
      rw [printChars, printOperands_eq]
      exact Spells.all ih several style.blank
  | any several _ ih =>
      rw [printChars, printOperands_eq]
      exact Spells.any ih several style.blank
  | compare comparison _ _ ihLeft ihRight =>
      rw [printChars]
      exact ihLeft.compare ihRight comparison style.blank

/-- Texts tell conditions apart, in whatever styles they are printed. -/
theorem eq_of_printChars_eq {other : Style} {first second : Expression} (printableFirst : first.Printable)
    (printableSecond : second.Printable) (same : printChars style first = printChars other second) :
    first = second := by
  have reads := (spells_printChars style printableFirst).reads
  rw [same, (spells_printChars other printableSecond).reads] at reads
  exact (Except.ok.inj reads).symm

/-- A condition that can be written is read back from its text. -/
theorem parse_print {expression : Expression} (printable : expression.Printable) :
    parse (print style expression) = .ok expression :=
  (spells_printChars style printable).parse

end Printing

/-- A condition with every kind of operator, and with operands that look like something else. -/
def mixed : Expression :=
  .any [.not (.compare (.reference ⟨2, ⟨["order", "note"]⟩⟩) .unequal (.literal (.text "(a || b"))),
    .all [.active ⟨1, ⟨["true"]⟩⟩,
      .compare (.literal (.number "-1.5e3")) .equal (.reference ⟨0, ⟨["left", "0"]⟩⟩)]]

theorem parse_print_mixed : mixed.Printable ∧
    print .standard mixed = "!(..order.note != \x27(a || b\x27) || .true:active && -1.5e3 == left.0" ∧
    parse (print .standard mixed) = .ok mixed := by
  have printable : mixed.Printable := by
    refine .any (by decide) (List.forall_mem_cons.mpr ⟨.not (.compare _ ?_ ?_), List.forall_mem_singleton.mpr
      (.all (by decide) (List.forall_mem_cons.mpr ⟨?_, List.forall_mem_singleton.mpr (.compare _ ?_ ?_)⟩))⟩)
    · exact .reference ⟨by decide, by decide⟩ (by decide) (by decide) (by decide)
    · exact .text (by decide)
    · exact .active ⟨by decide, by decide⟩
    · exact .number (by decide)
    · exact .reference ⟨by decide, by decide⟩ (by decide) (by decide) (by decide)
  exact ⟨printable, by rfl, parse_print .standard printable⟩

end Expression

end Formwork
