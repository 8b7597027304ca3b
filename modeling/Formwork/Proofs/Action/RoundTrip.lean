import Formwork.Action.Printer
import Formwork.Action.Reader
import Formwork.Proofs.Expression.Reading

/-!
# Printed actions are read back

Whatever calls an action is made of, and whatever its texts hold, the action is read back from what it is printed
as (`Pipeline.parse_printed`), with any choice of quotes that the quoted texts do not hold and with any blanks
around the operators. What its arguments must be made of is only that they can be told apart from each other
(`Argument.Printable`).

An action is split three times, at `!~`, at `->` and at commas. Each of the searches passes over the texts that
stand between its operators: over an argument, since it is in quotes or has no comma (`Argument.Spells`), and over
a call, since outside its parentheses it is nothing but a name (`Call.Spells`). The name of a call ends at the
first parenthesis of all, in quotes or not, and this is the one that the printer has put behind the name.
-/

set_option autoImplicit false

namespace Formwork

open Formwork.Text
open Expression (Style parenthesized spaced)

/-! ## Arguments -/

namespace Argument

/-- A text that is read as an argument, and over which the search for the next comma passes. -/
structure Spells (text : List Char) (argument : Argument) : Prop where
  tight : Tight text
  whole : Whole [','] text
  reads : read text = .ok argument

/-- An argument that can be told apart: a text that does not hold both quotes, a number or a key that reads as what
it is, a truth value, and a reference that does not read as a number or a truth value. -/
inductive Printable : Argument → Prop
  | text {content : String} (oneAtMost : ¬(singleQuote ∈ content.toList ∧ doubleQuote ∈ content.toList)) :
      Printable (.text content)
  | number {source : String} (numeric : isNumeric source.toList = true) : Printable (.number source)
  | flag (value : Bool) : Printable (.flag value)
  | path {target : Reference} (named : target.Named) (notNumeric : isNumeric target.text.toList = false)
      (notTrue : target.text ≠ "true") (notFalse : target.text ≠ "false") : Printable (.path target)
  | response {key : String} (identifier : isIdentifier key.toList = true) : Printable (.response key)

instance (argument : Argument) : Decidable argument.Printable :=
  match argument with
  | .text content =>
    decidable_of_iff (¬(singleQuote ∈ content.toList ∧ doubleQuote ∈ content.toList))
      ⟨.text, fun | .text oneAtMost => oneAtMost⟩
  | .number source => decidable_of_iff (isNumeric source.toList = true) ⟨.number, fun | .number numeric => numeric⟩
  | .flag value => .isTrue (.flag value)
  | .path target =>
    decidable_of_iff (target.Named ∧ isNumeric target.text.toList = false ∧ target.text ≠ "true" ∧
        target.text ≠ "false")
      ⟨fun ⟨named, notNumeric, notTrue, notFalse⟩ => .path named notNumeric notTrue notFalse,
        fun | .path named notNumeric notTrue notFalse => ⟨named, notNumeric, notTrue, notFalse⟩⟩
  | .response key =>
    decidable_of_iff (isIdentifier key.toList = true) ⟨.response, fun | .response identifier => identifier⟩

section Reading

variable {text : List Char}

/-- Without quotes and `^`, an argument is a truth value, a number or a reference. -/
theorem read_unquoted (written : ∀ character ∈ text, isOperandCharacter character = true) : read text =
    if text = ['t', 'r', 'u', 'e'] then .ok (.flag true)
    else if text = ['f', 'a', 'l', 's', 'e'] then .ok (.flag false)
    else if isNumeric text then .ok (.number (String.ofList text))
    else
      match Reference.read text with
      | .ok target => .ok (.path target)
      | .error problem => .error (.invalidArgument (String.ofList text) problem) := by
  obtain ⟨trims, noQuotes⟩ := Expression.readOperand_unquoted written
  simp only [read, trims, noQuotes]
  split
  · exact absurd (written '^' List.mem_cons_self) (by decide)
  · rfl

/-- A text without quotes, parentheses, blanks and commas spells what it is read as. -/
theorem Spells.of_unmarked {argument : Argument} (some : text ≠ [])
    (dense : ∀ character ∈ text, isBlank character = false)
    (unmarked : ∀ character ∈ text, Nesting.top.isMark character = false) (noComma : ',' ∉ text)
    (reads : read text = .ok argument) : Spells text argument :=
  ⟨.of_not_blank some dense, ⟨isBalanced_of_not_mark unmarked, passesOver_of_not_mem noComma⟩, reads⟩

/-- The characters of operands are such. -/
theorem Spells.of_operand {argument : Argument} (some : text ≠ [])
    (written : ∀ character ∈ text, isOperandCharacter character = true) (reads : read text = .ok argument) :
    Spells text argument :=
  .of_unmarked some (fun character inside => not_blank_of_isOperandCharacter (written character inside))
    (fun character inside => not_mark_of_isOperandCharacter (written character inside))
    (fun inside => ne_of_isOperandCharacter (written ',' inside) (by decide) rfl) reads

/-- A text in quotes that it does not hold is spelled by them, whatever it holds. -/
theorem Spells.of_quoted {quote : Char} (isQuote : quote = singleQuote ∨ quote = doubleQuote) {content : List Char}
    (absent : quote ∉ content) : Spells (Literal.quoted quote content) (.text (String.ofList content)) := by
  have tight := Literal.tight_quoted isQuote content
  refine ⟨tight, ⟨isBalanced_quotes isQuote absent, passesOver_quotes isQuote absent⟩, ?_⟩
  have unquoted : unquote (Literal.quoted quote content) = some content := unquote_quotes isQuote
  simp only [read, tight.trim_eq, unquoted]

/-- A key of the response is spelled by a `^` in front of it. -/
theorem Spells.of_key {key : List Char} (identifier : isIdentifier key = true) :
    Spells ('^' :: key) (.response (String.ofList key)) := by
  have named : ∀ character ∈ key, isNameCharacter character = true :=
    List.all_eq_true.mp (Bool.and_eq_true_iff.mp identifier).2
  have written (character : Char) (inside : character ∈ key) : isOperandCharacter character = true :=
    isOperandCharacter_of_isPlainCharacter (isPlainCharacter_of_isNameCharacter (named character inside))
  have dense : ∀ character ∈ '^' :: key, isBlank character = false :=
    List.forall_mem_cons.mpr ⟨by decide, fun character inside =>
      not_blank_of_isOperandCharacter (written character inside)⟩
  refine .of_unmarked (List.cons_ne_nil _ _) dense ?_ ?_ ?_
  · exact List.forall_mem_cons.mpr ⟨by decide, fun character inside =>
      not_mark_of_isOperandCharacter (written character inside)⟩
  · intro inside
    rcases List.mem_cons.mp inside with same | inside
    · exact absurd same (by decide)
    · exact ne_of_isOperandCharacter (written ',' inside) (by decide) rfl
  · have noQuotes : unquote ('^' :: key) = none := rfl
    simp only [read, trim_of_not_blank dense, noQuotes, if_pos identifier]

end Reading

section Printing

variable (style : Style)

/-- An argument that can be told apart is spelled by its text. -/
theorem Printable.spells {argument : Argument} (printable : argument.Printable) :
    Spells (printChars style argument) argument := by
  cases printable with
  | text oneAtMost =>
      rename_i content
      have spells := Spells.of_quoted (style.quotes content.toList) (style.absent content.toList oneAtMost)
      rwa [String.ofList_toList] at spells
  | number numeric =>
      rename_i source
      have written (character : Char) (inside : character ∈ source.toList) : isOperandCharacter character = true :=
        isOperandCharacter_of_isPlainCharacter (isPlainCharacter_of_isNumeric numeric character inside)
      have ne {other : List Char} (notNumeric : isNumeric other = false) : source.toList ≠ other := by
        rintro rfl
        exact Bool.false_ne_true (notNumeric.symm.trans numeric)
      refine .of_operand (ne (by decide)) written ?_
      rw [printChars, read_unquoted written, if_neg (ne (by decide)), if_neg (ne (by decide)), if_pos numeric,
        String.ofList_toList]
  | flag value =>
      have written : ∀ value, (Literal.flag value).asText.toList.all isOperandCharacter = true := by decide
      have some : ∀ value, (Literal.flag value).asText.toList ≠ [] := by decide
      refine .of_operand (some value) (List.all_eq_true.mp (written value)) ?_
      cases value with
      | false => rfl
      | true => rfl
  | path named notNumeric notTrue notFalse =>
      rename_i target
      have written (character : Char) (inside : character ∈ target.text.toList) :
          isOperandCharacter character = true :=
        isOperandCharacter_of_isPlainCharacter (named.isPlainCharacter_of_mem_text inside)
      have isNotTrue : target.text.toList ≠ ['t', 'r', 'u', 'e'] := fun same =>
        notTrue (String.toList_injective same)
      have isNotFalse : target.text.toList ≠ ['f', 'a', 'l', 's', 'e'] := fun same =>
        notFalse (String.toList_injective same)
      refine .of_operand named.text_ne_nil written ?_
      rw [printChars, read_unquoted written, if_neg isNotTrue, if_neg isNotFalse, notNumeric,
        if_neg Bool.false_ne_true, named.read_text]
  | response identifier =>
      have spells := Spells.of_key identifier
      rwa [String.ofList_toList] at spells

variable {arguments : List Argument} (printable : ∀ argument ∈ arguments, argument.Printable)
include printable

theorem forall_spells : ∀ text ∈ arguments.map (printChars style), Tight text ∧ Whole [','] text := by
  intro text inside
  obtain ⟨argument, listed, rfl⟩ := List.mem_map.mp inside
  have spells := (printable argument listed).spells style
  exact ⟨spells.tight, spells.whole⟩

theorem isBalanced_printList : isBalanced (printList style arguments) = true := by
  have separator : isBalanced (',' :: style.blanks) = true :=
    balancedFrom_cons.mpr ⟨rfl, isBalanced_of_blank style.blank⟩
  exact isBalanced_intercalate separator fun text inside => (forall_spells style printable text inside).2.balanced

variable (some : arguments ≠ [])
include some

theorem tight_printList : Tight (printList style arguments) :=
  .intercalate _ (by simpa using some) fun text inside => (forall_spells style printable text inside).1

/-- Arguments with commas between them are read back. -/
theorem readList_printList : readList (printList style arguments) = .ok arguments := by
  have tight := tight_printList style printable some
  have nothing : ∀ character ∈ ([] : List Char), isBlank character = true := nofun
  have parts : (splitTopLevel [','] (printList style arguments)).getD [trim (printList style arguments)] =
      arguments.map (printChars style) :=
    getD_splitTopLevel_intercalate (by decide) (by decide) nothing style.blank (forall_spells style printable)
      (by simpa using some)
  rw [readList, if_neg (Expression.not_isEmpty_trim tight), parts]
  exact readEach_map fun argument listed _ => ((printable argument listed).spells style).reads

end Printing

end Argument

/-! ## Calls -/

namespace Call

/-- The names of calls consist of letters. -/
theorem name_letters (call : Call) :
    call.name.toList ≠ [] ∧ ∀ character ∈ call.name.toList, character.isAlpha = true := by
  have letters : (!call.name.toList.isEmpty && call.name.toList.all Char.isAlpha) = true := by
    cases call <;> (rw [name]; decide)
  rw [Bool.and_eq_true, List.all_eq_true] at letters
  exact ⟨by simpa using letters.1, letters.2⟩

theorem isNameCharacter_of_mem_name (call : Call) :
    ∀ character ∈ call.name.toList, isNameCharacter character = true := by
  intro character inside
  rw [isNameCharacter, Char.isAlphanum, call.name_letters.2 character inside]
  rfl

theorem not_mem_name (call : Call) {special : Char} (outside : special.isAlpha = false) :
    special ∉ call.name.toList :=
  fun inside => Bool.false_ne_true (outside.symm.trans (call.name_letters.2 special inside))

/-- A name ends before any parenthesis. -/
theorem ne_parenthesis_of_mem_name (call : Call) : ∀ character ∈ call.name.toList, (character != '(') = true :=
  fun _ inside => bne_iff_ne.mpr fun same => call.not_mem_name (by decide : '('.isAlpha = false) (same ▸ inside)

theorem isIdentifier_name (call : Call) : isIdentifier call.name.toList = true := by
  rw [isIdentifier, Bool.and_eq_true, List.all_eq_true]
  exact ⟨by simpa using call.name_letters.1, call.isNameCharacter_of_mem_name⟩

theorem tight_name (call : Call) : Tight call.name.toList :=
  .of_not_blank call.name_letters.1 fun character inside =>
    (not_blank_of_isNameCharacter (call.isNameCharacter_of_mem_name character inside)).1

/-- No search for an operator stops in a name. -/
theorem whole_name (call : Call) {first : Char} {operator : List Char} (outside : first.isAlpha = false) :
    Whole (first :: operator) call.name.toList := by
  refine ⟨isBalanced_of_not_mark fun character inside => ?_, passesOver_of_not_mem (call.not_mem_name outside)⟩
  exact not_mark_of_isOperandCharacter (isOperandCharacter_of_isPlainCharacter
    (isPlainCharacter_of_isNameCharacter (call.isNameCharacter_of_mem_name character inside)))

/-- A call has a name and arguments, and nothing else. -/
theorem ofName_name (call : Call) : ofName call.name call.arguments = .ok call := by
  cases call with
  | proceed address => cases address <;> rfl
  | _ => rfl

/-- A text that is read as a call, and over which the searches for the next call and for the reject chain pass. -/
structure Spells (text : List Char) (call : Call) : Prop where
  tight : Tight text
  arrow : Whole Pipeline.arrowOperator text
  reject : Whole Pipeline.rejectOperator text
  reads : read text = .ok call

/-- A call without arguments is spelled by its name. -/
theorem Spells.of_name {call : Call} (noArguments : call.arguments = []) : Spells call.name.toList call := by
  refine ⟨call.tight_name, call.whole_name (by decide), call.whole_name (by decide), ?_⟩
  have opened : call.name.toList.dropWhile (· != '(') = [] :=
    List.dropWhile_eq_nil_iff.mpr call.ne_parenthesis_of_mem_name
  have named : call.name.toList.takeWhile (· != '(') = call.name.toList :=
    List.takeWhile_eq_self_iff.mpr call.ne_parenthesis_of_mem_name
  simp only [read, call.tight_name.trim_eq, opened, named, List.isEmpty_nil, if_true, call.isIdentifier_name,
    String.ofList_toList]
  rw [← noArguments, call.ofName_name]

/-- A call with arguments is spelled by its name and a list of them in parentheses. -/
theorem Spells.of_arguments {call : Call} {inner : List Char} (tight : Tight inner)
    (balanced : isBalanced inner = true) (reads : Argument.readList inner = .ok call.arguments) :
    Spells (call.name.toList ++ parenthesized inner) call := by
  have whole {operator : List Char} : Whole operator (parenthesized inner) :=
    ⟨isBalanced_parentheses balanced, passesOver_parentheses balanced⟩
  have outer : Tight (call.name.toList ++ parenthesized inner) :=
    call.tight_name.join [] (.between inner (by decide) (by decide))
  refine ⟨outer, (call.whole_name (by decide)).append whole, (call.whole_name (by decide)).append whole, ?_⟩
  have opened : (call.name.toList ++ parenthesized inner).dropWhile (· != '(') = parenthesized inner := by
    rw [List.dropWhile_append_of_pos call.ne_parenthesis_of_mem_name]
    rfl
  have named : (call.name.toList ++ parenthesized inner).takeWhile (· != '(') = call.name.toList := by
    rw [List.takeWhile_append_of_pos call.ne_parenthesis_of_mem_name]
    exact List.append_nil _
  have some : (parenthesized inner).isEmpty = false := rfl
  have stripped : stripParentheses (parenthesized inner) = Option.some inner := by
    rw [parenthesized, stripParentheses_parentheses balanced, tight.trim_eq]
  simp only [read, outer.trim_eq, opened, named, some, stripped, reads, call.tight_name.trim_eq,
    call.isIdentifier_name, if_true, Bool.false_eq_true, if_false, String.ofList_toList, call.ofName_name]

/-- A call that can be written: its arguments can be told apart. -/
def Printable (call : Call) : Prop := ∀ argument ∈ call.arguments, argument.Printable

instance (call : Call) : Decidable call.Printable :=
  inferInstanceAs (Decidable (∀ argument ∈ call.arguments, argument.Printable))

/-- A call that can be written is spelled by its text. -/
theorem Printable.spells (style : Style) {call : Call} (printable : call.Printable) :
    Spells (printChars style call) call := by
  unfold printChars
  split
  · rename_i noArguments
    exact .of_name noArguments
  · rename_i some
    exact .of_arguments (Argument.tight_printList style printable some)
      (Argument.isBalanced_printList style printable) (Argument.readList_printList style printable some)

end Call

/-! ## Chains and actions -/

namespace Pipeline

section Chains

variable (style : Style) {chain : List Call} (printable : ∀ call ∈ chain, call.Printable)
include printable

theorem forall_spells : ∀ text ∈ chain.map (Call.printChars style), ∃ call, Call.Spells text call := by
  intro text inside
  obtain ⟨call, listed, rfl⟩ := List.mem_map.mp inside
  exact ⟨call, (printable call listed).spells style⟩

/-- No search for the reject chain stops in a chain. -/
theorem whole_printChain : Whole rejectOperator (printChain style chain) := by
  have arrow : Whole rejectOperator ['-', '>'] := ⟨by decide, by decide⟩
  have blanks : Whole rejectOperator style.blanks := whole_of_blank (by decide) style.blank
  refine (blanks.append (arrow.append blanks)).intercalate fun text inside => ?_
  obtain ⟨call, spells⟩ := forall_spells style printable text inside
  exact spells.reject

variable (some : chain ≠ [])
include some

theorem tight_printChain : Tight (printChain style chain) := by
  refine .intercalate _ (by simpa using some) fun text inside => ?_
  obtain ⟨call, spells⟩ := forall_spells style printable text inside
  exact spells.tight

/-- Calls with arrows between them are read back. -/
theorem readChain_printChain : readChain (printChain style chain) = .ok chain := by
  have tight := tight_printChain style printable some
  have parts : (splitTopLevel arrowOperator (printChain style chain)).getD [trim (printChain style chain)] =
      chain.map (Call.printChars style) := by
    refine getD_splitTopLevel_intercalate (by decide) (by decide) style.blank style.blank ?_ (by simpa using some)
    intro text inside
    obtain ⟨call, spells⟩ := forall_spells style printable text inside
    exact ⟨spells.tight, spells.arrow⟩
  rw [readChain, if_neg (Expression.not_isEmpty_trim tight), parts]
  refine readEach_map fun call listed _ => ?_
  have spells := (printable call listed).spells style
  rw [if_neg (by simpa using spells.tight.ne_nil), spells.reads]

end Chains

/-- An action that can be written: its success chain is not empty, and the arguments of its calls can be told
apart. -/
structure Printable (pipeline : Pipeline) : Prop where
  some : pipeline.success ≠ []
  success : ∀ call ∈ pipeline.success, call.Printable
  reject : ∀ call ∈ pipeline.reject, call.Printable

/-- An action that can be written is read back from its text. -/
theorem parse_printed (style : Style) {pipeline : Pipeline} (printable : pipeline.Printable) :
    parse (print style pipeline) = .ok pipeline := by
  obtain ⟨success, reject⟩ := pipeline
  obtain ⟨some, printableSuccess, printableReject⟩ := printable
  have tight := tight_printChain style printableSuccess some
  have whole := whole_printChain style printableSuccess
  have reads := readChain_printChain style printableSuccess some
  rw [parse, print, String.toList_ofList]
  cases reject with
  | nil =>
      rw [printChars, read, tight.trim_eq, if_neg (by simpa using tight.ne_nil),
        splitTopLevel_eq_none whole.passes, reads]
      rfl
  | cons call rest =>
      have tightReject := tight_printChain style printableReject (List.cons_ne_nil call rest)
      have wholeReject := whole_printChain style printableReject
      have readsReject := readChain_printChain style printableReject (List.cons_ne_nil call rest)
      let texts := [printChain style success, printChain style (call :: rest)]
      have wholes : ∀ text ∈ texts, Tight text ∧ Whole rejectOperator text :=
        List.forall_mem_cons.mpr ⟨⟨tight, whole⟩, List.forall_mem_singleton.mpr ⟨tightReject, wholeReject⟩⟩
      have joined : printChars style ⟨success, call :: rest⟩ = (spaced style "!~").intercalate texts := by
        rw [List.intercalate_cons_cons, List.intercalate_singleton]
        rfl
      have tightWhole : Tight ((spaced style "!~").intercalate texts) :=
        .intercalate _ (List.cons_ne_nil _ _) fun text inside => (wholes text inside).1
      have splits : splitTopLevel rejectOperator ((spaced style "!~").intercalate texts) = Option.some texts :=
        splitTopLevel_intercalate (by decide) (by decide) style.blank style.blank wholes le_rfl
      rw [joined, read, tightWhole.trim_eq, if_neg (by simpa using tightWhole.ne_nil), splits]
      simp only [texts, reads, readsReject]
      rfl

/-- An action whose texts hold every operator, commas, and parentheses without partner. -/
def entangled : Pipeline where
  success := [
    .activate [.text "a, b", .number "-1.5e3", .flag true, .path ⟨1, ⟨["order"]⟩⟩, .response "next-url"],
    .setFieldValue ⟨2, ⟨["left", "0"]⟩⟩ (.text "f(x -> y !~ z"),
    .proceed (some "/it\x27s)"), .submit]
  reject := [.clearErrors, .deleteValue ⟨0, ⟨["note"]⟩⟩, .noop]

theorem parse_printed_entangled : entangled.Printable ∧
    print .standard entangled =
      "activate(\x27a, b\x27, -1.5e3, true, .order, ^next-url) -> setFieldValue(..left.0, \x27f(x -> y !~ z\x27)" ++
        " -> proceed(\"/it\x27s)\") -> submit !~ clearErrors -> deleteValue(note) -> noop" ∧
    parse (print .standard entangled) = .ok entangled := by
  have printable : entangled.Printable := ⟨by decide, by decide +kernel, by decide +kernel⟩
  refine ⟨printable, ?_, parse_printed .standard printable⟩
  -- Joined as lists of characters, the two halves are compared without reading their encodings.
  refine .trans ?_ String.ofList_append
  rfl

end Pipeline

end Formwork
