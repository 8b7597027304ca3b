import Mathlib.Data.List.Perm.Basic
import Mathlib.Data.List.Nodup
import Formwork.Markup
import Formwork.Proofs.DottedPath
import Formwork.Proofs.Outcomes

/-!
# Markup is read back

Conditions leave as the attributes of an element and come back in two ways. A list of attributes carries the conditions
of which it holds the attributes, in any order and with any other attributes in between, and no others
(`Markup.ofAttributes_eq_ok_iff`). And whoever knows how attributes are written reads from the text of an element the
attributes that were written (`Markup.readAttributes?_render`), whatever the conditions hold: a double quote always
begins or ends a value, since in an escaped value there is none (`Markup.quote_not_mem_escape`), and each entity in it
stands for one character (`Markup.unescape_escape`).

At the end it is said when markup passes its own check (`Markup.check_eq_ok_iff`); the path plays no part in this.
-/

set_option autoImplicit false

namespace Formwork.Markup

open Formwork.Text

/-! ## Roles -/

variable {markup held : Markup}

theorem forall_role {holds : Role → Prop} : (∀ role, holds role) ↔ holds .showing ∧ holds .hiding ∧ holds .disabling ∧
    holds .requiring ∧ holds .opening ∧ holds .closing ∧ holds .activating := by
  constructor
  · exact fun all => ⟨all _, all _, all _, all _, all _, all _, all _⟩
  · rintro ⟨_, _, _, _, _, _, _⟩ role
    cases role <;> assumption

/-- Markup is what it says in each role. -/
theorem ext_get (same : ∀ role, markup.get role = held.get role) : markup = held := by
  obtain ⟨⟩ := markup
  obtain ⟨⟩ := held
  rw [mk.injEq]
  exact forall_role.mp same

theorem get_set (role other : Role) (source : String) (markup : Markup) :
    (markup.set role source).get other = if other = role then some source else markup.get other := by
  cases role <;> cases other <;> rfl

theorem mem_roles (role : Role) : role ∈ roles := by cases role <;> decide

theorem attributeName_inj {role other : Role} : attributeName role = attributeName other ↔ role = other := by
  cases role <;> cases other <;> decide

theorem isReserved_attributeName (role : Role) : isReserved (attributeName role) = true := by cases role <;> decide

theorem roleOf?_eq_some_iff {name : String} {role : Role} : roleOf? name = some role ↔ attributeName role = name := by
  constructor
  · intro found
    simpa using @List.find?_some _ (fun role => attributeName role == name) _ _ found
  · rintro rfl
    cases role <;> decide

/-! ## Lists of attributes -/

theorem mem_toAttributes {entry : String × String} : entry ∈ markup.toAttributes ↔
    ∃ role, attributeName role = entry.1 ∧ markup.get role = some entry.2 := by
  simp only [toAttributes, List.mem_filterMap, Option.map_eq_some_iff, mem_roles, true_and]
  constructor
  · rintro ⟨role, source, held, rfl⟩
    exact ⟨role, rfl, held⟩
  · rintro ⟨role, named, held⟩
    exact ⟨role, entry.2, held, Prod.ext named rfl⟩

theorem mem_toAttributes_name {role : Role} {source : String} :
    (attributeName role, source) ∈ markup.toAttributes ↔ markup.get role = some source := by
  simp only [mem_toAttributes, attributeName_inj, exists_eq_left]

/-- Every attribute is written once. -/
theorem nodup_names (markup : Markup) : (markup.toAttributes.map Prod.fst).Nodup := by
  have distinct : roles.Nodup := by decide
  rw [List.Nodup, List.pairwise_map, toAttributes, List.pairwise_filterMap]
  refine distinct.imp fun {role other} apart entry written later writtenLater same => apart ?_
  obtain ⟨_, -, rfl⟩ := Option.map_eq_some_iff.mp written
  obtain ⟨_, -, rfl⟩ := Option.map_eq_some_iff.mp writtenLater
  exact attributeName_inj.mp same

/-- Markup is what its attributes say, in whatever order. -/
theorem eq_of_perm (same : markup.toAttributes.Perm held.toAttributes) : markup = held :=
  ext_get fun role => Option.ext fun source => by
    rw [← mem_toAttributes_name, ← mem_toAttributes_name, same.mem_iff]

/-- A condition in a free role is one more attribute. -/
theorem toAttributes_set {role : Role} (free : markup.get role = none) (source : String) :
    (markup.set role source).toAttributes.Perm ((attributeName role, source) :: markup.toAttributes) := by
  have new : (attributeName role, source) ∉ markup.toAttributes := by
    rw [mem_toAttributes_name, free]
    nofun
  refine (List.perm_ext_iff_of_nodup (.of_map _ (nodup_names _))
    (List.nodup_cons.mpr ⟨new, .of_map _ (nodup_names markup)⟩)).mpr fun entry => ?_
  simp only [List.mem_cons, mem_toAttributes, get_set]
  constructor
  · rintro ⟨other, named, found⟩
    split at found
    · rename_i same
      exact .inl (Prod.ext (named.symm.trans (same ▸ rfl)) (Option.some.inj found).symm)
    · exact .inr ⟨other, named, found⟩
  · rintro (rfl | ⟨other, named, found⟩)
    · exact ⟨role, rfl, if_pos rfl⟩
    · refine ⟨other, named, (if_neg ?_).trans found⟩
      rintro rfl
      exact absurd (free.symm.trans found) nofun

/-- The attributes of a list that carry conditions. -/
def reserved (entries : List (String × String)) : List (String × String) :=
  entries.filter fun entry => isReserved entry.1

/-- Attributes are taken up if with those of the conditions that are there already they are those of the outcome. -/
theorem takeAttributes_eq_ok_iff {entries : List (String × String)} :
    takeAttributes entries held = .ok markup ↔
      (reserved entries ++ held.toAttributes).Perm markup.toAttributes := by
  induction entries generalizing held with
  | nil =>
      rw [takeAttributes, Except.ok.injEq]
      exact ⟨fun same => same ▸ .refl _, eq_of_perm⟩
  | cons entry rest ih =>
      obtain ⟨name, source⟩ := entry
      by_cases carries : isReserved name = true
      · have kept : reserved ((name, source) :: rest) = (name, source) :: reserved rest := List.filter_cons_of_pos carries
        rw [kept, List.cons_append, takeAttributes, if_pos carries]
        cases known : roleOf? name with
        | none =>
            refine ⟨nofun, fun same => ?_⟩
            obtain ⟨role, named, -⟩ := mem_toAttributes.mp (same.subset List.mem_cons_self)
            exact absurd (known.symm.trans (roleOf?_eq_some_iff.mpr named)) nofun
        | some role =>
            obtain rfl := roleOf?_eq_some_iff.mp known
            cases found : held.get role with
            | none =>
                dsimp only
                rw [found, Option.isSome_none, if_neg Bool.false_ne_true, ih]
                have moved := ((toAttributes_set found source).append_left (reserved rest)).trans List.perm_middle
                exact ⟨fun same => moved.symm.trans same, fun same => moved.trans same⟩
            | some first =>
                dsimp only
                rw [found, Option.isSome_some, if_pos rfl]
                refine ⟨nofun, fun same => ?_⟩
                have once := (same.map Prod.fst).nodup_iff.mpr (nodup_names markup)
                have twice : attributeName role ∈ held.toAttributes.map Prod.fst :=
                  List.mem_map_of_mem (mem_toAttributes_name.mpr found)
                rw [List.map_cons, List.map_append, List.nodup_cons] at once
                exact absurd (List.mem_append_right _ twice) once.1
      · have skipped : reserved ((name, source) :: rest) = reserved rest := List.filter_cons_of_neg carries
        rw [skipped, takeAttributes, if_neg carries, ih]

/-- Attributes carry the conditions of which they hold the attributes, in any order and with others in between. -/
theorem ofAttributes_eq_ok_iff {entries : List (String × String)} :
    ofAttributes entries = .ok markup ↔ (reserved entries).Perm markup.toAttributes := by
  have nothing : absent.toAttributes = [] := rfl
  rw [ofAttributes, takeAttributes_eq_ok_iff, nothing, List.append_nil]

/-! ## The text of an element -/

/-- What a value means in which entities stand for characters, read once from left to right. -/
def unescape : List Char → List Char
  | '&' :: 'a' :: 'm' :: 'p' :: ';' :: rest => '&' :: unescape rest
  | '&' :: 'q' :: 'u' :: 'o' :: 't' :: ';' :: rest => '\x22' :: unescape rest
  | '&' :: 'l' :: 't' :: ';' :: rest => '<' :: unescape rest
  | '&' :: 'g' :: 't' :: ';' :: rest => '>' :: unescape rest
  | character :: rest => character :: unescape rest
  | [] => []

/-- The name in a text that leads to a value: a space at least, the name, and a sign of equality. -/
def nameOf? : List Char → Option String
  | ' ' :: rest =>
    let written := rest.dropWhile (· == ' ')
    if written.getLast? = some '=' then some (String.ofList written.dropLast) else none
  | _ => none

/-- Reads attributes from the pieces of a text between its double quotes, which by turns lead to a value and are one.
Behind the last value there may be spaces. -/
def readPieces? : List (List Char) → Option (List (String × String))
  | front :: value :: rest => do
    let name ← nameOf? front
    let others ← readPieces? rest
    return (name, String.ofList (unescape value)) :: others
  | [rest] => if rest.all (· == ' ') then some [] else none
  | [] => none

/-- Reads the attributes in the text of an element. A space that is missing in front of the first one does no harm. -/
def readAttributes? (text : String) : Option (List (String × String)) :=
  readPieces? (pieces '\x22' (' ' :: text.toList))

/-- An escaped character means this character. -/
theorem unescape_escapeCharacter (character : Char) (rest : List Char) :
    unescape (escapeCharacter character ++ rest) = character :: unescape rest := by
  unfold escapeCharacter
  split
  · rfl
  · rfl
  · rfl
  · rfl
  · rename_i notAmpersand _ _ _
    rw [List.singleton_append, unescape]
    all_goals exact fun _ same => absurd same notAmpersand

/-- A value means what was escaped in it. -/
theorem unescape_escape (value : String) : unescape (escape value).toList = value.toList := by
  rw [escape, String.toList_ofList]
  induction value.toList with
  | nil => rfl
  | cons character rest ih => rw [List.flatMap_cons, unescape_escapeCharacter, ih]

/-- In an escaped value there is no double quote. -/
theorem quote_not_mem_escape (value : String) : '\x22' ∉ (escape value).toList := by
  rw [escape, String.toList_ofList, List.mem_flatMap]
  rintro ⟨character, -, inside⟩
  unfold escapeCharacter at inside
  split at inside
  · exact absurd inside (by decide)
  · exact absurd inside (by decide)
  · exact absurd inside (by decide)
  · exact absurd inside (by decide)
  · rename_i _ notQuote _ _
    exact notQuote (List.mem_singleton.mp inside).symm

/-- A name that can stand in front of a value: it holds no double quote and does not begin with a space. -/
def IsName (name : String) : Prop := '\x22' ∉ name.toList ∧ name.toList.head? ≠ some ' '

instance (name : String) : Decidable (IsName name) := inferInstanceAs (Decidable (_ ∧ _))

theorem isName_attributeName (role : Role) : IsName (attributeName role) := by cases role <;> decide

/-- A name is read from the text that leads to its value. -/
theorem nameOf?_eq {name : String} (isName : IsName name) :
    nameOf? (' ' :: (name.toList ++ ['='])) = some name := by
  have written : (name.toList ++ ['=']).dropWhile (· == ' ') = name.toList ++ ['='] := by
    have front := isName.2
    cases letters : name.toList with
    | nil => rfl
    | cons first rest =>
        rw [letters, List.head?_cons, ne_eq, Option.some.injEq] at front
        rw [List.cons_append, List.dropWhile_cons_of_neg (by simpa using front)]
  simp only [nameOf?, written, List.getLast?_concat, List.dropLast_concat, if_true, String.ofList_toList]

/-- An attribute is read, and what follows it is read on its own. -/
theorem readPieces?_renderAttribute {name : String} (isName : IsName name) (value : String) (rest : List Char) :
    readPieces? (pieces '\x22' (' ' :: (renderAttribute name value).toList ++ rest)) =
      (readPieces? (pieces '\x22' rest)).map ((name, value) :: ·) := by
  have front : '\x22' ∉ ' ' :: (name.toList ++ ['=']) := by simpa using isName.1
  have text : ' ' :: (renderAttribute name value).toList ++ rest =
      (' ' :: (name.toList ++ ['='])) ++ '\x22' :: ((escape value).toList ++ '\x22' :: rest) := by
    simp [renderAttribute]
  rw [text, pieces_append, pieces_append, pieces_of_not_mem front, pieces_of_not_mem (quote_not_mem_escape value),
    List.singleton_append, List.singleton_append, readPieces?, nameOf?_eq isName, unescape_escape,
    String.ofList_toList]
  cases readPieces? (pieces '\x22' rest) <;> rfl

/-- Attributes with a space between them are read back. -/
theorem readAttributes?_intercalate {entries : List (String × String)} (named : ∀ entry ∈ entries, IsName entry.1) :
    readAttributes? (String.intercalate " " (entries.map fun (name, value) => renderAttribute name value)) =
      some entries := by
  rw [readAttributes?, String.toList_intercalate]
  induction entries with
  | nil => rfl
  | cons entry rest ih =>
      obtain ⟨isName, named⟩ := List.forall_mem_cons.mp named
      have behind := ih named
      cases rest with
      | nil =>
          have alone := readPieces?_renderAttribute isName entry.2 []
          rw [List.append_nil] at alone
          rw [List.map_singleton, List.map_singleton, List.intercalate_singleton, alone]
          rfl
      | cons other others =>
          simp only [List.map_cons, List.intercalate_cons_cons] at behind ⊢
          rw [List.append_assoc, ← List.cons_append, readPieces?_renderAttribute isName]
          exact congrArg (Option.map (entry :: ·)) behind

/-- Whatever the conditions hold, their attributes are read back from the text of an element. -/
theorem readAttributes?_render (markup : Markup) : readAttributes? markup.render = some markup.toAttributes := by
  refine readAttributes?_intercalate fun entry listed => ?_
  obtain ⟨role, named, -⟩ := mem_toAttributes.mp listed
  exact named ▸ isName_attributeName role

end Markup

/-! ## The check -/

/-- A condition that can be read, if there is one. -/
def Reads (source : Option String) : Prop :=
  ∀ text, source = some text → ∃ condition, Expression.parse text = .ok condition

section Reads

variable {path : Path} {role : Role} {source other : Option String}

theorem reads_none : Reads none := nofun

theorem reads_some {text : String} : Reads (some text) ↔ ∃ condition, Expression.parse text = .ok condition :=
  ⟨fun reads => reads text rfl, fun reads _ same => Option.some.inj same ▸ reads⟩

theorem exists_compileCondition {text : String} :
    (∃ condition, compileCondition path role text = .ok condition) ↔ Reads (some text) := by
  rw [reads_some, compileCondition]
  cases Expression.parse text <;> simp

theorem exists_compileOptional : (∃ condition, compileOptional path role source = .ok condition) ↔ Reads source := by
  cases source with
  | none => exact ⟨fun _ => reads_none, fun _ => ⟨_, rfl⟩⟩
  | some text => rw [compileOptional, exists_map_eq_ok, exists_compileCondition]

/-- A visibility is read from one condition at most. -/
theorem exists_compileVisibility : (∃ visibility, Visibility.compile path source other = .ok visibility) ↔
    (Reads source ∧ Reads other) ∧ (source = none ∨ other = none) := by
  match source, other with
  | none, none => simp [Visibility.compile, reads_none]
  | some text, none =>
      rw [Visibility.compile, exists_map_eq_ok, exists_compileCondition]
      simp [reads_none]
  | none, some text =>
      rw [Visibility.compile, exists_map_eq_ok, exists_compileCondition]
      simp [reads_none]
  | some shown, some hidden => simp [Visibility.compile]

end Reads

namespace Markup

/-- Every condition can be read, and an element is not both shown and hidden. -/
structure Sound (markup : Markup) : Prop where
  reads : ∀ role, Reads (markup.get role)
  oneVisibility : markup.showWhile = none ∨ markup.hideWhile = none

/-- Markup passes the check, at whatever path, exactly if it is sound. -/
theorem check_eq_ok_iff {path : Path} {markup : Markup} : markup.check path = .ok () ↔ markup.Sound := by
  simp only [check, bind_eq_ok, pure_eq_ok, and_true, exists_and_right, exists_compileVisibility, exists_compileOptional]
  constructor
  · rintro ⟨⟨⟨shown, hidden⟩, one⟩, disabled, required, opened, closed, activated⟩
    exact ⟨forall_role.mpr ⟨shown, hidden, disabled, required, opened, closed, activated⟩, one⟩
  · rintro ⟨reads, one⟩
    exact ⟨⟨⟨reads .showing, reads .hiding⟩, one⟩, reads .disabling, reads .requiring, reads .opening, reads .closing,
      reads .activating⟩

end Formwork.Markup
