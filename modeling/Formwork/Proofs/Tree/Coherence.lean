import Formwork.Proofs.Tree.Rest

/-!
# What the flags of a tree at rest mean

In a tree at rest a field or group is hidden exactly if its own condition hides it, or that of a form
or fieldset around it; it is disabled exactly if its own condition says so, or that of a form or
fieldset around it, or the mark that a button carries; and every inducer remembers the truth of
its condition. All conditions are read against the values of the tree as it is
(`Tree.Reachable.coherent`).

What is around a path is told by the path alone: a form or fieldset whose path is a proper beginning of
the path of a field is around this field, since no node stands beneath a form.
-/

set_option autoImplicit false

namespace Formwork

theorem Path.enclosing_extend_append {path : Path} {front names : List String} (some : names ≠ []) :
    (path.extend ⟨front ++ names⟩).enclosing = (path.extend ⟨front⟩).extend ⟨names.dropLast⟩ := by
  simp [Path.enclosing, Path.extend, List.dropLast_append_of_ne_nil, some]

namespace Tree

variable (tree : Tree)

/-- A form or fieldset around a path has a reason. -/
def Around (path : Path) (reason : Path → Group → Bool) : Prop :=
  ∃ outer ∈ path.ancestors, ∃ group, (outer, group) ∈ tree.groups ∧ reason outer group = true

/-- Buttons, flags and inducers agree with the values. -/
structure Coherent : Prop where
  noButtonFires : ∀ path, tree.fires path = false
  refreshed : tree.refresh = tree
  latched : tree.latch = tree
  fieldHidden : ∀ path field, (path, field) ∈ tree.fields →
    (field.hidden = true ↔ field.visibility.hides path.enclosing tree.lookup = true ∨
      tree.Around path fun outer group => group.visibility.hides outer tree.lookup)
  fieldDisabled : ∀ path field, (path, field) ∈ tree.fields →
    (field.disabled = true ↔ field.disables tree.lookup path.enclosing = true ∨
      tree.Around path fun outer group => holdsOptional outer tree.lookup group.disableWhile)
  fieldRequired : ∀ path field, (path, field) ∈ tree.fields →
    field.required = field.requires tree.lookup path.enclosing
  groupHidden : ∀ path group, (path, group) ∈ tree.groups →
    (group.hidden = true ↔ group.visibility.hides path tree.lookup = true ∨
      tree.Around path fun outer group => group.visibility.hides outer tree.lookup)
  groupDisabled : ∀ path group, (path, group) ∈ tree.groups →
    (group.disabled = true ↔ holdsOptional path tree.lookup group.disableWhile = true ∨
      tree.Around path fun outer group => holdsOptional outer tree.lookup group.disableWhile)
  formInducers : ∀ path form, (path, form) ∈ tree.forms →
    ∀ inducer ∈ form.inducers, inducer.latched = inducer.holds path tree.lookup
  frameInducers : ∀ path frame, (path, frame) ∈ tree.frames →
    ∀ inducer ∈ frame.inducer, inducer.latched = inducer.holds path tree.lookup

variable {tree}

section Around

variable (regular : tree.root.Regular) {front : List String} {form : Form}
variable (stands : tree.root.Stands front (.form form))
include regular stands

/-- Around a place in a form are the form itself and the fieldsets on the way. -/
theorem around_iff {names : List String} {reason : Path → Group → Bool} :
    tree.Around (tree.here.extend ⟨front ++ names⟩) reason ↔
      (names ≠ [] ∧ reason (tree.here.extend ⟨front⟩) form.group = true) ∨
        ∃ inner rest group members, names = inner ++ rest ∧ rest ≠ [] ∧
          Member.Stands form.members inner (.fieldset group members) ∧
            reason (tree.here.extend ⟨front ++ inner⟩) group = true := by
  constructor
  · rintro ⟨outer, isAncestor, group, listed, holds⟩
    obtain ⟨rest, some, path⟩ := Path.mem_ancestors_iff.mp isAncestor
    obtain ⟨other, content, standsOther, there⟩ := Node.mem_groups_iff.mp listed
    rcases there with ⟨rfl, rfl⟩ | ⟨inner, members, rfl, member⟩
    · rw [Path.extend_append] at path
      have same := congrArg Path.segments (Path.extend_injective path)
      obtain ⟨rfl, rfl, rfl⟩ := Node.stands_form_unique regular stands standsOther same
      exact .inl ⟨some, holds⟩
    · rw [Path.extend_append, List.append_assoc] at path
      have same := congrArg Path.segments (Path.extend_injective path)
      obtain ⟨rfl, rfl, rfl⟩ := Node.stands_form_unique regular stands standsOther same
      exact .inr ⟨inner, rest, group, members, rfl, some, member, holds⟩
  · rintro (⟨some, holds⟩ | ⟨inner, rest, group, members, rfl, some, member, holds⟩)
    · refine ⟨_, Path.mem_ancestors_iff.mpr ⟨names, some, ?_⟩, form.group, ?_, holds⟩
      · exact (Path.extend_append tree.here front names).symm
      · exact Node.mem_groups_iff.mpr ⟨front, form, stands, .inl ⟨rfl, rfl⟩⟩
    · refine ⟨_, Path.mem_ancestors_iff.mpr ⟨rest, some, ?_⟩, group, ?_, holds⟩
      · rw [Path.extend_append, List.append_assoc]
      · exact Node.mem_groups_iff.mpr ⟨front, form, stands, .inr ⟨inner, members, rfl, member⟩⟩

/-- Nothing is around a form. -/
theorem not_around_form {reason : Path → Group → Bool} :
    ¬ tree.Around (tree.here.extend ⟨front⟩) reason := by
  rw [← List.append_nil front, around_iff regular stands]
  rintro (⟨some, -⟩ | ⟨inner, rest, group, members, split, some, -⟩)
  · exact some rfl
  · exact some (List.append_eq_nil_iff.mp split.symm).2

/-- A flag that is derived in a form says that the member or something around it has a reason. -/
theorem derived_iff (reason : Path → Group → Bool) {flag : Member → Bool}
    {own : Path → Path → Member → Bool} {above : Bool}
    (derived : Member.Derived flag own (tree.here.extend ⟨front⟩) above form.members)
    (fromForm : above = reason (tree.here.extend ⟨front⟩) form.group)
    (fromFieldset : ∀ scope path group members,
      own scope path (.fieldset group members) = reason path group)
    {names : List String} {member : Member} (inside : Member.Stands form.members names member) :
    flag member = true ↔
      own (tree.here.extend ⟨front ++ names⟩).enclosing (tree.here.extend ⟨front ++ names⟩) member = true ∨
        tree.Around (tree.here.extend ⟨front ++ names⟩) reason := by
  have members := (regular.stands stands).form
  have own_congr (inner : List String) (outer : Member) (some : inner ≠ []) :
      own ((tree.here.extend ⟨front⟩).extend ⟨inner.dropLast⟩) ((tree.here.extend ⟨front⟩).extend ⟨inner⟩)
        outer = own (tree.here.extend ⟨front ++ inner⟩).enclosing (tree.here.extend ⟨front ++ inner⟩)
          outer := by
    rw [Path.enclosing_extend_append some, Path.extend_append tree.here front inner]
  rw [derived.flag_iff members inside, fromForm, around_iff regular stands]
  constructor
  · rintro (holds | ⟨inner, rest, outer, rfl, there, holds⟩)
    · exact .inr (.inl ⟨inside.ne_nil, holds⟩)
    · rw [own_congr inner outer there.ne_nil] at holds
      by_cases none : rest = []
      · subst none
        rw [List.append_nil] at inside ⊢
        obtain rfl := there.unique members inside
        exact .inl holds
      · obtain ⟨around, standsAround, below⟩ := (Member.stands_append_iff there.ne_nil none).mp inside
        obtain rfl := there.unique members standsAround
        cases outer with
        | field entry => exact absurd below Member.not_stands_nil
        | fieldset group members =>
            rw [fromFieldset] at holds
            exact .inr (.inr ⟨inner, rest, group, members, rfl, none, there, holds⟩)
  · rintro (holds | ⟨-, holds⟩ | ⟨inner, rest, group, members, rfl, some, there, holds⟩)
    · refine .inr ⟨names, [], member, (List.append_nil names).symm, inside, ?_⟩
      rwa [own_congr names member inside.ne_nil]
    · exact .inl holds
    · refine .inr ⟨inner, rest, _, rfl, there, ?_⟩
      rwa [own_congr inner _ there.ne_nil, fromFieldset]

end Around

/-- Every reachable tree is coherent. -/
theorem Reachable.coherent {tree : Tree} (reachable : tree.Reachable) : tree.Coherent := by
  have regular := reachable.regular
  have rest := reachable.atRest
  obtain ⟨quiet, refreshed, latchedForms, latchedFrames⟩ := atRest_iff.mp rest
  -- What the freshness of the form around an element says of its group and of its members.
  have groupFresh {front : List String} {form : Form} (stands : tree.root.Stands front (.form form)) :=
    (Group.refresh_eq_self_iff _ _ _ _ _).mp (Form.refresh_eq_self_iff.mp
      (refreshed _ (Node.mem_forms_iff.mpr ⟨front, rfl, stands⟩))).1
  have membersFresh {front : List String} {form : Form} (stands : tree.root.Stands front (.form form)) :=
    (Form.refresh_eq_self_iff.mp (refreshed _ (Node.mem_forms_iff.mpr ⟨front, rfl, stands⟩))).2
  have hidden {front names : List String} {form : Form} {member : Member}
      (stands : tree.root.Stands front (.form form)) (inside : Member.Stands form.members names member) :=
    derived_iff regular stands (fun outer group => group.visibility.hides outer tree.lookup)
      (Member.derived_hidden (membersFresh stands)) (groupFresh stands).1 (fun _ _ _ _ => rfl) inside
  have disabled {front names : List String} {form : Form} {member : Member}
      (stands : tree.root.Stands front (.form form)) (inside : Member.Stands form.members names member) :=
    derived_iff regular stands (fun outer group => holdsOptional outer tree.lookup group.disableWhile)
      (Member.derived_disabled (membersFresh stands)) (groupFresh stands).2 (fun _ _ _ _ => rfl) inside
  refine {
    noButtonFires := fun path => ?_
    refreshed := rest.refreshed
    latched := rest.latched
    fieldHidden := fun path field listed => ?_
    fieldDisabled := fun path field listed => ?_
    fieldRequired := fun path field listed => ?_
    groupHidden := fun path group listed => ?_
    groupDisabled := fun path group listed => ?_
    formInducers := fun path form listed => Form.latch_eq_self_iff.mp (latchedForms _ listed)
    frameInducers := fun path frame listed => Frame.latch_eq_self_iff.mp (latchedFrames _ listed) }
  · rw [fires, quiet]
  · obtain ⟨front, form, names, rfl, stands, inside⟩ := Node.mem_fields_iff.mp listed
    exact hidden stands inside
  · obtain ⟨front, form, names, rfl, stands, inside⟩ := Node.mem_fields_iff.mp listed
    exact disabled stands inside
  · obtain ⟨front, form, names, rfl, stands, inside⟩ := Node.mem_fields_iff.mp listed
    obtain ⟨hiddenAround, disabledAround, fresh⟩ := inside.fresh (membersFresh stands)
    rw [Path.enclosing_extend_append inside.ne_nil]
    rw [Member.refresh, Member.field.injEq, Field.refresh_eq_self_iff] at fresh
    exact fresh.2.2
  · obtain ⟨front, form, stands, ⟨rfl, rfl⟩ | ⟨names, members, rfl, inside⟩⟩ :=
      Node.mem_groups_iff.mp listed
    · rw [(groupFresh stands).1, Bool.false_or, or_iff_left (not_around_form regular stands)]
    · exact hidden stands inside
  · obtain ⟨front, form, stands, ⟨rfl, rfl⟩ | ⟨names, members, rfl, inside⟩⟩ :=
      Node.mem_groups_iff.mp listed
    · rw [(groupFresh stands).2, Bool.false_or, or_iff_left (not_around_form regular stands)]
    · exact disabled stands inside

/-- The orders are coherent after one of them was filled in. -/
theorem coherent_orders : ∃ tree, Tree.mount orders none = .ok tree ∧
    (tree.after (.setValue ⟨["shop", "1", "order", "size"]⟩ (.text "large"))).Coherent := by
  obtain ⟨tree, mounted⟩ : ∃ tree, Tree.mount orders none = .ok tree := ⟨_, rfl⟩
  exact ⟨tree, mounted, Reachable.coherent (.after (.mounted mounted) _)⟩

end Tree

end Formwork
