import Formwork.Proofs.Flags

/-!
# What fields hold

The holding of a field is its widget, its value at mounting and its value now. Flags, messages,
latches and the state of dialogs are no part of it, so most of what happens to a form leaves its
holdings as they are; a reset restores all of them, and leaving a dialog restores them in two of
its modes (`Form.holdings_closeDialog`).

A value fits a widget if storing it once more changes nothing (`Holding.Fits`). The blank value of a
fitting value is that of the widget (`Holding.Fits.blank`).
-/

set_option autoImplicit false

namespace Formwork

/-- What a field holds. -/
structure Holding where
  widget : Widget
  /-- The value at mounting. -/
  initial : Value
  value : Value

namespace Holding

/-- The holding after a value was stored. -/
def store (content : Value) (held : Holding) : Holding := { held with value := held.widget.fit content }

/-- The holding with the value at mounting. -/
def restore (held : Holding) : Holding := { held with value := held.initial }

/-- The value is that at mounting. -/
def IsInitial (held : Holding) : Prop := held.value = held.initial

/-- Both values have the kind that the widget stores. -/
structure Fits (held : Holding) : Prop where
  initial : held.widget.fit held.initial = held.initial
  value : held.widget.fit held.value = held.value

theorem Fits.store {held : Holding} (fits : held.Fits) (content : Value) : (held.store content).Fits :=
  ⟨fits.initial, held.widget.fit_fit content⟩

theorem Fits.restore {held : Holding} (fits : held.Fits) : held.restore.Fits :=
  ⟨fits.initial, fits.initial⟩

end Holding

/-- The blank value of the kind that a widget stores. -/
def Widget.blank : Widget → Value
  | .checkbox => .flag false
  | .selectMultiple => .many []
  | _ => .text ""

theorem Widget.blank_of_fits {widget : Widget} {value : Value} (fits : widget.fit value = value) :
    value.blank = widget.blank := by
  rw [← fits]
  cases widget <;> cases value <;> rfl

theorem Holding.Fits.blank {held : Holding} (fits : held.Fits) : held.value.blank = held.widget.blank :=
  Widget.blank_of_fits fits.value

namespace Field

/-- What the field holds. -/
def holding (field : Field) : Holding := ⟨field.plan.widget, field.initial, field.value⟩

theorem holding_clearErrors (field : Field) : field.clearErrors.holding = field.holding := rfl

theorem holding_setErrors (messages : List String) (field : Field) :
    (field.setErrors messages).holding = field.holding := rfl

theorem holding_setSelfDisabled (disabled : Bool) (field : Field) :
    (field.setSelfDisabled disabled).holding = field.holding := rfl

theorem holding_setValue (value : Value) (field : Field) :
    (field.setValue value).holding = field.holding.store value := by
  unfold setValue
  dsimp only
  split <;> rfl

theorem holding_reset (field : Field) : field.reset.holding = field.holding.restore := rfl

theorem holding_fill (initial : Option Json) (field : Field) :
    (field.fill initial).holding =
      ⟨field.plan.widget, initialValue field.plan initial, initialValue field.plan initial⟩ := rfl

/-- The value of a field at the start has the kind that its widget stores. -/
theorem fits_initialValue (plan : FieldPlan) (initial : Option Json) :
    (Holding.mk plan.widget (initialValue plan initial) (initialValue plan initial)).Fits :=
  ⟨plan.widget.fit_fit _, plan.widget.fit_fit _⟩

/-- A field holds its value at mounting at the start. -/
theorem isInitial_initialValue (plan : FieldPlan) (initial : Option Json) :
    (Holding.mk plan.widget (initialValue plan initial) (initialValue plan initial)).IsInitial := rfl

end Field

/-! ## Members -/

namespace Member

theorem views_nil {α : Type} (view : Field → α) (path : Path) : views view path [] = [] := rfl

theorem mem_views_iff {α : Type} {view : Field → α} {path place : Path} {seen : α}
    {members : List (String × Member)} : (place, seen) ∈ views view path members ↔
      ∃ names field, place = path.extend ⟨names⟩ ∧ seen = view field ∧
        Stands members names (.field field) := by
  simp only [views, List.mem_map, Prod.mk.injEq, Prod.exists, mem_fields_iff]
  constructor
  · rintro ⟨_, field, ⟨names, rfl, stands⟩, rfl, rfl⟩
    exact ⟨names, field, rfl, rfl, stands⟩
  · rintro ⟨names, field, rfl, rfl, stands⟩
    exact ⟨_, field, ⟨names, rfl, stands⟩, rfl, rfl⟩

/-! ### What every field holds -/

section Each

variable (holds : Holding → Prop)

/-- What all fields beneath the members of a group hold has a property. -/
def Each (members : List (String × Member)) : Prop :=
  ∀ names field, Stands members names (.field field) → holds field.holding

/-- What the member itself holds has a property, if it is a field. -/
def Here : Member → Prop
  | .field entry => holds entry.holding
  | .fieldset _ _ => True

variable {holds}

theorem each_iff_views (path : Path) {members : List (String × Member)} :
    Each holds members ↔ ∀ seen ∈ views Field.holding path members, holds seen.2 := by
  constructor
  · rintro each ⟨place, held⟩ listed
    obtain ⟨names, field, -, rfl, stands⟩ := mem_views_iff.mp listed
    exact each names field stands
  · exact fun each names field stands => each (path.extend ⟨names⟩, _)
      (mem_views_iff.mpr ⟨names, field, rfl, rfl, stands⟩)

theorem each_iff {members : List (String × Member)} :
    Each holds members ↔ ∀ entry ∈ members, entry.2.Here holds ∧ Each holds entry.2.inner := by
  constructor
  · rintro each ⟨name, member⟩ inside
    refine ⟨?_, fun names field stands => each (name :: names) field (.beneath inside stands)⟩
    cases member with
    | field entry => exact each [name] entry (.here inside)
    | fieldset group inner => trivial
  · intro each names field stands
    cases stands with
    | here inside => exact (each _ inside).1
    | beneath inside below => exact (each _ inside).2 _ field below

theorem each_nil : Each holds [] := fun _ _ stands => absurd stands not_stands_nil

/-- Every field has the property at the start, whatever the data are. -/
def AtStart (holds : Holding → Prop) : Prop :=
  ∀ plan initial, holds ⟨plan.widget, Field.initialValue plan initial, Field.initialValue plan initial⟩

mutual
/-- A member that was just built holds in every field what such a field holds at the start. -/
theorem each_build (start : AtStart holds) {path : Path} {plan : MemberPlan} {member : Member}
    (built : Member.build path plan = .ok member) : member.Here holds ∧ Each holds member.inner := by
  cases plan with
  | field plan =>
      simp only [Member.build, Field.build, bind_eq_ok, pure_eq_ok] at built
      obtain ⟨_, ⟨_, -, _, -, _, -, _, -, _, -, rfl⟩, rfl⟩ := built
      exact ⟨start plan none, each_nil⟩
  | fieldset plan plans =>
      simp only [Member.build, bind_eq_ok, pure_eq_ok] at built
      obtain ⟨_, -, group, -, members, membersBuilt, rfl⟩ := built
      exact ⟨trivial, each_buildAll start membersBuilt⟩

/-- `each_build` for all members of a list. -/
theorem each_buildAll (start : AtStart holds) {path : Path} {plans : List (String × MemberPlan)}
    {members : List (String × Member)} (built : Member.buildAll path plans = .ok members) :
    Each holds members := by
  match plans with
  | [] =>
      cases built
      exact each_nil
  | (name, plan) :: rest =>
      simp only [Member.buildAll, bind_eq_ok, pure_eq_ok] at built
      obtain ⟨_, -, member, memberBuilt, others, othersBuilt, rfl⟩ := built
      exact each_iff.mpr (List.forall_mem_cons.mpr
        ⟨each_build start memberBuilt, each_iff.mp (each_buildAll start othersBuilt)⟩)
end

/-- Filled members hold in every field what such a field holds at the start, whatever the data are. -/
theorem each_fillAll (start : AtStart holds) (initial : Option Json) (members : List (String × Member)) :
    Each holds (fillAll initial members) := by
  induction members using groupInduction generalizing initial with
  | step members ih =>
      rw [each_iff, fillAll_eq]
      refine List.forall_mem_map.mpr fun entry inside => ?_
      have beneath := ih entry inside
      obtain ⟨name, member⟩ := entry
      cases member with
      | field entry => exact ⟨start entry.plan _, each_nil⟩
      | fieldset group inner => exact ⟨trivial, beneath _⟩

end Each

/-- A change of all fields and groups changes every view of a field. -/
theorem views_mapAll {α : Type} {view : Field → α} {onField : Field → Field} (edit : α → α)
    (agree : ∀ entry, view (onField entry) = edit (view entry)) (onGroup : Group → Group) (path : Path)
    (members : List (String × Member)) :
    views view path (mapAll onField onGroup members) =
      (views view path members).map fun entry => (entry.1, edit entry.2) := by
  rw [views, views, fields_mapAll, List.map_map, List.map_map]
  exact List.map_congr_left fun entry _ => Prod.ext rfl (agree entry.2)

/-- After a change of the field at some names every view is an old one or that of the changed field. -/
theorem mem_views_modifyAt {α : Type} {view : Field → α} {change : Field → Field} {edit : α → α}
    (agree : ∀ entry, view (change entry) = edit (view entry)) {path : Path} {name : String}
    {names : List String} {members : List (String × Member)} {seen : Path × α}
    (listed : seen ∈ views view path (modifyAt (fun
      | .field entry => .field (change entry)
      | other => other) name names members)) :
    seen ∈ views view path members ∨ ∃ old ∈ views view path members, seen = (old.1, edit old.2) := by
  induction members using groupInduction generalizing path name names with
  | step members ih =>
      rw [views_eq, modifyAt_eq] at listed
      obtain ⟨entry, inside, listed⟩ := List.mem_flatMap.mp listed
      have among {old : String × Member} (inside : old ∈ members) {seen : Path × α}
          (listed : seen ∈ (old.2.item.field?.map fun field => (path.join old.1, view field)).toList ++
            views view (path.join old.1) old.2.inner) : seen ∈ views view path members := by
        rw [views_eq]
        exact List.mem_flatMap.mpr ⟨old, inside, listed⟩
      rcases Assoc.mem_modify inside with old | ⟨member, there, rfl⟩
      · exact .inl (among old listed)
      · cases member with
        | field entry =>
            cases names with
            | nil =>
                refine .inr ⟨(path.join name, view entry), among there ?_, ?_⟩
                · simp [item, Item.field?]
                · simpa [modify, item, inner, Item.field?, views_nil, agree] using listed
            | cons _ _ => exact .inl (among there (by simpa [modify] using listed))
        | fieldset group inner =>
            cases names with
            | nil => exact .inl (among there (by simpa [modify] using listed))
            | cons next rest =>
                have beneath : seen ∈ views view (path.join name) (modifyAt (fun
                    | .field entry => .field (change entry)
                    | other => other) next rest inner) := by
                  simpa [modify, item, Item.field?, Member.inner] using listed
                rcases ih _ there beneath with old | ⟨old, listedOld, same⟩
                · exact .inl (among there (List.mem_append_right _ old))
                · exact .inr ⟨old, among there (List.mem_append_right _ listedOld), same⟩

end Member

/-! ## Forms -/

/-- Whether leaving a dialog in a mode restores the values at mounting. -/
def CloseMode.restores : CloseMode → Bool
  | .reset => true
  | .clear => true
  | _ => false

namespace Form

variable (path : Path) (form : Form)

/-- What the fields of a form at a path hold. -/
def holdings : List (Path × Holding) := Member.views Field.holding path form.members

theorem holdings_refresh (lookup : Lookup) (place : Path) :
    (form.refresh lookup place).holdings path = form.holdings path :=
  Member.views_refreshAll (fun _ _ _ _ _ => rfl) lookup place _ _ path form.members

theorem holdings_latch (lookup : Lookup) (place : Path) :
    (form.latch lookup place).holdings path = form.holdings path := rfl

theorem holdings_clearErrors : form.clearErrors.holdings path = form.holdings path := by
  rw [clearErrors_eq]
  exact Member.views_clearAll Field.holding_clearErrors path form.members

/-- What touches messages only leaves the holdings as they are. -/
theorem holdings_of_clearErrors {first second : Form} (same : first.clearErrors = second.clearErrors) :
    first.holdings path = second.holdings path := by
  rw [← first.holdings_clearErrors, same, second.holdings_clearErrors]

theorem holdings_validate (place : Path) : (form.validate place).holdings path = form.holdings path :=
  holdings_of_clearErrors path (form.clearErrors_validate place)

theorem holdings_validateAt (place : Path) (names : List String) :
    (form.validateAt place names).holdings path = form.holdings path :=
  holdings_of_clearErrors path (form.clearErrors_validateAt place names)

theorem holdings_openDialog : form.openDialog.holdings path = form.holdings path := by
  unfold openDialog
  split
  · split
    · rfl
    · exact form.holdings_clearErrors path
  · rfl

theorem holdings_reset :
    form.reset.holdings path = (form.holdings path).map fun entry => (entry.1, entry.2.restore) :=
  Member.views_mapAll Holding.restore Field.holding_reset Group.clearErrors path form.members

/-- Leaving a dialog restores its fields if the mode says so and the dialog is open. -/
theorem holdings_closeDialog (place : Path) (mode : CloseMode) :
    (form.closeDialog place mode).holdings path =
      if form.isOpenDialog && mode.restores then
        (form.holdings path).map fun entry => (entry.1, entry.2.restore)
      else form.holdings path := by
  unfold closeDialog
  cases form.isOpenDialog with
  | false => rfl
  | true =>
      cases mode with
      | apply =>
          change Form.holdings path (if (form.failures place).isEmpty then _ else _) = form.holdings path
          split
          · exact form.holdings_validate path place
          · exact form.holdings_validate path place
      | close => rfl
      | reset => exact form.holdings_reset path
      | clear => exact form.holdings_reset path

end Form

end Formwork
