import Formwork.Proofs.Messages
import Formwork.Proofs.Places

/-!
# Flags that agree with the values

A form whose flags are derived anew and come out as they were is *fresh*: `form.refresh lookup path`
is the form itself. Refreshing makes a form fresh (`Form.refresh_refresh`), remembering its inducers
and messages keep it fresh, and refreshing changes nothing that a condition can read
(`Form.readings_refresh`).

In a fresh form the flags have a meaning of their own: a member is hidden if its own condition or that
of a group around it hides it, and disabled likewise (`Member.Derived.flag_iff`).
-/

set_option autoImplicit false

namespace Formwork

theorem map_eq_self_iff {α : Type} {change : α → α} {items : List α} :
    items.map change = items ↔ ∀ item ∈ items, change item = item := by
  conv_lhs => rw [← List.map_id items, List.map_map]
  exact List.map_inj_left

/-! ## Single fields and groups -/

namespace Field

variable (lookup : Lookup) (scope : Path) (hiddenAbove disabledAbove : Bool) (entry : Field)

/-- The truth of the disable condition of a field, or the mark that a button carries itself. -/
def disables : Bool :=
  holdsOptional scope lookup entry.disableWhile ||
    (match entry.button with
    | some button => button.selfDisabled
    | none => false)

/-- Whether the field has to have a value now. -/
def requires : Bool :=
  !entry.isButton &&
    (match entry.requireWhile with
    | some condition => condition.evaluate scope lookup
    | none => entry.plan.required)

theorem refresh_eq : entry.refresh lookup scope hiddenAbove disabledAbove =
    { entry with
      hidden := hiddenAbove || entry.visibility.hides scope lookup
      disabled := disabledAbove || entry.disables lookup scope
      required := entry.requires lookup scope } := by
  rw [refresh, disables, ← Bool.or_assoc]
  rfl

/-- A field is fresh if its three flags are what they are derived from. -/
theorem refresh_eq_self_iff :
    entry.refresh lookup scope hiddenAbove disabledAbove = entry ↔
      entry.hidden = (hiddenAbove || entry.visibility.hides scope lookup) ∧
        entry.disabled = (disabledAbove || entry.disables lookup scope) ∧
          entry.required = entry.requires lookup scope := by
  rw [refresh_eq]
  constructor
  · intro same
    exact ⟨(congrArg Field.hidden same).symm, (congrArg Field.disabled same).symm,
      (congrArg Field.required same).symm⟩
  · rintro ⟨hidden, disabled, required⟩
    rw [← hidden, ← disabled, ← required]

end Field

namespace Group

variable (lookup : Lookup) (path : Path) (hiddenAbove disabledAbove : Bool) (group : Group)

theorem refresh_refresh :
    (group.refresh lookup path hiddenAbove disabledAbove).refresh lookup path hiddenAbove disabledAbove =
      group.refresh lookup path hiddenAbove disabledAbove := rfl

theorem refresh_eq_self_iff :
    group.refresh lookup path hiddenAbove disabledAbove = group ↔
      group.hidden = (hiddenAbove || group.visibility.hides path lookup) ∧
        group.disabled = (disabledAbove || holdsOptional path lookup group.disableWhile) := by
  constructor
  · intro same
    exact ⟨(congrArg Group.hidden same).symm, (congrArg Group.disabled same).symm⟩
  · rintro ⟨hidden, disabled⟩
    rw [refresh, ← hidden, ← disabled]

end Group

/-! ## Members -/

namespace Member

theorem refresh_refresh (lookup : Lookup) (scope path : Path) (hiddenAbove disabledAbove : Bool)
    (member : Member) :
    (member.refresh lookup scope path hiddenAbove disabledAbove).refresh lookup scope path hiddenAbove
      disabledAbove = member.refresh lookup scope path hiddenAbove disabledAbove := by
  induction member using Member.induction generalizing scope path hiddenAbove disabledAbove with
  | field entry => rfl
  | fieldset group members ih =>
      simp only [refresh, Group.refresh_refresh, refreshAll_eq, List.map_map]
      exact congrArg _ (List.map_congr_left fun entry inside => by simp [ih entry inside])

theorem refreshAll_refreshAll (lookup : Lookup) (scope : Path) (hiddenAbove disabledAbove : Bool)
    (members : List (String × Member)) :
    refreshAll lookup scope hiddenAbove disabledAbove
      (refreshAll lookup scope hiddenAbove disabledAbove members) =
        refreshAll lookup scope hiddenAbove disabledAbove members := by
  simp [refreshAll_eq, Function.comp_def, refresh_refresh]

/-- The members of a group are fresh if each of them is. -/
theorem refreshAll_eq_self_iff {lookup : Lookup} {scope : Path} {hiddenAbove disabledAbove : Bool}
    {members : List (String × Member)} :
    refreshAll lookup scope hiddenAbove disabledAbove members = members ↔ ∀ entry ∈ members,
      entry.2.refresh lookup scope (scope.join entry.1) hiddenAbove disabledAbove = entry.2 := by
  rw [refreshAll_eq, map_eq_self_iff]
  simp only [Prod.ext_iff, true_and]

theorem refresh_fieldset_eq_self_iff {lookup : Lookup} {scope path : Path}
    {hiddenAbove disabledAbove : Bool} {group : Group} {members : List (String × Member)} :
    (Member.fieldset group members).refresh lookup scope path hiddenAbove disabledAbove =
        .fieldset group members ↔
      group.refresh lookup path hiddenAbove disabledAbove = group ∧
        refreshAll lookup path group.hidden group.disabled members = members := by
  simp only [refresh, Member.fieldset.injEq]
  constructor
  · rintro ⟨sameGroup, sameMembers⟩
    rw [sameGroup] at sameMembers
    exact ⟨sameGroup, sameMembers⟩
  · rintro ⟨sameGroup, sameMembers⟩
    rw [sameGroup]
    exact ⟨rfl, sameMembers⟩

/-- Whether a member is fresh does not depend on its messages. -/
theorem refresh_clearErrors_eq_self_iff {lookup : Lookup} {scope path : Path}
    {hiddenAbove disabledAbove : Bool} {member : Member} :
    member.clearErrors.refresh lookup scope path hiddenAbove disabledAbove = member.clearErrors ↔
      member.refresh lookup scope path hiddenAbove disabledAbove = member := by
  induction member using Member.induction generalizing scope path hiddenAbove disabledAbove with
  | field entry =>
      rw [clearErrors_field, refresh, refresh, Member.field.injEq, Member.field.injEq,
        Field.refresh_eq_self_iff, Field.refresh_eq_self_iff]
      rfl
  | fieldset group members ih =>
      rw [clearErrors_fieldset, refresh_fieldset_eq_self_iff, refresh_fieldset_eq_self_iff,
        Group.refresh_eq_self_iff, Group.refresh_eq_self_iff, refreshAll_eq_self_iff,
        refreshAll_eq_self_iff]
      refine and_congr Iff.rfl ?_
      simp only [clearAll, List.forall_mem_map]
      exact forall₂_congr fun entry inside => ih entry inside

theorem refreshAll_clearAll_eq_self_iff {lookup : Lookup} {scope : Path}
    {hiddenAbove disabledAbove : Bool} {members : List (String × Member)} :
    refreshAll lookup scope hiddenAbove disabledAbove (clearAll members) = clearAll members ↔
      refreshAll lookup scope hiddenAbove disabledAbove members = members := by
  rw [refreshAll_eq_self_iff, refreshAll_eq_self_iff]
  simp only [clearAll, List.forall_mem_map, refresh_clearErrors_eq_self_iff]

/-! ### What conditions can read -/

theorem fields_eq (path : Path) (members : List (String × Member)) :
    fields path members = members.flatMap fun entry =>
      (entry.2.item.field?.map fun field => (path.join entry.1, field)).toList ++
        fields (path.join entry.1) entry.2.inner := by
  rw [fields, itemsAll_eq, List.filterMap_flatMap]
  refine List.flatMap_congr ?_
  intro entry _
  rw [items_eq, List.filterMap_cons]
  cases entry.2.item <;> rfl

/-- A view of the fields beneath the members of a group at a path. -/
def views {α : Type} (view : Field → α) (path : Path) (members : List (String × Member)) :
    List (Path × α) := (fields path members).map fun entry => (entry.1, view entry.2)

theorem views_eq {α : Type} (view : Field → α) (path : Path) (members : List (String × Member)) :
    views view path members = members.flatMap fun entry =>
      (entry.2.item.field?.map fun field => (path.join entry.1, view field)).toList ++
        views view (path.join entry.1) entry.2.inner := by
  rw [views, fields_eq, List.map_flatMap]
  refine List.flatMap_congr ?_
  intro entry _
  rw [List.map_append]
  cases entry.2.item <;> rfl

/-- Deriving the flags anew does not change a view that leaves them out. -/
theorem views_refreshAll {α : Type} {view : Field → α}
    (keeps : ∀ lookup scope hiddenAbove disabledAbove (entry : Field),
      view (entry.refresh lookup scope hiddenAbove disabledAbove) = view entry)
    (lookup : Lookup) (scope : Path) (hiddenAbove disabledAbove : Bool) (path : Path)
    (members : List (String × Member)) :
    views view path (refreshAll lookup scope hiddenAbove disabledAbove members) =
      views view path members := by
  induction members using groupInduction generalizing scope hiddenAbove disabledAbove path with
  | step members ih =>
      rw [views_eq, views_eq, refreshAll_eq, List.flatMap_map]
      refine List.flatMap_congr ?_
      intro entry inside
      have beneath := ih entry inside
      obtain ⟨name, member⟩ := entry
      cases member with
      | field entry => simp [refresh, item, inner, Item.field?, keeps]
      | fieldset group members => simpa [refresh, item, inner, Item.field?] using beneath _ _ _ _

/-- Forgetting messages does not change a view that leaves them out. -/
theorem views_clearAll {α : Type} {view : Field → α} (keeps : ∀ entry, view entry.clearErrors = view entry)
    (path : Path) (members : List (String × Member)) :
    views view path (clearAll members) = views view path members := by
  induction members using groupInduction generalizing path with
  | step members ih =>
      rw [views_eq, views_eq, clearAll, List.flatMap_map]
      refine List.flatMap_congr ?_
      intro entry inside
      have beneath := ih entry inside
      obtain ⟨name, member⟩ := entry
      cases member with
      | field entry => simp [clearErrors_field, item, inner, Item.field?, keeps]
      | fieldset group members =>
          simpa [clearErrors_fieldset, item, inner, Item.field?] using beneath _

/-! ### What a flag says -/

section Derived

variable (flag : Member → Bool) (own : Path → Path → Member → Bool)

/-- A flag of every member in a group at `scope` says whether it is set above or the member has an own
reason, which may depend on the scope and on the path of the member. -/
inductive Derived : Path → Bool → List (String × Member) → Prop where
  | intro {scope : Path} {above : Bool} {members : List (String × Member)}
      (each : ∀ entry ∈ members, flag entry.2 = (above || own scope (scope.join entry.1) entry.2))
      (beneath : ∀ entry ∈ members, Derived (scope.join entry.1) (flag entry.2) entry.2.inner) :
      Derived scope above members

variable {flag own}

/-- The flag is set if it is set above, or if a member on the way, the last one included, has a reason
of its own. -/
theorem Derived.flag_iff {scope : Path} {above : Bool} {members : List (String × Member)}
    (derived : Derived flag own scope above members) (regular : Regular members) {names : List String}
    {member : Member} (stands : Stands members names member) :
    flag member = true ↔ above = true ∨ ∃ front rest outer, names = front ++ rest ∧
      Stands members front outer ∧
        own (scope.extend ⟨front.dropLast⟩) (scope.extend ⟨front⟩) outer = true := by
  induction stands generalizing scope above with
  | @here members name member inside =>
      obtain ⟨each, -⟩ := derived
      rw [each (name, member) inside, Bool.or_eq_true]
      refine or_congr Iff.rfl ?_
      constructor
      · intro reason
        refine ⟨[name], [], member, rfl, .here inside, ?_⟩
        rwa [List.dropLast_singleton, Path.extend_nil]
      · rintro ⟨front, rest, outer, same, there, reason⟩
        obtain ⟨first, others, rfl⟩ := List.exists_cons_of_ne_nil there.ne_nil
        obtain ⟨rfl, none⟩ := List.cons.inj same
        obtain ⟨rfl, rfl⟩ := List.append_eq_nil_iff.mp none.symm
        obtain ⟨_, found, ⟨-, rfl⟩ | below⟩ := stands_cons_iff.mp there
        · obtain rfl := regular.unique inside found
          rwa [List.dropLast_singleton, Path.extend_nil] at reason
        · exact absurd rfl below.ne_nil
  | @beneath members name names around member inside below ih =>
      obtain ⟨each, beneath⟩ := derived
      rw [ih (beneath (name, around) inside) (regular.inner inside), each (name, around) inside,
        Bool.or_eq_true, or_assoc]
      refine or_congr Iff.rfl ?_
      have further {front : List String} (some : front ≠ []) :
          (scope.join name).extend ⟨front.dropLast⟩ = scope.extend ⟨(name :: front).dropLast⟩ := by
        rw [List.dropLast_cons_of_ne_nil some]
        exact Path.extend_append scope [name] _
      have reach (front : List String) :
          (scope.join name).extend ⟨front⟩ = scope.extend ⟨name :: front⟩ :=
        Path.extend_append scope [name] front
      constructor
      · rintro (reason | ⟨front, rest, outer, rfl, there, reason⟩)
        · refine ⟨[name], names, around, rfl, .here inside, ?_⟩
          rwa [List.dropLast_singleton, Path.extend_nil]
        · refine ⟨name :: front, rest, outer, rfl, .beneath inside there, ?_⟩
          rwa [← further there.ne_nil, ← reach]
      · rintro ⟨front, rest, outer, same, there, reason⟩
        obtain ⟨first, others, rfl⟩ := List.exists_cons_of_ne_nil there.ne_nil
        obtain ⟨rfl, tail⟩ := List.cons.inj same
        obtain ⟨_, found, ⟨rfl, rfl⟩ | deeper⟩ := stands_cons_iff.mp there
        · obtain rfl := regular.unique inside found
          rw [List.dropLast_singleton, Path.extend_nil] at reason
          exact .inl reason
        · obtain rfl := regular.unique inside found
          refine .inr ⟨others, rest, outer, tail, deeper, ?_⟩
          rwa [further deeper.ne_nil, reach]

end Derived

/-- Whether a member is hidden. -/
def hidden : Member → Bool
  | .field entry => entry.hidden
  | .fieldset group _ => group.hidden

/-- Whether a member at a path, in a group at `scope`, is hidden by its own condition. -/
def hides (lookup : Lookup) (scope path : Path) : Member → Bool
  | .field entry => entry.visibility.hides scope lookup
  | .fieldset group _ => group.visibility.hides path lookup

/-- Whether a member is disabled. -/
def disabled : Member → Bool
  | .field entry => entry.disabled
  | .fieldset group _ => group.disabled

/-- Whether a member at a path, in a group at `scope`, is disabled by itself. -/
def disables (lookup : Lookup) (scope path : Path) : Member → Bool
  | .field entry => entry.disables lookup scope
  | .fieldset group _ => holdsOptional path lookup group.disableWhile

/-- The two flags of a fresh member. -/
theorem flags_of_refresh_eq_self {lookup : Lookup} {scope path : Path} {hiddenAbove disabledAbove : Bool}
    {member : Member} (fresh : member.refresh lookup scope path hiddenAbove disabledAbove = member) :
    member.hidden = (hiddenAbove || member.hides lookup scope path) ∧
      member.disabled = (disabledAbove || member.disables lookup scope path) ∧
        refreshAll lookup path member.hidden member.disabled member.inner = member.inner := by
  cases member with
  | field entry =>
      rw [refresh, Member.field.injEq, Field.refresh_eq_self_iff] at fresh
      exact ⟨fresh.1, fresh.2.1, rfl⟩
  | fieldset group members =>
      rw [refresh_fieldset_eq_self_iff, Group.refresh_eq_self_iff] at fresh
      exact ⟨fresh.1.1, fresh.1.2, fresh.2⟩

theorem derived_hidden {lookup : Lookup} {scope : Path} {hiddenAbove disabledAbove : Bool}
    {members : List (String × Member)}
    (fresh : refreshAll lookup scope hiddenAbove disabledAbove members = members) :
    Derived hidden (hides lookup) scope hiddenAbove members := by
  induction members using groupInduction generalizing scope hiddenAbove disabledAbove with
  | step members ih =>
      rw [refreshAll_eq_self_iff] at fresh
      exact .intro (fun entry inside => (flags_of_refresh_eq_self (fresh entry inside)).1)
        fun entry inside => ih entry inside (flags_of_refresh_eq_self (fresh entry inside)).2.2

theorem derived_disabled {lookup : Lookup} {scope : Path} {hiddenAbove disabledAbove : Bool}
    {members : List (String × Member)}
    (fresh : refreshAll lookup scope hiddenAbove disabledAbove members = members) :
    Derived disabled (disables lookup) scope disabledAbove members := by
  induction members using groupInduction generalizing scope hiddenAbove disabledAbove with
  | step members ih =>
      rw [refreshAll_eq_self_iff] at fresh
      exact .intro (fun entry inside => (flags_of_refresh_eq_self (fresh entry inside)).2.1)
        fun entry inside => ih entry inside (flags_of_refresh_eq_self (fresh entry inside)).2.2

/-- What stands in a fresh group is fresh in the group around it. -/
theorem Stands.fresh {lookup : Lookup} {scope : Path} {hiddenAbove disabledAbove : Bool}
    {members : List (String × Member)} {names : List String} {member : Member}
    (stands : Stands members names member)
    (fresh : refreshAll lookup scope hiddenAbove disabledAbove members = members) :
    ∃ hiddenAround disabledAround, member.refresh lookup (scope.extend ⟨names.dropLast⟩)
      (scope.extend ⟨names⟩) hiddenAround disabledAround = member := by
  induction stands generalizing scope hiddenAbove disabledAbove with
  | here inside =>
      rw [List.dropLast_singleton, Path.extend_nil]
      exact ⟨_, _, refreshAll_eq_self_iff.mp fresh _ inside⟩
  | @beneath members name names outer member inside below ih =>
      have inner := (flags_of_refresh_eq_self (refreshAll_eq_self_iff.mp fresh _ inside)).2.2
      rw [List.dropLast_cons_of_ne_nil below.ne_nil]
      have freshInside := ih inner
      rw [Path.join_eq_extend, Path.extend_append, Path.extend_append] at freshInside
      exact freshInside

end Member

/-! ## Forms and frames -/

/-- An inducer that stays as it is when latched remembers the truth of its condition. -/
theorem Inducer.latch_eq_self_iff {scope : Path} {lookup : Lookup} {inducer : Inducer} :
    inducer.latch scope lookup = inducer ↔ inducer.latched = inducer.holds scope lookup :=
  ⟨fun same => (congrArg Inducer.latched same).symm, fun same => by rw [Inducer.latch, ← same]⟩

namespace Form

variable (lookup : Lookup) (path : Path) (form : Form)

theorem refresh_refresh : (form.refresh lookup path).refresh lookup path = form.refresh lookup path := by
  simp only [refresh, Group.refresh_refresh, Member.refreshAll_refreshAll]

theorem latch_latch : (form.latch lookup path).latch lookup path = form.latch lookup path := by
  simp only [latch, List.map_map]
  rfl

/-- Flags and latches do not depend on each other. -/
theorem refresh_latch : (form.latch lookup path).refresh lookup path = (form.refresh lookup path).latch lookup path :=
  rfl

variable {lookup path form}

theorem refresh_eq_self_iff : form.refresh lookup path = form ↔
    form.group.refresh lookup path false false = form.group ∧
      Member.refreshAll lookup path form.group.hidden form.group.disabled form.members = form.members := by
  constructor
  · intro same
    have sameGroup : form.group.refresh lookup path false false = form.group := congrArg Form.group same
    have sameMembers := congrArg Form.members same
    rw [refresh, sameGroup] at sameMembers
    exact ⟨sameGroup, sameMembers⟩
  · rintro ⟨sameGroup, sameMembers⟩
    rw [refresh, sameGroup, sameMembers]

theorem latch_eq_self_iff : form.latch lookup path = form ↔
    ∀ inducer ∈ form.inducers, inducer.latched = inducer.holds path lookup := by
  simp only [← Inducer.latch_eq_self_iff, ← map_eq_self_iff]
  exact ⟨fun same => congrArg Form.inducers same, fun same => by rw [latch, same]⟩

/-- Whether a form is fresh does not depend on its messages. -/
theorem refresh_clearErrors_eq_self_iff :
    form.clearErrors.refresh lookup path = form.clearErrors ↔ form.refresh lookup path = form := by
  rw [refresh_eq_self_iff, refresh_eq_self_iff, clearErrors_eq, Group.refresh_eq_self_iff,
    Group.refresh_eq_self_iff, Member.refreshAll_clearAll_eq_self_iff]
  exact Iff.rfl

theorem latch_clearErrors_eq_self_iff :
    form.clearErrors.latch lookup path = form.clearErrors ↔ form.latch lookup path = form := by
  rw [latch_eq_self_iff, latch_eq_self_iff, clearErrors_eq]

end Form

namespace Frame

variable {lookup : Lookup} {path : Path} {frame : Frame}

theorem latch_latch (lookup : Lookup) (path : Path) (frame : Frame) :
    (frame.latch lookup path).latch lookup path = frame.latch lookup path := by
  simp only [latch, Option.map_map]
  rfl

theorem latch_eq_self_iff : frame.latch lookup path = frame ↔
    ∀ inducer ∈ frame.inducer, inducer.latched = inducer.holds path lookup := by
  obtain ⟨plan, inducer⟩ := frame
  cases inducer with
  | none => simp [latch]
  | some inducer => simp [latch, Inducer.latch_eq_self_iff]

end Frame

end Formwork
