import Formwork.Proofs.Tree.Landing

/-!
# No value changes behind the back of the user

A field is followed through an operation by its path, whose index changes only if a sibling in front of it comes
or goes, and which is lost only if its own sibling is removed (`Tree.landing`). Its value changes only if it is
set, if a call that is executed stores a value in it, or if it is restored: by a reset, or because a call that
activates its button leaves an open dialog around it in one of two modes (`Tree.Cause`). A restored value is the
one that the field had when it came up, at mounting or with its sibling (`Tree.Began`), unless a value is stored
afterwards.

So hiding, disabling, validation, steps, siblings and responses of a server change no value by
themselves (`Tree.Reachable.accounted`).
-/

set_option autoImplicit false

namespace Formwork.Tree

open Formwork.Text

/-! ## Values at mounting -/

theorem fields_unique {tree : Tree} (regular : tree.root.Regular) {place : Path} {field other : Field}
    (listed : (place, field) ∈ tree.fields) (listedOther : (place, other) ∈ tree.fields) : field = other := by
  rw [← field?_eq_some_iff regular] at listed listedOther
  exact Option.some.inj (listed.symm.trans listedOther)

/-- The fields of a mounted tree hold their values at mounting. -/
theorem mount_starts {blueprint : Blueprint} {initial : Option Json} {tree : Tree}
    (mounted : Tree.mount blueprint initial = .ok tree) {place : Path} {field : Field}
    (listed : (place, field) ∈ tree.fields) : field.value = field.initial := by
  obtain ⟨here, built, nodeBuilt, rfl⟩ := mount_eq_ok mounted
  have starts := (Node.build_starts Field.isInitial_initialValue nodeBuilt).2
  have prefilled (tree : Tree) : tree.prefilled.holdings = tree.holdings := by
    change tree.root.markPrefilled.holdings tree.here = tree.root.holdings tree.here
    rw [Node.holdings_eq, Node.holdings_eq, Node.forms_markPrefilled]
  have same := ((holdings_latch _).trans (prefilled _)).trans (holdings_refresh (planted blueprint initial built))
  have held := mem_holdings_iff.mpr ⟨field, listed, rfl⟩
  rw [same] at held
  obtain ⟨first, there, holding⟩ := mem_holdings_iff.mp held
  obtain ⟨front, content, names, -, stands, member⟩ := Node.mem_fields_iff.mp there
  have atStart := starts _ front content stands names first member
  rw [holding] at atStart
  exact atStart

/-- The field at a path held a value when it came up: when the tree was mounted, or in an operation that
made no field land at this path. -/
inductive Began : Tree → Path → Value → Prop where
  | mounted {blueprint : Blueprint} {initial : Option Json} {tree : Tree} {path : Path} {field : Field}
      (mounted : Tree.mount blueprint initial = .ok tree) (listed : (path, field) ∈ tree.fields) :
      Began tree path field.value
  | added {tree : Tree} {operation : Operation} {place : Path} {field : Field} (reachable : tree.Reachable)
      (listed : (place, field) ∈ (tree.after operation).fields)
      (comes : ∀ path field, (path, field) ∈ tree.fields → tree.landing operation path ≠ some place) :
      Began (tree.after operation) place field.value
  | after {tree : Tree} {path place : Path} {value : Value} {operation : Operation}
      (began : Began tree path value) (lands : tree.landing operation path = some place) :
      Began (tree.after operation) place value

theorem Began.reachable {tree : Tree} {path : Path} {value : Value} (began : tree.Began path value) :
    tree.Reachable := by
  induction began with
  | mounted mounted _ => exact .mounted mounted
  | added reachable _ _ => exact .after reachable _
  | after _ _ reachable => exact .after reachable _

/-- However the tree was used, a field keeps besides its value the one that it had when it came up. -/
theorem Began.exists_field {tree : Tree} {path : Path} {value : Value} (began : tree.Began path value) :
    ∃ field, (path, field) ∈ tree.fields ∧ field.initial = value := by
  induction began with
  | mounted mounted listed => exact ⟨_, listed, (mount_starts mounted listed).symm⟩
  | added reachable listed comes =>
      refine ⟨_, listed, ?_⟩
      rcases exists_origin reachable listed with ⟨path, field, before, lands, -⟩ | initial
      · exact absurd lands (comes path field before)
      · exact initial.symm
  | after began lands ih =>
      obtain ⟨field, listed, rfl⟩ := ih
      obtain ⟨later, there, holding⟩ := exists_landed began.reachable listed lands
      exact ⟨later, there, (congrArg Holding.initial holding).trans (Deed.initial_replay _)⟩

/-- Every field of a reachable tree came up with a value. -/
theorem Reachable.exists_began {tree : Tree} (reachable : tree.Reachable) {path : Path} {field : Field}
    (listed : (path, field) ∈ tree.fields) : ∃ value, tree.Began path value := by
  induction reachable generalizing path field with
  | mounted mounted => exact ⟨_, .mounted mounted listed⟩
  | @after tree reachable operation ih =>
      by_cases comes : ∀ origin held, (origin, held) ∈ tree.fields → tree.landing operation origin ≠ some path
      · exact ⟨_, .added reachable listed comes⟩
      · push Not at comes
        obtain ⟨origin, held, before, lands⟩ := comes
        obtain ⟨value, began⟩ := ih before
        exact ⟨value, .after began lands⟩

/-- The value with which a field came up is the one to which it is restored. -/
theorem Reachable.began_iff {tree : Tree} (reachable : tree.Reachable) {path : Path} {field : Field}
    (listed : (path, field) ∈ tree.fields) {value : Value} : tree.Began path value ↔ field.initial = value := by
  have same {value : Value} (began : tree.Began path value) : field.initial = value := by
    obtain ⟨first, there, rfl⟩ := began.exists_field
    rw [fields_unique reachable.regular listed there]
  refine ⟨same, ?_⟩
  rintro rfl
  obtain ⟨value, began⟩ := reachable.exists_began listed
  rwa [same began]

/-! ## Why a value changes -/

/-- Why the value of the field at a place changes in an operation. -/
inductive Cause (tree : Tree) (place : Path) : Operation → Prop where
  | setValue {value : Value} (accepted : (tree.setValue place value).isOk = true) :
      Cause tree place (.setValue place value)
  | stored {operation : Operation} {executed : Executed} {value : Value}
      (ran : executed ∈ tree.executed operation) (stores : executed.Stores place value) :
      Cause tree place operation
  | reset (accepted : tree.reset.isOk = true) : Cause tree place .reset
  | restored {operation : Operation} {executed : Executed} (ran : executed ∈ tree.executed operation)
      (restores : executed.Restores place) : Cause tree place operation

/-- Beside the operations that set or reset, only those that run a chain are a reason. -/
theorem Cause.runs {tree : Tree} {place : Path} {operation : Operation} (cause : tree.Cause place operation)
    (notSet : ∀ value, operation ≠ .setValue place value) (notReset : operation ≠ .reset) :
    (∃ button, operation = .click button) ∨ ∃ outcome, operation = .complete outcome := by
  have runs {executed : Executed} (ran : executed ∈ tree.executed operation) :
      (∃ button, operation = .click button) ∨ ∃ outcome, operation = .complete outcome := by
    cases operation with
    | click button => exact .inl ⟨button, rfl⟩
    | complete outcome => exact .inr ⟨outcome, rfl⟩
    | _ => cases ran
  cases cause with
  | setValue => exact absurd rfl (notSet _)
  | reset => exact absurd rfl notReset
  | stored ran => exact runs ran
  | restored ran => exact runs ran

/-- Each deed that concerns a field is a reason for its value to change. -/
theorem cause_of_mem {tree : Tree} {operation : Operation} {place : Path} {deed : Deed}
    (inside : deed ∈ tree.deeds operation) (concerns : deed.restores place = true ∨ deed.stores place = true) :
    tree.Cause place operation := by
  have called (inside : deed ∈ (tree.executed operation).flatMap Executed.deeds) : tree.Cause place operation := by
    obtain ⟨executed, ran, there⟩ := List.mem_flatMap.mp inside
    rcases concerns with restores | stores
    · exact .restored ran (executed.exists_restores_iff.mp ⟨deed, there, restores⟩)
    · obtain ⟨value, stored⟩ := executed.exists_stores_iff.mp ⟨deed, there, stores⟩
      exact .stored ran stored
  cases operation with
  | setValue path value =>
      rw [deeds] at inside
      split at inside
      · rename_i accepted
        obtain rfl := List.mem_singleton.mp inside
        rcases concerns with restores | stores
        · cases restores
        · obtain rfl : place = path := of_decide_eq_true stores
          exact .setValue accepted
      · cases inside
  | reset =>
      rw [deeds] at inside
      split at inside
      · exact .reset (by assumption)
      · cases inside
  | _ => exact called inside

/-- What an operation does to the field that stands at a place afterwards. -/
structure Accounted (tree : Tree) (operation : Operation) (path place : Path) (field later : Field) : Prop where
  widget : later.plan.widget = field.plan.widget
  /-- The value at mounting is the one with which the field came up. -/
  began : ∀ value, tree.Began path value ↔ field.initial = value
  initial : later.initial = field.initial
  /-- A value changes for a reason only. -/
  changed : later.value ≠ field.value → tree.Cause place operation
  /-- A call changes values only if it sets or resets them, or runs a chain. -/
  kept : (∀ value, operation ≠ .setValue place value) → operation ≠ .reset → (∀ button, operation ≠ .click button) →
    (∀ outcome, operation ≠ .complete outcome) → later.value = field.value
  set : ∀ value, operation = .setValue place value → (tree.setValue place value).isOk = true →
    later.value = field.plan.widget.fit value
  reset : operation = .reset → tree.reset.isOk = true → later.value = field.initial
  /-- The last call that concerns a field decides its value. -/
  stored : ∀ front executed back value, tree.executed operation = front ++ executed :: back →
    executed.Stores place value → (∀ call ∈ back, ¬ call.Restores place ∧ ∀ value, ¬ call.Stores place value) →
      later.value = field.plan.widget.fit value
  /-- A restored value is that at mounting, unless a later call stores a value. -/
  restored : ∀ front executed back, tree.executed operation = front ++ executed :: back →
    executed.Restores place → (∀ call ∈ back, ∀ value, ¬ call.Stores place value) →
      later.value = field.initial

theorem deeds_of_executed {tree : Tree} {operation : Operation} {front back : List Executed} {executed : Executed}
    (ran : tree.executed operation = front ++ executed :: back) :
    tree.deeds operation = front.flatMap Executed.deeds ++ (executed.deeds ++ back.flatMap Executed.deeds) := by
  have calls : (tree.executed operation).flatMap Executed.deeds =
      front.flatMap Executed.deeds ++ (executed.deeds ++ back.flatMap Executed.deeds) := by
    rw [ran, List.flatMap_append, List.flatMap_cons]
  cases operation with
  | setValue path value => simp [Tree.executed] at ran
  | reset => simp [Tree.executed] at ran
  | _ => exact calls

theorem restores_of_mem_flatMap {calls : List Executed} {place : Path} {deed : Deed}
    (inside : deed ∈ calls.flatMap Executed.deeds) (restores : deed.restores place = true) :
    ∃ call ∈ calls, call.Restores place := by
  obtain ⟨call, ran, there⟩ := List.mem_flatMap.mp inside
  exact ⟨call, ran, call.exists_restores_iff.mp ⟨deed, there, restores⟩⟩

theorem stores_of_mem_flatMap {calls : List Executed} {place : Path} {deed : Deed}
    (inside : deed ∈ calls.flatMap Executed.deeds) (stores : deed.stores place = true) :
    ∃ call ∈ calls, ∃ value, call.Stores place value := by
  obtain ⟨call, ran, there⟩ := List.mem_flatMap.mp inside
  exact ⟨call, ran, call.exists_stores_iff.mp ⟨deed, there, stores⟩⟩

section Replay

variable {tree : Tree} {operation : Operation} {place : Path} {held : Holding}

/-- An operation without a reason for a field to change leaves it as it is. -/
theorem replay_of_no_cause (none : ¬ tree.Cause place operation) :
    Deed.replay (tree.deeds operation) place held = held :=
  Deed.replay_of_neither fun _ inside =>
    ⟨Bool.eq_false_iff.mpr fun restores => none (cause_of_mem inside (.inl restores)),
      Bool.eq_false_iff.mpr fun stores => none (cause_of_mem inside (.inr stores))⟩

variable {front back : List Executed} {executed : Executed}
variable (ran : tree.executed operation = front ++ executed :: back)
include ran

theorem value_replay_of_stores {value : Value} (stores : executed.Stores place value)
    (last : ∀ call ∈ back, ¬ call.Restores place ∧ ∀ value, ¬ call.Stores place value) :
    (Deed.replay (tree.deeds operation) place held).value = held.widget.fit value := by
  rw [deeds_of_executed ran, stores.deeds_eq, List.singleton_append]
  refine Deed.value_replay_of_store fun deed inside => ⟨?_, ?_⟩
  · refine Bool.eq_false_iff.mpr fun restores => ?_
    obtain ⟨call, later, again⟩ := restores_of_mem_flatMap inside restores
    exact (last call later).1 again
  · refine Bool.eq_false_iff.mpr fun storesAgain => ?_
    obtain ⟨call, later, _, again⟩ := stores_of_mem_flatMap inside storesAgain
    exact (last call later).2 _ again

theorem value_replay_of_restored (restores : executed.Restores place)
    (last : ∀ call ∈ back, ∀ value, ¬ call.Stores place value) :
    (Deed.replay (tree.deeds operation) place held).value = held.initial := by
  obtain ⟨deed, inside, restoring⟩ := executed.exists_restores_iff.mpr restores
  obtain ⟨before, behind, split⟩ := List.append_of_mem inside
  rw [deeds_of_executed ran, split, List.append_assoc, ← List.append_assoc, List.cons_append]
  refine Deed.value_replay_of_restores restoring fun later among => Bool.eq_false_iff.mpr fun stores => ?_
  rcases List.mem_append.mp among with own | others
  · have there : later ∈ executed.deeds := by
      rw [split]
      exact List.mem_append_right _ (List.mem_cons_of_mem _ own)
    obtain ⟨value, storesHere⟩ := executed.exists_stores_iff.mp ⟨later, there, stores⟩
    exact restores.not_stores place value storesHere
  · obtain ⟨call, behind, value, storesLater⟩ := stores_of_mem_flatMap others stores
    exact last call behind value storesLater

end Replay

/-- A field that holds what the deeds of an operation make of what it held is accounted for. -/
theorem accounted_of_replay {tree : Tree} (reachable : tree.Reachable) {operation : Operation} {path place : Path}
    {field later : Field} (listed : (path, field) ∈ tree.fields)
    (holding : later.holding = Deed.replay (tree.deeds operation) place field.holding) :
    tree.Accounted operation path place field later := by
  have value := congrArg Holding.value holding
  refine {
    widget := (congrArg Holding.widget holding).trans (Deed.widget_replay _)
    began := fun value => reachable.began_iff listed
    initial := (congrArg Holding.initial holding).trans (Deed.initial_replay _)
    changed := fun differs => ?_
    kept := fun notSet notReset notClick notComplete => ?_
    set := fun content isSet accepted => ?_
    reset := fun isReset accepted => ?_
    stored := fun front executed back content ran stores last =>
      value.trans (value_replay_of_stores ran stores last)
    restored := fun front executed back ran restores last =>
      value.trans (value_replay_of_restored ran restores last) }
  · by_contra none
    rw [replay_of_no_cause none] at value
    exact differs value
  · have none : ¬ tree.Cause place operation := by
      intro cause
      rcases cause.runs notSet notReset with ⟨button, same⟩ | ⟨outcome, same⟩
      · exact notClick button same
      · exact notComplete outcome same
    rwa [replay_of_no_cause none] at value
  · subst isSet
    rw [deeds, if_pos accepted] at value
    exact value.trans (@Deed.value_replay_of_store place field.holding [] [] content (by simp))
  · subst isReset
    rw [deeds, if_pos accepted] at value
    exact value

/-- In a reachable tree every field is accounted for in every operation, unless it stands in a sibling that is
removed: it is still there, its value has changed for a reason only, and a value that was restored is the
one with which the field came up. -/
theorem Reachable.accounted {tree : Tree} (reachable : tree.Reachable) {operation : Operation} {path : Path}
    {field : Field} (found : tree.field? path = some field) :
    (∃ series index rest, operation = .removeSibling series index ∧
      (tree.removeSibling series index).isOk = true ∧ path = series.extend ⟨indexText index :: rest⟩) ∨
    ∃ place later, tree.landing operation path = some place ∧
      (tree.after operation).field? place = some later ∧ tree.Accounted operation path place field later := by
  cases lands : tree.landing operation path with
  | none => exact .inl (landing_eq_none_iff.mp lands)
  | some place =>
      have listed := (field?_eq_some_iff reachable.regular).mp found
      obtain ⟨later, there, holding⟩ := exists_landed reachable listed lands
      have foundLater := (field?_eq_some_iff (reachable.after operation).regular).mpr there
      exact .inr ⟨place, later, rfl, foundLater, accounted_of_replay reachable listed holding⟩

/-- An order that was sent and accepted is reset by the call behind `submit`. -/
theorem accounted_sent_order : ∃ tree : Tree, tree.Reachable ∧ ∃ field later,
    tree.field? ⟨["shop", "0", "order", "size"]⟩ = some field ∧ field.value = .text "large" ∧
      (tree.after (.complete (.ok ⟨200, .object []⟩))).field? ⟨["shop", "0", "order", "size"]⟩ = some later ∧
        tree.Accounted (.complete (.ok ⟨200, .object []⟩)) ⟨["shop", "0", "order", "size"]⟩
          ⟨["shop", "0", "order", "size"]⟩ field later ∧ later.value = .text "" := by
  have holds : ((Tree.mount orders none).toOption.bind fun tree =>
      let waiting := (tree.after (.setValue ⟨["shop", "0", "order", "size"]⟩ (.text "large"))).after
        (.click ⟨["shop", "0", "order", "send"]⟩)
      (waiting.field? ⟨["shop", "0", "order", "size"]⟩).map fun field => decide
        (field.value = .text "large" ∧ field.initial = .text "" ∧
          waiting.landing (.complete (.ok ⟨200, .object []⟩)) ⟨["shop", "0", "order", "size"]⟩ =
            some ⟨["shop", "0", "order", "size"]⟩ ∧
          (waiting.executed (.complete (.ok ⟨200, .object []⟩))).map (fun entry => (entry.button, entry.call)) =
            [(⟨["shop", "0", "order", "send"]⟩, .reset)])) = some true := by
    decide +kernel
  obtain ⟨tree, isMounted, holds⟩ := Option.bind_eq_some_iff.mp holds
  rw [toOption_eq_some] at isMounted
  have reachable := ((Reachable.mounted isMounted).after
    (.setValue ⟨["shop", "0", "order", "size"]⟩ (.text "large"))).after (.click ⟨["shop", "0", "order", "send"]⟩)
  obtain ⟨field, found, holds⟩ := Option.map_eq_some_iff.mp holds
  obtain ⟨value, initial, lands, executed⟩ := of_decide_eq_true holds
  rcases @Reachable.accounted _ reachable (.complete (.ok ⟨200, .object []⟩)) _ _ found with
    ⟨_, _, _, removes, -⟩ | ⟨place, later, landsAgain, foundLater, accounted⟩
  · cases removes
  · obtain rfl := Option.some.inj (lands.symm.trans landsAgain)
    obtain ⟨⟨button, call, before⟩, ran, same⟩ := List.map_eq_singleton_iff.mp executed
    injection same with isButton isReset
    subst isButton isReset
    refine ⟨_, reachable, field, later, found, value, foundLater, accounted, ?_⟩
    rw [accounted.restored [] _ [] ran (.reset rfl) (by simp), initial]

end Formwork.Tree
