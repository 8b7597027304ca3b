import Formwork.Proofs.Tree.Building
import Formwork.Proofs.Tree.Keeping
import Formwork.Proofs.Tree.Marks

/-!
# Nothing that was filled in is left out

Pristine siblings are offered to be filled in. They take no part in validation and are not sent, so whatever a user
enters must not stay in one of them. It does not, since the two ways to a value agree: a value that is stored goes
with a touch of all siblings around the field, whether an operation sets it or a call of a chain
(`Tree.not_offered_of_mem_deeds`), and everything else that is done to a value restores the one at mounting. So in a
reachable tree all fields beneath pristine siblings hold their values at mounting, and a field that was set takes
part in everything that is collected and sent, until a sibling around it is removed (`Tree.Reachable.unspoiled`).
-/

set_option autoImplicit false

namespace Formwork

open Formwork.Text

/-! ## Stored values touch -/

namespace Cycle

variable {cycle : Cycle} (regular : cycle.tree.root.Regular) {button place : Path} {value : Value}
include regular

/-- No sibling around a field is pristine after a value was assigned to the field. -/
theorem not_offered_assign {target : Reference} (means : cycle.tree.resolveField? button target = some place) :
    ¬ (cycle.assign button target (some value)).1.tree.Offered place := by
  intro offered
  unfold assign at offered
  rw [means] at offered
  have stored := regular.follows (cycle.tree.store_moves place value).retains.toFollows
  exact Tree.not_offered_store regular place value
    (Tree.Moves.offered stored (settle_moves { cycle with tree := cycle.tree.store place value }) offered)

theorem not_offered_perform {call : Call} (stores : Executed.Stores ⟨button, call, cycle⟩ place value)
    (remaining reject : List Call) : ¬ (cycle.perform button remaining reject call).1.tree.Offered place := by
  cases stores with
  | setFieldValue means given =>
      have assigned := @not_offered_assign cycle regular button place value _ means
      rw [← given] at assigned
      exact assigned
  | @deleteValue _ _ target _ field means stands =>
      have given : ((cycle.tree.resolveField? button target).bind cycle.tree.field?).map
          (fun field => field.value.blank) = some field.value.blank := by
        rw [means, Option.bind_some, stands]
        rfl
      have assigned := @not_offered_assign cycle regular button place field.value.blank target means
      rw [← given] at assigned
      exact assigned

/-- Nor after the chain with the call that stored it. -/
theorem not_offered_runChain {reject chain : List Call} {executed : Executed}
    (ran : executed ∈ cycle.executedChain button reject chain) (stores : executed.Stores place value) :
    ¬ (cycle.runChain button reject chain).1.tree.Offered place := by
  induction chain generalizing cycle with
  | nil => cases ran
  | cons call rest ih =>
      have moves := cycle.perform_moves button rest reject call
      have performed := regular.follows moves.retains.toFollows
      unfold executedChain at ran
      unfold runChain
      rcases List.mem_cons.mp ran with rfl | later
      · have touched := not_offered_perform regular stores rest reject
        generalize cycle.perform button rest reject call = result at performed touched ⊢
        obtain ⟨after, ending⟩ := result
        cases ending with
        | completed =>
            exact fun offered => touched ((after.runChain_moves button reject rest).offered performed offered)
        | suspended => exact touched
        | failed => exact touched
      · generalize cycle.perform button rest reject call = result at performed later ⊢
        obtain ⟨after, ending⟩ := result
        cases ending with
        | completed => exact ih performed later
        | suspended => cases later
        | failed => cases later

theorem not_offered_run {chain reject : List Call} {executed : Executed}
    (ran : executed ∈ cycle.executedRun button chain reject) (stores : executed.Stores place value) :
    ¬ (cycle.run button chain reject).tree.Offered place := by
  have touched (first : executed ∈ cycle.executedChain button reject chain) :=
    not_offered_runChain regular first stores
  have ran' := regular.follows (cycle.runChain_moves button reject chain).retains.toFollows
  unfold executedRun at ran
  unfold run
  generalize cycle.runChain button reject chain = result at ran touched ran' ⊢
  obtain ⟨after, ending⟩ := result
  cases ending with
  | completed => exact touched (by simpa using ran)
  | suspended => exact touched (by simpa using ran)
  | failed =>
      rcases List.mem_append.mp ran with first | second
      · exact fun offered => touched first ((after.runChain_moves button [] reject).offered ran' offered)
      · exact not_offered_runChain ran' second stores

end Cycle

namespace Tree

variable {tree : Tree}

/-- No sibling around a field is pristine after a call of the operation stored a value in the field. -/
theorem not_offered_of_stores (regular : tree.root.Regular) {operation : Operation} {executed : Executed}
    {place : Path} {value : Value} (ran : executed ∈ tree.executed operation)
    (stores : executed.Stores place value) : ¬ (tree.after operation).Offered place := by
  unfold Tree.after
  cases done : tree.answer operation with
  | error refusal =>
      rw [executed_of_refused done] at ran
      cases ran
  | ok cycle =>
      cases operation with
      | click path =>
          have clicked : tree.click path = .ok cycle := done
          obtain ⟨-, field, button, found, isButton, -, -, rfl⟩ := click_eq_ok clicked
          rw [Tree.executed, clicked, found] at ran
          simp only [Option.bind_some, isButton] at ran
          exact @Cycle.not_offered_run (.start tree) regular path _ _ _ _ _ ran stores
      | complete outcome =>
          obtain ⟨pending, waits, rfl⟩ := complete_eq_ok done
          rw [Tree.executed, waits] at ran
          cases answered : success? outcome with
          | some response =>
              rw [answered] at ran
              have informed := regular.follows (tree.informed_notes response).moves.retains.toFollows
              exact @Cycle.not_offered_run (.start (tree.informed response)) informed _ _ _ _ _ _ ran stores
          | none =>
              rw [answered] at ran
              have refused := regular.follows (tree.refused_notes outcome).moves.retains.toFollows
              exact @Cycle.not_offered_runChain ⟨tree.refused outcome, refusal outcome⟩ refused _ _ _ _ _ _ ran stores
      | _ => cases ran

/-- No sibling around a field is pristine after a deed of the operation stored a value in the field. -/
theorem not_offered_of_mem_deeds (regular : tree.root.Regular) {operation : Operation} {deed : Deed} {place : Path}
    (inside : deed ∈ tree.deeds operation) (stores : deed.stores place = true) :
    ¬ (tree.after operation).Offered place := by
  have called (inside : deed ∈ (tree.executed operation).flatMap Executed.deeds) :
      ¬ (tree.after operation).Offered place := by
    obtain ⟨executed, ran, value, storesHere⟩ := stores_of_mem_flatMap inside stores
    exact not_offered_of_stores regular ran storesHere
  cases operation with
  | setValue path value =>
      rw [deeds] at inside
      cases done : tree.setValue path value with
      | error refusal =>
          rw [done] at inside
          cases inside
      | ok cycle =>
          rw [done] at inside
          obtain rfl := List.mem_singleton.mp inside
          obtain rfl : place = path := of_decide_eq_true stores
          have after : tree.after (.setValue place value) = cycle.tree := after_of_ok done
          obtain ⟨-, -, rfl⟩ := setValue_eq_ok done
          have stored := regular.follows (tree.store_moves place value).retains.toFollows
          rw [after]
          exact fun offered => not_offered_store regular place value
            (Moves.offered stored (Cycle.settle_moves ⟨_, _⟩) offered)
  | reset =>
      rw [deeds] at inside
      split at inside
      · obtain rfl := List.mem_singleton.mp inside
        cases stores
      · cases inside
  | _ => exact called inside

/-! ## What is beneath pristine siblings -/

/-- Every field beneath a pristine sibling holds its value at mounting. -/
theorem Reachable.initial_of_offered (reachable : tree.Reachable) {place : Path} {field : Field}
    (listed : (place, field) ∈ tree.fields) (offered : tree.Offered place) : field.value = field.initial := by
  induction reachable generalizing place field with
  | mounted mounted => exact mount_starts mounted listed
  | @after tree reachable operation ih =>
      have regular := reachable.regular
      have notStored : ∀ deed ∈ tree.deeds operation, deed.stores place = false := fun deed inside =>
        Bool.eq_false_iff.mpr fun stores => not_offered_of_mem_deeds regular inside stores offered
      obtain ⟨changed, rearranged, does⟩ := exists_rearranged reachable operation
      obtain ⟨earlier, there, holding⟩ := does.exists_origin listed
      have initial : earlier.value = earlier.initial := by
        rcases rearranged.origin place earlier there with ⟨path, before, lands⟩ | ⟨-, initial⟩
        · exact ih before (offered_of_after regular before lands offered)
        · exact initial
      calc field.value
          = (Deed.replay (tree.deeds operation) place earlier.holding).value := congrArg Holding.value holding
        _ = earlier.initial := Deed.value_replay_of_initial notStored initial
        _ = (Deed.replay (tree.deeds operation) place earlier.holding).initial :=
          (@Deed.initial_replay place earlier.holding _).symm
        _ = field.initial := (congrArg Holding.initial holding).symm

/-! ## What was set -/

/-- A field stands at a place where nothing is left out: no sibling around it is pristine, and as long as it is
visible and enabled its value is collected and sent. -/
structure TakesPart (tree : Tree) (place : Path) (field : Field) : Prop where
  stands : tree.field? place = some field
  live : ¬ tree.Offered place
  collected : field.hidden = false → field.disabled = false → (place, field.value) ∈ tree.collected
  sent : field.hidden = false → field.disabled = false → ∃ location segments,
    place = tree.here.extend ⟨segments⟩ ∧ tree.root.Sends location segments field ∧
      tree.payload.at? location = some field.value.toWire

/-- A data field takes part unless it stands beneath a pristine sibling. -/
theorem takesPart_of_live (regular : tree.root.Regular) {place : Path} {field : Field}
    (listed : (place, field) ∈ tree.fields) (isData : field.isButton = false) (live : ¬ tree.Offered place) :
    tree.TakesPart place field := by
  refine ⟨(field?_eq_some_iff regular).mpr listed, live, fun visible enabled => ?_, fun visible enabled => ?_⟩
  all_goals have isSent := (mem_sent_iff regular).mpr ⟨listed, isData, enabled, live⟩
  · rw [collected_eq_sent]
    exact List.mem_map.mpr ⟨_, List.mem_filter.mpr ⟨isSent, by simp [visible]⟩, rfl⟩
  · obtain ⟨segments, here, location, sends⟩ := Node.mem_sent_iff.mp isSent
    refine ⟨location, segments, here, sends, (sends.at?_wire regular).trans ?_⟩
    rw [Field.wireValue, visible, if_neg Bool.false_ne_true]

/-- A sibling around the element at a path is removed in one of some operations. -/
inductive Removed (tree : Tree) (path : Path) : List Operation → Prop where
  | mk {front back : List Operation} {series : Path} {index : Nat} {rest : List String}
      (led : tree.follow front path = some (series.extend ⟨indexText index :: rest⟩))
      (accepted : ((tree.run front).removeSibling series index).isOk = true) :
      Removed tree path (front ++ .removeSibling series index :: back)

/-- What cannot be followed through some operations was removed in one of them. -/
theorem removed_of_follow {operations : List Operation} {path : Path} (lost : tree.follow operations path = none) :
    tree.Removed path operations := by
  induction operations generalizing tree path with
  | nil => cases lost
  | cons operation rest ih =>
      cases lands : tree.landing operation path with
      | none =>
          obtain ⟨series, index, segments, rfl, accepted, rfl⟩ := landing_eq_none_iff.mp lands
          exact @Removed.mk tree _ [] rest series index segments rfl accepted
      | some target =>
          rw [follow, lands, Option.bind_some] at lost
          obtain @⟨front, back, series, index, segments, led, accepted⟩ := ih lost
          refine @Removed.mk tree path (operation :: front) back series index segments ?_ accepted
          rw [follow, lands, Option.bind_some]
          exact led

/-- A data field outside pristine siblings takes part after any operations, unless it is removed. -/
theorem Reachable.takesPart_run (reachable : tree.Reachable) {path : Path} {field : Field}
    (listed : (path, field) ∈ tree.fields) (isData : field.isButton = false) (live : ¬ tree.Offered path)
    (operations : List Operation) : tree.Removed path operations ∨ ∃ place later,
      tree.follow operations path = some place ∧ (tree.run operations).TakesPart place later := by
  cases follows : tree.follow operations path with
  | none => exact .inl (removed_of_follow follows)
  | some place =>
      obtain ⟨later, there, widget, offered⟩ := exists_field_run reachable follows listed
      have reachableLater := reachable.run operations
      have stillData : later.isButton = false := by
        rw [reachableLater.isButton_eq there, widget, ← reachable.isButton_eq listed]
        exact isData
      exact .inr ⟨place, later, rfl,
        takesPart_of_live reachableLater.regular there stillData fun after => live (offered after)⟩

/-- A field that was set is there, with the value as its widget stores it, and no sibling around it is pristine. -/
theorem Reachable.exists_set (reachable : tree.Reachable) {path : Path} {value : Value} {cycle : Cycle}
    (done : tree.setValue path value = .ok cycle) : ∃ field later, tree.field? path = some field ∧
      (path, later) ∈ cycle.tree.fields ∧ later.value = field.plan.widget.fit value ∧ later.isButton = false ∧
        ¬ cycle.tree.Offered path := by
  have regular := reachable.regular
  have after : tree.after (.setValue path value) = cycle.tree := after_of_ok done
  have deed : tree.deeds (.setValue path value) = [.store path value] := by
    rw [deeds, done]
    rfl
  obtain ⟨-, ⟨field, found, isData, -, -⟩, -⟩ := setValue_eq_ok done
  have listed := (field?_eq_some_iff regular).mp found
  obtain ⟨later, there, holding⟩ := exists_landed reachable listed
    (congrFun (tree.landing_of_stays (.setValue path value) (by simp) (by simp)) path)
  have stored : later.value = field.plan.widget.fit value := by
    rw [deed] at holding
    exact (congrArg Holding.value holding).trans
      (@Deed.value_replay_of_store path field.holding [] [] value (by simp))
  have widget : later.plan.widget = field.plan.widget :=
    (congrArg Holding.widget holding).trans (Deed.widget_replay _)
  have stillData : later.isButton = false := by
    rw [(reachable.after (.setValue path value)).isButton_eq there, widget, ← reachable.isButton_eq listed]
    exact isData
  have inside : .store path value ∈ tree.deeds (.setValue path value) := by
    rw [deed]
    exact List.mem_singleton_self _
  have live : ¬ (tree.after (.setValue path value)).Offered path :=
    not_offered_of_mem_deeds regular inside (decide_eq_true rfl)
  rw [after] at there live
  exact ⟨field, later, found, there, stored, stillData, live⟩

/-! ## Nothing is left out -/

/-- Nothing that a user entered is left out. -/
structure Unspoiled (tree : Tree) : Prop where
  /-- Every field beneath a pristine sibling, however deep, holds its value at mounting. -/
  initial : ∀ path field, (path, field) ∈ tree.fields → tree.Offered path → field.value = field.initial
  /-- The value at mounting is the one that a reset restores. -/
  restored : ∀ cycle, tree.reset = .ok cycle → ∀ path field, (path, field) ∈ tree.fields →
    ∃ later, (path, later) ∈ cycle.tree.fields ∧ later.value = field.initial
  /-- A sibling that is not pristine never becomes pristine again, whatever index it comes under. -/
  touched : ∀ path operations place, (path, false) ∈ tree.markings → tree.follow operations path = some place →
    ∀ mark, (place, mark) ∈ (tree.run operations).markings ↔ mark = false
  /-- No sibling around a field is pristine after a call stored a value in the field. -/
  stored : ∀ operation executed place value, executed ∈ tree.executed operation → executed.Stores place value →
    ¬ (tree.after operation).Offered place
  /-- A field that was set holds the value as its widget stores it, no sibling around it is pristine, and from then
  on it takes part with the value that it holds, until a sibling around it is removed. -/
  set : ∀ path value cycle, tree.setValue path value = .ok cycle → ∃ field later,
    tree.field? path = some field ∧ later.value = field.plan.widget.fit value ∧ cycle.tree.TakesPart path later ∧
      ∀ operations, cycle.tree.Removed path operations ∨ ∃ place last,
        cycle.tree.follow operations path = some place ∧ (cycle.tree.run operations).TakesPart place last

/-- In a reachable tree pristine siblings hold nothing that was filled in, a sibling that was touched stays touched,
and a field that was set takes part from then on in everything that is collected and sent. -/
theorem Reachable.unspoiled (reachable : tree.Reachable) : tree.Unspoiled where
  initial _ _ listed offered := reachable.initial_of_offered listed offered
  restored cycle done path field listed := by
    have after : tree.after .reset = cycle.tree := after_of_ok done
    obtain ⟨later, there, holding⟩ := exists_landed reachable listed
      (congrFun (tree.landing_of_stays .reset nofun nofun) path)
    have deed : tree.deeds .reset = [.restore] := by
      rw [deeds, done]
      rfl
    rw [deed] at holding
    exact ⟨later, after ▸ there, congrArg Holding.value holding⟩
  touched path operations place touched follows mark := by
    have still := unmarked_run reachable follows touched
    refine ⟨fun listed => markings_unique (reachable.run operations).regular listed still, ?_⟩
    rintro rfl
    exact still
  stored _ _ _ _ ran stores := not_offered_of_stores reachable.regular ran stores
  set path value cycle done := by
    have after : tree.after (.setValue path value) = cycle.tree := after_of_ok done
    have reachableLater : cycle.tree.Reachable := after ▸ reachable.after _
    obtain ⟨field, later, found, there, stored, isData, live⟩ := reachable.exists_set done
    exact ⟨field, later, found, stored, takesPart_of_live reachableLater.regular there isData live,
      reachableLater.takesPart_run there isData live⟩

/-- Journeys, one of which is offered, each with two guests that are offered. -/
def journeys : Blueprint where
  namespaceText := none
  root := .collection .plain
    [("journeys", .collection { CollectionPlan.plain with extraSiblings := some 1 }
      [("route", .form ⟨none, none, .absent⟩ none [("to", .field .standard)]),
        ("guests", .collection { CollectionPlan.plain with extraSiblings := some 2 }
          [("guest", .form ⟨none, none, .absent⟩ none [("name", .field .standard)])])])]
  distinct := by decide

/-- The name of the second guest touches this guest and the journey around it. The first guest is still pristine. -/
theorem unspoiled_journeys : ∃ tree cycle, Tree.mount journeys none = .ok tree ∧
    tree.setValue ⟨["journeys", "0", "guests", "1", "guest", "name"]⟩ (.text "Ada") = .ok cycle ∧
      tree.markings.map Prod.snd = [true, true, true] ∧
        cycle.tree.markings = [(⟨["journeys", "0"]⟩, false), (⟨["journeys", "0", "guests", "0"]⟩, true),
          (⟨["journeys", "0", "guests", "1"]⟩, false)] ∧ cycle.tree.Unspoiled := by
  have runs : ((Tree.mount journeys none).toOption.bind fun tree =>
      (tree.setValue ⟨["journeys", "0", "guests", "1", "guest", "name"]⟩ (.text "Ada")).toOption.map fun cycle =>
        (tree.markings.map Prod.snd, cycle.tree.markings)) = some ([true, true, true],
          [(⟨["journeys", "0"]⟩, false), (⟨["journeys", "0", "guests", "0"]⟩, true),
            (⟨["journeys", "0", "guests", "1"]⟩, false)]) := by decide +kernel
  obtain ⟨tree, mounted, set⟩ := Option.bind_eq_some_iff.mp runs
  obtain ⟨cycle, done, same⟩ := Option.map_eq_some_iff.mp set
  rw [toOption_eq_some] at mounted done
  injection same with before later
  refine ⟨tree, cycle, mounted, done, before, later, Reachable.unspoiled ?_⟩
  have after : tree.after (.setValue ⟨["journeys", "0", "guests", "1", "guest", "name"]⟩ (.text "Ada")) = cycle.tree :=
    after_of_ok done
  exact after ▸ .after (.mounted mounted) _

end Tree

end Formwork
