import Formwork.Proofs.Tree.Submissions

/-!
# Where a request comes from

Only the calls that submit report a request, and a chain that has reported one runs no further call. So
whatever is done to a tree, either no request is reported, or the operation ends with the submission that has
reported it: the calls in front of it have moved the tree and reported no request, and nothing has happened
behind it (`Tree.answer_submits`). A button was clicked for it, or waited for an earlier outcome.
-/

set_option autoImplicit false

namespace Formwork

/-- Where only one request is reported, it has data. -/
theorem exists_sent {effects : List Effect} {method : Method}
    (methods : (effects.filterMap Effect.request?).map Request.method = [method]) :
    ∃ data, .submit ⟨method, data⟩ ∈ effects := by
  obtain ⟨⟨method, data⟩, inside, rfl⟩ := List.mem_map.mp (methods ▸ List.mem_singleton_self method)
  obtain ⟨effect, reported, isRequest⟩ := List.mem_filterMap.mp inside
  cases effect with
  | redirect address => cases isRequest
  | submit request =>
      cases isRequest
      exact ⟨data, reported⟩

/-- An operation on a tree ends with a submission that was begun for a button, after moves without a request. -/
def Tree.SubmitsFor (tree : Tree) (button : Path) (final : Cycle) : Prop :=
  ∃ before : Cycle, ∃ method remaining reject, Tree.Moves tree before.tree ∧ Quiet before.report.effects ∧
    final = (before.beginSubmission button method remaining reject).1

/-- What moves a tree and is followed by a submission ends with it. -/
theorem Tree.SubmitsFor.trans {tree after : Tree} {button : Path} {final : Cycle} (moves : Tree.Moves tree after)
    (submits : after.SubmitsFor button final) : tree.SubmitsFor button final := by
  obtain ⟨before, method, remaining, reject, further, quiet, same⟩ := submits
  exact ⟨before, method, remaining, reject, moves.trans further, quiet, same⟩

namespace Cycle

/-- A chain that is not suspended has sent no request. -/
theorem Sends.quiet {button : Path} {chain reject : List Call} {before now : Option Pending} {ending : Ending}
    {effects : List Effect} (sends : Sends button reject chain before now ending effects)
    (running : ending ≠ .suspended) : Quiet effects := by
  cases sends with
  | completed quiet => exact quiet
  | failed quiet => exact quiet
  | suspended => exact absurd rfl running

theorem ending_ne_suspended (result : Cycle × Bool) : (ending result).2 ≠ .suspended := by
  rw [ending]
  split
  · exact nofun
  · exact nofun

/-- A call that does not submit does not suspend its chain. -/
theorem perform_ne_suspended {call : Call} (other : call.submits = false) (cycle : Cycle) (button : Path)
    (remaining reject : List Call) : (cycle.perform button remaining reject call).2 ≠ .suspended := by
  cases call with
  | submit => cases other
  | submitPartial => cases other
  | activate arguments => exact ending_ne_suspended _
  | setFieldValue target source => exact ending_ne_suspended _
  | deleteValue target => exact ending_ne_suspended _
  | disable => exact ending_ne_suspended _
  | enable => exact ending_ne_suspended _
  | proceed given =>
      unfold perform
      dsimp only
      split
      · exact nofun
      · exact nofun
  | reset => exact nofun
  | clearErrors => exact nofun
  | noop => exact nofun

section Calls

variable {cycle : Cycle} {button : Path} {chain remaining reject : List Call} {call : Call}
variable (quiet : Quiet cycle.report.effects)
include quiet

/-- A call that does not suspend its chain leaves a report without a request. -/
theorem quiet_perform (running : (cycle.perform button remaining reject call).2 ≠ .suspended) :
    Quiet (cycle.perform button remaining reject call).1.report.effects := by
  obtain ⟨effects, reported, sends⟩ := cycle.perform_sends button reject remaining call
  rw [reported]
  exact quiet.append (sends.quiet running)

/-- A chain that is not suspended leaves a report without a request. -/
theorem quiet_runChain (running : (cycle.runChain button reject chain).2 ≠ .suspended) :
    Quiet (cycle.runChain button reject chain).1.report.effects := by
  obtain ⟨effects, reported, sends⟩ := cycle.runChain_sends button reject chain
  rw [reported]
  exact quiet.append (sends.quiet running)

/-- A call reports no request, or it is the submission that does. -/
theorem perform_submits : Quiet (cycle.perform button remaining reject call).1.report.effects ∨
    cycle.tree.SubmitsFor button (cycle.perform button remaining reject call).1 := by
  cases submits : call.submits with
  | false => exact .inl (quiet_perform quiet (perform_ne_suspended submits _ _ _ _))
  | true =>
      cases call with
      | submit => exact .inr ⟨cycle, .post, remaining, reject, .refl, quiet, rfl⟩
      | submitPartial => exact .inr ⟨cycle, .patch, remaining, reject, .refl, quiet, rfl⟩
      | _ => cases submits

/-- A chain reports no request, or it ends with the submission that does. -/
theorem runChain_submits (button : Path) (reject chain : List Call) :
    Quiet (cycle.runChain button reject chain).1.report.effects ∨
      cycle.tree.SubmitsFor button (cycle.runChain button reject chain).1 := by
  induction chain generalizing cycle with
  | nil => exact .inl quiet
  | cons call rest ih =>
      have performs := @perform_submits cycle button rest reject call quiet
      have quietAfter := @quiet_perform cycle button rest reject call quiet
      have moves := cycle.perform_moves button rest reject call
      unfold runChain
      generalize cycle.perform button rest reject call = performed at performs quietAfter moves ⊢
      obtain ⟨after, ending⟩ := performed
      cases ending with
      | completed => exact (ih (quietAfter (by simp))).imp_right (Tree.SubmitsFor.trans moves)
      | suspended => exact performs
      | failed => exact performs

theorem run_submits (button : Path) (chain reject : List Call) :
    Quiet (cycle.run button chain reject).report.effects ∨
      cycle.tree.SubmitsFor button (cycle.run button chain reject) := by
  have runs := runChain_submits quiet button reject chain
  have quietAfter := @quiet_runChain cycle button chain reject quiet
  have moves := cycle.runChain_moves button reject chain
  unfold run
  generalize cycle.runChain button reject chain = ran at runs quietAfter moves ⊢
  obtain ⟨after, ending⟩ := ran
  cases ending with
  | completed => exact runs
  | suspended => exact runs
  | failed => exact (runChain_submits (quietAfter (by simp)) button [] reject).imp_right (Tree.SubmitsFor.trans moves)

end Calls

section Waiting

variable {cycle : Cycle} {button : Path} {chain reject : List Call} {pending : Pending}

/-- The request whose outcome is waited for is reported. -/
def Asks (cycle : Cycle) (pending : Pending) : Prop :=
  ∃ data, .submit ⟨pending.method, data⟩ ∈ cycle.report.effects

/-- A chain leaves the tree waiting for what it waited for before, or for the outcome of a request that it has sent
for its button. -/
theorem runChain_waits (waits : (cycle.runChain button reject chain).1.tree.pending = some pending) :
    cycle.tree.pending = some pending ∨
      pending.button = button ∧ (cycle.runChain button reject chain).1.Asks pending := by
  obtain ⟨effects, reported, sends⟩ := cycle.runChain_sends button reject chain
  rw [Asks, reported]
  rw [waits] at sends
  generalize earlier : cycle.tree.pending = before at sends
  generalize (cycle.runChain button reject chain).2 = ending at sends
  generalize later : some pending = now at sends
  cases sends with
  | completed => exact .inl rfl
  | failed => exact .inl rfl
  | suspended _ _ _ request =>
      cases later
      exact .inr ⟨rfl, request.data, List.mem_append_right _ (List.mem_append_right _ (List.mem_singleton_self _))⟩

/-- A chain takes back nothing that was reported. -/
theorem Asks.runChain (asks : cycle.Asks pending) : (cycle.runChain button reject chain).1.Asks pending := by
  obtain ⟨effects, reported, -⟩ := cycle.runChain_sends button reject chain
  obtain ⟨data, inside⟩ := asks
  exact ⟨data, reported ▸ List.mem_append_left _ inside⟩

theorem run_waits (waits : (cycle.run button chain reject).tree.pending = some pending) :
    cycle.tree.pending = some pending ∨ pending.button = button ∧ (cycle.run button chain reject).Asks pending := by
  have runs := @runChain_waits cycle button chain reject pending
  unfold run at waits ⊢
  generalize cycle.runChain button reject chain = ran at runs waits ⊢
  obtain ⟨after, ending⟩ := ran
  cases ending with
  | completed => exact runs waits
  | suspended => exact runs waits
  | failed =>
      rcases runChain_waits waits with earlier | sent
      · exact (runs earlier).imp_right (And.imp_right Asks.runChain)
      · exact .inr sent

end Waiting

end Cycle

namespace Tree

variable {tree : Tree}

variable (tree) in
/-- The button for which an operation runs calls: the one that is clicked, or the one that has waited for the
outcome. -/
def runsFor : Operation → Option Path
  | .click path => some path
  | .complete _ => tree.pending.map Pending.button
  | _ => none

/-- An operation reports no request, or it ends with the submission that does. -/
theorem answer_submits {operation : Operation} {cycle : Cycle} (done : tree.answer operation = .ok cycle) :
    Quiet cycle.report.effects ∨
      ∃ button, tree.runsFor operation = some button ∧ tree.SubmitsFor button cycle := by
  have settled {start : Cycle} (quiet : Quiet start.report.effects) : Quiet start.settle.1.report.effects := by
    rwa [Cycle.effects_settle]
  cases operation with
  | setValue path value =>
      obtain ⟨-, -, rfl⟩ := setValue_eq_ok done
      exact .inl (settled .nil)
  | click path =>
      obtain ⟨-, field, button, -, -, -, -, rfl⟩ := click_eq_ok done
      exact (@Cycle.run_submits (.start tree) .nil path _ _).imp_right fun submits => ⟨path, rfl, submits⟩
  | addSibling path behind =>
      obtain ⟨-, node, extended, index, -, -, rfl⟩ := addSibling_eq_ok done
      exact .inl (settled .nil)
  | removeSibling path index =>
      obtain ⟨-, node, reduced, -, -, rfl⟩ := removeSibling_eq_ok done
      exact .inl (settled .nil)
  | goToStep path index =>
      obtain ⟨-, moved, arrived, navigated, rfl⟩ := goToStep_eq_ok done
      have none : moved.report.effects = [] := Cycle.effects_navigate _ navigated
      exact .inl (settled (none ▸ .nil))
  | validate =>
      cases done
      exact .inl .nil
  | validatePart scope =>
      cases done
      exact .inl .nil
  | applyErrors messages =>
      cases done
      exact .inl .nil
  | reset =>
      obtain ⟨-, rfl⟩ := reset_eq_ok done
      exact .inl .nil
  | complete outcome =>
      obtain ⟨pending, waits, rfl⟩ := complete_eq_ok done
      have runsFor : tree.runsFor (.complete outcome) = some pending.button :=
        congrArg (Option.map Pending.button) waits
      cases success? outcome with
      | some response =>
          have submits := @Cycle.run_submits (.start (tree.informed response)) .nil pending.button
            pending.remaining pending.reject
          exact submits.imp_right fun submits =>
            ⟨pending.button, runsFor, submits.trans (tree.informed_notes response).moves⟩
      | none =>
          have quiet : Quiet (refusal outcome).effects := effects_refusal outcome ▸ .nil
          have submits := @Cycle.runChain_submits ⟨tree.refused outcome, refusal outcome⟩ quiet pending.button []
            pending.reject
          exact submits.imp_right fun submits =>
            ⟨pending.button, runsFor, submits.trans (tree.refused_notes outcome).moves⟩

/-- A tree that waits after an operation waits for what it waited for before, and no outcome was delivered, or the
operation has sent the request for the button that it runs calls for. -/
theorem button_of_waits {operation : Operation} {cycle : Cycle} (done : tree.answer operation = .ok cycle)
    {pending : Pending} (waits : cycle.tree.pending = some pending) :
    (tree.pending = some pending ∧ ∀ outcome, operation ≠ .complete outcome) ∨
      tree.runsFor operation = some pending.button ∧ cycle.Asks pending := by
  cases operation with
  | setValue path value =>
      obtain ⟨-, -, rfl⟩ := setValue_eq_ok done
      rw [Cycle.pending_settle] at waits
      exact .inl ⟨(tree.pending_store path value).symm.trans waits, nofun⟩
  | click path =>
      obtain ⟨-, field, button, -, -, -, -, rfl⟩ := click_eq_ok done
      exact (Cycle.run_waits waits).imp (⟨·, nofun⟩) (And.imp_left fun same => congrArg some same.symm)
  | addSibling path behind =>
      obtain ⟨-, node, extended, index, -, -, rfl⟩ := addSibling_eq_ok done
      rw [Cycle.pending_settle] at waits
      exact .inl ⟨(tree.pending_change path _).symm.trans waits, nofun⟩
  | removeSibling path index =>
      obtain ⟨-, node, reduced, -, -, rfl⟩ := removeSibling_eq_ok done
      rw [Cycle.pending_settle] at waits
      exact .inl ⟨(tree.pending_change path _).symm.trans waits, nofun⟩
  | goToStep path index =>
      obtain ⟨-, moved, arrived, navigated, rfl⟩ := goToStep_eq_ok done
      rw [Cycle.pending_settle, Cycle.pending_navigate _ navigated] at waits
      exact .inl ⟨waits, nofun⟩
  | validate =>
      cases done
      exact .inl ⟨waits, nofun⟩
  | validatePart scope =>
      cases done
      exact .inl ⟨(tree.pending_validatePart scope).symm.trans waits, nofun⟩
  | applyErrors messages =>
      cases done
      exact .inl ⟨(tree.pending_applyErrors messages).symm.trans waits, nofun⟩
  | reset =>
      obtain ⟨-, rfl⟩ := reset_eq_ok done
      exact .inl ⟨waits, nofun⟩
  | complete outcome =>
      obtain ⟨earlier, waited, rfl⟩ := complete_eq_ok done
      have runsFor {button : Path} (same : button = earlier.button) : tree.runsFor (.complete outcome) = some button :=
        same ▸ congrArg (Option.map Pending.button) waited
      revert waits
      cases success? outcome with
      | some response =>
          intro waits
          rcases Cycle.run_waits waits with idle | ⟨same, asks⟩
          · cases idle
          · exact .inr ⟨runsFor same, asks⟩
      | none =>
          intro waits
          rcases Cycle.runChain_waits waits with idle | ⟨same, asks⟩
          · rw [tree.pending_refused] at idle
            cases idle
          · exact .inr ⟨runsFor same, asks⟩

end Tree

end Formwork
