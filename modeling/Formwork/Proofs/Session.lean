import Formwork.Proofs.Tree.Reachable
import Formwork.Proofs.Tree.Submissions

/-!
# Sessions over an idle tree

An event on an idle tree is carried out together with all requests that it leads to, whatever the
server answers (`Session.served`). `Session.Dispatches` describes this loop without a bound on the number
of deliveries and with the session at its end, also where the tree refuses; the bound with which
`Session.dispatch` computes it never runs out.

The loop goes on while the tree waits and the last report has a request. Both hold together or not at
all (`Cycle.Balanced`), and every outcome leaves less to do (`Cycle.Lessens`).
-/

set_option autoImplicit false

namespace Formwork

/-- All requests of a report, in their order. -/
def Report.requests (report : Report) : List Request := report.effects.filterMap Effect.request?

theorem Report.requests_merge (first later : Report) :
    (first.merge later).requests = first.requests ++ later.requests :=
  List.filterMap_append

/-- The last effect is the one that is asked for. -/
theorem Report.request?_of_concat {report : Report} {front : List Effect} {request : Request}
    (reported : report.effects = front ++ [.submit request]) : report.request? = some request := by
  simp only [Report.request?, reported, List.reverse_concat]
  rfl

theorem Report.requests_of_concat {report : Report} {front : List Effect} {request : Request}
    (reported : report.effects = front ++ [.submit request]) (quiet : Quiet front) :
    report.requests = [request] := by
  rw [Report.requests, reported, List.filterMap_append, quiet.filterMap]
  rfl

namespace Tree

/-- The calls that submit in the pipeline of the button that an event clicks. -/
def submissionsOf (tree : Tree) : Event → Nat
  | .click path =>
    match (tree.field? (tree.path path)).bind Field.button with
    | some button => button.pipeline.submissionCount
    | none => 0
  | _ => 0

/-- After an event on an idle tree there is no more to do than the clicked button says. -/
theorem perform_lessens {tree : Tree} {cycle : Cycle} {event : Event} (idle : tree.isBusy = false)
    (done : tree.perform event = .ok cycle) :
    ∃ calls, cycle.Lessens calls (tree.submissionsOf event) := by
  have nothing := isBusy_eq_false_iff.mp idle
  /- The other events settle the tree, and the report that they start with has no effects. -/
  have settled : ∀ {changed : Tree} {report : Report}, changed.pending = none → report.effects = [] →
      ∃ calls, (Cycle.mk changed report).settle.1.Lessens calls (tree.submissionsOf event) := by
    intro changed report changedIdle noEffects
    refine ⟨0, .of_idle ((Cycle.pending_settle _).trans changedIdle) ?_⟩
    rw [Cycle.effects_settle, noEffects]
    exact .nil
  cases event with
  | set path value =>
      obtain ⟨-, -, rfl⟩ := setValue_eq_ok done
      exact settled ((tree.pending_store _ _).trans nothing) rfl
  | click path =>
      obtain ⟨field, button, found, isButton, lessens⟩ := click_lessens done
      have submissions : tree.submissionsOf (.click path) = button.pipeline.submissionCount := by
        rw [submissionsOf, found, Option.bind_some, isButton]
      exact ⟨_, submissions ▸ lessens⟩
  | add path behind =>
      obtain ⟨-, node, extended, index, -, -, rfl⟩ := addSibling_eq_ok done
      exact settled ((tree.pending_change _ _).trans nothing) rfl
  | remove path index =>
      obtain ⟨-, node, reduced, -, -, rfl⟩ := removeSibling_eq_ok done
      exact settled ((tree.pending_change _ _).trans nothing) rfl
  | step path index =>
      obtain ⟨-, ⟨moved, report⟩, arrived, navigated, rfl⟩ := goToStep_eq_ok done
      exact settled ((Cycle.pending_navigate _ navigated).trans nothing)
        ((Cycle.effects_navigate _ navigated).trans rfl)
  | reset =>
      obtain ⟨-, rfl⟩ := reset_eq_ok done
      exact ⟨0, .of_idle nothing .nil⟩

end Tree

namespace Session

/-- The deliveries of requests, without a bound on their number: from the report of the last cycle and that
of the whole event up to now, to the session at the end and what is answered. -/
inductive Drains : Report → Report → Session → Session → Except Rejection Report → Prop where
  | rests {latest total : Report} {session : Session}
      (rests : session.tree.isBusy = false ∨ latest.request? = none) :
      Drains latest total session session (.ok total)
  | refused {latest total : Report} {session : Session} {request : Request} {rejection : Rejection}
      (busy : session.tree.isBusy = true) (asked : latest.request? = some request)
      (refused : session.tree.complete (session.send request).1 = .error rejection) :
      Drains latest total session (session.send request).2 (.error rejection)
  | delivered {latest total : Report} {session last : Session} {request : Request} {cycle : Cycle}
      {answered : Except Rejection Report}
      (busy : session.tree.isBusy = true) (asked : latest.request? = some request)
      (completed : session.tree.complete (session.send request).1 = .ok cycle)
      (rest : Drains cycle.report (total.merge cycle.report)
        { (session.send request).2 with tree := cycle.tree } last answered) :
      Drains latest total session last answered

/-- An event with all its deliveries: the session at the end and what is answered. -/
inductive Dispatches (event : Event) (session : Session) : Session → Except Rejection Report → Prop where
  | refused {rejection : Rejection} (refused : session.tree.perform event = .error rejection) :
      Dispatches event session session (.error rejection)
  | performed {cycle : Cycle} {last : Session} {answered : Except Rejection Report}
      (performed : session.tree.perform event = .ok cycle)
      (drains : Drains cycle.report cycle.report { session with tree := cycle.tree } last answered) :
      Dispatches event session last answered

/-- An event was carried out to its end. -/
structure Served (event : Event) (session last : Session) (answered : Except Rejection Report) : Prop where
  dispatches : Dispatches event session last answered
  computed : session.dispatch event = answered.map fun report => (last, report)
  idle : last.tree.isBusy = false
  bounded : last.requests.length ≤ session.requests.length + session.tree.submissionsOf event
  /-- The requests of the report were sent, and no others. -/
  sent : ∀ report, answered = .ok report → last.requests = session.requests ++ report.requests
  /-- Only the event itself is refused, and then nothing has happened. -/
  unchanged : ∀ rejection, answered = .error rejection →
    session.tree.perform event = .error rejection ∧ last = session

/-- If a tree waits exactly if the last report has a request, the deliveries come to an end, and the bound
is not used up before. -/
theorem drains (bound : Nat) {latest : Report} (total : Report) {session : Session} {submissions : Nat}
    (lessens : (Cycle.mk session.tree latest).Lessens bound submissions) :
    ∃ last report later, Drains latest total session last (.ok report) ∧
      drain bound latest total session = .ok (last, report) ∧ last.tree.isBusy = false ∧
        report.requests = total.requests ++ later ∧
          last.requests = session.requests ++ (latest.requests ++ later) ∧
            (latest.requests ++ later).length ≤ submissions := by
  induction bound generalizing latest total session submissions with
  | zero =>
      cases lessens.balanced with
      | idle nothing quiet =>
          have idle := Tree.isBusy_eq_false_iff.mpr nothing
          have none : latest.requests = [] := quiet.filterMap
          exact ⟨session, total, [], .rests (.inl idle), rfl, idle, by simp, by simp [none], by simp [none]⟩
      | busy waits _ _ =>
          have waiting := lessens.waiting
          rw [Tree.waiting, waits] at waiting
          cases waiting
  | succ bound ih =>
      cases lessens.balanced with
      | idle nothing quiet =>
          have idle := Tree.isBusy_eq_false_iff.mpr nothing
          have none : latest.requests = [] := quiet.filterMap
          refine ⟨session, total, [], .rests (.inl idle), ?_, idle, by simp, by simp [none], by simp [none]⟩
          simp only at nothing
          rw [drain, nothing]
      | @busy pending front request waits reported quiet =>
          dsimp only at waits reported
          have busy : session.tree.isBusy = true := by simp [Tree.isBusy, waits]
          have asked := Report.request?_of_concat reported
          have allowed := lessens.submissions busy
          obtain ⟨cycle, completed⟩ : ∃ cycle, session.tree.complete (session.send request).1 = .ok cycle :=
            ⟨_, Tree.complete_eq waits _⟩
          have less : cycle.Lessens bound (submissions - 1) :=
            (Tree.complete_lessens completed).mono (Nat.sub_le_of_le_add lessens.waiting)
              (Nat.le_sub_one_of_lt allowed)
          obtain ⟨last, report, later, rest, computed, idle, gathered, sent, bounded⟩ :=
            @ih cycle.report (total.merge cycle.report) { (session.send request).2 with tree := cycle.tree }
              (submissions - 1) less
          refine ⟨last, report, cycle.report.requests ++ later, .delivered busy asked completed rest, ?_,
            idle, ?_, ?_, ?_⟩
          · simp only [drain, waits, asked]
            exact bind_eq_ok.mpr ⟨cycle, completed, computed⟩
          · rw [gathered, Report.requests_merge, List.append_assoc]
          · rw [sent, Report.requests_of_concat reported quiet]
            exact List.append_assoc _ _ _
          · rw [Report.requests_of_concat reported quiet]
            rw [List.length_append, List.length_singleton]
            omega

/-- After a click or the delivery of an outcome a tree waits exactly if a request was reported, and then
this is the last effect and the only request. An event on an idle tree is carried out to its end,
whatever the server answers. -/
theorem served :
    (∀ (tree : Tree) (cycle : Cycle),
      ((∃ path, tree.click path = .ok cycle) ∨ ∃ outcome, tree.complete outcome = .ok cycle) →
        (cycle.tree.isBusy = true ↔ ∃ request, .submit request ∈ cycle.report.effects) ∧
          (cycle.tree.isBusy = true → ∃ front request, cycle.report.effects = front ++ [.submit request] ∧
            ∀ other, .submit other ∉ front)) ∧
    ∀ (session : Session) (event : Event), session.tree.isBusy = false →
      ∃ last answered, Served event session last answered := by
  constructor
  · intro tree cycle accepted
    rcases accepted with ⟨path, done⟩ | ⟨outcome, done⟩
    · obtain ⟨_, _, _, _, lessens⟩ := Tree.click_lessens done
      exact lessens.balanced.busy_iff
    · exact (Tree.complete_lessens done).balanced.busy_iff
  · intro session event idle
    cases done : session.tree.perform event with
    | error rejection =>
        refine ⟨session, .error rejection, .refused done, ?_, idle, Nat.le_add_right _ _, ?_, ?_⟩
        · rw [dispatch, done]
          rfl
        · rintro _ ⟨⟩
        · rintro _ ⟨⟩
          exact ⟨done, rfl⟩
    | ok cycle =>
        obtain ⟨calls, lessens⟩ := Tree.perform_lessens idle done
        obtain ⟨last, report, later, drained, computed, lastIdle, gathered, sent, bounded⟩ :=
          @drains cycle.tree.waiting cycle.report cycle.report { session with tree := cycle.tree } _
            ⟨lessens.balanced, Nat.le_refl _, lessens.submissions⟩
        refine ⟨last, .ok report, .performed done drained, ?_, lastIdle, ?_, ?_, ?_⟩
        · rw [dispatch, done]
          exact computed
        · rw [sent, List.length_append]
          exact Nat.add_le_add_left bounded _
        · rintro _ ⟨⟩
          rw [sent, gathered]
        · rintro _ ⟨⟩

/-- The first order is sent by one request at most, also if the request is not delivered. -/
theorem served_first_order : ∃ session : Session, session.tree.Reachable ∧
    session.outcomes = [.error .missingEndpoint] ∧
      (∃ cycle, session.tree.click (session.tree.path "0.order.send") = .ok cycle ∧
        ∃ request, .submit request ∈ cycle.report.effects) ∧
        session.tree.submissionsOf (.click "0.order.send") = 1 ∧
          ∃ last answered, Served (.click "0.order.send") session last answered := by
  obtain ⟨tree, cycle, field, button, reachable, idle, place, found, isButton, submissions, clicked, busy⟩ :
      ∃ (tree : Tree) (cycle : Cycle) (field : Field) (button : Button), tree.Reachable ∧
        tree.isBusy = false ∧ tree.path "0.order.send" = ⟨["shop", "0", "order", "send"]⟩ ∧
          tree.field? ⟨["shop", "0", "order", "send"]⟩ = some field ∧ field.button = some button ∧
            button.pipeline.submissionCount = 1 ∧
              tree.click ⟨["shop", "0", "order", "send"]⟩ = .ok cycle ∧ cycle.tree.isBusy = true :=
    ⟨_, _, _, _, .mounted (rfl : Tree.mount Tree.orders none = _), rfl, rfl, rfl, rfl, rfl, rfl, rfl⟩
  rw [← place] at found clicked
  refine ⟨.start tree [.error .missingEndpoint], reachable, rfl,
    ⟨cycle, clicked, (served.1 tree cycle (.inl ⟨_, clicked⟩)).1.mp busy⟩, ?_,
    served.2 (.start tree [.error .missingEndpoint]) (.click "0.order.send") idle⟩
  change tree.submissionsOf _ = 1
  rw [Tree.submissionsOf, found, Option.bind_some, isButton]
  exact submissions

end Session

end Formwork
