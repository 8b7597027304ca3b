import Formwork.Proofs.Tree.Reachable
import Formwork.Proofs.Tree.Tracing

/-!
# The order of the calls of a pipeline

From a click until the tree is idle again, the calls of the button are carried out one at a time:
first calls from the front of the success chain up to the first one that fails, and then, if one has
failed, calls from the front of the reject chain, again up to the first one that fails
(`Tree.Delivered.inOrder`). A submission is a call that fails if its outcome is not a success.

Between two operations all that is left of a pipeline is the pending submission. `Pipeline.Stage`
says which marks belong to what is pending; a chain that is run goes from one stage to the next.
-/

set_option autoImplicit false

namespace Formwork

/-- Calls that were carried out one after the other, each with whether it succeeded. -/
abbrev Record := List (Call × Bool)

namespace Record

/-- The marks of calls that were carried out one at a time. -/
def marks (record : Record) : List Mark :=
  record.flatMap fun entry => [.start entry.1, .stop entry.2]

@[simp]
theorem marks_append (first second : Record) : marks (first ++ second) = first.marks ++ second.marks :=
  List.flatMap_append

@[simp]
theorem marks_nil : marks [] = [] := rfl

@[simp]
theorem marks_cons (entry : Call × Bool) (rest : Record) :
    marks (entry :: rest) = .start entry.1 :: .stop entry.2 :: rest.marks := rfl

/-- Some calls, all of which succeeded. -/
def passed (calls : List Call) : Record := calls.map fun call => (call, true)

@[simp]
theorem passed_nil : passed [] = [] := rfl

@[simp]
theorem passed_cons (call : Call) (rest : List Call) :
    passed (call :: rest) = (call, true) :: passed rest := rfl

theorem map_fst_passed (calls : List Call) : (passed calls).map Prod.fst = calls := by
  simp [passed, Function.comp_def]

theorem of_mem_passed {calls : List Call} {entry : Call × Bool} (inside : entry ∈ passed calls) :
    entry.2 = true := by
  obtain ⟨call, -, rfl⟩ := List.mem_map.mp inside
  rfl

theorem passed_append (first second : List Call) : passed (first ++ second) = passed first ++ passed second :=
  List.map_append

/-- Some calls that succeeded and one that failed. -/
def stopped (calls : List Call) (call : Call) : Record := passed calls ++ [(call, false)]

theorem map_fst_stopped (calls : List Call) (call : Call) :
    (stopped calls call).map Prod.fst = calls ++ [call] := by
  rw [stopped, List.map_append, map_fst_passed]
  rfl

end Record

namespace Pipeline

variable (pipeline : Pipeline)

/-- The two parts of a run: what was called of the success chain and what of the reject chain. -/
structure Parts (success reject : Record) : Prop where
  successFront : success.map Prod.fst <+: pipeline.success
  rejectFront : reject.map Prod.fst <+: pipeline.reject
  /-- Only the last call of a part can have failed. -/
  successStops : ∀ entry ∈ success.dropLast, entry.2 = true
  rejectStops : ∀ entry ∈ reject.dropLast, entry.2 = true
  rejects_iff : reject ≠ [] ↔ (∃ entry ∈ success, entry.2 = false) ∧ pipeline.reject ≠ []
  successWhole : (∀ entry ∈ success, entry.2 = true) → success.map Prod.fst = pipeline.success
  rejectWhole : (∃ entry ∈ success, entry.2 = false) → (∀ entry ∈ reject, entry.2 = true) →
    reject.map Prod.fst = pipeline.reject

/-- Some marks are those of a run of the pipeline. -/
def InOrder (marks : List Mark) : Prop :=
  ∃ success reject : Record, marks = (success ++ reject).marks ∧ pipeline.Parts success reject

/-- How far a run has come: what is pending, and the marks up to now. -/
inductive Stage : Option Pending → List Mark → Prop where
  | ended {marks : List Mark} (inOrder : pipeline.InOrder marks) : Stage none marks
  /-- A submission of the success chain is pending. -/
  | succeeding {button : Path} {method : Method} {front rest : List Call} {call : Call}
      (split : pipeline.success = front ++ call :: rest) :
      Stage (some ⟨button, method, rest, pipeline.reject⟩) ((Record.passed front).marks ++ [.start call])
  /-- A submission of the reject chain is pending. -/
  | rejecting {button : Path} {method : Method} {done : List Call} {failed : Call} {front rest : List Call}
      {call : Call} (begun : done ++ [failed] <+: pipeline.success)
      (split : pipeline.reject = front ++ call :: rest) :
      Stage (some ⟨button, method, rest, []⟩)
        ((Record.stopped done failed ++ Record.passed front).marks ++ [.start call])

variable {pipeline}

/-! ## Finished runs -/

theorem Parts.of_success : pipeline.Parts (Record.passed pipeline.success) [] where
  successFront := by simp only [Record.map_fst_passed, List.prefix_rfl]
  rejectFront := List.nil_prefix
  successStops entry inside := Record.of_mem_passed (List.dropLast_subset _ inside)
  rejectStops entry inside := by cases inside
  rejects_iff := by
    refine iff_of_false (by simp) ?_
    rintro ⟨⟨entry, inside, failed⟩, -⟩
    simp [Record.of_mem_passed inside] at failed
  successWhole _ := Record.map_fst_passed _
  rejectWhole := by
    rintro ⟨entry, inside, failed⟩
    simp [Record.of_mem_passed inside] at failed

theorem exists_failed_stopped (calls : List Call) (call : Call) :
    ∃ entry ∈ Record.stopped calls call, entry.2 = false :=
  ⟨(call, false), by simp [Record.stopped], rfl⟩

/-- A run whose success part failed. -/
theorem Parts.of_reject {done : List Call} {failed : Call} (begun : done ++ [failed] <+: pipeline.success)
    {reject : Record} (front : reject.map Prod.fst <+: pipeline.reject)
    (stops : ∀ entry ∈ reject.dropLast, entry.2 = true)
    (nonempty : pipeline.reject ≠ [] → reject ≠ [])
    (whole : (∀ entry ∈ reject, entry.2 = true) → reject.map Prod.fst = pipeline.reject) :
    pipeline.Parts (Record.stopped done failed) reject where
  successFront := by rwa [Record.map_fst_stopped]
  rejectFront := front
  successStops entry inside := by
    rw [Record.stopped, List.dropLast_concat] at inside
    exact Record.of_mem_passed inside
  rejectStops := stops
  rejects_iff := by
    refine ⟨fun begins => ⟨exists_failed_stopped done failed, ?_⟩, fun declared => nonempty declared.2⟩
    intro none
    rw [none, List.prefix_nil, List.map_eq_nil_iff] at front
    exact begins front
  successWhole all := by
    obtain ⟨entry, inside, fails⟩ := exists_failed_stopped done failed
    rw [all entry inside] at fails
    cases fails
  rejectWhole _ := whole

/-- A run whose reject part was carried out to its end. -/
theorem Parts.of_reject_passed {done : List Call} {failed : Call}
    (begun : done ++ [failed] <+: pipeline.success) :
    pipeline.Parts (Record.stopped done failed) (Record.passed pipeline.reject) := by
  refine .of_reject begun ?_ (fun entry inside => ?_) (fun declared none => declared ?_)
    fun _ => Record.map_fst_passed _
  · simp only [Record.map_fst_passed, List.prefix_rfl]
  · exact Record.of_mem_passed (List.dropLast_subset _ inside)
  · rwa [Record.passed, List.map_eq_nil_iff] at none

/-- A run whose reject part failed as well. -/
theorem Parts.of_reject_stopped {done : List Call} {failed : Call}
    (begun : done ++ [failed] <+: pipeline.success) {front rest : List Call} {call : Call}
    (split : pipeline.reject = front ++ call :: rest) :
    pipeline.Parts (Record.stopped done failed) (Record.stopped front call) := by
  refine .of_reject begun ?_ ?_ ?_ ?_
  · rw [Record.map_fst_stopped, split]
    exact ⟨rest, by simp⟩
  · intro entry inside
    rw [Record.stopped, List.dropLast_concat] at inside
    exact Record.of_mem_passed inside
  · intro _ none
    simp [Record.stopped] at none
  · intro all
    obtain ⟨entry, inside, fails⟩ := exists_failed_stopped front call
    rw [all entry inside] at fails
    cases fails

end Pipeline

/-! ## How a chain goes -/

namespace Cycle

/-- What a chain leaves pending, how it ends and which marks it leaves. -/
inductive Went (button : Path) (reject chain : List Call) (before : Option Pending) :
    Option Pending → Ending → List Mark → Prop where
  | completed : Went button reject chain before before .completed (Record.passed chain).marks
  | suspended {front rest : List Call} {call : Call} (split : chain = front ++ call :: rest)
      (method : Method) : Went button reject chain before (some ⟨button, method, rest, reject⟩) .suspended
        ((Record.passed front).marks ++ [.start call])
  | failed {front rest : List Call} {call : Call} (split : chain = front ++ call :: rest) :
      Went button reject chain before before .failed (Record.stopped front call).marks

variable {button : Path} {reject : List Call}

/-- A chain goes as its rest goes after a first call that succeeds. -/
theorem Went.cons {rest : List Call} {before now : Option Pending} {ending : Ending} {marks : List Mark}
    (went : Went button reject rest before now ending marks) (call : Call) :
    Went button reject (call :: rest) before now ending (.start call :: .stop true :: marks) := by
  cases went with
  | completed => exact .completed
  | @suspended front rest last split method => exact @suspended _ _ _ _ (call :: front) _ _ (by rw [split]; rfl) method
  | @failed front rest last split => exact @failed _ _ _ _ (call :: front) _ _ (by rw [split]; rfl)

theorem traceChain_went (button : Path) (reject chain : List Call) (cycle : Cycle) :
    Went button reject chain cycle.tree.pending (traceChain button reject chain cycle).1.1.tree.pending
      (traceChain button reject chain cycle).1.2 (traceChain button reject chain cycle).2 := by
  induction chain generalizing cycle with
  | nil => exact .completed
  | cons call rest ih =>
      have waits := cycle.perform_waits button rest reject call
      unfold traceChain
      generalize cycle.perform button rest reject call = performed at waits ⊢
      obtain ⟨after, ending⟩ := performed
      cases ending with
      | completed =>
          have same : after.tree.pending = cycle.tree.pending := by
            generalize after.tree.pending = now at waits
            cases waits
            rfl
          have later := ih after
          rw [same] at later
          exact later.cons call
      | suspended =>
          dsimp only at waits ⊢
          generalize after.tree.pending = now at waits ⊢
          cases waits with
          | suspended method => exact @Went.suspended _ _ _ _ [] rest call rfl method
      | failed =>
          dsimp only at waits ⊢
          generalize after.tree.pending = now at waits ⊢
          cases waits
          exact @Went.failed _ _ _ _ [] rest call rfl

/-- Without a reject chain a run is the run of its chain. -/
theorem traceRun_nil (button : Path) (chain : List Call) (cycle : Cycle) :
    traceRun button chain [] cycle =
      ((traceChain button [] chain cycle).1.1, (traceChain button [] chain cycle).2) := by
  unfold traceRun
  generalize traceChain button [] chain cycle = traced
  obtain ⟨⟨after, ending⟩, marks⟩ := traced
  cases ending with
  | completed => rfl
  | suspended => rfl
  | failed => simp [traceChain]

end Cycle

/-! ## From stage to stage -/

namespace Pipeline

variable {pipeline : Pipeline} {cycle : Cycle} (idle : cycle.tree.pending = none) (button : Path)
include idle

/-- Going on with the reject chain leads to the next stage. -/
theorem Stage.of_reject {done : List Call} {failed : Call} (begun : done ++ [failed] <+: pipeline.success)
    {front chain : List Call} (split : pipeline.reject = front ++ chain) :
    pipeline.Stage (cycle.traceChain button [] chain).1.1.tree.pending
      ((Record.stopped done failed ++ Record.passed front).marks ++ (cycle.traceChain button [] chain).2) := by
  have went := Cycle.traceChain_went button [] chain cycle
  generalize cycle.traceChain button [] chain = traced at went ⊢
  obtain ⟨⟨after, ending⟩, marks⟩ := traced
  dsimp only at went ⊢
  rw [idle] at went
  generalize after.tree.pending = now at went ⊢
  cases went with
  | completed =>
      refine .ended ⟨_, _, ?_, .of_reject_passed begun⟩
      simp [split, Record.passed_append]
  | @suspended inner rest call inside method =>
      have stage := @Stage.rejecting pipeline button method done failed (front ++ inner) rest call begun
        (by rw [split, inside, List.append_assoc])
      simpa [Record.passed_append] using stage
  | @failed inner rest call inside =>
      have whole : pipeline.reject = (front ++ inner) ++ call :: rest := by
        rw [split, inside, List.append_assoc]
      refine .ended ⟨_, _, ?_, .of_reject_stopped begun whole⟩
      simp [Record.stopped, Record.passed_append]

/-- Going on with the success chain leads to the next stage. -/
theorem Stage.of_success {front chain : List Call} (split : pipeline.success = front ++ chain) :
    pipeline.Stage (cycle.traceRun button chain pipeline.reject).1.tree.pending
      ((Record.passed front).marks ++ (cycle.traceRun button chain pipeline.reject).2) := by
  have went := Cycle.traceChain_went button pipeline.reject chain cycle
  unfold Cycle.traceRun
  generalize cycle.traceChain button pipeline.reject chain = traced at went ⊢
  obtain ⟨⟨after, ending⟩, marks⟩ := traced
  dsimp only at went
  rw [idle] at went
  cases ending with
  | completed =>
      dsimp only
      generalize after.tree.pending = now at went ⊢
      cases went
      refine .ended ⟨_, [], ?_, .of_success⟩
      simp [split, Record.passed_append]
  | suspended =>
      dsimp only
      generalize after.tree.pending = now at went ⊢
      cases went with
      | @suspended inner rest call inside method =>
          have stage := @Stage.succeeding pipeline button method (front ++ inner) rest call
            (by rw [split, inside, List.append_assoc])
          simpa [Record.passed_append] using stage
  | failed =>
      dsimp only
      have stillIdle : after.tree.pending = none := by
        generalize after.tree.pending = now at went
        cases went
        rfl
      rw [stillIdle] at went
      cases went with
      | @failed inner rest call inside =>
          have begun : (front ++ inner) ++ [call] <+: pipeline.success := by
            rw [split, inside]
            exact ⟨rest, by simp⟩
          have stage := Stage.of_reject stillIdle button begun (List.nil_append pipeline.reject).symm
          simpa [Record.stopped, Record.passed_append] using stage

end Pipeline

namespace Tree

/-- The delivery of an outcome leads to the next stage. -/
theorem traceComplete_stage {pipeline : Pipeline} {tree : Tree} {marks later : List Mark}
    (stage : pipeline.Stage tree.pending marks) {outcome : Outcome} {cycle : Cycle}
    (completed : tree.traceComplete outcome = .ok (cycle, later)) :
    pipeline.Stage cycle.tree.pending (marks ++ later) := by
  unfold traceComplete at completed
  generalize tree.pending = pending at stage completed
  cases stage with
  | ended inOrder => cases completed
  | @succeeding button method front rest call split =>
      cases success : success? outcome with
      | some response =>
          rw [success] at completed
          cases completed
          have idle : (Cycle.start (tree.informed response)).tree.pending = none := rfl
          have whole : pipeline.success = (front ++ [call]) ++ rest := by simp [split]
          have stage := Pipeline.Stage.of_success idle button whole
          simpa [Record.passed_append] using stage
      | none =>
          rw [success] at completed
          cases completed
          have idle := tree.pending_refused outcome
          have begun : front ++ [call] <+: pipeline.success := ⟨rest, by simp [split]⟩
          have stage := @Pipeline.Stage.of_reject pipeline ⟨tree.refused outcome, refusal outcome⟩ idle button
            front call begun [] pipeline.reject rfl
          simpa [Record.stopped] using stage
  | @rejecting button method done failed front rest call begun split =>
      cases success : success? outcome with
      | some response =>
          rw [success] at completed
          cases completed
          have idle : (Cycle.start (tree.informed response)).tree.pending = none := rfl
          have whole : pipeline.reject = (front ++ [call]) ++ rest := by simp [split]
          have stage := Pipeline.Stage.of_reject idle button begun whole
          rw [Cycle.traceRun_nil]
          simpa [Record.passed_append] using stage
      | none =>
          rw [success] at completed
          cases completed
          change pipeline.Stage (tree.refused outcome).pending _
          rw [tree.pending_refused outcome]
          refine .ended ⟨_, _, ?_, .of_reject_stopped begun split⟩
          simp [Record.stopped, Cycle.traceChain]

/-- A click leads to the first stage. -/
theorem traceClick_stage {tree : Tree} {path : Path} {cycle : Cycle} {marks : List Mark}
    (clicked : tree.traceClick path = .ok (cycle, marks)) :
    ∃ field button, tree.field? path = some field ∧ field.button = some button ∧
      button.pipeline.Stage cycle.tree.pending marks := by
  obtain ⟨idle, field, button, found, isButton, same⟩ := traceClick_eq_ok clicked
  have nothing : tree.pending = none := isBusy_eq_false_iff.mp idle
  have stage := @Pipeline.Stage.of_success button.pipeline (.start tree) nothing path [] _ rfl
  rw [← same] at stage
  exact ⟨field, button, found, isButton, stage⟩

/-- Outcomes that are delivered to a tree one after the other. While it waits, any other operation may be
tried as well. -/
inductive Delivered : Tree → List Outcome → List Mark → Tree → Prop where
  | done (tree : Tree) : Delivered tree [] [] tree
  | complete {tree : Tree} {outcome : Outcome} {cycle : Cycle} {marks later : List Mark}
      {outcomes : List Outcome} {last : Tree}
      (completed : tree.traceComplete outcome = .ok (cycle, marks))
      (delivered : Delivered cycle.tree outcomes later last) :
      Delivered tree (outcome :: outcomes) (marks ++ later) last
  | meanwhile {tree : Tree} {operation : Operation} {outcomes : List Outcome} {marks : List Mark}
      {last : Tree} (busy : tree.isBusy = true) (other : ∀ outcome, operation ≠ .complete outcome)
      (delivered : Delivered (tree.after operation) outcomes marks last) :
      Delivered tree outcomes marks last

/-- Delivering outcomes leads from stage to stage. -/
theorem Delivered.stage {pipeline : Pipeline} {tree last : Tree} {outcomes : List Outcome}
    {marks later : List Mark} (delivered : Delivered tree outcomes later last)
    (stage : pipeline.Stage tree.pending marks) : pipeline.Stage last.pending (marks ++ later) := by
  induction delivered generalizing marks with
  | done tree => rwa [List.append_nil]
  | complete completed _ ih =>
      rw [← List.append_assoc]
      exact ih (traceComplete_stage stage completed)
  | meanwhile busy other _ ih =>
      refine ih ?_
      rwa [pending_after busy other]

/-- From a click until the tree is idle again, the calls of the button are carried out in order. -/
theorem Delivered.inOrder {tree last : Tree} {path : Path} {field : Field} {button : Button}
    (found : tree.field? path = some field) (isButton : field.button = some button) {cycle : Cycle}
    {marks later : List Mark} (clicked : tree.traceClick path = .ok (cycle, marks))
    {outcomes : List Outcome} (delivered : Delivered cycle.tree outcomes later last)
    (idle : last.isBusy = false) : button.pipeline.InOrder (marks ++ later) := by
  obtain ⟨_, _, foundAgain, isButtonAgain, stage⟩ := traceClick_stage clicked
  cases found.symm.trans foundAgain
  cases isButton.symm.trans isButtonAgain
  have ended := delivered.stage stage
  rw [isBusy_eq_false_iff.mp idle] at ended
  cases ended with
  | ended inOrder => exact inOrder

/-- If the submission of an order is not delivered, the reject chain of its button is carried out. -/
theorem inOrder_refused_order : ∃ tree : Tree, tree.Reachable ∧ ∃ field button,
    tree.field? ⟨["shop", "0", "order", "send"]⟩ = some field ∧ field.button = some button ∧
      button.pipeline.InOrder [.start .submit, .stop false, .start .clearErrors, .stop true] := by
  obtain ⟨tree, reachable, field, button, cycle, last, found, isButton, clicked, completed, idle⟩ :
      ∃ tree : Tree, tree.Reachable ∧ ∃ field button cycle last,
        tree.field? ⟨["shop", "0", "order", "send"]⟩ = some field ∧ field.button = some button ∧
          tree.traceClick ⟨["shop", "0", "order", "send"]⟩ = .ok (cycle, [.start .submit]) ∧
            cycle.tree.traceComplete (.error .missingEndpoint) =
              .ok (last, [.stop false, .start .clearErrors, .stop true]) ∧ last.tree.isBusy = false :=
    ⟨_, .mounted (rfl : Tree.mount orders none = _), _, _, _, _, rfl, rfl, rfl, rfl, rfl⟩
  have delivered := Delivered.complete completed (.done last.tree)
  exact ⟨tree, reachable, field, button, found, isButton,
    Delivered.inOrder found isButton clicked delivered idle⟩

end Tree

end Formwork
