import Formwork.Session
import Formwork.Proofs.Tree.Pending

/-!
# Requests and suspended chains

A chain of calls reports a request exactly where it suspends: the request is then its last effect, and
there is no other (`Cycle.Sends`). Inducers and all calls but submissions report none. So a tree
waits after a click, or after an outcome was delivered, exactly if a request was reported
(`Cycle.Balanced`).

Every outcome that is delivered leaves less to do: fewer calls wait, and among them fewer that
submit (`Tree.complete_lessens`).
-/

set_option autoImplicit false

namespace Formwork

/-- Effects none of which is a request. -/
def Quiet (effects : List Effect) : Prop := ∀ effect ∈ effects, effect.request? = none

theorem Quiet.nil : Quiet [] := fun _ inside => by cases inside

theorem Quiet.append {first second : List Effect} (one : Quiet first) (two : Quiet second) :
    Quiet (first ++ second) := by
  intro effect inside
  rcases List.mem_append.mp inside with inside | inside
  · exact one effect inside
  · exact two effect inside

theorem Quiet.filterMap {effects : List Effect} (quiet : Quiet effects) :
    effects.filterMap Effect.request? = [] :=
  List.filterMap_eq_nil_iff.mpr quiet

namespace Cycle

variable (cycle : Cycle)

/-! ## Settling reports no effects -/

theorem effects_navigate {place : Path} {index : Nat} {after : Cycle} {arrived : Bool}
    (navigated : cycle.navigate place index = .ok (after, arrived)) :
    after.report.effects = cycle.report.effects := by
  obtain ⟨_, _, _, _, -, -, rfl⟩ := cycle.navigate_eq_ok navigated
  rfl

theorem effects_execute (event : InducedEvent) :
    (cycle.execute event).1.report.effects = cycle.report.effects := by
  unfold execute
  split
  · rfl
  · split
    · rfl
    · rfl
  · split
    · rfl
    · split
      · rename_i navigated
        exact cycle.effects_navigate navigated
      · rfl

theorem effects_executeAll (events : List InducedEvent) :
    (executeAll events cycle).1.report.effects = cycle.report.effects := by
  induction events generalizing cycle with
  | nil => rfl
  | cons event rest ih =>
      rw [executeAll_cons]
      exact (ih _).trans (cycle.effects_execute event)

theorem effects_settle : cycle.settle.1.report.effects = cycle.report.effects :=
  effects_executeAll { cycle with tree := cycle.tree.refresh.latch } cycle.tree.refresh.rising

theorem effects_assign (button : Path) (target : Reference) (value : Option Value) :
    (cycle.assign button target value).1.report.effects = cycle.report.effects := by
  unfold assign
  split
  · exact effects_settle _
  · rfl

/-! ## Chains -/

/-- What a chain leaves pending, how it ends and which effects it reports: a request at the end if a
call that submits has suspended it, and no request otherwise. -/
inductive Sends (button : Path) (reject chain : List Call) (before : Option Pending) :
    Option Pending → Ending → List Effect → Prop where
  | completed {effects : List Effect} (quiet : Quiet effects) :
      Sends button reject chain before before .completed effects
  | failed {effects : List Effect} (quiet : Quiet effects) :
      Sends button reject chain before before .failed effects
  | suspended {front rest : List Call} {call : Call} {effects : List Effect}
      (split : chain = front ++ call :: rest) (submits : call.submits = true) (quiet : Quiet effects)
      (request : Request) :
      Sends button reject chain before (some ⟨button, request.method, rest, reject⟩) .suspended
        (effects ++ [.submit request])

variable {button : Path} {reject chain : List Call}

/-- A chain sends what its rest sends after a first call that reports no request. -/
theorem Sends.cons {before now : Option Pending} {ending : Ending} {effects first : List Effect}
    (sends : Sends button reject chain before now ending effects) (quiet : Quiet first) (call : Call) :
    Sends button reject (call :: chain) before now ending (first ++ effects) := by
  cases sends with
  | completed later => exact .completed (quiet.append later)
  | failed later => exact .failed (quiet.append later)
  | @suspended front rest last effects split submits later request =>
      rw [← List.append_assoc]
      exact @Sends.suspended _ _ _ _ (call :: front) rest last _ (by rw [split]; rfl) submits
        (quiet.append later) request

section Calls

variable (button reject chain)

theorem beginSubmission_sends {call : Call} (submits : call.submits = true) (method : Method) :
    ∃ effects, (cycle.beginSubmission button method chain reject).1.report.effects =
        cycle.report.effects ++ effects ∧
      Sends button reject (call :: chain) cycle.tree.pending
        (cycle.beginSubmission button method chain reject).1.tree.pending
        (cycle.beginSubmission button method chain reject).2 effects := by
  unfold beginSubmission
  cases method with
  | post =>
      dsimp only
      split
      · exact ⟨_, rfl, @Sends.suspended _ _ _ _ [] chain call [] rfl submits .nil ⟨.post, _⟩⟩
      · exact ⟨[], (List.append_nil _).symm, .failed .nil⟩
  | patch =>
      dsimp only
      split
      · exact ⟨_, rfl, @Sends.suspended _ _ _ _ [] chain call [] rfl submits .nil ⟨.patch, _⟩⟩
      · rw [Tree.pending_validatePart]
        exact ⟨[], (List.append_nil _).symm, .failed .nil⟩

/-- A call that sends no request and reports no effect. -/
theorem ending_sends {result : Cycle × Bool} (pending : result.1.tree.pending = cycle.tree.pending)
    (effects : result.1.report.effects = cycle.report.effects) :
    ∃ added, (ending result).1.report.effects = cycle.report.effects ++ added ∧
      Sends button reject chain cycle.tree.pending (ending result).1.tree.pending (ending result).2 added := by
  obtain ⟨after, passed⟩ := result
  refine ⟨[], by rw [List.append_nil]; exact effects, ?_⟩
  change after.tree.pending = _ at pending
  cases passed with
  | true =>
      change Sends _ _ _ _ after.tree.pending .completed _
      rw [pending]
      exact .completed .nil
  | false =>
      change Sends _ _ _ _ after.tree.pending .failed _
      rw [pending]
      exact .failed .nil

theorem perform_sends (call : Call) :
    ∃ effects, (cycle.perform button chain reject call).1.report.effects =
        cycle.report.effects ++ effects ∧
      Sends button reject (call :: chain) cycle.tree.pending
        (cycle.perform button chain reject call).1.tree.pending
        (cycle.perform button chain reject call).2 effects := by
  cases call with
  | activate arguments => exact cycle.ending_sends _ _ _ (pending_settle _) (effects_settle _)
  | submit => exact cycle.beginSubmission_sends _ _ _ rfl _
  | submitPartial => exact cycle.beginSubmission_sends _ _ _ rfl _
  | setFieldValue target source =>
      exact cycle.ending_sends _ _ _ (cycle.pending_assign _ _ _) (cycle.effects_assign _ _ _)
  | deleteValue target =>
      exact cycle.ending_sends _ _ _ (cycle.pending_assign _ _ _) (cycle.effects_assign _ _ _)
  | reset => exact ⟨[], (List.append_nil _).symm, .completed .nil⟩
  | disable =>
      exact cycle.ending_sends _ _ _ ((pending_settle _).trans (cycle.tree.pending_change _ _))
        (effects_settle _)
  | enable =>
      exact cycle.ending_sends _ _ _ ((pending_settle _).trans (cycle.tree.pending_change _ _))
        (effects_settle _)
  | proceed given =>
      unfold perform
      dsimp only
      split
      · rename_i address _
        refine ⟨[.redirect address], rfl, .completed fun effect inside => ?_⟩
        rw [List.mem_singleton.mp inside]
        rfl
      · exact ⟨[], (List.append_nil _).symm, .failed .nil⟩
  | clearErrors => exact ⟨[], (List.append_nil _).symm, .completed .nil⟩
  | noop => exact ⟨[], (List.append_nil _).symm, .completed .nil⟩

theorem runChain_sends :
    ∃ effects, (cycle.runChain button reject chain).1.report.effects = cycle.report.effects ++ effects ∧
      Sends button reject chain cycle.tree.pending (cycle.runChain button reject chain).1.tree.pending
        (cycle.runChain button reject chain).2 effects := by
  induction chain generalizing cycle with
  | nil => exact ⟨[], (List.append_nil _).symm, .completed .nil⟩
  | cons call rest ih =>
      obtain ⟨first, reported, sends⟩ := cycle.perform_sends button reject rest call
      unfold runChain
      generalize cycle.perform button rest reject call = performed at reported sends ⊢
      obtain ⟨after, ending⟩ := performed
      cases ending with
      | suspended => exact ⟨first, reported, sends⟩
      | failed => exact ⟨first, reported, sends⟩
      | completed =>
          dsimp only at reported sends ⊢
          obtain ⟨later, reportedLater, sendsLater⟩ := ih after
          generalize after.tree.pending = now at sends sendsLater
          cases sends with
          | completed quiet =>
              refine ⟨first ++ later, ?_, sendsLater.cons quiet call⟩
              rw [reportedLater, reported, List.append_assoc]

end Calls

end Cycle

/-- How many calls of a chain submit. -/
def submissionCount (chain : List Call) : Nat := chain.countP Call.submits

theorem submissionCount_append (first second : List Call) :
    submissionCount (first ++ second) = submissionCount first + submissionCount second :=
  List.countP_append

theorem submissionCount_cons {call : Call} (submits : call.submits = true) (rest : List Call) :
    submissionCount (call :: rest) = submissionCount rest + 1 :=
  List.countP_cons_of_pos submits

/-- The calls of a pipeline that submit, those of both chains. -/
def Pipeline.submissionCount (pipeline : Pipeline) : Nat :=
  Formwork.submissionCount pipeline.success + Formwork.submissionCount pipeline.reject

/-- The calls that submit among those that wait for an outcome. -/
def Tree.submissionsLeft (tree : Tree) : Nat :=
  match tree.pending with
  | some pending => submissionCount pending.remaining + submissionCount pending.reject
  | none => 0

namespace Cycle

/-- A tree waits exactly if a request was reported, which is then the last effect and the only
request. -/
inductive Balanced (cycle : Cycle) : Prop where
  | idle (nothing : cycle.tree.pending = none) (quiet : Quiet cycle.report.effects)
  | busy {pending : Pending} {front : List Effect} {request : Request}
      (waits : cycle.tree.pending = some pending)
      (reported : cycle.report.effects = front ++ [.submit request]) (quiet : Quiet front)

variable {cycle : Cycle} {button : Path} {chain reject : List Call}

/-- A balanced cycle waits exactly if it reports a request, which then is the last effect and the only request. -/
theorem Balanced.busy_iff (balanced : cycle.Balanced) :
    (cycle.tree.isBusy = true ↔ ∃ request, .submit request ∈ cycle.report.effects) ∧
      (cycle.tree.isBusy = true → ∃ front request, cycle.report.effects = front ++ [.submit request] ∧
        ∀ other, .submit other ∉ front) := by
  have free : ∀ {effects : List Effect}, Quiet effects → ∀ other, .submit other ∉ effects := by
    intro effects quiet other inside
    cases quiet _ inside
  cases balanced with
  | idle nothing quiet =>
      have idle := Tree.isBusy_eq_false_iff.mpr nothing
      refine ⟨iff_of_false (by simp [idle]) ?_, fun busy => by simp [idle] at busy⟩
      rintro ⟨request, inside⟩
      exact free quiet request inside
  | @busy pending front request waits reported quiet =>
      have busy : cycle.tree.isBusy = true := by simp [Tree.isBusy, waits]
      exact ⟨iff_of_true busy ⟨request, by simp [reported]⟩, fun _ => ⟨front, request, reported, free quiet⟩⟩

/-- Whatever is left to do after a chain that was run from rest, it is less than what there was. -/
structure Lessens (calls submissions : Nat) (after : Cycle) : Prop where
  balanced : after.Balanced
  waiting : after.tree.waiting ≤ calls
  submissions : after.tree.isBusy = true → after.tree.submissionsLeft < submissions

theorem Lessens.of_idle {calls submissions : Nat} {after : Cycle} (nothing : after.tree.pending = none)
    (quiet : Quiet after.report.effects) : Lessens calls submissions after where
  balanced := .idle nothing quiet
  waiting := by simp [Tree.waiting, nothing]
  submissions busy := by simp [Tree.isBusy, nothing] at busy

theorem Lessens.mono {calls submissions moreCalls moreSubmissions : Nat} {after : Cycle}
    (lessens : Lessens calls submissions after) (callsLeft : calls ≤ moreCalls)
    (submissionsLeft : submissions ≤ moreSubmissions) : Lessens moreCalls moreSubmissions after where
  balanced := lessens.balanced
  waiting := Nat.le_trans lessens.waiting callsLeft
  submissions busy := Nat.lt_of_lt_of_le (lessens.submissions busy) submissionsLeft

/-- A chain that suspends leaves the calls behind the submission and the reject chain. -/
theorem Sends.lessens {after : Cycle} {effects : List Effect} {calls submissions : Nat}
    (sends : Sends button reject chain none after.tree.pending .suspended effects)
    (reported : ∃ front, after.report.effects = front ++ effects ∧ Quiet front)
    (callsLeft : chain.length + reject.length ≤ calls)
    (submissionsLeft : submissionCount chain + submissionCount reject ≤ submissions) :
    Lessens calls submissions after := by
  obtain ⟨before, reported, quietBefore⟩ := reported
  generalize waits : after.tree.pending = now at sends
  cases sends with
  | @suspended front rest call effects split submits quiet request =>
      refine ⟨.busy waits (by rw [reported, ← List.append_assoc]) (quietBefore.append quiet), ?_, fun _ => ?_⟩
      · have length := congrArg List.length split
        simp only [List.length_append, List.length_cons] at length
        simp only [Tree.waiting, waits]
        omega
      · have count := congrArg submissionCount split
        rw [submissionCount_append, submissionCount_cons submits] at count
        simp only [Tree.submissionsLeft, waits]
        omega

variable (nothing : cycle.tree.pending = none) (quiet : Quiet cycle.report.effects)
include nothing quiet

/-- A reject chain that is run from rest. -/
theorem runChain_lessens (button : Path) (chain : List Call) :
    Lessens chain.length (submissionCount chain) (cycle.runChain button [] chain).1 := by
  obtain ⟨effects, reported, sends⟩ := cycle.runChain_sends button [] chain
  generalize cycle.runChain button [] chain = ran at reported sends ⊢
  obtain ⟨after, ending⟩ := ran
  dsimp only at reported sends ⊢
  rw [nothing] at sends
  cases ending with
  | suspended => exact sends.lessens ⟨_, reported, quiet⟩ (Nat.le_refl _) (Nat.le_refl _)
  | completed =>
      generalize waits : after.tree.pending = now at sends
      cases sends with
      | completed later => exact .of_idle waits (reported ▸ quiet.append later)
  | failed =>
      generalize waits : after.tree.pending = now at sends
      cases sends with
      | failed later => exact .of_idle waits (reported ▸ quiet.append later)

/-- A success chain that is run from rest, with the reject chain behind it. -/
theorem run_lessens (button : Path) (chain reject : List Call) :
    Lessens (chain.length + reject.length) (submissionCount chain + submissionCount reject)
      (cycle.run button chain reject) := by
  obtain ⟨effects, reported, sends⟩ := cycle.runChain_sends button reject chain
  unfold run
  generalize cycle.runChain button reject chain = ran at reported sends ⊢
  obtain ⟨after, ending⟩ := ran
  dsimp only at reported sends ⊢
  rw [nothing] at sends
  cases ending with
  | suspended => exact sends.lessens ⟨_, reported, quiet⟩ (Nat.le_refl _) (Nat.le_refl _)
  | completed =>
      generalize waits : after.tree.pending = now at sends
      cases sends with
      | completed later => exact .of_idle waits (reported ▸ quiet.append later)
  | failed =>
      generalize waits : after.tree.pending = now at sends
      cases sends with
      | failed later =>
          exact (runChain_lessens waits (reported ▸ quiet.append later) button reject).mono
            (Nat.le_add_left _ _) (Nat.le_add_left _ _)

end Cycle

namespace Tree

variable {tree : Tree} {cycle : Cycle}

/-- After a click there is no more to do than the pipeline of the button says. -/
theorem click_lessens {path : Path} (done : tree.click path = .ok cycle) :
    ∃ field button, tree.field? path = some field ∧ field.button = some button ∧
      cycle.Lessens (button.pipeline.success.length + button.pipeline.reject.length)
        button.pipeline.submissionCount := by
  obtain ⟨idle, field, button, found, isButton, -, -, rfl⟩ := click_eq_ok done
  exact ⟨field, button, found, isButton,
    @Cycle.run_lessens (.start tree) (isBusy_eq_false_iff.mp idle) .nil _ _ _⟩

theorem effects_refusal (outcome : Outcome) : (refusal outcome).effects = [] := by
  unfold refusal
  split
  · split
    · rfl
    · rfl
  · rfl

/-- An outcome that is delivered leaves less to do than before. -/
theorem complete_lessens {outcome : Outcome} (done : tree.complete outcome = .ok cycle) :
    cycle.Lessens (tree.waiting - 1) tree.submissionsLeft := by
  obtain ⟨pending, waits, rfl⟩ := complete_eq_ok done
  simp only [waiting, submissionsLeft, waits, Nat.add_sub_cancel]
  cases success? outcome with
  | some response =>
      exact @Cycle.run_lessens (.start (tree.informed response)) rfl .nil _ _ _
  | none =>
      have quiet : Quiet (refusal outcome).effects := by
        rw [effects_refusal]
        exact .nil
      exact (@Cycle.runChain_lessens ⟨tree.refused outcome, refusal outcome⟩
        (tree.pending_refused outcome) quiet pending.button pending.reject).mono
          (Nat.le_add_left _ _) (Nat.le_add_left _ _)

end Tree

end Formwork
