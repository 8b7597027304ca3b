import Formwork.Event
import Formwork.Tree.Operation

/-!
# Sessions

A session carries out events on a tree and delivers every request that an event leads to, until
the tree waits for nothing. What a server answers is given beforehand as a list of outcomes;
when it is used up, every request is accepted.
-/

set_option autoImplicit false

namespace Formwork

/-- A tree together with what the server is going to answer and what was sent to it. -/
structure Session where
  tree : Tree
  /-- The outcomes of the next requests. -/
  outcomes : List Outcome
  /-- The requests so far, oldest first. -/
  requests : List Request

/-- Carries out an event on a tree, up to the first request. -/
def Tree.perform (tree : Tree) : Event → Except Rejection Cycle
  | .set path value => tree.setValue (tree.path path) (.ofJson value)
  | .click path => tree.click (tree.path path)
  | .add collection after => tree.addSibling (tree.path collection) after
  | .remove collection index => tree.removeSibling (tree.path collection) index
  | .step stepper index => tree.goToStep (tree.path stepper) index
  | .reset => tree.reset

/-- The number of calls that wait for an outcome, the submission itself included. -/
def Tree.waiting (tree : Tree) : Nat :=
  match tree.pending with
  | some pending => pending.remaining.length + pending.reject.length + 1
  | none => 0

namespace Session

/-- The start of a session. -/
def start (tree : Tree) (outcomes : List Outcome) : Session := ⟨tree, outcomes, []⟩

/-- Sends a request: the outcome, and the session afterwards. -/
def send (request : Request) (session : Session) : Outcome × Session :=
  (session.outcomes.head?.getD (.ok .accepted),
    { session with
      outcomes := session.outcomes.tail
      requests := session.requests ++ [request] })

/-- Delivers requests until the tree waits for nothing; `latest` is the report of the last cycle and
`total` that of the whole event. Every outcome leaves fewer calls waiting, so the number of calls
that wait at the start bounds the number of deliveries. -/
def drain : Nat → Report → Report → Session → Except Rejection (Session × Report)
  | 0, _, total, session => .ok (session, total)
  | bound + 1, latest, total, session =>
    match session.tree.pending, latest.request? with
    | some _, some request => do
      let (outcome, sent) := session.send request
      let cycle ← sent.tree.complete outcome
      drain bound cycle.report (total.merge cycle.report) { sent with tree := cycle.tree }
    | _, _ => .ok (session, total)

/-- Carries out an event with all its deliveries. -/
def dispatch (event : Event) (session : Session) : Except Rejection (Session × Report) := do
  let cycle ← session.tree.perform event
  drain cycle.tree.waiting cycle.report cycle.report { session with tree := cycle.tree }

end Session

end Formwork
