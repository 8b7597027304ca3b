import Formwork.Proofs.Node.Holdings
import Formwork.Proofs.Tree.Tracing

/-!
# What is done to values

Three things can be done to the value of a field: a value is stored in it, everything is restored, or the
dialog around it is left (`Deed`). The deeds of a run can be replayed on what a field holds
(`Deed.replay`): a deed that concerns other fields changes nothing, and the last one that concerns the
field decides its value (`Deed.value_replay_of_restores`, `Deed.value_replay_of_store`).

Which deeds an operation does is read off the calls that it executes (`Executed.mem_deeds_iff`), and these
are the calls that are recorded as started (`Tree.map_call_executed_click`,
`Tree.map_call_executed_complete`). A dialog can only be left while a call activates its button, for
the mode is an argument of that call (`Cycle.settling_of_quiet`).
-/

set_option autoImplicit false

namespace Formwork

/-- What can be done to the value of a field. -/
inductive Deed where
  /-- A value is stored in the field at a place. -/
  | store (place : Path) (value : Value)
  /-- All values at mounting are restored. -/
  | restore
  /-- The open dialog of the form at a path is left in a mode. -/
  | leave (dialog : Path) (mode : CloseMode)

namespace Deed

/-- Whether the deed restores the value at mounting of the field at a place. -/
def restores (place : Path) : Deed → Bool
  | .store _ _ => false
  | .restore => true
  | .leave dialog mode => mode.restores && place.startsWith dialog

/-- Whether the deed stores a value in the field at a place. -/
def stores (place : Path) : Deed → Bool
  | .store target _ => place = target
  | _ => false

/-- What the field at a place holds after the deed. -/
def result (place : Path) (held : Holding) : Deed → Holding
  | .store target value => if place = target then held.store value else held
  | .restore => held.restore
  | .leave dialog mode => if mode.restores && place.startsWith dialog then held.restore else held

/-- What the field at a place holds after some deeds, done one after the other. -/
def replay (deeds : List Deed) (place : Path) (held : Holding) : Holding := deeds.foldl (result place) held

variable {place : Path} {held : Holding} {deed : Deed}

theorem result_of_restores (restores : deed.restores place = true) : deed.result place held = held.restore := by
  cases deed with
  | store target value => cases restores
  | restore => rfl
  | leave dialog mode => exact if_pos restores

theorem result_of_neither (notRestored : deed.restores place = false) (notStored : deed.stores place = false) :
    deed.result place held = held := by
  cases deed with
  | store target value => exact if_neg (of_decide_eq_false notStored)
  | restore => cases notRestored
  | leave dialog mode => exact if_neg (Bool.eq_false_iff.mp notRestored)

theorem widget_result : (deed.result place held).widget = held.widget := by
  cases deed with
  | store target value =>
      rw [result]
      split <;> rfl
  | restore => rfl
  | leave dialog mode =>
      rw [result]
      split <;> rfl

theorem initial_result : (deed.result place held).initial = held.initial := by
  cases deed with
  | store target value =>
      rw [result]
      split <;> rfl
  | restore => rfl
  | leave dialog mode =>
      rw [result]
      split <;> rfl

theorem replay_append (first second : List Deed) (place : Path) (held : Holding) :
    replay (first ++ second) place held = replay second place (replay first place held) :=
  List.foldl_append

theorem widget_replay (deeds : List Deed) : (replay deeds place held).widget = held.widget := by
  induction deeds generalizing held with
  | nil => rfl
  | cons deed rest ih => exact ih.trans widget_result

theorem initial_replay (deeds : List Deed) : (replay deeds place held).initial = held.initial := by
  induction deeds generalizing held with
  | nil => rfl
  | cons deed rest ih => exact ih.trans initial_result

/-- Deeds that concern other fields change nothing. -/
theorem replay_of_neither {deeds : List Deed}
    (neither : ∀ deed ∈ deeds, deed.restores place = false ∧ deed.stores place = false) :
    replay deeds place held = held := by
  induction deeds generalizing held with
  | nil => rfl
  | cons deed rest ih =>
      obtain ⟨⟨notRestored, notStored⟩, later⟩ := List.forall_mem_cons.mp neither
      exact (congrArg (replay rest place) (result_of_neither notRestored notStored)).trans (ih later)

/-- A restored value stays until a value is stored. -/
theorem value_replay_of_initial {deeds : List Deed} (notStored : ∀ deed ∈ deeds, deed.stores place = false)
    (initial : held.value = held.initial) : (replay deeds place held).value = held.initial := by
  induction deeds generalizing held with
  | nil => exact initial
  | cons deed rest ih =>
      obtain ⟨notHere, later⟩ := List.forall_mem_cons.mp notStored
      have stillInitial : (deed.result place held).value = (deed.result place held).initial := by
        cases restores : deed.restores place with
        | true => rw [result_of_restores restores]; rfl
        | false => rwa [result_of_neither restores notHere]
      exact (ih later stillInitial).trans initial_result

/-- If no value is stored behind a deed that restores the field, it holds its value at mounting. -/
theorem value_replay_of_restores {front back : List Deed} (restores : deed.restores place = true)
    (notStored : ∀ deed ∈ back, deed.stores place = false) :
    (replay (front ++ deed :: back) place held).value = held.initial := by
  have restored := @result_of_restores place (replay front place held) deed restores
  rw [replay_append, replay, List.foldl_cons, restored]
  exact (value_replay_of_initial notStored rfl).trans (initial_replay front)

/-- If nothing concerns the field behind a deed that stores a value in it, it holds this value. -/
theorem value_replay_of_store {front back : List Deed} {value : Value}
    (neither : ∀ deed ∈ back, deed.restores place = false ∧ deed.stores place = false) :
    (replay (front ++ .store place value :: back) place held).value = held.widget.fit value := by
  have stored : result place (replay front place held) (.store place value) = (replay front place held).store value :=
    if_pos rfl
  rw [replay_append, replay, List.foldl_cons, stored]
  rw [show List.foldl (result place) _ back = replay back place _ from rfl, replay_of_neither neither,
    Holding.store, widget_replay]

end Deed

/-! ## Leaving dialogs -/

theorem Tree.firing_change (tree : Tree) (place : Path) (edit : List String → Node → Node) :
    (tree.change place edit).firing = tree.firing := by
  unfold change
  split <;> rfl

theorem Tree.firing_store (tree : Tree) (place : Path) (value : Value) :
    (tree.store place value).firing = tree.firing :=
  (Tree.firing_change _ _ _).trans (tree.firing_change _ _)

namespace Cycle

/-- What carrying out an inducer does to values: it leaves a dialog, if a mode is given and the dialog is
open. -/
def leave (event : InducedEvent) (cycle : Cycle) : List Deed :=
  match event.induction, cycle.closeMode? with
  | .closes, some mode =>
    if (cycle.tree.node? event.path).any Node.isOpenDialog then [.leave event.path mode] else []
  | _, _ => []

/-- What carrying out some inducers one after the other does to values. -/
def leaves : List InducedEvent → Cycle → List Deed
  | [], _ => []
  | event :: rest, cycle => cycle.leave event ++ leaves rest ((cycle.execute event).1.reported event)

/-- The cycle in which the inducers are carried out that have turned true. -/
def induced (cycle : Cycle) : Cycle := { cycle with tree := cycle.tree.refresh.latch }

/-- The inducers that are carried out when the tree is settled. -/
def risen (cycle : Cycle) : List InducedEvent := cycle.tree.refresh.rising

/-- What settling the tree does to values. -/
def settling (cycle : Cycle) : List Deed := leaves cycle.risen cycle.induced

/-- The cycle in which the button at a path fires. -/
def activated (button : Path) (arguments : List Argument) (cycle : Cycle) : Cycle :=
  { cycle with
    tree := { cycle.tree with firing := some ⟨button, arguments.map (cycle.tree.argumentText button)⟩ } }

variable (cycle : Cycle)

theorem firing_navigate {place : Path} {index : Nat} {after : Cycle} {arrived : Bool}
    (navigated : cycle.navigate place index = .ok (after, arrived)) :
    after.tree.firing = cycle.tree.firing := by
  obtain ⟨_, _, _, _, -, -, rfl⟩ := cycle.navigate_eq_ok navigated
  exact cycle.tree.firing_change _ _

theorem firing_execute (event : InducedEvent) :
    (cycle.execute event).1.tree.firing = cycle.tree.firing := by
  unfold execute
  split
  · exact cycle.tree.firing_change _ _
  · split
    · rfl
    · exact cycle.tree.firing_change _ _
  · split
    · rfl
    · split
      · rename_i navigated
        exact cycle.firing_navigate navigated
      · rfl

theorem firing_executeAll (events : List InducedEvent) :
    (executeAll events cycle).1.tree.firing = cycle.tree.firing := by
  induction events generalizing cycle with
  | nil => rfl
  | cons event rest ih =>
      rw [executeAll_cons]
      exact (ih _).trans (cycle.firing_execute event)

/-- All inducers that are carried out together read one mode. -/
theorem closeMode?_executeAll (events : List InducedEvent) :
    (executeAll events cycle).1.closeMode? = cycle.closeMode? := by
  rw [closeMode?, firing_executeAll, closeMode?]

theorem mem_leave_iff {event : InducedEvent} {deed : Deed} : deed ∈ cycle.leave event ↔
    ∃ mode, deed = .leave event.path mode ∧ event.induction = .closes ∧ cycle.closeMode? = some mode ∧
      (cycle.tree.node? event.path).any Node.isOpenDialog = true := by
  unfold leave
  split
  · rename_i mode closes named
    split
    · rename_i isOpen
      rw [List.mem_singleton]
      constructor
      · rintro rfl
        exact ⟨mode, rfl, closes, named, isOpen⟩
      · rintro ⟨other, rfl, -, same, -⟩
        rw [Option.some.inj (named.symm.trans same)]
    · rename_i isClosed
      exact ⟨nofun, fun ⟨_, _, _, _, isOpen⟩ => absurd isOpen isClosed⟩
  · rename_i other
    exact ⟨nofun, fun ⟨mode, _, closes, named, _⟩ => absurd named (other mode closes)⟩

/-- Every deed of some inducers is that of one of them, done when those in front of it are carried out. -/
theorem mem_leaves_iff {events : List InducedEvent} {deed : Deed} : deed ∈ leaves events cycle ↔
    ∃ front event back, events = front ++ event :: back ∧ deed ∈ (executeAll front cycle).1.leave event := by
  induction events generalizing cycle with
  | nil => exact ⟨nofun, fun ⟨front, event, back, same, _⟩ => by simp at same⟩
  | cons first rest ih =>
      rw [leaves, List.mem_append, ih]
      constructor
      · rintro (here | ⟨front, event, back, rfl, there⟩)
        · exact ⟨[], first, rest, rfl, here⟩
        · exact ⟨first :: front, event, back, rfl, there⟩
      · rintro ⟨front, event, back, same, there⟩
        cases front with
        | nil =>
            cases same
            exact .inl there
        | cons other front =>
            cases same
            exact .inr ⟨front, event, back, rfl, there⟩

/-- No dialog is left while no button fires. -/
theorem settling_of_quiet (quiet : cycle.tree.firing = none) : cycle.settling = [] := by
  refine List.eq_nil_iff_forall_not_mem.mpr fun deed inside => ?_
  obtain ⟨front, event, back, -, there⟩ := cycle.induced.mem_leaves_iff.mp inside
  obtain ⟨mode, -, -, named, -⟩ := (mem_leave_iff _).mp there
  rw [closeMode?_executeAll] at named
  change (cycle.tree.firing.bind _).bind _ = some mode at named
  rw [quiet] at named
  cases named

end Cycle

/-! ## Calls -/

/-- A call that is executed, the button whose chain it belongs to, and how things stand before it. -/
structure Executed where
  button : Path
  call : Call
  before : Cycle

namespace Executed

variable (executed : Executed)

/-- The call stores a value in the field at a place, which its target means. -/
inductive Stores : Executed → Path → Value → Prop where
  | setFieldValue {button place : Path} {target : Reference} {source : Argument} {before : Cycle} {value : Value}
      (means : before.tree.resolveField? button target = some place)
      (given : before.tree.argumentValue? button source = some value) :
      Stores ⟨button, .setFieldValue target source, before⟩ place value
  | deleteValue {button place : Path} {target : Reference} {before : Cycle} {field : Field}
      (means : before.tree.resolveField? button target = some place)
      (stands : before.tree.field? place = some field) :
      Stores ⟨button, .deleteValue target, before⟩ place field.value.blank

/-- The call activates its button, its first argument names a mode, and among the inducers that turn true
is one that closes the form at a path, whose dialog is open when it comes to this inducer. -/
inductive Leaves : Executed → Path → CloseMode → Prop where
  | activate {button dialog : Path} {arguments : List Argument} {before : Cycle} {mode : CloseMode}
      {front back : List InducedEvent}
      (named : ((arguments.map (before.tree.argumentText button)).head?.bind CloseMode.ofName?) = some mode)
      (risen : (before.activated button arguments).risen = front ++ ⟨.closes, dialog⟩ :: back)
      (isOpen : ((Cycle.executeAll front (before.activated button arguments).induced).1.tree.node? dialog).any
        Node.isOpenDialog = true) :
      Leaves ⟨button, .activate arguments, before⟩ dialog mode

/-- The call restores the field at a place: it resets everything, or it leaves a dialog around the field in
one of the modes that restore. -/
inductive Restores (place : Path) : Prop where
  | reset (isReset : executed.call = .reset)
  | leave {dialog : Path} {mode : CloseMode} (leaves : executed.Leaves dialog mode)
      (restores : mode.restores = true) (around : place.startsWith dialog = true)

/-- The value, if there is one, is stored in the field that a target means. -/
def assigned (target : Option Path) (value : Option Value) : List Deed :=
  match target, value with
  | some place, some content => [.store place content]
  | _, _ => []

/-- What the call does to values. -/
def deeds : Executed → List Deed
  | ⟨button, .activate arguments, before⟩ => (before.activated button arguments).settling
  | ⟨button, .setFieldValue target source, before⟩ =>
    assigned (before.tree.resolveField? button target) (before.tree.argumentValue? button source)
  | ⟨button, .deleteValue target, before⟩ =>
    let place := before.tree.resolveField? button target
    assigned place ((place.bind before.tree.field?).map fun field => field.value.blank)
  | ⟨_, .reset, _⟩ => [.restore]
  | _ => []

theorem mem_assigned_iff {target : Option Path} {value : Option Value} {deed : Deed} :
    deed ∈ assigned target value ↔ ∃ place content, deed = .store place content ∧ target = some place ∧
      value = some content := by
  cases target with
  | none => exact ⟨nofun, fun ⟨_, _, _, there, _⟩ => nomatch there⟩
  | some place =>
      cases value with
      | none => exact ⟨nofun, fun ⟨_, _, _, _, there⟩ => nomatch there⟩
      | some content =>
          constructor
          · intro inside
            exact ⟨place, content, List.mem_singleton.mp inside, rfl, rfl⟩
          · rintro ⟨_, _, rfl, ⟨⟩, ⟨⟩⟩
            exact List.mem_singleton_self _

/-- All that an activation does to values is to leave dialogs. -/
theorem mem_settling_iff {button : Path} {arguments : List Argument} {before : Cycle} {deed : Deed} :
    deed ∈ (before.activated button arguments).settling ↔ ∃ dialog mode, deed = .leave dialog mode ∧
      Leaves ⟨button, .activate arguments, before⟩ dialog mode := by
  rw [Cycle.settling, Cycle.mem_leaves_iff]
  constructor
  · rintro ⟨front, ⟨induction, dialog⟩, back, risen, inside⟩
    obtain ⟨mode, rfl, closes, named, isOpen⟩ := (Cycle.mem_leave_iff _).mp inside
    cases closes
    rw [Cycle.closeMode?_executeAll] at named
    exact ⟨dialog, mode, rfl, .activate named risen isOpen⟩
  · rintro ⟨dialog, mode, rfl, leaves⟩
    cases leaves with
    | @activate _ _ _ _ _ front back named risen isOpen =>
        refine ⟨front, ⟨.closes, dialog⟩, back, risen, (Cycle.mem_leave_iff _).mpr ⟨mode, rfl, rfl, ?_, isOpen⟩⟩
        rw [Cycle.closeMode?_executeAll]
        exact named

/-- A call stores values, restores everything or leaves dialogs. -/
theorem mem_deeds_iff {deed : Deed} : deed ∈ executed.deeds ↔
    (∃ place value, deed = .store place value ∧ executed.Stores place value) ∨
      (deed = .restore ∧ executed.call = .reset) ∨
        ∃ dialog mode, deed = .leave dialog mode ∧ executed.Leaves dialog mode := by
  obtain ⟨button, call, before⟩ := executed
  cases call with
  | activate arguments =>
      refine mem_settling_iff.trans ⟨fun left => .inr (.inr left), ?_⟩
      rintro (⟨_, _, -, stores⟩ | ⟨-, isReset⟩ | left)
      · cases stores
      · cases isReset
      · exact left
  | setFieldValue target source =>
      refine mem_assigned_iff.trans ⟨?_, ?_⟩
      · rintro ⟨place, value, rfl, means, given⟩
        exact .inl ⟨place, value, rfl, .setFieldValue means given⟩
      · rintro (⟨place, value, rfl, stores⟩ | ⟨-, isReset⟩ | ⟨_, _, -, leaves⟩)
        · cases stores with
          | setFieldValue means given => exact ⟨place, value, rfl, means, given⟩
        · cases isReset
        · cases leaves
  | deleteValue target =>
      refine mem_assigned_iff.trans ⟨?_, ?_⟩
      · rintro ⟨place, value, rfl, means, given⟩
        rw [means] at given
        obtain ⟨field, stands, rfl⟩ := Option.map_eq_some_iff.mp given
        exact .inl ⟨place, _, rfl, .deleteValue means stands⟩
      · rintro (⟨place, value, rfl, stores⟩ | ⟨-, isReset⟩ | ⟨_, _, -, leaves⟩)
        · cases stores with
          | deleteValue means stands =>
              refine ⟨place, _, rfl, means, ?_⟩
              rw [means, Option.bind_some, stands]
              rfl
        · cases isReset
        · cases leaves
  | reset =>
      refine List.mem_singleton.trans ⟨fun same => .inr (.inl ⟨same, rfl⟩), ?_⟩
      rintro (⟨_, _, -, stores⟩ | ⟨same, -⟩ | ⟨_, _, -, leaves⟩)
      · cases stores
      · exact same
      · cases leaves
  | _ =>
      refine ⟨nofun, ?_⟩
      rintro (⟨_, _, -, stores⟩ | ⟨-, isReset⟩ | ⟨_, _, -, leaves⟩)
      · cases stores
      · cases isReset
      · cases leaves

/-- A call with a deed that restores the field at a place restores this field. -/
theorem exists_restores_iff {place : Path} :
    (∃ deed ∈ executed.deeds, deed.restores place = true) ↔ executed.Restores place := by
  constructor
  · rintro ⟨deed, inside, restores⟩
    rcases executed.mem_deeds_iff.mp inside with ⟨_, _, rfl, -⟩ | ⟨-, isReset⟩ | ⟨dialog, mode, rfl, leaves⟩
    · cases restores
    · exact .reset isReset
    · obtain ⟨restoring, around⟩ := (Bool.and_eq_true _ _).mp restores
      exact .leave leaves restoring around
  · rintro (isReset | ⟨leaves, restores, around⟩)
    · exact ⟨.restore, executed.mem_deeds_iff.mpr (.inr (.inl ⟨rfl, isReset⟩)), rfl⟩
    · exact ⟨_, executed.mem_deeds_iff.mpr (.inr (.inr ⟨_, _, rfl, leaves⟩)),
        (Bool.and_eq_true _ _).mpr ⟨restores, around⟩⟩

/-- A call with a deed that stores a value in the field at a place stores a value in this field. -/
theorem exists_stores_iff {place : Path} :
    (∃ deed ∈ executed.deeds, deed.stores place = true) ↔ ∃ value, executed.Stores place value := by
  constructor
  · rintro ⟨deed, inside, here⟩
    rcases executed.mem_deeds_iff.mp inside with ⟨target, value, rfl, stores⟩ | ⟨rfl, -⟩ | ⟨_, _, rfl, -⟩
    · obtain rfl : place = target := of_decide_eq_true here
      exact ⟨value, stores⟩
    · cases here
    · cases here
  · rintro ⟨value, stores⟩
    exact ⟨.store place value, executed.mem_deeds_iff.mpr (.inl ⟨place, value, rfl, stores⟩), decide_eq_true rfl⟩

theorem Stores.deeds_eq {executed : Executed} {place : Path} {value : Value} (stores : executed.Stores place value) :
    executed.deeds = [.store place value] := by
  cases stores with
  | setFieldValue means given => rw [deeds, means, given, assigned]
  | deleteValue means stands =>
      rw [deeds, means, Option.bind_some, stands]
      rfl

/-- A call that restores a field stores no value. -/
theorem Restores.not_stores {executed : Executed} {place : Path} (restores : executed.Restores place)
    (target : Path) (value : Value) : ¬ executed.Stores target value := by
  intro stores
  cases restores with
  | reset isReset =>
      cases stores with
      | setFieldValue => cases isReset
      | deleteValue => cases isReset
  | leave leaves _ _ =>
      cases leaves with
      | activate => cases stores

end Executed

/-! ## Chains and operations -/

namespace Cycle

variable (button : Path)

/-- The calls that a chain executes. -/
def executedChain (reject : List Call) : List Call → Cycle → List Executed
  | [], _ => []
  | call :: rest, cycle =>
    ⟨button, call, cycle⟩ ::
      match cycle.perform button rest reject call with
      | (after, .completed) => executedChain reject rest after
      | _ => []

/-- The calls that a chain executes, and those of the reject chain if it fails. -/
def executedRun (chain reject : List Call) (cycle : Cycle) : List Executed :=
  executedChain button reject chain cycle ++
    match cycle.runChain button reject chain with
    | (after, .failed) => executedChain button [] reject after
    | _ => []

end Cycle

/-- The call that starts. -/
def Mark.started? : Mark → Option Call
  | .start call => some call
  | .stop _ => none

namespace Cycle

variable (button : Path)

theorem map_call_executedChain (reject chain : List Call) (cycle : Cycle) :
    (cycle.executedChain button reject chain).map Executed.call =
      (cycle.traceChain button reject chain).2.filterMap Mark.started? := by
  induction chain generalizing cycle with
  | nil => rfl
  | cons call rest ih =>
      unfold executedChain traceChain
      generalize cycle.perform button rest reject call = performed
      obtain ⟨after, ending⟩ := performed
      cases ending with
      | completed => exact congrArg (call :: ·) (ih after)
      | suspended => rfl
      | failed => rfl

theorem map_call_executedRun (chain reject : List Call) (cycle : Cycle) :
    (cycle.executedRun button chain reject).map Executed.call =
      (cycle.traceRun button chain reject).2.filterMap Mark.started? := by
  have first := map_call_executedChain button reject chain cycle
  unfold executedRun traceRun
  rw [← traceChain_fst, List.map_append, first]
  generalize cycle.traceChain button reject chain = traced
  obtain ⟨⟨after, ending⟩, marks⟩ := traced
  cases ending with
  | failed =>
      dsimp only
      rw [map_call_executedChain, List.filterMap_append]
  | _ => exact List.append_nil _

end Cycle

namespace Tree

/-- The calls that an accepted operation executes. -/
def executed (tree : Tree) : Operation → List Executed
  | .click path =>
    match tree.click path, (tree.field? path).bind Field.button with
    | .ok _, some button => (Cycle.start tree).executedRun path button.pipeline.success button.pipeline.reject
    | _, _ => []
  | .complete outcome =>
    match tree.pending, success? outcome with
    | some pending, some response =>
      (Cycle.start (tree.informed response)).executedRun pending.button pending.remaining pending.reject
    | some pending, none =>
      Cycle.executedChain pending.button [] pending.reject ⟨tree.refused outcome, refusal outcome⟩
    | none, _ => []
  | _ => []

/-- The calls that a click executes are those that are recorded as started. -/
theorem map_call_executed_click {tree : Tree} {path : Path} {cycle : Cycle} {marks : List Mark}
    (clicked : tree.traceClick path = .ok (cycle, marks)) :
    (tree.executed (.click path)).map Executed.call = marks.filterMap Mark.started? := by
  obtain ⟨-, field, button, found, isButton, same⟩ := traceClick_eq_ok clicked
  have done := tree.traceClick_map_fst path
  rw [clicked] at done
  have executed : tree.executed (.click path) =
      (Cycle.start tree).executedRun path button.pipeline.success button.pipeline.reject := by
    rw [executed, ← done, found, Option.bind_some, isButton]
    rfl
  have recorded : marks = _ := congrArg Prod.snd same
  rw [executed, recorded]
  exact Cycle.map_call_executedRun path _ _ _

/-- The calls that the delivery of an outcome executes are those that are recorded as started. -/
theorem map_call_executed_complete {tree : Tree} {outcome : Outcome} {cycle : Cycle} {marks : List Mark}
    (completed : tree.traceComplete outcome = .ok (cycle, marks)) :
    (tree.executed (.complete outcome)).map Executed.call = marks.filterMap Mark.started? := by
  unfold traceComplete at completed
  unfold executed
  cases waits : tree.pending with
  | none =>
      rw [waits] at completed
      cases completed
  | some pending =>
      rw [waits] at completed
      dsimp only at completed ⊢
      cases answered : success? outcome with
      | some response =>
          rw [answered] at completed
          cases completed
          exact Cycle.map_call_executedRun pending.button _ _ _
      | none =>
          rw [answered] at completed
          cases completed
          exact Cycle.map_call_executedChain pending.button [] _ _

/-- What an operation does to values. -/
def deeds (tree : Tree) : Operation → List Deed
  | .setValue path value => if (tree.setValue path value).isOk then [.store path value] else []
  | .reset => if tree.reset.isOk then [.restore] else []
  | operation => (tree.executed operation).flatMap Executed.deeds

/-- A refused operation executes no call. -/
theorem executed_of_refused {tree : Tree} {operation : Operation} {refusal : Rejection}
    (refused : tree.answer operation = .error refusal) : tree.executed operation = [] := by
  cases operation with
  | click path =>
      change tree.click path = .error refusal at refused
      rw [executed, refused]
  | complete outcome =>
      cases waits : tree.pending with
      | none => rw [executed, waits]
      | some pending =>
          rw [answer, complete_eq waits] at refused
          cases refused
  | _ => rfl

theorem deeds_of_refused {tree : Tree} {operation : Operation} {refusal : Rejection}
    (refused : tree.answer operation = .error refusal) : tree.deeds operation = [] := by
  have executed := executed_of_refused refused
  cases operation with
  | setValue path value =>
      change tree.setValue path value = _ at refused
      rw [deeds, refused]
      rfl
  | reset =>
      change tree.reset = _ at refused
      rw [deeds, refused]
      rfl
  | _ => exact congrArg (List.flatMap Executed.deeds) executed

end Tree

end Formwork
