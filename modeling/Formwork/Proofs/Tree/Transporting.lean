import Formwork.Proofs.Tree.Namespace
import Formwork.Proofs.Tree.Submissions

/-!
# Operations under a namespace

What happens in a tree happens under a namespace as well, if the references that are looked at are steady: a step of
an operation and the step behind the namespace lead to the same tree, once with and once without it
(`Cycle.settle_under`, `Cycle.runChain_under`), and so do whole operations (`Tree.answer_under`). What is reported
differs in the paths of the inducers only, and refusals differ in the path that they name.
-/

set_option autoImplicit false

namespace Formwork

open Relation

/-- The report with the inducers at places behind a path. -/
def Report.under (above : Path) (report : Report) : Report :=
  { report with induced := report.induced.map (InducedEvent.under above) }

/-- The cycle under a namespace. -/
def Cycle.under (text : String) (cycle : Cycle) : Cycle := ⟨cycle.tree.under text, cycle.report.under (.parse text)⟩

/-- The operation at a place behind a path. -/
def Operation.under (above : Path) : Operation → Operation
  | .setValue path value => .setValue (above.extend path) value
  | .click path => .click (above.extend path)
  | .addSibling path behind => .addSibling (above.extend path) behind
  | .removeSibling path index => .removeSibling (above.extend path) index
  | .goToStep path index => .goToStep (above.extend path) index
  | .validate => .validate
  | .validatePart scope => .validatePart (above.extend scope)
  | .applyErrors messages => .applyErrors messages
  | .reset => .reset
  | .complete outcome => .complete outcome

/-- The tree in which no button fires. -/
def Tree.quieted (tree : Tree) : Tree := { tree with firing := none }

namespace Cycle

variable {text : String} {cycle : Cycle}

@[simp]
theorem tree_under : (cycle.under text).tree = cycle.tree.under text := rfl

/-! ## Carrying out inducers -/

theorem navigate_under (top : cycle.tree.here = .root) (path : Path) (index : Nat) :
    (cycle.under text).navigate ((Path.parse text).extend path) index =
      (Path.parse text).answer (fun outcome => (outcome.1.under text, outcome.2)) (cycle.navigate path index) := by
  unfold navigate
  rw [tree_under, Tree.node?_under top]
  cases cycle.tree.node? path with
  | none => rfl
  | some node =>
      dsimp only
      rw [Node.goTo_extend]
      cases node.goTo path index with
      | error rejection => rfl
      | ok outcome =>
          have outside : (cycle.tree.change path (Node.modify fun _ => outcome.1)).here = .root :=
            (Tree.here_change _ _).trans top
          dsimp only [Path.answer, bind, Except.bind]
          rw [Tree.change_under top, Path.isEmpty_shift]
          split
          · rfl
          · rw [outside, ← ValidationReport.ofFailures_shift (.parse text)]
            rfl

theorem stepIndex?_under (top : cycle.tree.here = .root) (stepper : Path) (name : String) :
    (cycle.under text).stepIndex? ((Path.parse text).extend stepper) name = cycle.stepIndex? stepper name := by
  unfold stepIndex?
  rw [tree_under, Tree.node?_under top]

/-- No step has an empty name. -/
theorem stepIndex?_empty (regular : cycle.tree.root.Regular) (stepper : Path) : cycle.stepIndex? stepper "" = none := by
  unfold stepIndex?
  split
  · rename_i frame progress members stands
    obtain ⟨segments, -, found⟩ := Option.bind_eq_some_iff.mp stands
    have names := (regular.stands ((Node.get?_eq_some_iff regular).mp found)).collection.named
    refine List.findIdx?_eq_none_iff.mpr fun name listed => ?_
    obtain ⟨entry, inside, rfl⟩ := List.mem_map.mp listed
    refine beq_eq_false_iff_ne.mpr fun empty => ?_
    have named := names entry inside
    rw [empty] at named
    cases named
  · rfl

/-- Nothing is the step of a stepper above the tree. -/
theorem stepIndex?_above (regular : cycle.tree.root.Regular) :
    (cycle.under text).stepIndex? (Path.parse text).enclosing (Path.parse text).name = none := by
  by_cases top : Path.parse text = .root
  · rw [top]
    exact @stepIndex?_empty (cycle.under text) regular _
  · have outside : (cycle.under text).tree.node? (Path.parse text).enclosing = none := by
      refine Option.eq_none_iff_forall_not_mem.mpr fun node stands => ?_
      obtain ⟨segments, below, -⟩ := Option.bind_eq_some_iff.mp stands
      have size := congrArg Path.size (Tree.below?_eq_some_iff.mp below)
      have some : (Path.parse text).size ≠ 0 := fun empty => top (congrArg Path.mk (List.length_eq_zero_iff.mp empty))
      rw [Path.size_extend, Path.size, Path.enclosing, List.length_dropLast] at size
      change (Path.parse text).size - 1 = (Path.parse text).size + _ at size
      omega
    unfold stepIndex?
    rw [outside]

theorem closeMode?_under : (cycle.under text).closeMode? = cycle.closeMode? := by
  unfold closeMode?
  rw [show (cycle.under text).tree.firing = cycle.tree.firing.map (Firing.under (.parse text)) from rfl]
  cases cycle.tree.firing <;> rfl

/-- What an inducer does under a namespace is what it does without it. -/
theorem execute_under (movable : cycle.tree.Movable (.parse text)) (event : InducedEvent) :
    (cycle.under text).execute (event.under (.parse text)) = Prod.map (under text) id (cycle.execute event) := by
  obtain ⟨induction, path⟩ := event
  cases induction with
  | opens =>
      exact congrArg (fun tree => ((⟨tree, cycle.report.under (.parse text)⟩ : Cycle), true))
        (Tree.change_under movable.top path _)
  | closes =>
      unfold execute
      dsimp only [InducedEvent.under]
      rw [closeMode?_under]
      cases cycle.closeMode? with
      | none => rfl
      | some mode =>
          have left : Tree.Moves cycle.tree
              (cycle.tree.change path (Node.modifyForm fun _ => Form.closeDialog path mode)) :=
            .single (.closeDialog _ _ _)
          have same : Form.closeDialog ((Path.parse text).extend path) mode = Form.closeDialog path mode :=
            funext fun content => content.closeDialog_path _ path mode
          dsimp only
          rw [tree_under, Tree.change_under movable.top, same, Tree.refresh_under (left.movable movable)]
          rfl
  | activates =>
      unfold execute
      dsimp only [InducedEvent.under]
      by_cases root : path = .root
      · have nothing : cycle.stepIndex? path.enclosing path.name = none := by
          rw [root]
          exact stepIndex?_empty movable.regular _
        rw [nothing, root, Path.extend_root, stepIndex?_above movable.regular]
        rfl
      · have name : ((Path.parse text).extend path).name = path.name := by
          rw [Path.name, Path.last?_extend _ root, Path.name]
        rw [Path.enclosing_extend _ root, name, stepIndex?_under movable.top]
        cases cycle.stepIndex? path.enclosing path.name with
        | none => rfl
        | some index =>
            dsimp only
            rw [navigate_under movable.top]
            cases cycle.navigate path.enclosing index <;> rfl

theorem executeAll_under (movable : cycle.tree.Movable (.parse text)) (events : List InducedEvent) :
    executeAll (events.map (InducedEvent.under (.parse text))) (cycle.under text) =
      Prod.map (under text) id (executeAll events cycle) := by
  induction events generalizing cycle with
  | nil => rfl
  | cons event rest ih =>
      have reportedUnder : ((cycle.execute event).1.under text).reported (event.under (.parse text)) =
          ((cycle.execute event).1.reported event).under text := by
        simp [reported, under, Report.under]
      have later := @ih ((cycle.execute event).1.reported event) ((cycle.execute_moves event).movable movable)
      rw [List.map_cons, executeAll_cons, executeAll_cons, execute_under movable]
      dsimp only [Prod.map_apply, Prod.map_fst, Prod.map_snd, id]
      rw [reportedUnder, later]
      rfl

/-- A tree comes to rest under a namespace as it does without it. -/
theorem settle_under (movable : cycle.tree.Movable (.parse text)) :
    (cycle.under text).settle = Prod.map (under text) id cycle.settle := by
  have settled (cycle : Cycle) : cycle.settle =
      (⟨(executeAll cycle.risen cycle.induced).1.tree.quieted.refresh.latch,
        (executeAll cycle.risen cycle.induced).1.report⟩, (executeAll cycle.risen cycle.induced).2) := rfl
  have fresh : Tree.Moves cycle.tree cycle.tree.refresh := .single (.refresh _)
  have start : Tree.Moves cycle.tree cycle.induced.tree := fresh.tail (.latch _)
  have quiet : Tree.Moves cycle.tree (executeAll cycle.risen cycle.induced).1.tree.quieted :=
    (start.trans (executeAll_moves cycle.induced cycle.risen)).tail (.fire _ none)
  have refreshed : (cycle.under text).tree.refresh = cycle.tree.refresh.under text := Tree.refresh_under movable
  have risenUnder : (cycle.under text).risen = cycle.risen.map (InducedEvent.under (.parse text)) := by
    rw [risen, refreshed, Tree.rising_under (fresh.movable movable)]
    rfl
  have inducedUnder : (cycle.under text).induced = cycle.induced.under text := by
    rw [induced, refreshed, Tree.latch_under (fresh.movable movable)]
    rfl
  rw [settled, settled, risenUnder, inducedUnder, executeAll_under (start.movable movable)]
  have rested := Tree.refresh_latch_under (quiet.movable movable)
  generalize executeAll cycle.risen cycle.induced = ran at rested ⊢
  exact congrArg (fun tree => ((⟨tree, ran.1.report.under (.parse text)⟩ : Cycle), ran.2)) rested

/-! ## Calls -/

section Calls

variable (movable : cycle.tree.Movable (.parse text)) {button : Path}
include movable

theorem assign_under (inner : button ≠ .root) {target : Reference}
    (steady : target.Steady button.enclosing (.parse text) cycle.tree.fieldPlaces) (value : Option Value) :
    (cycle.under text).assign ((Path.parse text).extend button) target value =
      Prod.map (under text) id (cycle.assign button target value) := by
  unfold assign
  rw [tree_under, Tree.resolveField?_under movable inner steady]
  cases cycle.tree.resolveField? button target with
  | none => rfl
  | some path =>
      cases value with
      | none => rfl
      | some content =>
          dsimp only [Option.map_some]
          rw [Tree.store_under movable.top]
          exact @settle_under text { cycle with tree := cycle.tree.store path content }
            ((cycle.tree.store_moves path content).movable movable)

/-- A button is marked under a namespace as it is without it. -/
theorem setSelfDisabled_under (disabled : Bool) :
    settle { cycle.under text with
        tree := (cycle.tree.under text).change ((Path.parse text).extend button)
          (Node.modifyField (Field.setSelfDisabled disabled)) } =
      Prod.map (under text) id (settle { cycle with
        tree := cycle.tree.change button (Node.modifyField (Field.setSelfDisabled disabled)) }) := by
  have marked : Tree.Moves cycle.tree
      (cycle.tree.change button (Node.modifyField (Field.setSelfDisabled disabled))) :=
    .single (.setSelfDisabled _ _ _)
  rw [Tree.change_under movable.top]
  exact @settle_under text { cycle with tree := cycle.tree.change button _ } (marked.movable movable)

/-- The same is sent under a namespace, or the same is wrong with it. -/
theorem beginSubmission_under (method : Method) (remaining reject : List Call) :
    (cycle.under text).beginSubmission ((Path.parse text).extend button) method remaining reject =
      Prod.map (under text) id (cycle.beginSubmission button method remaining reject) := by
  unfold beginSubmission
  rw [tree_under, Tree.ownerOf_under movable.top movable.regular]
  cases method with
  | post =>
      dsimp only
      rw [Tree.validate_under movable.top]
      split <;> rfl
  | patch =>
      have checked := (cycle.tree.validatePart_notes (cycle.tree.ownerOf button)).moves.here.trans movable.top
      dsimp only
      rw [Tree.validatePart_under movable.top, Tree.partialPayload_under checked]
      split <;> rfl

omit movable in
theorem ending_under (result : Cycle × Bool) :
    ending (Prod.map (under text) id result) = Prod.map (under text) id (ending result) := rfl

/-- A call under a namespace does what it does without it, and ends in the same way. -/
theorem perform_under {call : Call} (carries : cycle.tree.Carries (.parse text) button [call])
    (remaining reject : List Call) :
    (cycle.under text).perform ((Path.parse text).extend button) remaining reject call =
      Prod.map (under text) id (cycle.perform button remaining reject call) := by
  obtain ⟨inner, steady⟩ := carries
  rw [List.flatMap_singleton] at steady
  cases call with
  | activate arguments =>
      have texts : arguments.map ((cycle.tree.under text).argumentText ((Path.parse text).extend button)) =
          arguments.map (cycle.tree.argumentText button) :=
        List.map_congr_left fun argument inside => Tree.argumentText_under movable inner fun reference listed =>
          steady reference (List.mem_flatMap.mpr ⟨argument, inside, listed⟩)
      have fired : Tree.Moves cycle.tree (cycle.activated button arguments).tree := .single (.fire _ _)
      unfold perform
      dsimp only
      rw [tree_under, texts]
      exact congrArg ending (settle_under (fired.movable movable))
  | submit => exact beginSubmission_under movable .post remaining reject
  | submitPartial => exact beginSubmission_under movable .patch remaining reject
  | setFieldValue target source =>
      unfold perform
      dsimp only
      rw [tree_under, Tree.argumentValue?_under movable inner fun reference listed =>
          steady reference (List.mem_cons_of_mem _ listed),
        assign_under movable inner (steady target List.mem_cons_self), ending_under]
  | deleteValue target =>
      have own := steady target List.mem_cons_self
      unfold perform
      dsimp only
      rw [tree_under, Tree.resolved_under movable inner own, assign_under movable inner own, ending_under]
  | reset => exact congrArg (fun tree => ((⟨tree, _⟩ : Cycle), _)) (Tree.restore_under movable)
  | disable => exact congrArg ending (setSelfDisabled_under movable true)
  | enable => exact congrArg ending (setSelfDisabled_under movable false)
  | proceed given =>
      have address : (cycle.under text).addressOr given = cycle.addressOr given := rfl
      unfold perform
      dsimp only
      rw [address]
      split <;> rfl
  | clearErrors => rfl
  | noop => rfl

theorem runChain_under {chain : List Call} (carries : cycle.tree.Carries (.parse text) button chain)
    (reject : List Call) :
    (cycle.under text).runChain ((Path.parse text).extend button) reject chain =
      Prod.map (under text) id (cycle.runChain button reject chain) := by
  induction chain generalizing cycle with
  | nil => rfl
  | cons call rest ih =>
      obtain ⟨first, later⟩ := Tree.Carries.append_iff.mp (List.singleton_append ▸ carries)
      have moves := cycle.perform_moves button rest reject call
      unfold runChain
      rw [perform_under movable first]
      generalize cycle.perform button rest reject call = performed at moves ⊢
      obtain ⟨after, ending⟩ := performed
      cases ending with
      | completed => exact ih (moves.movable movable) (moves.carries later)
      | suspended => rfl
      | failed => rfl

theorem run_under {chain reject : List Call} (carries : cycle.tree.Carries (.parse text) button (chain ++ reject)) :
    (cycle.under text).run ((Path.parse text).extend button) chain reject =
      (cycle.run button chain reject).under text := by
  obtain ⟨first, other⟩ := Tree.Carries.append_iff.mp carries
  have moves := cycle.runChain_moves button reject chain
  unfold run
  rw [runChain_under movable first]
  generalize cycle.runChain button reject chain = ran at moves ⊢
  obtain ⟨after, ending⟩ := ran
  cases ending with
  | completed => rfl
  | suspended => rfl
  | failed => exact congrArg Prod.fst (runChain_under (moves.movable movable) (moves.carries other) [])

end Calls

end Cycle

/-! ## Operations -/

namespace Tree

variable {text : String} {tree : Tree}

theorem isBusy_under : (tree.under text).isBusy = tree.isBusy := Option.isSome_map

theorem Moves.steady_iff {above : Path} {after : Tree} (moves : Moves tree after) :
    after.Steady above ↔ tree.Steady above := by
  rw [Steady, Steady, moves.fieldPlaces, moves.references]

theorem settled_under (movable : tree.Movable (.parse text)) (report : Report) :
    (tree.under text).settled (report.under (.parse text)) = (tree.settled report).under text :=
  congrArg Prod.fst (@Cycle.settle_under text ⟨tree, report⟩ movable)

/-- The calls of a button can be carried out under a namespace if the tree can be put there. -/
theorem carries_of_button {above : Path} (movable : tree.Movable above) {path : Path} {field : Field} {button : Button}
    (stands : tree.field? path = some field) (isButton : field.button = some button) :
    tree.Carries above path (button.pipeline.success ++ button.pipeline.reject) := by
  obtain ⟨⟨place, form⟩, isForm, inForm⟩ := List.mem_flatMap.mp ((field?_eq_some_iff movable.regular).mp stands)
  obtain ⟨⟨formPlace, node⟩, listed, same⟩ := List.mem_filterMap.mp isForm
  obtain ⟨⟨itemPlace, item⟩, inside, sameItem⟩ := List.mem_filterMap.mp inForm
  obtain ⟨content, own, located⟩ := Option.map_eq_some_iff.mp same
  obtain ⟨entry, ownField, locatedField⟩ := Option.map_eq_some_iff.mp sameItem
  cases located
  cases locatedField
  obtain rfl := Node.form?_eq_some_iff.mp own
  obtain rfl := Item.field?_eq_some_iff.mp ownField
  obtain ⟨names, member, beneath, -, memberStands⟩ := Member.mem_itemsAll_iff.mp inside
  have steady := Node.steadyFrom_of_mem movable.steady listed
  have inMembers := (steadyFrom_append.mp (steadyFrom_append.mp steady).2).2
  have inField := steadyFrom_map.mp (steadyFrom_flatMap.mp inMembers _ inside)
  refine ⟨fun root => memberStands.ne_nil ?_, fun reference inCalls => ?_⟩
  · have segments := congrArg Path.segments (beneath.symm.trans root)
    exact (List.append_eq_nil_iff.mp segments).2
  · refine inField reference (List.mem_append_right _ ?_)
    rw [isButton]
    exact List.mem_flatMap.mpr ⟨button, List.mem_singleton_self _, inCalls⟩

/-- A tree in which one node follows another in its place can be put under a namespace if it can be put there once it
has come to rest. -/
theorem movable_replaced {above : Path} (movable : tree.Movable above) {path : Path} {node moved : Node}
    (stands : tree.node? path = some node) (follows : moved.Follows node) {report : Report}
    (steady : ((tree.change path (Node.modify fun _ => moved)).settled report).tree.Steady above) :
    (tree.change path (Node.modify fun _ => moved)).Movable above where
  top := (here_change _ _).trans movable.top
  regular := movable.regular.follows (root_follows_modify stands follows)
  steady := (Cycle.settle_moves ⟨tree.change path (Node.modify fun _ => moved), report⟩).steady_iff.mp steady

theorem refused_under (top : tree.here = .root) (free : (Path.parse text).last? ≠ some Response.groupKey)
    (outcome : Outcome) : (tree.under text).refused outcome = (tree.refused outcome).under text := by
  cases outcome with
  | error failure => rfl
  | ok response =>
      unfold refused
      dsimp only
      split
      · exact @applyErrors_under text tree.idle top free response.messages
      · rfl

theorem refusal_under (above : Path) (outcome : Outcome) : (refusal outcome).under above = refusal outcome := by
  cases outcome with
  | error failure => rfl
  | ok response =>
      unfold refusal
      dsimp only
      split <;> rfl

section Movable

variable (movable : tree.Movable (.parse text))
include movable

theorem setValue_under (path : Path) (value : Value) :
    (tree.under text).setValue ((Path.parse text).extend path) value =
      (Path.parse text).answer (Cycle.under text) (tree.setValue path value) := by
  unfold setValue
  rw [isBusy_under, field?_under movable.top]
  split
  · rfl
  · cases tree.field? path with
    | none => rfl
    | some field =>
        dsimp only
        rw [store_under movable.top]
        split_ifs
        · rfl
        · rfl
        · rfl
        · exact congrArg Except.ok (settled_under ((tree.store_moves path value).movable movable) .empty)

theorem goToStep_under (path : Path) (index : Nat) :
    (tree.under text).goToStep ((Path.parse text).extend path) index =
      (Path.parse text).answer (Cycle.under text) (tree.goToStep path index) := by
  unfold goToStep
  rw [isBusy_under]
  split
  · rfl
  · rw [show Cycle.start (tree.under text) = (Cycle.start tree).under text from rfl,
      @Cycle.navigate_under text (.start tree) movable.top]
    cases navigated : (Cycle.start tree).navigate path index with
    | error rejection => rfl
    | ok outcome =>
        have moves : Moves tree outcome.1.tree := Cycle.navigate_moves (.start tree) navigated
        exact congrArg Except.ok (settled_under (moves.movable movable) outcome.1.report)

theorem reset_under : (tree.under text).reset = (Path.parse text).answer (Cycle.under text) tree.reset := by
  unfold reset
  rw [isBusy_under, restore_under movable]
  split <;> rfl

theorem click_under (path : Path) :
    (tree.under text).click ((Path.parse text).extend path) =
      (Path.parse text).answer (Cycle.under text) (tree.click path) := by
  unfold click
  rw [isBusy_under, field?_under movable.top]
  split
  · rfl
  · cases stands : tree.field? path with
    | none => rfl
    | some field =>
        dsimp only
        cases isButton : field.button with
        | none => rfl
        | some button =>
            dsimp only
            split_ifs
            · rfl
            · rfl
            · exact congrArg Except.ok (@Cycle.run_under text (.start tree) movable path _ _
                (carries_of_button movable stands isButton))

theorem addSibling_under (path : Path) (behind : Option Nat)
    (steady : ∀ cycle, tree.addSibling path behind = .ok cycle → cycle.tree.Steady (.parse text)) :
    (tree.under text).addSibling ((Path.parse text).extend path) behind =
      (Path.parse text).answer (Cycle.under text) (tree.addSibling path behind) := by
  unfold addSibling at steady ⊢
  rw [isBusy_under, node?_under movable.top]
  split
  · rfl
  · rename_i idle
    rw [if_neg idle] at steady
    cases stands : tree.node? path with
    | none => rfl
    | some node =>
        rw [stands] at steady
        dsimp only at steady ⊢
        rw [Node.addSibling_extend]
        cases added : node.addSibling path behind with
        | error rejection => rfl
        | ok outcome =>
            rw [added] at steady
            have changed := movable_replaced movable stands (Node.follows_addSibling added) (steady _ rfl)
            dsimp only [Path.answer, bind, Except.bind, id]
            rw [change_under movable.top]
            exact congrArg Except.ok (settled_under changed { Report.empty with sibling := some outcome.2 })

theorem removeSibling_under (path : Path) (index : Nat)
    (steady : ∀ cycle, tree.removeSibling path index = .ok cycle → cycle.tree.Steady (.parse text)) :
    (tree.under text).removeSibling ((Path.parse text).extend path) index =
      (Path.parse text).answer (Cycle.under text) (tree.removeSibling path index) := by
  unfold removeSibling at steady ⊢
  rw [isBusy_under, node?_under movable.top]
  split
  · rfl
  · rename_i idle
    rw [if_neg idle] at steady
    cases stands : tree.node? path with
    | none => rfl
    | some node =>
        rw [stands] at steady
        dsimp only at steady ⊢
        rw [Node.removeSibling_extend]
        cases removed : node.removeSibling path index with
        | error rejection => rfl
        | ok reduced =>
            rw [removed] at steady
            have changed := movable_replaced movable stands (Node.follows_removeSibling removed) (steady _ rfl)
            dsimp only [Path.answer, bind, Except.bind, id]
            rw [change_under movable.top]
            exact congrArg Except.ok (settled_under changed .empty)

/-- A delivered outcome is taken up under a namespace as it is without it. -/
theorem complete_under (free : (Path.parse text).last? ≠ some Response.groupKey)
    (waiting : ∀ pending, tree.pending = some pending →
      tree.Carries (.parse text) pending.button (pending.remaining ++ pending.reject)) (outcome : Outcome) :
    (tree.under text).complete outcome = (Path.parse text).answer (Cycle.under text) (tree.complete outcome) := by
  cases waits : tree.pending with
  | none =>
      rw [complete, complete, waits, show (tree.under text).pending = none by rw [under, waits]; rfl]
      rfl
  | some pending =>
      have carries := waiting pending waits
      have waitsUnder : (tree.under text).pending = some (pending.under (.parse text)) := by
        rw [under, waits]
        rfl
      rw [complete_eq waits, complete_eq waitsUnder]
      refine congrArg Except.ok ?_
      cases success? outcome with
      | some response =>
          have informed := (tree.informed_notes response).moves
          exact @Cycle.run_under text (.start (tree.informed response)) (informed.movable movable) _ _ _
            (informed.carries carries)
      | none =>
          have refused := (tree.refused_notes outcome).moves
          have chained := @Cycle.runChain_under text ⟨tree.refused outcome, refusal outcome⟩
            (refused.movable movable) _ _ (refused.carries (Carries.append_iff.mp carries).2) []
          rw [Cycle.under, refusal_under, ← refused_under movable.top free] at chained
          exact congrArg Prod.fst chained

end Movable

end Tree

end Formwork
