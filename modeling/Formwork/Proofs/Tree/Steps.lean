import Formwork.Proofs.Node.Steps
import Formwork.Proofs.Tree.Bounds

/-!
# Steppers of a tree

`Tree.steppers` lists all steppers of a tree with their progress. Of the elementary changes of a tree only a move to
a step touches the list, and then a single entry of it (`Tree.Move.steppers`); siblings come and go without touching
it, for no stepper stands beneath a series (`Tree.Reachable.steppers_resize`). So what a move to a step keeps is kept
along every run, whoever asks for the move, a user or an inducer: the visited steps are a beginning of all steps
(`Tree.Reachable.paced`), no step is forgotten (`Tree.Reachable.develops`), and a step that has become visited
during an operation did so in a move of its own (`Tree.Moves.exists_activation`).
-/

set_option autoImplicit false

namespace Formwork.Tree

open Relation

variable {tree after : Tree}

/-! ## The list of steppers -/

variable (tree) in
/-- All steppers with their paths. -/
def steppers : List Node.Stepper := tree.root.steppers tree.here

/-- The list has an entry for every stepper that a path leads to. -/
theorem mem_steppers_iff (regular : tree.root.Regular) {path : Path} {progress : Progress} {steps : Nat} :
    (path, progress, steps) ∈ tree.steppers ↔ ∃ frame members,
      tree.node? path = some (.collection frame (some progress) members) ∧ members.length = steps := by
  rw [steppers, Node.mem_steppers_iff]
  simp only [node?_eq_some_iff regular]
  exact Iff.rfl

/-- At most one stepper stands at a path. -/
theorem steppers_unique (regular : tree.root.Regular) {path : Path} {first second : Progress × Nat}
    (listed : (path, first) ∈ tree.steppers) (listedToo : (path, second) ∈ tree.steppers) : first = second := by
  obtain ⟨progress, steps⟩ := first
  obtain ⟨other, otherSteps⟩ := second
  obtain ⟨frame, members, stands, rfl⟩ := (mem_steppers_iff regular).mp listed
  obtain ⟨otherFrame, otherMembers, standsToo, rfl⟩ := (mem_steppers_iff regular).mp listedToo
  rw [stands] at standsToo
  cases standsToo
  rfl

/-! ## Moves to a step -/

/-- The stepper at a path is asked to go to a step, and does not refuse; the failures that it reports may keep it
back. -/
inductive Activates (path : Path) (index : Nat) (failures : List (Path × List String)) (tree : Tree) :
    Tree → Prop where
  | mk {frame : Frame} {progress : Progress} {members : List (String × Node)} {moved : Node}
      (stands : tree.node? path = some (.collection frame (some progress) members))
      (gone : (Node.collection frame (some progress) members).goTo path index = .ok (moved, failures)) :
      Activates path index failures tree (tree.change path (Node.modify fun _ => moved))

/-- A move to a step changes the entry of the stepper and no other one. -/
theorem Activates.steppers {path : Path} {index : Nat} {failures : List (Path × List String)}
    (activates : Activates path index failures tree after) :
    ∃ front back progress reached steps, tree.steppers = front ++ (path, progress, steps) :: back ∧
      after.steppers = front ++ (path, reached, steps) :: back ∧
        (progress.WellKept steps → reached.WellKept steps) ∧
          (∀ step, progress.hasVisited step = true → reached.hasVisited step = true) ∧
            ∀ step, reached.hasVisited step = true →
              progress.hasVisited step = true ∨ index = step ∧ failures = [] := by
  obtain ⟨stands, gone⟩ := activates
  rename_i frame progress members moved
  obtain ⟨segments, below, found⟩ := Option.bind_eq_some_iff.mp stands
  obtain rfl := below?_eq_some_iff.mp below
  obtain ⟨reached, first, last, rfl, keeps, remembers, only⟩ := Node.exists_of_goTo gone
  obtain ⟨front, back, before, later⟩ := @Node.steppers_goTo (tree.here.extend ⟨segments⟩) _ _ _ _ _ found
    tree.here reached first last
  refine ⟨front, back, progress, reached, members.length, before, ?_, keeps, remembers, only⟩
  rw [Tree.steppers, change_of_below below]
  exact later

/-- A change along a path that keeps the steppers of every node keeps those of the tree. -/
theorem steppers_change {place : Path} {edit : List String → Node → Node}
    (keeps : ∀ segments path node, (edit segments node).steppers path = node.steppers path) :
    (tree.change place edit).steppers = tree.steppers := by
  unfold change
  split
  · exact keeps _ _ _
  · rfl

/-- Notes touch no stepper. -/
theorem Note.steppers (noted : Note tree after) : after.steppers = tree.steppers := by
  cases noted with
  | validate => exact Node.steppers_map true _ _ _
  | validateNode place => exact steppers_change (Node.steppers_validateAt place)
  | validateFieldset => exact steppers_change (Node.steppers_modifyForm _)
  | setErrors => exact steppers_change (Node.steppers_modifyForm _)
  | addErrors => exact steppers_change (Node.steppers_modifyForm _)
  | clearErrors => exact Node.steppers_map false _ _ _
  | stray => rfl
  | wait => rfl
  | answer => rfl

/-- A move to a step is the only move that touches a stepper. -/
theorem Move.steppers (move : Move tree after) :
    after.steppers = tree.steppers ∨ ∃ path index failures, Activates path index failures tree after := by
  cases move with
  | note noted => exact .inl noted.steppers
  | refresh => exact .inl (Node.steppers_map false _ _ _)
  | latch => exact .inl (Node.steppers_map false _ _ _)
  | fire => exact .inl rfl
  | reset => exact .inl (Node.steppers_map false _ _ _)
  | setValue => exact .inl (steppers_change (Node.steppers_modifyForm _))
  | touch => exact .inl (steppers_change Node.steppers_touch)
  | setSelfDisabled => exact .inl (steppers_change (Node.steppers_modifyForm _))
  | openDialog => exact .inl (steppers_change (Node.steppers_modifyForm _))
  | closeDialog => exact .inl (steppers_change (Node.steppers_modifyForm _))
  | @goTo path index node moved failures stands gone =>
      obtain ⟨frame, progress, members, _, _, _, rfl, -⟩ := Node.goTo_eq_ok gone
      exact .inr ⟨path, index, failures, .mk stands gone⟩

/-! ## What is kept -/

variable (tree) in
/-- Every stepper is kept well. -/
def Paced : Prop := ∀ shown ∈ tree.steppers, shown.2.1.WellKept shown.2.2

/-- Every stepper still stands where it stood, with as many steps, and has not forgotten a visited one. -/
def Develops (tree after : Tree) : Prop :=
  ∀ path progress steps, (path, progress, steps) ∈ tree.steppers →
    ∃ reached, (path, reached, steps) ∈ after.steppers ∧
      ∀ step, progress.hasVisited step = true → reached.hasVisited step = true

theorem Develops.of_steppers (same : after.steppers = tree.steppers) : Develops tree after := by
  intro path progress steps listed
  exact ⟨progress, same ▸ listed, fun _ visited => visited⟩

theorem Develops.trans {later : Tree} (first : Develops tree after) (second : Develops after later) :
    Develops tree later := by
  intro path progress steps listed
  obtain ⟨middle, there, remembers⟩ := first path progress steps listed
  obtain ⟨reached, last, remembersToo⟩ := second path middle steps there
  exact ⟨reached, last, fun step visited => remembersToo step (remembers step visited)⟩

theorem Move.paced (move : Move tree after) (paced : tree.Paced) : after.Paced := by
  rcases move.steppers with same | ⟨path, index, failures, activates⟩
  · rwa [Paced, same]
  · obtain ⟨front, back, progress, reached, steps, before, later, keeps, -⟩ := activates.steppers
    rw [Paced, before, List.forall_mem_append, List.forall_mem_cons] at paced
    rw [Paced, later, List.forall_mem_append, List.forall_mem_cons]
    exact ⟨paced.1, keeps paced.2.1, paced.2.2⟩

theorem Move.develops (move : Move tree after) : Develops tree after := by
  rcases move.steppers with same | ⟨path, index, failures, activates⟩
  · exact .of_steppers same
  · obtain ⟨front, back, progress, reached, steps, before, later, -, remembers, -⟩ := activates.steppers
    intro place other size listed
    rw [before, List.mem_append, List.mem_cons] at listed
    rw [later]
    rcases listed with inFront | here | behind
    · exact ⟨other, List.mem_append_left _ inFront, fun _ visited => visited⟩
    · cases here
      exact ⟨reached, List.mem_append_right _ List.mem_cons_self, remembers⟩
    · exact ⟨other, List.mem_append_right _ (List.mem_cons_of_mem _ behind), fun _ visited => visited⟩

theorem Moves.paced (moves : Moves tree after) (paced : tree.Paced) : after.Paced :=
  moves.keeps (motive := Paced) Move.paced paced

theorem Moves.develops (moves : Moves tree after) : Develops tree after :=
  moves.keeps (motive := Develops tree) (fun move develops => develops.trans move.develops) (.of_steppers rfl)

/-! ## Reachable trees -/

theorem mount_paced {blueprint : Blueprint} {initial : Option Json}
    (mounted : Tree.mount blueprint initial = .ok tree) : tree.Paced := by
  obtain ⟨here, built, nodeBuilt, rfl⟩ := mount_eq_ok mounted
  have filled : (planted blueprint initial built).Paced :=
    (Node.paced_iff _).mp ((Node.build_planted nodeBuilt).paced.2 _)
  have refreshed := (Move.refresh _).paced filled
  have prefilled : (planted blueprint initial built).refresh.prefilled.Paced :=
    (Node.paced_iff _).mp ((Node.paced_iff _).mpr refreshed).markPrefilled
  exact (Move.latch _).paced prefilled

/-- Another series in the place of a series touches no stepper. -/
theorem Reachable.steppers_resize (reachable : tree.Reachable) {path : Path} {frame : Frame}
    {template : List (String × Node)} {siblings others : List Sibling}
    (stands : tree.node? path = some (.series frame template siblings))
    (follows : (Node.series frame template others).Follows (.series frame template siblings)) :
    (tree.change path (Node.modify fun _ => .series frame template others)).steppers = tree.steppers := by
  have regular := reachable.regular
  obtain ⟨segments, below, found⟩ := Option.bind_eq_some_iff.mp stands
  have standsThere := (Node.get?_eq_some_iff regular).mp found
  have repeats : frame.plan.isRepeatable = true := by
    cases reachable.sound.stands standsThere with
    | series repeats => exact repeats
  have without := Node.hasStepper_series regular.uniform reachable.apart standsThere repeats
  have old := regular.stands standsThere
  rw [steppers, change_of_below below]
  refine Node.survey_modify found (fun place => ?_) _
  calc (Node.series frame template others).steppers place
      = [] := Node.steppers_series (old.follows follows) (follows.plan ▸ without)
    _ = (Node.series frame template siblings).steppers place := (Node.steppers_series old without).symm

/-- An operation is a sequence of moves, which begin with the steppers of the tree. -/
theorem Course.exists_moves {operation : Operation} (reachable : tree.Reachable)
    (course : Course tree operation after) : ∃ first, Course tree operation first ∧ first.root.Regular ∧
      first.steppers = tree.steppers ∧ Moves first after := by
  cases course with
  | moves moves => exact ⟨tree, .moves .refl, reachable.regular, rfl, moves⟩
  | addSibling stands added moves =>
      have follows := Node.follows_addSibling added
      refine ⟨_, .addSibling stands added .refl, ?_, ?_, moves⟩
      · exact reachable.regular.follows (root_follows_modify stands follows)
      · obtain ⟨frame, template, siblings, rfl, rfl, -⟩ := Node.addSibling_eq_ok added
        exact reachable.steppers_resize stands follows
  | removeSibling stands removed moves =>
      have follows := Node.follows_removeSibling removed
      refine ⟨_, .removeSibling stands removed .refl, ?_, ?_, moves⟩
      · exact reachable.regular.follows (root_follows_modify stands follows)
      · obtain ⟨frame, template, siblings, rfl, rfl, -⟩ := Node.removeSibling_eq_ok removed
        exact reachable.steppers_resize stands follows

theorem Reachable.paced (reachable : tree.Reachable) : tree.Paced := by
  induction reachable with
  | mounted mounted => exact mount_paced mounted
  | @after tree reachable operation paced =>
      obtain ⟨first, -, -, same, moves⟩ := (tree.after_course operation).exists_moves reachable
      refine moves.paced ?_
      rwa [Paced, same]

theorem Reachable.develops (reachable : tree.Reachable) (operations : List Operation) :
    Develops tree (tree.run operations) := by
  induction operations generalizing tree with
  | nil => exact .of_steppers rfl
  | cons operation rest ih =>
      obtain ⟨first, -, -, same, moves⟩ := (tree.after_course operation).exists_moves reachable
      exact ((Develops.of_steppers same).trans moves.develops).trans (ih (.after reachable operation))

/-! ## How a step becomes visited -/

/-- What holds after some moves and not before has a moment at which it begins to hold. -/
theorem Moves.exists_moment {holds : Tree → Prop} (moves : Moves tree after) (notBefore : ¬ holds tree)
    (later : holds after) :
    ∃ stage next, Moves tree stage ∧ Move stage next ∧ Moves next after ∧ ¬ holds stage ∧ holds next := by
  induction moves using ReflTransGen.head_induction_on with
  | refl => exact absurd later notBefore
  | @head tree middle move rest ih =>
      by_cases now : holds middle
      · exact ⟨tree, middle, .refl, move, rest, notBefore, now⟩
      · obtain ⟨stage, next, moved, step, last, notYet, then'⟩ := ih now
        exact ⟨stage, next, moved.head move, step, last, notYet, then'⟩

/-- A stepper that has a step visited only after a move went to this step in the move. -/
theorem Move.activates (move : Move tree after) (regular : tree.root.Regular) {path : Path} {index : Nat}
    {progress later : Progress} {steps laterSteps : Nat} (listed : (path, progress, steps) ∈ tree.steppers)
    (unvisited : progress.hasVisited index = false) (listedLater : (path, later, laterSteps) ∈ after.steppers)
    (visited : later.hasVisited index = true) : Activates path index [] tree after := by
  have old {other : Progress} {size : Nat} (there : (path, other, size) ∈ tree.steppers)
      (isVisited : other.hasVisited index = true) : False := by
    cases steppers_unique regular listed there
    rw [unvisited] at isVisited
    cases isVisited
  rcases move.steppers with same | ⟨place, target, failures, activates⟩
  · exact (old (same ▸ listedLater) visited).elim
  · obtain ⟨front, back, passed, reached, size, before, now, -, -, only⟩ := activates.steppers
    rw [now, List.mem_append, List.mem_cons] at listedLater
    rw [before] at old
    rcases listedLater with inFront | here | behind
    · exact (old (List.mem_append_left _ inFront) visited).elim
    · cases here
      rcases only index visited with already | ⟨rfl, rfl⟩
      · exact (old (List.mem_append_right _ List.mem_cons_self) already).elim
      · exact activates
    · exact (old (List.mem_append_right _ (List.mem_cons_of_mem _ behind)) visited).elim

/-- A step that was not visited before some moves and is afterwards was reached by a move to this very step. -/
theorem Moves.exists_activation (moves : Moves tree after) (regular : tree.root.Regular) {path : Path} {index : Nat}
    {progress later : Progress} {steps laterSteps : Nat} (listed : (path, progress, steps) ∈ tree.steppers)
    (unvisited : progress.hasVisited index = false) (listedLater : (path, later, laterSteps) ∈ after.steppers)
    (visited : later.hasVisited index = true) :
    ∃ stage next passed, Moves tree stage ∧ (path, passed, steps) ∈ stage.steppers ∧
      passed.hasVisited index = false ∧ Activates path index [] stage next ∧ Moves next after := by
  let holds (tree : Tree) : Prop :=
    ∃ progress steps, (path, progress, steps) ∈ tree.steppers ∧ progress.hasVisited index = true
  have notBefore : ¬ holds tree := by
    rintro ⟨other, size, there, isVisited⟩
    cases steppers_unique regular listed there
    rw [unvisited] at isVisited
    cases isVisited
  obtain ⟨stage, next, first, move, last, notYet, reached, size, there, isVisited⟩ :=
    moves.exists_moment notBefore ⟨later, laterSteps, listedLater, visited⟩
  obtain ⟨passed, stood, -⟩ := first.develops path progress steps listed
  have regularStage := regular.follows first.retains.toFollows
  have unvisitedYet : passed.hasVisited index = false := by
    rw [← Bool.not_eq_true]
    exact fun isVisited => notYet ⟨passed, steps, stood, isVisited⟩
  obtain ⟨moved, stands, -⟩ := move.develops path passed steps stood
  have regularNext := regularStage.follows move.retains.toFollows
  cases steppers_unique regularNext there stands
  exact ⟨stage, next, passed, first, stood, unvisitedYet,
    move.activates regularStage stood unvisitedYet there isVisited, last⟩

/-! ## No step is skipped -/

/-- What holds of the stepper at a path. -/
structure TakesStepsInOrder (tree : Tree) (path : Path) (frame : Frame) (progress : Progress)
    (members : List (String × Node)) : Prop where
  /-- The visited steps are a beginning of all steps, and the current step is one of them. -/
  kept : progress.WellKept members.length
  /-- The stepper refuses to go where there is no step, and beyond the step behind the last visited one. -/
  refused : ∀ index,
    (∃ rejection, (Node.collection frame (some progress) members).goTo path index = .error rejection) ↔
      members.length ≤ index ∨ progress.furthest + 1 < index
  /-- So does the tree, unless it is busy. -/
  refusedByTree : tree.isBusy = false → ∀ index, (∃ rejection, tree.goToStep path index = .error rejection) ↔
    members.length ≤ index ∨ progress.furthest + 1 < index
  /-- A move to a visited step changes the current step and nothing else. -/
  revisited : ∀ index, progress.hasVisited index = true →
    (Node.collection frame (some progress) members).goTo path index =
      .ok (.collection frame (some { progress with current := index }) members, [])
  /-- Any other step that can be reached is the one behind the last visited one, and the steps on the way have to
  pass. -/
  advances : ∀ index moved failures, progress.hasVisited index = false →
    (Node.collection frame (some progress) members).goTo path index = .ok (moved, failures) →
      index = progress.furthest + 1 ∧ Node.Advances path frame progress members index moved failures
  /-- No visited step is forgotten, whatever happens to the tree. -/
  remembered : ∀ operations, ∃ laterFrame later laterMembers,
    (tree.run operations).node? path = some (.collection laterFrame (some later) laterMembers) ∧
      laterMembers.length = members.length ∧
        ∀ index, progress.hasVisited index = true → later.hasVisited index = true
  /-- A step that becomes visited during an operation is reached by a move of its own, which finds all steps on the
  way valid. -/
  entered : ∀ operation index laterFrame later laterMembers,
    (tree.after operation).node? path = some (.collection laterFrame (some later) laterMembers) →
      progress.hasVisited index = false → later.hasVisited index = true →
        ∃ stage stageFrame passed stageMembers moved, Course tree operation stage ∧
          stage.node? path = some (.collection stageFrame (some passed) stageMembers) ∧
            (Node.collection stageFrame (some passed) stageMembers).goTo path index = .ok (moved, []) ∧
              index = passed.furthest + 1 ∧ Node.Advances path stageFrame passed stageMembers index moved [] ∧
                Moves (stage.change path (Node.modify fun _ => moved)) (tree.after operation)

/-- An idle tree refuses a step if the stepper does. -/
theorem goToStep_error_iff {path : Path} {node : Node} (idle : tree.isBusy = false)
    (stands : tree.node? path = some node) (index : Nat) :
    (∃ rejection, tree.goToStep path index = .error rejection) ↔
      ∃ rejection, node.goTo path index = .error rejection := by
  simp only [goToStep, idle, Bool.false_eq_true, if_false, Cycle.navigate, Cycle.start, stands]
  cases node.goTo path index with
  | error rejection => simp [bind, Except.bind]
  | ok outcome =>
      obtain ⟨moved, failures⟩ := outcome
      cases failures <;> simp [bind, Except.bind, pure, Except.pure]

/-- In every reachable tree every stepper takes its steps in order. -/
theorem Reachable.takesStepsInOrder (reachable : tree.Reachable) {path : Path} {frame : Frame} {progress : Progress}
    {members : List (String × Node)} (stands : tree.node? path = some (.collection frame (some progress) members)) :
    tree.TakesStepsInOrder path frame progress members := by
  have regular := reachable.regular
  have listed : (path, progress, members.length) ∈ tree.steppers :=
    (mem_steppers_iff regular).mpr ⟨frame, members, stands, rfl⟩
  have kept : progress.WellKept members.length := reachable.paced _ listed
  have refused (index : Nat) :
      (∃ rejection, (Node.collection frame (some progress) members).goTo path index = .error rejection) ↔
        members.length ≤ index ∨ progress.furthest + 1 < index := by
    rw [Node.goTo_eq kept]
    split_ifs with outside beyond visited
    · simp [outside]
    · simp [beyond]
    · simp [outside, beyond]
    · simp [outside, beyond]
  refine ⟨kept, refused, fun idle index => (goToStep_error_iff idle stands index).trans (refused index),
    fun index visited => ?_, fun index moved failures unvisited gone => Node.advances_of_goTo kept unvisited gone,
    fun operations => ?_, ?_⟩
  · have upTo := (kept.hasVisited_iff_le index).mp visited
    have reached := kept.furthest_lt
    rw [Node.goTo_eq kept, if_neg (by omega), if_neg (by omega), if_pos upTo]
  · obtain ⟨later, there, remembers⟩ := reachable.develops operations path progress members.length listed
    obtain ⟨laterFrame, laterMembers, standsLater, same⟩ :=
      (mem_steppers_iff (reachable.run operations).regular).mp there
    exact ⟨laterFrame, later, laterMembers, standsLater, same, remembers⟩
  · intro operation index laterFrame later laterMembers standsLater unvisited visited
    have listedLater := (mem_steppers_iff (reachable.after operation).regular).mpr
      ⟨laterFrame, laterMembers, standsLater, rfl⟩
    obtain ⟨first, resized, regularFirst, same, moves⟩ := (tree.after_course operation).exists_moves reachable
    have pacedFirst : first.Paced := by
      rw [Paced, same]
      exact reachable.paced
    obtain ⟨stage, next, passed, before, listedStage, unvisitedStage, activates, last⟩ :=
      moves.exists_activation regularFirst (same ▸ listed) unvisited listedLater visited
    have regularStage := regularFirst.follows before.retains.toFollows
    obtain ⟨standsStage, gone⟩ := activates
    rename_i stageFrame other stageMembers moved
    obtain ⟨rfl, sameSteps⟩ := Prod.mk.inj (steppers_unique regularStage listedStage
      ((mem_steppers_iff regularStage).mpr ⟨stageFrame, stageMembers, standsStage, rfl⟩))
    have keptStage : passed.WellKept stageMembers.length := sameSteps ▸ before.paced pacedFirst _ listedStage
    obtain ⟨behind, advances⟩ := Node.advances_of_goTo keptStage unvisitedStage gone
    exact ⟨stage, stageFrame, passed, stageMembers, moved, resized.trans before, standsStage, gone, behind,
      advances, last⟩

/-- A checkout of three steps with a text to enter in each. -/
def checkout : Blueprint where
  namespaceText := none
  root := .stepper .plain
    [("contact", .form ⟨none, none, .absent⟩ none [("name", .field .standard)]),
      ("shipping", .form ⟨none, none, .absent⟩ none [("street", .field .standard)]),
      ("payment", .form ⟨none, none, .absent⟩ none [("owner", .field .standard)])]
  distinct := by decide

/-- If the name is known from the start, the first two steps count as visited. -/
theorem takesStepsInOrder_checkout : ∃ tree frame members,
    Tree.mount checkout (some (.object [("contact", .object [("name", .text "Ada")])])) = .ok tree ∧
      tree.node? .root = some (.collection frame (some ⟨0, [true, true, false]⟩) members) ∧
        tree.TakesStepsInOrder .root frame ⟨0, [true, true, false]⟩ members := by
  obtain ⟨tree, mounted⟩ : ∃ tree,
      Tree.mount checkout (some (.object [("contact", .object [("name", .text "Ada")])])) = .ok tree := ⟨_, rfl⟩
  have flags : (Tree.mount checkout (some (.object [("contact", .object [("name", .text "Ada")])]))).toOption.map
      Tree.steppers = some [(.root, ⟨0, [true, true, false]⟩, 3)] := by decide +kernel
  rw [mounted] at flags
  have reachable := Reachable.mounted mounted
  have listed : (.root, ⟨0, [true, true, false]⟩, 3) ∈ tree.steppers := by
    rw [Option.some.inj flags]
    exact List.mem_singleton_self _
  obtain ⟨frame, members, stands, -⟩ := (mem_steppers_iff reachable.regular).mp listed
  exact ⟨tree, frame, members, mounted, stands, reachable.takesStepsInOrder stands⟩

end Formwork.Tree
