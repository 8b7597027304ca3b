import Formwork.Proofs.Node.Bounds
import Formwork.Proofs.Node.Listing
import Formwork.Proofs.Node.Validity

/-!
# Progress through steps

The flags of a stepper say of every step whether it was visited, and the last step that was is looked up in them
(`Progress.furthest`). That a step can never be skipped rests on the shape of the flags: the visited steps are a
beginning of all steps (`Progress.WellKept`), so the step behind the last visited one is the first that was not.
A new stepper has flags of this shape, prefilled steps keep it (`WellKept.prefilled`), and so does every move
(`WellKept.moveTo`, `WellKept.revisit`).

What comes of a move to a step that was not visited is said by `Node.Advances`: the stepper arrives there with all
steps on the way valid, or is kept back by one that does not pass. `Node.steppers` surveys the steppers of a node;
a move to a step changes one entry of the survey (`Node.steppers_goTo`).
-/

set_option autoImplicit false

namespace Formwork

open Formwork.Text

/-! ## Flags -/

namespace Progress

/-- The current step is one of the steps, the visited ones are a beginning of them, and it is among these. -/
structure WellKept (progress : Progress) (steps : Nat) : Prop where
  current : progress.current < steps
  segment : ∃ count, 0 < count ∧ count ≤ steps ∧
    progress.visited = List.replicate count true ++ List.replicate (steps - count) false
  here : progress.hasVisited progress.current = true

section Segment

variable {progress : Progress} {count rest : Nat}
  (flags : progress.visited = List.replicate count true ++ List.replicate rest false)
include flags

theorem hasVisited_iff (index : Nat) : progress.hasVisited index = true ↔ index < count := by
  rw [hasVisited, flags, List.getD_eq_getElem?_getD]
  by_cases before : index < count
  · rw [List.getElem?_append_left (by simpa using before), List.getElem?_replicate_of_lt before]
    simp [before]
  · rw [List.getElem?_append_right (by simpa using before), List.getElem?_replicate]
    split
    · simp [before]
    · simp [before]

/-- The last visited step is the last one of the beginning. -/
theorem furthest_eq (some : 0 < count) : progress.furthest = count - 1 := by
  have skipped : progress.visited.reverse.idxOf true = rest := by
    rw [flags, List.reverse_append, List.reverse_replicate, List.reverse_replicate,
      List.idxOf_append_of_notMem (by simp)]
    obtain ⟨less, rfl⟩ : ∃ less, count = less + 1 := ⟨count - 1, by omega⟩
    rw [List.replicate_succ, List.idxOf_cons_self, List.length_replicate, Nat.add_zero]
  rw [furthest, skipped, flags, List.length_append, List.length_replicate, List.length_replicate]
  omega

end Segment

/-- The visited steps after a move are those before and perhaps the one that was moved to. -/
theorem hasVisited_moveTo (progress : Progress) (index step : Nat) : (progress.moveTo index).hasVisited step =
    (progress.hasVisited step || decide (index = step ∧ step < progress.visited.length)) := by
  rw [hasVisited, hasVisited, moveTo, List.getD_eq_getElem?_getD, List.getD_eq_getElem?_getD, List.getElem?_set]
  by_cases here : index = step
  · subst here
    by_cases inside : index < progress.visited.length
    · simp [inside]
    · simp [inside]
  · simp [here]

namespace WellKept

variable {progress : Progress} {steps : Nat} (kept : progress.WellKept steps)

/-- At first only the first step is visited. -/
theorem start (some : 0 < steps) : (Progress.start steps).WellKept steps := by
  have flags : (Progress.start steps).visited = List.replicate 1 true ++ List.replicate (steps - 1) false := by
    obtain ⟨rest, rfl⟩ : ∃ rest, steps = rest + 1 := ⟨steps - 1, by omega⟩
    rw [Progress.start, List.range_succ_eq_map, List.map_cons, List.map_map, Nat.add_sub_cancel]
    exact congrArg (true :: ·) (List.eq_replicate_iff.mpr ⟨by simp, by simp⟩)
  refine ⟨some, ⟨1, Nat.one_pos, some, flags⟩, ?_⟩
  exact (hasVisited_iff flags 0).mpr Nat.one_pos

include kept

theorem length_visited : progress.visited.length = steps := by
  obtain ⟨count, -, atMost, flags⟩ := kept.segment
  rw [flags, List.length_append, List.length_replicate, List.length_replicate]
  omega

/-- The visited steps are those up to the last visited one. -/
theorem hasVisited_iff_le (index : Nat) : progress.hasVisited index = true ↔ index ≤ progress.furthest := by
  obtain ⟨count, some, -, flags⟩ := kept.segment
  rw [hasVisited_iff flags, furthest_eq flags some]
  omega

theorem furthest_lt : progress.furthest < steps := by
  obtain ⟨count, some, atMost, flags⟩ := kept.segment
  rw [furthest_eq flags some]
  omega

/-- A visited step may become the current one. -/
theorem revisit {index : Nat} (visited : progress.hasVisited index = true) :
    ({ progress with current := index } : Progress).WellKept steps := by
  have inside : index < steps := by
    have upTo := (kept.hasVisited_iff_le index).mp visited
    have reached := kept.furthest_lt
    omega
  exact ⟨inside, kept.segment, visited⟩

/-- The step behind the last visited one may become visited. -/
theorem moveTo (next : progress.furthest + 1 < steps) : (progress.moveTo (progress.furthest + 1)).WellKept steps := by
  obtain ⟨count, some, atMost, flags⟩ := kept.segment
  have reached := furthest_eq flags some
  obtain ⟨rest, enough⟩ : ∃ rest, steps - count = rest + 1 := ⟨steps - count - 1, by omega⟩
  have position : progress.furthest + 1 = count := by omega
  have later : (progress.moveTo count).visited =
      List.replicate (count + 1) true ++ List.replicate (steps - (count + 1)) false := by
    have less : steps - (count + 1) = rest := by omega
    calc (progress.moveTo count).visited
        = (List.replicate count true ++ List.replicate (rest + 1) false).set count true := by
          rw [Progress.moveTo, flags, enough]
      _ = List.replicate count true ++ (true :: List.replicate rest false) := by
          rw [List.set_append_right _ _ (by simp), List.length_replicate, Nat.sub_self, List.replicate_succ,
            List.set_cons_zero]
      _ = List.replicate (count + 1) true ++ List.replicate (steps - (count + 1)) false := by
          rw [less, List.replicate_succ', List.append_assoc]
          rfl
  rw [position]
  have here := (hasVisited_iff later count).mpr (Nat.lt_succ_self count)
  refine ⟨?_, ⟨count + 1, Nat.succ_pos count, by omega, later⟩, here⟩
  change count < steps
  omega

end WellKept

end Progress

/-! ## Steps that are filled in already -/

namespace Node

theorem prefilledFlags_nil (flags : List Bool) : prefilledFlags flags [] = flags := by
  rw [prefilledFlags]
  simp

theorem prefilledFlags_cons (next : Bool) (flags : List Bool) (name : String) (node : Node)
    (rest : List (String × Node)) : prefilledFlags (true :: next :: flags) ((name, node) :: rest) =
      true :: if node.isValid then prefilledFlags (true :: flags) rest else next :: flags := by
  rw [prefilledFlags, Bool.true_and]

/-- When prefilled steps are marked, the visited steps are a beginning of all steps as before, and none is lost. -/
theorem exists_prefilledFlags (members : List (String × Node)) {count : Nat} (some : 0 < count) (rest : Nat) :
    ∃ more, count ≤ more ∧ more ≤ count + rest ∧
      prefilledFlags (List.replicate count true ++ List.replicate rest false) members =
        List.replicate more true ++ List.replicate (count + rest - more) false := by
  induction members generalizing count rest with
  | nil =>
      refine ⟨count, Nat.le_refl count, Nat.le_add_right count rest, ?_⟩
      rw [prefilledFlags_nil, Nat.add_sub_cancel_left]
  | cons entry others ih =>
      obtain ⟨name, node⟩ := entry
      obtain ⟨less, rfl⟩ : ∃ less, count = less + 1 := ⟨count - 1, by omega⟩
      cases less with
      | succ less =>
          -- The step behind the first one was visited before, so nothing changes for it.
          obtain ⟨more, atLeast, atMost, marked⟩ := ih (Nat.succ_pos less) rest
          cases valid : node.isValid with
          | true =>
              have same : less + 1 + 1 + rest - (more + 1) = less + 1 + rest - more := by omega
              refine ⟨more + 1, by omega, by omega, ?_⟩
              rw [List.replicate_succ, List.replicate_succ, List.cons_append, List.cons_append, prefilledFlags_cons,
                valid, if_pos rfl, ← List.cons_append, ← List.replicate_succ, marked, same]
              rfl
          | false =>
              refine ⟨less + 1 + 1, Nat.le_refl _, Nat.le_add_right _ rest, ?_⟩
              rw [List.replicate_succ, List.replicate_succ, List.cons_append, List.cons_append, prefilledFlags_cons,
                valid, Nat.add_sub_cancel_left]
              rfl
      | zero =>
          cases rest with
          | zero => exact ⟨1, Nat.le_refl 1, Nat.le_refl 1, rfl⟩
          | succ rest =>
              obtain ⟨more, atLeast, atMost, marked⟩ := ih Nat.one_pos rest
              have first : List.replicate (0 + 1) true ++ List.replicate (rest + 1) false =
                  true :: false :: List.replicate rest false := rfl
              rw [first, prefilledFlags_cons]
              cases valid : node.isValid with
              | true =>
                  have same : 0 + 1 + (rest + 1) - (more + 1) = 1 + rest - more := by omega
                  refine ⟨more + 1, by omega, by omega, ?_⟩
                  rw [if_pos rfl, same]
                  exact congrArg (true :: ·) marked
              | false =>
                  have same : 0 + 1 + (rest + 1) - 1 = rest + 1 := by omega
                  refine ⟨1, Nat.le_refl 1, Nat.le_add_right 1 _, ?_⟩
                  rw [same]
                  rfl

end Node

/-- Steps that were filled in already may count as visited. -/
theorem Progress.WellKept.prefilled {progress : Progress} {steps : Nat} (kept : progress.WellKept steps)
    (members : List (String × Node)) : (Node.prefilledProgress members progress).WellKept steps := by
  obtain ⟨count, some, atMost, flags⟩ := kept.segment
  obtain ⟨more, atLeast, inside, marked⟩ := Node.exists_prefilledFlags members some (steps - count)
  have total : count + (steps - count) = steps := by omega
  rw [← flags, total] at marked
  refine ⟨kept.current, ⟨more, by omega, by omega, marked⟩, (hasVisited_iff marked _).mpr ?_⟩
  have before := (hasVisited_iff flags progress.current).mp kept.here
  exact Nat.lt_of_lt_of_le before atLeast

/-! ## Going to a step -/

namespace Node

/-- The steps from one up to another are those in between. -/
theorem mem_drop_take_iff {α : Type} {items : List α} {first last : Nat} {item : α} :
    item ∈ (items.take last).drop first ↔ ∃ index, first ≤ index ∧ index < last ∧ items[index]? = some item := by
  rw [List.mem_iff_getElem?]
  simp only [List.getElem?_drop, List.getElem?_take]
  constructor
  · rintro ⟨index, there⟩
    split at there
    · rename_i before
      exact ⟨first + index, Nat.le_add_right first index, before, there⟩
    · cases there
  · rintro ⟨index, atLeast, before, there⟩
    refine ⟨index - first, ?_⟩
    rw [Nat.add_sub_cancel' atLeast, if_pos before, there]

/-- Nothing keeps a stepper back if no step on the way fails. -/
theorem stepFailures_eq_nil_iff {path : Path} {first last : Nat} {members : List (String × Node)} :
    stepFailures path first last members = [] ↔ ∀ step entry, first ≤ step → step < last →
      members[step]? = some entry → entry.2.failures (path.join entry.1) = [] := by
  rw [stepFailures, List.flatMap_eq_nil_iff]
  constructor
  · intro none step entry atLeast before there
    exact none entry (mem_drop_take_iff.mpr ⟨step, atLeast, before, there⟩)
  · intro none entry inside
    obtain ⟨step, atLeast, before, there⟩ := mem_drop_take_iff.mp inside
    exact none step entry atLeast before there

theorem getElem?_validateSteps (path : Path) (first last : Nat) (members : List (String × Node)) (step : Nat) :
    (validateSteps path first last members)[step]? = members[step]?.map fun entry =>
      (entry.1, if first ≤ step ∧ step < last then entry.2.validate (path.join entry.1) else entry.2) := by
  rw [validateSteps, List.getElem?_map, List.getElem?_zipIdx, Option.map_map, Nat.zero_add]
  rfl

/-- The steps on the way are valid once they are checked, if none of them fails. -/
theorem isValid_validateSteps {path : Path} {first last : Nat} {members : List (String × Node)}
    (passed : stepFailures path first last members = []) {step : Nat} {entry : String × Node}
    (atLeast : first ≤ step) (before : step < last)
    (there : (validateSteps path first last members)[step]? = some entry) : entry.2.isValid = true := by
  rw [getElem?_validateSteps] at there
  obtain ⟨old, stood, rfl⟩ := Option.map_eq_some_iff.mp there
  rw [if_pos ⟨atLeast, before⟩]
  exact isValid_validate (stepFailures_eq_nil_iff.mp passed step old atLeast before stood) _

/-- Where a stepper goes if it is asked to go to a step. -/
theorem goTo_eq {progress : Progress} {members : List (String × Node)} (kept : progress.WellKept members.length)
    (path : Path) (index : Nat) (frame : Frame) :
    (Node.collection frame (some progress) members).goTo path index =
      if members.length ≤ index then .error (.stepOutOfRange path index)
      else if progress.furthest + 1 < index then .error (.stepNotReachable path index)
      else if index ≤ progress.furthest then
        .ok (.collection frame (some { progress with current := index }) members, [])
      else
        let failures := stepFailures path progress.current index members
        let reached := if failures.isEmpty then progress.moveTo index else progress
        .ok (.collection frame (some reached) (validateSteps path progress.current index members), failures) := by
  have visited := kept.hasVisited_iff_le index
  rw [goTo, kept.length_visited]
  by_cases outside : members.length ≤ index
  · rw [if_pos outside, if_pos outside]
  · rw [if_neg outside, if_neg outside]
    by_cases here : index = progress.current
    · subst here
      have upTo := (kept.hasVisited_iff_le progress.current).mp kept.here
      rw [if_pos rfl, if_neg (by omega), if_pos upTo]
    · rw [if_neg here]
      simp only [visited]

/-- Where a stepper can go from a progress: to a visited step, or to the first step that was not visited. -/
theorem exists_of_goTo {path : Path} {index : Nat} {frame : Frame} {progress : Progress}
    {members : List (String × Node)} {moved : Node} {failures : List (Path × List String)}
    (gone : (Node.collection frame (some progress) members).goTo path index = .ok (moved, failures)) :
    ∃ reached first last, moved = .collection frame (some reached) (validateSteps path first last members) ∧
      (progress.WellKept members.length → reached.WellKept members.length) ∧
        (∀ step, progress.hasVisited step = true → reached.hasVisited step = true) ∧
          ∀ step, reached.hasVisited step = true →
            progress.hasVisited step = true ∨ index = step ∧ failures = [] := by
  rw [goTo] at gone
  split at gone
  · cases gone
  · rename_i inside
    split at gone
    · cases gone
      exact ⟨progress, 0, 0, by rw [validateSteps_self], id, fun _ => id, fun _ => .inl⟩
    · split at gone
      · cases gone
      · rename_i reachable
        split at gone
        · rename_i visited
          cases gone
          exact ⟨_, 0, 0, by rw [validateSteps_self], fun kept => kept.revisit visited, fun _ => id, fun _ => .inl⟩
        · rename_i unvisited
          cases gone
          refine ⟨_, _, _, rfl, fun kept => ?_, fun step visited => ?_, fun step visited => ?_⟩
          · split
            · have next : index = progress.furthest + 1 := by
                have beyond := mt (kept.hasVisited_iff_le index).mpr unvisited
                omega
              rw [kept.length_visited, next] at inside
              rw [next]
              exact kept.moveTo (Nat.not_le.mp inside)
            · exact kept
          · split
            · rw [Progress.hasVisited_moveTo, visited, Bool.true_or]
            · exact visited
          · split at visited
            · rename_i passed
              rw [Progress.hasVisited_moveTo, Bool.or_eq_true, decide_eq_true_eq] at visited
              exact visited.imp_right fun here => ⟨here.1, List.isEmpty_iff.mp passed⟩
            · exact .inl visited

/-- What comes of asking a stepper to go to the first step that was not visited: it arrives there if every step from
the current one up to it passes, and these steps are valid then; or it is kept back by a step that does not pass. -/
inductive Advances (path : Path) (frame : Frame) (progress : Progress) (members : List (String × Node)) (index : Nat) :
    Node → List (Path × List String) → Prop where
  | arrived (checked : List (String × Node)) (same : checked.length = members.length)
      (passed : ∀ step entry, progress.current ≤ step → step < index → members[step]? = some entry →
        entry.2.failures (path.join entry.1) = [])
      (valid : ∀ step entry, progress.current ≤ step → step < index → checked[step]? = some entry →
        entry.2.isValid = true) :
      Advances path frame progress members index (.collection frame (some (progress.moveTo index)) checked) []
  | keptBack (checked : List (String × Node)) (same : checked.length = members.length)
      (failures : List (Path × List String)) (reported : failures ≠ [])
      (failed : ∃ step entry, progress.current ≤ step ∧ step < index ∧ members[step]? = some entry ∧
        entry.2.failures (path.join entry.1) ≠ []) :
      Advances path frame progress members index (.collection frame (some progress) checked) failures

/-- A step that was not visited can only be reached as the one behind the last visited step. -/
theorem advances_of_goTo {path : Path} {index : Nat} {frame : Frame} {progress : Progress}
    {members : List (String × Node)} {moved : Node} {failures : List (Path × List String)}
    (kept : progress.WellKept members.length) (unvisited : progress.hasVisited index = false)
    (gone : (Node.collection frame (some progress) members).goTo path index = .ok (moved, failures)) :
    index = progress.furthest + 1 ∧ Advances path frame progress members index moved failures := by
  have beyond : ¬ index ≤ progress.furthest := by
    rw [← kept.hasVisited_iff_le, unvisited]
    exact Bool.false_ne_true
  rw [goTo_eq kept] at gone
  split at gone
  · cases gone
  · split at gone
    · cases gone
    · rename_i reachable
      cases gone
      refine ⟨by omega, ?_⟩
      have length := length_validateSteps path progress.current index members
      cases outcome : stepFailures path progress.current index members with
      | nil =>
          exact .arrived _ length (stepFailures_eq_nil_iff.mp outcome)
            fun step entry atLeast before there => isValid_validateSteps outcome atLeast before there
      | cons failure others =>
          refine .keptBack _ length _ (List.cons_ne_nil _ _) ?_
          by_contra none
          have passed : stepFailures path progress.current index members = [] := by
            rw [stepFailures_eq_nil_iff]
            intro step entry atLeast before there
            by_contra fails
            exact none ⟨step, entry, atLeast, before, there, fails⟩
          rw [outcome] at passed
          cases passed

/-! ## All steppers of a node -/

/-- The path of a stepper, its progress, and how many steps it has. -/
abbrev Stepper := Path × Progress × Nat

/-- What a face shows if it is that of a stepper. -/
def Face.stepper (path : Path) : Face → List Stepper
  | .collection _ progress size => (progress.map fun own => (path, own, size)).toList
  | _ => []

/-- All steppers at and beneath a node with their paths. -/
def steppers (path : Path) (node : Node) : List Stepper := node.survey Face.stepper path

theorem mem_steppers_iff {path place : Path} {progress : Progress} {steps : Nat} {node : Node} :
    (place, progress, steps) ∈ node.steppers path ↔ ∃ frame members,
      (place, Node.collection frame (some progress) members) ∈ node.nodes false path ∧ members.length = steps := by
  rw [steppers, survey, List.mem_flatMap]
  constructor
  · rintro ⟨⟨found, inner⟩, listed, shown⟩
    cases inner with
    | form => cases shown
    | series => cases shown
    | collection frame own members =>
        cases own with
        | none => cases shown
        | some own =>
            obtain ⟨rfl, rfl, rfl⟩ : place = found ∧ progress = own ∧ steps = members.length := by
              simpa [face, Face.stepper] using shown
            exact ⟨frame, members, listed, rfl⟩
  · rintro ⟨frame, members, listed, rfl⟩
    exact ⟨_, listed, List.mem_singleton.mpr rfl⟩

theorem steppers_collection (path : Path) (frame : Frame) (progress : Option Progress)
    (members : List (String × Node)) : (Node.collection frame progress members).steppers path =
      (progress.map fun own => (path, own, members.length)).toList ++
        members.flatMap fun entry => entry.2.steppers (path.join entry.1) := by
  rw [steppers, survey_collection]
  rfl

theorem steppers_map {onForm : Path → Form → Form} {onFrame : Path → Frame → Frame} (liveOnly : Bool)
    (here path : Path) (node : Node) :
    (node.map liveOnly onForm onFrame here).steppers path = node.steppers path := by
  refine survey_map (fun here place shown => ?_) liveOnly here path node
  cases shown <;> rfl

theorem steppers_modifyForm (change : List String → Form → Form) (segments : List String) (path : Path) (node : Node) :
    (node.modifyForm change segments).steppers path = node.steppers path :=
  @survey_modifyForm _ Face.stepper change (fun _ _ _ => rfl) segments path node

theorem steppers_touch (segments : List String) (path : Path) (node : Node) :
    (node.touch segments).steppers path = node.steppers path :=
  survey_touch (fun _ _ _ _ => rfl) segments path node

theorem steppers_validateAt (place : Path) (segments : List String) (path : Path) (node : Node) :
    (node.modify (Node.validate place) segments).steppers path = node.steppers path :=
  survey_validateAt (fun _ _ _ => rfl) place segments path node

/-- No stepper stands at or beneath a series. -/
theorem steppers_series {path : Path} {frame : Frame} {template : List (String × Node)} {siblings : List Sibling}
    (regular : (Node.series frame template siblings).Regular)
    (without : (Node.series frame template siblings).plan.hasStepper = false) :
    (Node.series frame template siblings).steppers path = [] := by
  rw [List.eq_nil_iff_forall_not_mem]
  rintro ⟨place, progress, steps⟩ listed
  obtain ⟨inner, members, there, -⟩ := mem_steppers_iff.mp listed
  obtain ⟨segments, -, stands⟩ := mem_nodes_iff.mp there
  have beneath := @plan_of_stands (fun plan => plan.hasStepper = false) NodePlan.hasStepper_of_mem _ _ _
    regular.uniform without stands
  cases beneath

/-- To put another progress in a stepper, and to check some of its steps, changes the entry of the stepper and no
other one. -/
theorem steppers_goTo {place : Path} {node : Node} {segments : List String} {frame : Frame} {progress : Progress}
    {members : List (String × Node)} (found : node.get? segments = some (.collection frame (some progress) members))
    (path : Path) (reached : Progress) (first last : Nat) :
    ∃ front back, node.steppers path = front ++ (path.extend ⟨segments⟩, progress, members.length) :: back ∧
      (node.modify (fun _ => .collection frame (some reached) (validateSteps place first last members))
        segments).steppers path = front ++ (path.extend ⟨segments⟩, reached, members.length) :: back := by
  let beneath := members.flatMap fun entry => entry.2.steppers ((path.extend ⟨segments⟩).join entry.1)
  have checked : (validateSteps place first last members).flatMap
      (fun entry => entry.2.steppers ((path.extend ⟨segments⟩).join entry.1)) = beneath := by
    rw [List.flatMap_def]
    exact congrArg List.flatten (map_validateSteps (fun name inner => steppers_map true _ _ inner) first last members)
  obtain ⟨front, back, split⟩ := @exists_survey_modify _ Face.stepper _ _ _ found path
  have same := split (.collection frame (some progress) members)
  rw [modify_self found] at same
  refine ⟨front, beneath ++ back, same.trans ?_, (split _).trans ?_⟩
  · rw [← steppers, steppers_collection, List.append_assoc]
    rfl
  · rw [← steppers, steppers_collection, checked, length_validateSteps, List.append_assoc]
    rfl

/-! ## Steppers from the start -/

/-- Every stepper at and beneath a node is kept well. -/
def Paced (node : Node) : Prop :=
  ∀ segments frame progress members, node.Stands segments (.collection frame (some progress) members) →
    progress.WellKept members.length

theorem paced_iff (path : Path) {node : Node} :
    node.Paced ↔ ∀ shown ∈ node.steppers path, shown.2.1.WellKept shown.2.2 := by
  constructor
  · rintro paced ⟨place, progress, steps⟩ listed
    obtain ⟨frame, members, there, rfl⟩ := mem_steppers_iff.mp listed
    obtain ⟨segments, -, stands⟩ := mem_nodes_iff.mp there
    exact paced segments frame progress members stands
  · intro kept segments frame progress members stands
    have listed : (path.extend ⟨segments⟩, progress, members.length) ∈ node.steppers path :=
      mem_steppers_iff.mpr ⟨frame, members, mem_nodes_iff.mpr ⟨segments, rfl, stands⟩, rfl⟩
    exact kept _ listed

theorem paced_form (content : Form) : (Node.form content).Paced := by
  intro segments frame progress members stands
  obtain ⟨-, same⟩ := stands_form_iff.mp stands
  cases same

theorem paced_collection {frame : Frame} {progress : Option Progress} {members : List (String × Node)}
    (own : ∀ kept, progress = some kept → kept.WellKept members.length) (inner : ∀ entry ∈ members, entry.2.Paced) :
    (Node.collection frame progress members).Paced := by
  intro segments innerFrame innerProgress innerMembers stands
  cases stands with
  | here => exact own _ rfl
  | member inside below => exact inner _ inside _ _ _ _ below

theorem paced_series {frame : Frame} {template : List (String × Node)} {siblings : List Sibling}
    (inner : ∀ sibling ∈ siblings, ∀ entry ∈ sibling.members, entry.2.Paced) :
    (Node.series frame template siblings).Paced := by
  intro segments innerFrame innerProgress innerMembers stands
  cases stands with
  | sibling there inside below => exact inner _ (List.mem_of_getElem? there) _ inside _ _ _ _ below

theorem Paced.member {frame : Frame} {progress : Option Progress} {members : List (String × Node)}
    (paced : (Node.collection frame progress members).Paced) {entry : String × Node} (inside : entry ∈ members) :
    entry.2.Paced :=
  fun _ _ _ _ stands => paced _ _ _ _ (.member inside stands)

/-- The steppers of what is built are kept well, whatever initial data are put in place. -/
theorem Planted.paced {node : Node} (planted : node.Planted) :
    node.Paced ∧ ∀ data, (node.fill data).Paced := by
  have begins {own : Progress} {steps : Nat} (some : 0 < steps) (same : own = .start steps) : own.WellKept steps :=
    same ▸ Progress.WellKept.start some
  induction planted with
  | form content => exact ⟨paced_form content, fun data => paced_form _⟩
  | @collection frame progress members starts inner ih =>
      have own (kept : Progress) (same : progress = some kept) : kept.WellKept members.length :=
        begins (List.length_pos_of_ne_nil (starts kept same).1) (starts kept same).2
      refine ⟨paced_collection own fun entry inside => (ih entry inside).1, fun data => ?_⟩
      rw [fill, fillMembers_eq]
      refine paced_collection (by simpa using own) ?_
      intro entry inside
      obtain ⟨old, there, rfl⟩ := List.mem_map.mp inside
      exact (ih old there).2 _
  | @series frame template least inTemplate ih =>
      have filled (given : List Sibling)
          (inGiven : ∀ sibling ∈ given, ∀ entry ∈ sibling.members, entry.2.Paced) :
          (Node.series frame template (frame.populate template given)).Paced := by
        refine paced_series fun sibling among entry inside => ?_
        rcases members_of_mem_populate among with there | copy
        · exact inGiven sibling there entry inside
        · exact (ih entry (copy ▸ inside)).1
      refine ⟨filled [] (by simp), fun data => filled _ fun sibling among entry inside => ?_⟩
      obtain ⟨given, -, rfl⟩ := List.mem_map.mp among
      rw [Sibling.members_mk, fillMembers_eq] at inside
      obtain ⟨old, there, rfl⟩ := List.mem_map.mp inside
      exact (ih old there).2 _

/-- Steppers are still kept well when their prefilled steps are marked. -/
theorem Paced.markPrefilled {node : Node} (paced : node.Paced) : node.markPrefilled.Paced := by
  induction node using Node.induction with
  | form content => exact paced
  | series frame template siblings _ _ => exact paced
  | collection frame progress members ih =>
      rw [Node.markPrefilled, markPrefilledAll_eq]
      refine paced_collection (fun kept same => ?_) fun entry inside => ?_
      · obtain ⟨old, rfl, rfl⟩ := Option.map_eq_some_iff.mp same
        rw [List.length_map]
        exact (paced [] frame old members (.here _)).prefilled members
      · obtain ⟨old, there, rfl⟩ := List.mem_map.mp inside
        exact ih old there (paced.member there)

end Node

end Formwork
