import Mathlib.Data.List.InsertIdx
import Formwork.Proofs.Node.Mounting
import Formwork.Proofs.Node.Moves

/-!
# Steps and siblings keep a node regular

Going to a step changes the progress of a stepper and records checks in its members; adding and
removing a sibling change only the list of siblings, and a new sibling is a copy of the template.
So each of them answers a node that follows the one it was given. Going to a step moves no element;
the other two move what stands behind the sibling, and the remembered paths with it
(`Node.layout_addSibling`, `Node.layout_removeSibling`).
-/

set_option autoImplicit false

namespace Formwork

theorem Frame.plan_of_move {frame later : Frame} (move : Frame.Move frame later) : later.plan = frame.plan := by
  cases move <;> rfl

/-- An elementary change keeps the plan of a form. -/
theorem Form.plan_of_move {content later : Form} (move : Form.Move content later) : later.plan = content.plan := by
  cases move with
  | stay => rfl
  | refresh => exact content.plan_refresh _ _
  | latch => exact content.plan_latch _ _
  | validate => exact content.plan_validate _
  | validateAt => exact content.plan_validateAt _ _
  | setErrors messages => exact content.plan_modifyField (Field.plan_setErrors messages) _
  | setValue value => exact content.plan_modifyField (Field.plan_setValue value) _
  | setSelfDisabled disabled => exact content.plan_modifyField (Field.plan_setSelfDisabled disabled) _
  | addErrors messages => exact content.plan_modifyGroup (Group.plan_addErrors messages) _
  | clearErrors => exact content.plan_clearErrors
  | reset => exact content.plan_reset
  | openDialog => exact content.plan_openDialog
  | closeDialog => exact content.plan_closeDialog _ _

namespace Node

/-- No check is recorded in an empty range of steps. -/
theorem validateSteps_self (path : Path) (step : Nat) (members : List (String × Node)) :
    validateSteps path step step members = members := by
  have nowhere (index : Nat) : ¬ (step ≤ index ∧ index < step) := by omega
  simp only [validateSteps, nowhere, if_false]
  exact List.zipIdx_map_fst 0 members

/-- Going to a step changes the progress and records the outcome of the check in some members. -/
theorem goTo_eq_ok {path : Path} {index : Nat} {node moved : Node}
    {failures : List (Path × List String)} (gone : node.goTo path index = .ok (moved, failures)) :
    ∃ frame progress members reached first last,
      node = .collection frame (some progress) members ∧
        moved = .collection frame (some reached) (validateSteps path first last members) := by
  unfold goTo at gone
  split at gone
  · rename_i frame progress members
    split at gone
    · cases gone
    · split at gone
      · cases gone
        exact ⟨_, _, _, progress, 0, 0, rfl, by rw [validateSteps_self]⟩
      · split at gone
        · cases gone
        · split at gone
          · cases gone
            exact ⟨_, _, _, _, 0, 0, rfl, by rw [validateSteps_self]⟩
          · cases gone
            exact ⟨_, _, _, _, _, _, rfl, rfl⟩
  · cases gone

theorem mem_validateSteps {path : Path} {first last : Nat} {members : List (String × Node)}
    {entry : String × Node} (inside : entry ∈ validateSteps path first last members) :
    ∃ node, (entry.1, node) ∈ members ∧
      (entry.2 = node ∨ entry.2 = node.validate (path.join entry.1)) := by
  obtain ⟨old, there, rfl⟩ := List.mem_map.mp inside
  refine ⟨old.1.2, List.fst_mem_of_mem_zipIdx there, ?_⟩
  dsimp only
  split
  · exact .inr rfl
  · exact .inl rfl

theorem length_validateSteps (path : Path) (first last : Nat) (members : List (String × Node)) :
    (validateSteps path first last members).length = members.length := by
  rw [validateSteps, List.length_map, List.length_zipIdx]

/-- What the check does not affect in a single member is the same in all steps afterwards. -/
theorem map_validateSteps {α : Type} {path : Path} {view : String × Node → α}
    (keeps : ∀ name node, view (name, Node.validate (path.join name) node) = view (name, node))
    (first last : Nat) (members : List (String × Node)) :
    (validateSteps path first last members).map view = members.map view := by
  rw [validateSteps, List.map_map]
  calc members.zipIdx.map _
      = members.zipIdx.map (view ∘ Prod.fst) := List.map_congr_left fun entry _ => by
        simp only [Function.comp_apply]
        split
        · exact keeps entry.1.1 entry.1.2
        · rfl
    _ = (members.zipIdx.map Prod.fst).map view := (List.map_map ..).symm
    _ = members.map view := by rw [List.zipIdx_map_fst]

theorem plans_validateSteps (path : Path) (first last : Nat) (members : List (String × Node)) :
    plans (validateSteps path first last members) = plans members := by
  rw [plans_eq, plans_eq]
  exact map_validateSteps (fun name node => by rw [(retains_validate _ node).plan]) first last members

theorem layoutMembers_validateSteps (path place : Path) (first last : Nat) (members : List (String × Node)) :
    layoutMembers place (validateSteps path first last members) = layoutMembers place members := by
  rw [layoutMembers_eq, layoutMembers_eq]
  exact map_validateSteps (fun name node => by rw [(retains_validate _ node).layout]) first last members

theorem retains_goTo {path : Path} {index : Nat} {node moved : Node}
    {failures : List (Path × List String)} (gone : node.goTo path index = .ok (moved, failures)) :
    moved.Retains node := by
  obtain ⟨frame, progress, members, reached, first, last, rfl, rfl⟩ := goTo_eq_ok gone
  refine ⟨⟨plan_collection_congr rfl rfl (plans_validateSteps path first last members), ?_⟩, ?_⟩
  · rintro ⟨⟩
    rename_i inner
    refine .collection ?_
    intro entry inside
    obtain ⟨old, there, same | checked⟩ := mem_validateSteps inside
    · exact same ▸ inner _ there
    · exact checked ▸ (retains_validate _ old).uniform (inner _ there)
  · intro place
    rw [layout, layout, layoutMembers_validateSteps]

/-- An elementary change of a node keeps its plan, and its elements remember the same paths. -/
theorem Move.retains {node later : Node} (move : Move node later) : later.Retains node := by
  cases move with
  | everywhere forms frames liveOnly path =>
      exact retains_map (fun place content => Form.plan_of_move (forms place content))
        (fun place frame => Frame.plan_of_move (frames place frame)) liveOnly path node
  | onTheWay forms segments =>
      exact retains_modifyForm (fun names content => Form.plan_of_move (forms names content)) segments node
  | touch segments => exact retains_touch segments node
  | validatePart place segments =>
      refine retains_along (fun rest inner => ?_) segments node
      split
      · exact retains_validate place inner
      · exact .refl _
  | goTo stands gone => exact retains_modify stands (retains_goTo gone)

/-- Adding a sibling puts a copy of the template behind a sibling that is there or at the end, if there is
room for it. -/
theorem addSibling_eq_ok {path : Path} {behind : Option Nat} {node extended : Node} {position : Nat}
    (added : node.addSibling path behind = .ok (extended, position)) :
    ∃ frame template siblings, node = .series frame template siblings ∧
      extended = .series frame template (siblings.insertIdx position (.mk false template)) ∧
        position = behind.elim siblings.length (· + 1) ∧ position ≤ siblings.length ∧
          ∀ greatest, frame.plan.maxSiblings = some greatest → siblings.length < greatest := by
  unfold addSibling at added
  split at added
  · rename_i frame template siblings
    dsimp only at added
    have last (extended : Node) (position : Nat)
        (added : (match behind with
          | some index => do
            if siblings.length ≤ index then throw (.siblingOutOfRange path index)
            pure (Node.series frame template (siblings.insertIdx (index + 1) (.mk false template)), index + 1)
          | none => pure (Node.series frame template
              (siblings.insertIdx siblings.length (.mk false template)), siblings.length) :
            Except Rejection (Node × Nat)) = .ok (extended, position)) :
        extended = .series frame template (siblings.insertIdx position (.mk false template)) ∧
          position = behind.elim siblings.length (· + 1) ∧ position ≤ siblings.length := by
      cases behind with
      | none =>
          cases added
          exact ⟨rfl, rfl, Nat.le_refl _⟩
      | some index =>
          dsimp only at added
          split at added
          · cases added
          · rename_i inside
            cases added
            exact ⟨rfl, rfl, Nat.not_le.mp inside⟩
    split at added
    · rename_i greatest bound
      split at added
      · cases added
      · rename_i free
        obtain ⟨same, place, inside⟩ := last extended position (by cases behind <;> exact added)
        refine ⟨frame, template, siblings, rfl, same, place, inside, fun other sameBound => ?_⟩
        cases bound.symm.trans sameBound
        exact Nat.not_le.mp free
    · rename_i unbound
      obtain ⟨same, place, inside⟩ := last extended position (by cases behind <;> exact added)
      refine ⟨frame, template, siblings, rfl, same, place, inside, fun other sameBound => ?_⟩
      cases unbound.symm.trans sameBound
  · cases added
  · cases added

/-- The copy of the template and the renumbered siblings remember the paths of the series as it is now. -/
theorem layout_addSibling {path : Path} {behind : Option Nat} {node extended : Node} {position : Nat}
    (added : node.addSibling path behind = .ok (extended, position)) (place : Path) :
    (node.layout place).addSibling behind = extended.layout place := by
  obtain ⟨frame, template, siblings, rfl, rfl, same, -⟩ := addSibling_eq_ok added
  have length : (layoutSiblings place 0 siblings).length = siblings.length := by
    rw [layoutSiblings_eq, List.length_map, List.length_zipIdx]
  rw [layout, Layout.addSibling, length, ← same, layout,
    layoutSiblings_insertIdx _ _ _ _ (.mk false template) (rebaseMembers_layoutMembers _ _ template)]

theorem follows_addSibling {path : Path} {behind : Option Nat} {node extended : Node} {position : Nat}
    (added : node.addSibling path behind = .ok (extended, position)) : extended.Follows node := by
  obtain ⟨frame, template, siblings, rfl, rfl, -⟩ := addSibling_eq_ok added
  refine ⟨rfl, ?_⟩
  rintro ⟨⟩
  rename_i inTemplate inner alike
  refine .series inTemplate (fun sibling inside => ?_) fun sibling inside => ?_
  all_goals rcases List.eq_or_mem_of_mem_insertIdx inside with rfl | old
  · rfl
  · exact alike sibling old
  · exact inTemplate
  · exact inner sibling old

/-- Removing a sibling leaves out the sibling at the index, if enough live ones are left. -/
theorem removeSibling_eq_ok {path : Path} {index : Nat} {node reduced : Node}
    (removed : node.removeSibling path index = .ok reduced) :
    ∃ frame template siblings, node = .series frame template siblings ∧
      reduced = .series frame template (siblings.eraseIdx index) ∧
        frame.least ≤ liveCount (siblings.eraseIdx index) := by
  unfold removeSibling at removed
  split at removed
  · split at removed
    · cases removed
    · dsimp only at removed
      split at removed
      · cases removed
      · rename_i enough
        cases removed
        exact ⟨_, _, _, rfl, rfl, Nat.not_lt.mp enough⟩
  · cases removed
  · cases removed

/-- The renumbered siblings remember the paths of the series as it is now. -/
theorem layout_removeSibling {path : Path} {index : Nat} {node reduced : Node}
    (removed : node.removeSibling path index = .ok reduced) (place : Path) :
    (node.layout place).removeSibling index = reduced.layout place := by
  obtain ⟨frame, template, siblings, rfl, rfl, -⟩ := removeSibling_eq_ok removed
  rw [layout, Layout.removeSibling, layout, layoutSiblings_eraseIdx]

theorem follows_removeSibling {path : Path} {index : Nat} {node reduced : Node}
    (removed : node.removeSibling path index = .ok reduced) : reduced.Follows node := by
  obtain ⟨frame, template, siblings, rfl, rfl, -⟩ := removeSibling_eq_ok removed
  refine ⟨rfl, ?_⟩
  rintro ⟨⟩
  rename_i inTemplate inner alike
  exact .series inTemplate (fun sibling inside => alike sibling (List.mem_of_mem_eraseIdx inside))
    fun sibling inside => inner sibling (List.mem_of_mem_eraseIdx inside)

end Node

end Formwork
