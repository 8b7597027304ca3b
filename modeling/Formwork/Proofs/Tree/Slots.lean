import Formwork.Proofs.Node.Slots
import Formwork.Proofs.Tree.Marks
import Formwork.Proofs.Tree.Retrying

/-!
# What gets into the error slots

Messages of a server for a form or fieldset go into its slot, behind those that are there, and messages for no place
of the tree go behind the other stray ones (`Tree.applyErrors_slots`). A validation leaves each slot as it is or
empties it, and while a tree waits nothing else but messages changes a slot (`Tree.kept_after`).

Which messages are meant for which place (`Tree.handedTo`) and which of them go astray (`Tree.handedAstray`) does not
depend on messages, so trees that differ in messages only agree on it, as they do on what is offered and on what lies
in a closed dialog.
-/

set_option autoImplicit false

namespace Formwork

/-! ## Groups without their messages -/

theorem Form.group?_clearErrors (names : List String) (form : Form) :
    form.clearErrors.group? names = (form.group? names).map Group.clearErrors := by
  cases names with
  | nil => rfl
  | cons name rest =>
      rw [group?, group?, find?_clearErrors]
      rcases Member.find? name rest form.members with _ | entry | ⟨group, members⟩
      · rfl
      · rfl
      · rfl

theorem Group.addErrors_nil (group : Group) : group.addErrors [] = group := by
  rw [addErrors, List.append_nil]

theorem Group.addErrors_addErrors (group : Group) (first second : List String) :
    (group.addErrors first).addErrors second = group.addErrors (first ++ second) := by
  simp only [addErrors, List.append_assoc]

namespace Tree

theorem group?_clearErrors (tree : Tree) (path : Path) :
    tree.clearErrors.group? path = (tree.group? path).map Group.clearErrors := by
  have below : tree.clearErrors.below? path = tree.below? path := rfl
  have root : tree.clearErrors.root = tree.root.clearErrors := rfl
  rw [group?, group?, below, root]
  cases tree.below? path with
  | none => rfl
  | some segments =>
      rw [Option.bind_some, Option.bind_some, Node.group?, Node.group?, Node.formAt?_clearErrors]
      cases tree.root.formAt? segments with
      | none => rfl
      | some entry => exact entry.2.group?_clearErrors entry.1

variable {tree : Tree}

/-! ## Messages and their places -/

section Handed

variable (tree) (messages : Messages)

/-- What is handed over for a place: the messages under the keys that mean it. -/
def handedTo (place : Path) : List String :=
  (messages.filter fun entry => tree.target entry.1 == place).flatMap Prod.snd

/-- A key names neither a field nor a form or fieldset. -/
def isAstray (key : String) : Bool :=
  !(tree.field? (tree.target key)).isSome && !(tree.group? (tree.target key)).isSome

/-- What is handed over under keys that go astray. -/
def handedAstray : List String := (messages.filter fun entry => tree.isAstray entry.1).flatMap Prod.snd

theorem handedTo_append (more : Messages) (place : Path) :
    tree.handedTo (messages ++ more) place = tree.handedTo messages place ++ tree.handedTo more place := by
  rw [handedTo, List.filter_append, List.flatMap_append, ← handedTo, ← handedTo]

theorem handedAstray_append (more : Messages) :
    tree.handedAstray (messages ++ more) = tree.handedAstray messages ++ tree.handedAstray more := by
  rw [handedAstray, List.filter_append, List.flatMap_append, ← handedAstray, ← handedAstray]

variable {messages}

theorem handedTo_single_of_ne {key : String} {place : Path} (elsewhere : place ≠ tree.target key)
    (contents : List String) : tree.handedTo [(key, contents)] place = [] := by
  have other : (tree.target key == place) = false := beq_eq_false_iff_ne.mpr (Ne.symm elsewhere)
  simp [handedTo, other]

theorem handedTo_single_self (key : String) (contents : List String) :
    tree.handedTo [(key, contents)] (tree.target key) = contents := by
  simp [handedTo]

theorem handedAstray_single (key : String) (contents : List String) :
    tree.handedAstray [(key, contents)] = if tree.isAstray key then contents else [] := by
  cases astray : tree.isAstray key <;> simp [handedAstray, astray]

end Handed

section Alike

variable {first second : Tree} (alike : Alike first second)
include alike

/-- Messages mean the same places in trees that differ in messages only. -/
theorem Alike.target (key : String) : first.target key = second.target key := by
  rw [Tree.target, Tree.target, Tree.path, Tree.path, alike.here]

theorem Alike.handedTo (messages : Messages) (place : Path) :
    first.handedTo messages place = second.handedTo messages place := by
  simp only [Tree.handedTo, alike.target]

theorem Alike.isSome_field? (path : Path) : (first.field? path).isSome = (second.field? path).isSome := by
  have same : first.clearErrors.field? path = second.clearErrors.field? path := by
    rw [alike.clearErrors_eq]
    rfl
  rw [field?_clearErrors, field?_clearErrors] at same
  simpa using congrArg Option.isSome same

theorem Alike.isSome_group? (path : Path) : (first.group? path).isSome = (second.group? path).isSome := by
  have same : first.clearErrors.group? path = second.clearErrors.group? path := by
    rw [alike.clearErrors_eq]
    rfl
  rw [group?_clearErrors, group?_clearErrors] at same
  simpa using congrArg Option.isSome same

theorem Alike.handedAstray (messages : Messages) : first.handedAstray messages = second.handedAstray messages := by
  simp only [Tree.handedAstray, Tree.isAstray, alike.target, alike.isSome_field?, alike.isSome_group?]

theorem Alike.markings : first.markings = second.markings := by
  have kept (tree : Tree) : tree.root.clearErrors.markings tree.here = tree.markings :=
    Node.markings_map false .root tree.here tree.root
  rw [← kept first, ← kept second, alike.root, alike.here]

theorem Alike.offered {path : Path} (offered : first.Offered path) : second.Offered path := by
  rw [offered_iff_marked] at offered ⊢
  rwa [← alike.markings]

theorem Alike.inClosedDialog {path : Path} (closed : first.InClosedDialog path) : second.InClosedDialog path := by
  obtain ⟨place, content, names, listed, isClosed, same⟩ := closed
  obtain ⟨other, there, sameForm⟩ := alike.exists_form listed
  have sameDialog : other.clearErrors.dialog = content.clearErrors.dialog := congrArg Form.dialog sameForm
  have sameClosed : other.isClosedDialog = content.isClosedDialog :=
    congrArg (fun dialog : Option Dialog => ({ content with dialog } : Form).isClosedDialog) sameDialog
  exact ⟨place, other, names, there, sameClosed.trans isClosed, same⟩

end Alike

/-! ## What messages do to the slots -/

theorem strayErrors_change (tree : Tree) (place : Path) (edit : List String → Node → Node) :
    (tree.change place edit).strayErrors = tree.strayErrors := by
  unfold change
  split <;> rfl

section Effects

variable (regular : tree.root.Regular)
include regular

/-- No field stands at the path of a form or fieldset. -/
theorem field?_eq_none_of_group {path : Path} {group : Group} (listed : (path, group) ∈ tree.groups) :
    tree.field? path = none := by
  rw [Option.eq_none_iff_forall_ne_some]
  intro field found
  obtain ⟨front, form, names, rfl, stands, member⟩ := Node.mem_fields_iff.mp ((field?_eq_some_iff regular).mp found)
  obtain ⟨around, other, standsOther, place⟩ := Node.mem_groups_iff.mp listed
  rcases place with ⟨same, -⟩ | ⟨rest, members, same, fieldset⟩
  · have segments : front ++ names = around ++ [] := by
      rw [List.append_nil]
      exact congrArg Path.segments (Path.extend_injective same)
    obtain ⟨-, rfl, -⟩ := Node.stands_form_unique regular stands standsOther segments
    exact member.ne_nil rfl
  · have segments := congrArg Path.segments (Path.extend_injective same)
    obtain ⟨-, rfl, rfl⟩ := Node.stands_form_unique regular stands standsOther segments
    cases member.unique (regular.stands stands).form fieldset

/-- Messages go behind those of the group that they are meant for. -/
theorem groups_applyMessages (key : String) (contents : List String) :
    (tree.applyMessages key contents).groups = tree.groups.map fun entry =>
      (entry.1, entry.2.addErrors (tree.handedTo [(key, contents)] entry.1)) := by
  have elsewhere (apart : ∀ entry ∈ tree.groups, entry.1 ≠ tree.target key) :
      (tree.groups.map fun entry => (entry.1, entry.2.addErrors (tree.handedTo [(key, contents)] entry.1))) =
        tree.groups := by
    refine (List.map_congr_left fun entry listed => ?_).trans (List.map_id _)
    rw [handedTo_single_of_ne tree (apart entry listed), Group.addErrors_nil]
    rfl
  rw [applyMessages_eq]
  split
  · rename_i isField
    rw [elsewhere fun entry listed same => ?_]
    · unfold change
      split
      · exact Node.groups_modifyField regular _ tree.here _
      · rfl
    · rw [← same, field?_eq_none_of_group regular listed] at isField
      cases isField
  · split
    · rename_i isGroup
      obtain ⟨group, found⟩ := Option.isSome_iff_exists.mp isGroup
      obtain ⟨segments, below, -⟩ := Option.bind_eq_some_iff.mp found
      rw [change_of_below below]
      refine (Node.groups_modifyGroup regular _ tree.here segments).trans (List.map_congr_left fun entry _ => ?_)
      rw [← below?_eq_some_iff.mp below]
      split
      · rename_i here
        rw [here, handedTo_single_self]
      · rename_i there
        rw [handedTo_single_of_ne tree there, Group.addErrors_nil]
    · rename_i noGroup
      rw [elsewhere fun entry listed same => noGroup ?_]
      · rfl
      · rw [← same, (group?_eq_some_iff regular).mpr listed]
        rfl

omit regular in
/-- Messages that are meant for no place go behind the other stray ones. -/
theorem strayErrors_applyMessages (key : String) (contents : List String) :
    (tree.applyMessages key contents).strayErrors = tree.strayErrors ++ tree.handedAstray [(key, contents)] := by
  rw [applyMessages_eq, handedAstray_single, isAstray]
  cases isField : (tree.field? (tree.target key)).isSome with
  | true => simp [strayErrors_change]
  | false =>
      cases isGroup : (tree.group? (tree.target key)).isSome with
      | true => simp [strayErrors_change]
      | false => simp

/-- What messages leave: each slot has those that are meant for it behind those it had, and so have the stray ones. -/
theorem applyErrors_slots (messages : Messages) :
    (tree.applyErrors messages).strayErrors = tree.strayErrors ++ tree.handedAstray messages ∧
      (tree.applyErrors messages).groups = tree.groups.map fun entry =>
        (entry.1, entry.2.addErrors (tree.handedTo messages entry.1)) := by
  induction messages generalizing tree with
  | nil =>
      refine ⟨(List.append_nil _).symm, ?_⟩
      refine ((List.map_congr_left fun entry _ => ?_).trans (List.map_id _)).symm
      exact Prod.ext rfl entry.2.addErrors_nil
  | cons entry rest ih =>
      obtain ⟨key, contents⟩ := entry
      have notes := tree.applyMessages_notes key contents
      obtain ⟨strays, groups⟩ := ih (regular.follows notes.moves.retains.toFollows)
      have later : tree.applyErrors ((key, contents) :: rest) =
          (tree.applyMessages key contents).applyErrors rest := rfl
      rw [later, strays, groups, strayErrors_applyMessages, groups_applyMessages regular, List.map_map]
      constructor
      · rw [notes.alike.handedAstray, List.append_assoc, ← handedAstray_append]
        rfl
      · refine List.map_congr_left fun entry _ => Prod.ext rfl ?_
        simp only [Function.comp_apply]
        rw [Group.addErrors_addErrors, notes.alike.handedTo, ← handedTo_append]
        rfl

end Effects

/-! ## What a validation leaves in the slots -/

theorem kept_validate (tree : Tree) : Group.KeptFrom tree.groups tree.validate.1.groups :=
  Node.kept_validate tree.here tree.here tree.root

theorem kept_validatePart (tree : Tree) (scope : Path) :
    Group.KeptFrom tree.groups (tree.validatePart scope).1.groups := by
  have kept {edit : List String → Node → Node}
      (keeps : ∀ segments path node, Group.KeptFrom (Node.groups path node) ((edit segments node).groups path)) :
      Group.KeptFrom tree.groups (tree.change scope edit).groups := by
    unfold change
    split
    · exact keeps _ tree.here tree.root
    · exact Group.joins_keptFrom.refl _
  unfold validatePart
  split
  · exact kept (Node.kept_validatePart scope)
  · exact kept (Node.kept_validateAt scope)

theorem strayErrors_validatePart (tree : Tree) (scope : Path) :
    (tree.validatePart scope).1.strayErrors = tree.strayErrors := by
  unfold validatePart
  split
  · exact tree.strayErrors_change _ _
  · exact tree.strayErrors_change _ _

/-- While a tree waits nothing adds messages but those that are handed to it and the outcome. -/
theorem kept_after {operation : Operation} (busy : tree.isBusy = true)
    (undelivered : ∀ outcome, operation ≠ .complete outcome) (silent : ∀ messages, operation ≠ .applyErrors messages) :
    Group.KeptFrom tree.groups (tree.after operation).groups ∧
      (tree.after operation).strayErrors.Sublist tree.strayErrors := by
  unfold after
  split
  · rename_i cycle done
    cases operation with
    | setValue path value => exact absurd (setValue_eq_ok done).1 (by simp [busy])
    | click path => exact absurd (click_eq_ok done).1 (by simp [busy])
    | addSibling path behind => exact absurd (addSibling_eq_ok done).1 (by simp [busy])
    | removeSibling path index => exact absurd (removeSibling_eq_ok done).1 (by simp [busy])
    | goToStep path index => exact absurd (goToStep_eq_ok done).1 (by simp [busy])
    | validate =>
        cases done
        refine ⟨tree.kept_validate, ?_⟩
        change (if tree.validate.2.isValid then [] else tree.strayErrors).Sublist tree.strayErrors
        split
        · exact List.nil_sublist _
        · exact .refl _
    | validatePart scope =>
        cases done
        exact ⟨tree.kept_validatePart scope, (tree.strayErrors_validatePart scope).symm ▸ .refl _⟩
    | applyErrors messages => exact absurd rfl (silent messages)
    | reset => exact absurd (reset_eq_ok done).1 (by simp [busy])
    | complete outcome => exact absurd rfl (undelivered outcome)
  · exact ⟨Group.joins_keptFrom.refl _, .refl _⟩

end Tree

end Formwork
