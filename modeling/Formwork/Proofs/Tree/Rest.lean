import Formwork.Proofs.Node.Everywhere
import Formwork.Proofs.Tree.Paths

/-!
# Trees at rest

A tree is at rest if no button fires, its flags come out as they are when they are derived anew, and
its inducers remember the truth of their conditions (`Tree.AtRest`). Settling brings every tree to
rest, notes keep it at rest, and every operation ends with one or the other. So every reachable tree
is at rest (`Tree.Reachable.atRest`), however its operations were ordered and wherever a chain of
calls was suspended.

What the flags of a tree at rest mean is said at the end (`Tree.Reachable.coherent`).
-/

set_option autoImplicit false

namespace Formwork

open Relation

namespace Tree

variable (tree : Tree)

/-- All forms with their paths, those of pristine siblings included. -/
def forms : List (Path × Form) := tree.root.forms false tree.here

/-- All frames of collections with their paths. -/
def frames : List (Path × Frame) := tree.root.frames tree.here

/-- What conditions read. -/
def lookup : Lookup := lookupIn tree.readings

/-- No button fires, and neither the flags nor the inducers would change. -/
structure AtRest : Prop where
  quiet : tree.firing = none
  refreshed : tree.refresh = tree
  latched : tree.latch = tree

/-! ## What a lookup depends on -/

theorem readings_eq : tree.readings =
    (tree.root.views (fun entry active => entry.reading active) tree.here).map fun entry =>
      (entry.1, entry.2 (tree.fires entry.1)) := by
  rw [readings, Node.views, List.map_map]
  rfl

/-- Trees in which the same button fires and the same fields hold the same values read the same. -/
theorem lookup_congr {first second : Tree} (sameHere : first.namespaceText = second.namespaceText)
    (sameFiring : first.firing = second.firing)
    (sameViews : first.root.views (fun entry active => entry.reading active) first.here =
      second.root.views (fun entry active => entry.reading active) first.here) :
    first.lookup = second.lookup := by
  have here : first.here = second.here := by rw [Tree.here, Tree.here, sameHere]
  rw [lookup, lookup, readings_eq, readings_eq, sameViews, here]
  simp only [fires, sameFiring]

theorem lookup_refresh : tree.refresh.lookup = tree.lookup := by
  refine lookup_congr rfl rfl (Node.views_map (fun place content => ?_) _ _ _)
  exact Member.views_refreshAll (fun _ _ _ _ _ => rfl) _ _ _ _ _ _

theorem lookup_latch : tree.latch.lookup = tree.lookup :=
  lookup_congr rfl rfl (Node.views_map (fun place content => by rw [Form.latch]) _ _ _)

/-! ## How a tree comes to rest -/

variable {tree}

theorem refresh_eq_self_iff :
    tree.refresh = tree ↔ tree.root.refresh tree.lookup tree.here = tree.root :=
  ⟨fun same => congrArg Tree.root same, fun same => congrArg (fun root => { tree with root }) same⟩

theorem latch_eq_self_iff : tree.latch = tree ↔ tree.root.latch tree.lookup tree.here = tree.root :=
  ⟨fun same => congrArg Tree.root same, fun same => congrArg (fun root => { tree with root }) same⟩

/-- A tree is at rest if each of its forms and frames is. -/
theorem atRest_iff : tree.AtRest ↔ tree.firing = none ∧
    (∀ entry ∈ tree.forms, entry.2.refresh tree.lookup entry.1 = entry.2) ∧
      (∀ entry ∈ tree.forms, entry.2.latch tree.lookup entry.1 = entry.2) ∧
        ∀ entry ∈ tree.frames, entry.2.latch tree.lookup entry.1 = entry.2 := by
  have refreshes : tree.refresh = tree ↔ _ := refresh_eq_self_iff
  have latches : tree.latch = tree ↔ _ := latch_eq_self_iff
  rw [Node.refresh, Node.map_eq_self_iff] at refreshes
  rw [Node.latch, Node.map_eq_self_iff] at latches
  constructor
  · rintro ⟨quiet, refreshed, latched⟩
    exact ⟨quiet, (refreshes.mp refreshed).1, (latches.mp latched).1, (latches.mp latched).2⟩
  · rintro ⟨quiet, refreshed, latchedForms, latchedFrames⟩
    exact ⟨quiet, refreshes.mpr ⟨refreshed, fun _ _ => rfl⟩,
      latches.mpr ⟨latchedForms, latchedFrames⟩⟩

/-- A tree in which no button fires comes to rest when its flags and its inducers are brought up to
date. -/
theorem atRest_refresh_latch (quiet : tree.firing = none) : tree.refresh.latch.AtRest := by
  have sameLookup : tree.refresh.latch.lookup = tree.lookup := by rw [lookup_latch, lookup_refresh]
  have root : tree.refresh.latch.root =
      (tree.root.refresh tree.lookup tree.here).latch tree.lookup tree.here :=
    congrArg (fun lookup => (tree.root.refresh tree.lookup tree.here).latch lookup tree.here)
      tree.lookup_refresh
  refine ⟨quiet, refresh_eq_self_iff.mpr ?_, latch_eq_self_iff.mpr ?_⟩
  · rw [sameLookup, root]
    exact Node.refresh_latch_refresh tree.lookup tree.here tree.root
  · rw [sameLookup, root]
    exact Node.latch_latch tree.lookup tree.here _

theorem settle_atRest (cycle : Cycle) : cycle.settle.1.tree.AtRest :=
  atRest_refresh_latch rfl

theorem AtRest.restore (rest : tree.AtRest) : tree.restore.AtRest :=
  atRest_refresh_latch rest.quiet

theorem lookup_prefilled (tree : Tree) : tree.prefilled.lookup = tree.lookup := by
  refine lookup_congr rfl rfl ?_
  rw [Node.views_eq, Node.views_eq, prefilled, Node.forms_markPrefilled]

/-- A mounted tree is at rest: marking the visited steps changes neither forms nor frames. -/
theorem mount_atRest {blueprint : Blueprint} {initial : Option Json}
    (mounted : Tree.mount blueprint initial = .ok tree) : tree.AtRest := by
  obtain ⟨here, built, -, rfl⟩ := mount_eq_ok mounted
  have quiet : (planted blueprint initial built).firing = none := rfl
  have settled := atRest_iff.mp (atRest_refresh_latch quiet)
  generalize (planted blueprint initial built).refresh = fresh at settled ⊢
  have sameLookup : fresh.prefilled.latch.lookup = fresh.latch.lookup := by
    rw [lookup_latch, lookup_latch, lookup_prefilled]
  have sameForms : fresh.prefilled.latch.forms = fresh.latch.forms := by
    change ((fresh.root.markPrefilled).latch fresh.prefilled.lookup fresh.here).forms false fresh.here =
      (fresh.root.latch fresh.lookup fresh.here).forms false fresh.here
    rw [lookup_prefilled, Node.forms_latch, Node.forms_latch, Node.forms_markPrefilled]
  have sameFrames : fresh.prefilled.latch.frames = fresh.latch.frames := by
    change ((fresh.root.markPrefilled).latch fresh.prefilled.lookup fresh.here).frames fresh.here =
      (fresh.root.latch fresh.lookup fresh.here).frames fresh.here
    rw [lookup_prefilled, Node.frames_latch, Node.frames_latch, Node.frames_markPrefilled]
  rw [atRest_iff, sameLookup, sameForms, sameFrames]
  exact settled

/-! ## Notes keep a tree at rest -/

/-- Trees that differ in messages, in the pending submission and in the last response only. -/
structure Alike (first second : Tree) : Prop where
  namespaceText : first.namespaceText = second.namespaceText
  firing : first.firing = second.firing
  root : first.root.clearErrors = second.root.clearErrors

theorem alike_change (tree : Tree) (place : Path) {edit : List String → Node → Node}
    (keeps : ∀ segments node, (edit segments node).clearErrors = node.clearErrors) :
    Alike (tree.change place edit) tree := by
  unfold change
  split
  · exact ⟨rfl, rfl, keeps _ _⟩
  · exact ⟨rfl, rfl, rfl⟩

theorem Note.alike {after : Tree} (noted : Note tree after) : Alike after tree := by
  cases noted with
  | validate => exact ⟨rfl, rfl, Node.clearErrors_validate _ _⟩
  | validateNode place =>
      refine alike_change tree place (Node.mapForms_along Form.clearErrors ?_)
      intro segments node
      split
      · exact Node.clearErrors_validate place node
      · rfl
  | validateFieldset place =>
      exact alike_change tree place (Node.clearErrors_modifyForm fun names content =>
        content.clearErrors_validateAt place names)
  | setErrors place messages =>
      exact alike_change tree place (Node.clearErrors_modifyForm fun names content =>
        content.clearErrors_modifyField (Field.clearErrors_setErrors messages) names)
  | addErrors place messages =>
      exact alike_change tree place (Node.clearErrors_modifyForm fun names content =>
        content.clearErrors_modifyGroup (Group.clearErrors_addErrors messages) names)
  | clearErrors => exact ⟨rfl, rfl, Node.clearErrors_clearErrors _⟩
  | stray => exact ⟨rfl, rfl, rfl⟩
  | wait => exact ⟨rfl, rfl, rfl⟩
  | answer => exact ⟨rfl, rfl, rfl⟩

namespace Alike

variable {first second : Tree} (alike : Alike first second)
include alike

theorem here : first.here = second.here := by
  rw [Tree.here, Tree.here, alike.namespaceText]

theorem lookup : first.lookup = second.lookup := by
  have blank (entry : Field) : (fun active => entry.clearErrors.reading active) =
    fun active => entry.reading active := rfl
  refine lookup_congr alike.namespaceText alike.firing ?_
  rw [← Node.views_clearErrors blank, alike.root, Node.views_clearErrors blank]

theorem frames : first.frames = second.frames := by
  rw [Tree.frames, Tree.frames, ← Node.frames_mapForms Form.clearErrors,
    ← Node.frames_mapForms Form.clearErrors _ second.root, alike.here]
  exact congrArg _ alike.root

/-- Every form has a counterpart at its place that differs in messages only. -/
theorem exists_form {entry : Path × Form} (listed : entry ∈ first.forms) :
    ∃ content, (entry.1, content) ∈ second.forms ∧ content.clearErrors = entry.2.clearErrors := by
  have same : (first.root.clearErrors).forms false first.here =
      (second.root.clearErrors).forms false second.here := by rw [alike.root, alike.here]
  rw [Node.forms_clearErrors, Node.forms_clearErrors] at same
  have there : (entry.1, entry.2.clearErrors) ∈
      (first.root.forms false first.here).map fun entry => (entry.1, entry.2.clearErrors) :=
    List.mem_map.mpr ⟨entry, listed, rfl⟩
  rw [same] at there
  obtain ⟨other, otherListed, sameOther⟩ := List.mem_map.mp there
  injection sameOther with samePath sameForm
  exact ⟨other.2, samePath ▸ otherListed, sameForm⟩

theorem atRest (rest : second.AtRest) : first.AtRest := by
  obtain ⟨quiet, refreshed, latchedForms, latchedFrames⟩ := atRest_iff.mp rest
  refine atRest_iff.mpr ⟨alike.firing.trans quiet, ?_, ?_, ?_⟩
  · intro entry listed
    obtain ⟨content, there, same⟩ := alike.exists_form listed
    rw [alike.lookup, ← Form.refresh_clearErrors_eq_self_iff, ← same,
      Form.refresh_clearErrors_eq_self_iff]
    exact refreshed _ there
  · intro entry listed
    obtain ⟨content, there, same⟩ := alike.exists_form listed
    rw [alike.lookup, ← Form.latch_clearErrors_eq_self_iff, ← same, Form.latch_clearErrors_eq_self_iff]
    exact latchedForms _ there
  · rw [alike.lookup, alike.frames]
    exact latchedFrames

end Alike

theorem Notes.atRest {after : Tree} (notes : Notes tree after) (rest : tree.AtRest) : after.AtRest := by
  induction notes with
  | refl => exact rest
  | tail _ last kept => exact last.alike.atRest kept

end Tree

/-! ## Operations end at rest -/

namespace Cycle

variable {cycle : Cycle} (rest : cycle.tree.AtRest)
include rest

theorem assign_atRest (button : Path) (target : Reference) (value : Option Value) :
    (cycle.assign button target value).1.tree.AtRest := by
  unfold assign
  split
  · exact Tree.settle_atRest _
  · exact rest

theorem perform_atRest (button : Path) (remaining reject : List Call) (call : Call) :
    (cycle.perform button remaining reject call).1.tree.AtRest := by
  cases call with
  | activate arguments => exact Tree.settle_atRest _
  | submit => exact (cycle.beginSubmission_notes _ _ _ _).atRest rest
  | submitPartial => exact (cycle.beginSubmission_notes _ _ _ _).atRest rest
  | setFieldValue target source => exact assign_atRest rest _ _ _
  | deleteValue target => exact assign_atRest rest _ _ _
  | reset => exact rest.restore
  | disable => exact Tree.settle_atRest _
  | enable => exact Tree.settle_atRest _
  | proceed given =>
      unfold perform
      dsimp only
      split
      · exact rest
      · exact rest
  | clearErrors => exact (Tree.clearErrors_notes _).atRest rest
  | noop => exact rest

theorem runChain_atRest (button : Path) (reject chain : List Call) :
    (runChain button reject chain cycle).1.tree.AtRest := by
  induction chain generalizing cycle with
  | nil => exact rest
  | cons call others ih =>
      have first := perform_atRest rest button others reject call
      unfold runChain
      split
      · rename_i performed
        rw [performed] at first
        exact ih first
      · exact first

theorem run_atRest (button : Path) (chain reject : List Call) :
    (cycle.run button chain reject).tree.AtRest := by
  have first := runChain_atRest rest button reject chain
  unfold run
  split
  · rename_i failed
    rw [failed] at first
    exact runChain_atRest first button [] reject
  · rename_i ended
    rw [ended] at first
    exact first

end Cycle

namespace Tree

theorem AtRest.answer {tree : Tree} {cycle : Cycle} {operation : Operation} (rest : tree.AtRest)
    (done : tree.answer operation = .ok cycle) : cycle.tree.AtRest := by
  cases operation with
  | setValue path value =>
      obtain ⟨-, -, rfl⟩ := setValue_eq_ok done
      exact settle_atRest _
  | click path =>
      obtain ⟨-, field, button, -, -, -, -, rfl⟩ := click_eq_ok done
      exact Cycle.run_atRest rest _ _ _
  | addSibling path behind =>
      obtain ⟨-, node, extended, index, -, -, rfl⟩ := addSibling_eq_ok done
      exact settle_atRest _
  | removeSibling path index =>
      obtain ⟨-, node, reduced, -, -, rfl⟩ := removeSibling_eq_ok done
      exact settle_atRest _
  | goToStep path index =>
      obtain ⟨-, moved, arrived, -, rfl⟩ := goToStep_eq_ok done
      exact settle_atRest _
  | validate =>
      cases done
      exact tree.validate_notes.atRest rest
  | validatePart scope =>
      cases done
      exact (tree.validatePart_notes scope).atRest rest
  | applyErrors messages =>
      cases done
      exact (tree.applyErrors_notes messages).atRest rest
  | reset =>
      obtain ⟨-, rfl⟩ := reset_eq_ok done
      exact rest.restore
  | complete outcome =>
      obtain ⟨pending, -, rfl⟩ := complete_eq_ok done
      cases success? outcome with
      | some response => exact Cycle.run_atRest ((tree.informed_notes response).atRest rest) _ _ _
      | none => exact Cycle.runChain_atRest ((tree.refused_notes outcome).atRest rest) _ _ _

/-- Every reachable tree is at rest. -/
theorem Reachable.atRest {tree : Tree} (reachable : tree.Reachable) : tree.AtRest := by
  induction reachable with
  | mounted mounted => exact mount_atRest mounted
  | @after tree _ operation rest =>
      unfold Tree.after
      split
      · rename_i done
        exact rest.answer done
      · exact rest

end Tree

end Formwork
