import Formwork.Proofs.Holdings
import Formwork.Proofs.Node.Effects
import Formwork.Proofs.Node.Everywhere
import Formwork.Proofs.Node.Listing
import Formwork.Proofs.Node.Ways

/-!
# What the fields of a node hold

Flags, messages, latches, visited steps and the marks of siblings are not held by any field, so a change
of them leaves the holdings of a node as they are. Three changes do not: a field is set
(`Node.holdings_modifyField`), everything is restored (`Node.holdings_reset`), or a dialog is left in one
of the modes that restore its fields (`Node.holdings_closeDialog`).
-/

set_option autoImplicit false

namespace Formwork.Node

open Formwork.Text

/-! ## Views of all fields -/

section Views

variable {α : Type} {view : Field → α}

/-- The view of all fields is a listing of the forms. -/
theorem views_listing (path : Path) (node : Node) :
    node.views view path =
      node.listing (fun place content => Member.views view place content.members) (fun _ _ => []) path := by
  rw [views_eq, listing_eq_forms]

/-- A node with the same view may be put in the place of another one. -/
theorem views_modify {segments : List String} {node inner moved : Node}
    (stands : node.get? segments = some inner)
    (same : ∀ path, moved.views view path = inner.views view path) (path : Path) :
    (node.modify (fun _ => moved) segments).views view path = node.views view path := by
  simp only [views_listing] at same ⊢
  exact listing_modify stands same path

theorem views_touch (segments : List String) (path : Path) (node : Node) :
    (node.touch segments).views view path = node.views view path := by
  rw [views_listing, views_listing, listing_touch]

/-- Going to a step checks some fields and changes no view that leaves messages out. -/
theorem views_goTo (keeps : ∀ entry, view entry.clearErrors = view entry) {place : Path} {index : Nat}
    {node moved : Node} {failures : List (Path × List String)}
    (gone : node.goTo place index = .ok (moved, failures)) (path : Path) :
    moved.views view path = node.views view path := by
  rw [views_listing, views_listing]
  refine listing_goTo (fun here place content => ?_) gone path
  have same : Member.clearAll (content.validate here).members = Member.clearAll content.members := by
    simpa only [Form.clearErrors_eq] using congrArg Form.members (content.clearErrors_validate here)
  rw [← Member.views_clearAll keeps, same, Member.views_clearAll keeps]

end Views

/-! ## Holdings -/

/-- Whether the node is a form whose dialog is open. -/
def isOpenDialog : Node → Bool
  | .form content => content.isOpenDialog
  | _ => false

/-- What the fields at and beneath a node at a path hold. -/
def holdings (path : Path) (node : Node) : List (Path × Holding) := node.views Field.holding path

variable (path : Path) (node : Node)

theorem holdings_eq : node.holdings path =
    (node.forms false path).flatMap fun entry => entry.2.holdings entry.1 :=
  views_eq Field.holding path node

theorem holdings_refresh (lookup : Lookup) (place : Path) :
    (node.refresh lookup place).holdings place = node.holdings place :=
  views_map (fun here content => content.holdings_refresh here lookup here) _ place node

theorem holdings_latch (lookup : Lookup) (place : Path) :
    (node.latch lookup place).holdings place = node.holdings place :=
  views_map (fun here content => content.holdings_latch here lookup here) _ place node

theorem holdings_clearErrors : node.clearErrors.holdings path = node.holdings path :=
  views_clearErrors Field.holding_clearErrors path node

theorem holdings_reset : node.reset.holdings path =
    (node.holdings path).map fun entry => (entry.1, entry.2.restore) := by
  rw [holdings_eq, holdings_eq, reset, forms_mapForms, List.flatMap_map, List.map_flatMap]
  exact List.flatMap_congr fun entry _ => entry.2.holdings_reset entry.1

variable {node} (regular : node.Regular) (segments : List String)
include regular

/-- A change of the form on the way that leaves its holdings as they are. -/
theorem holdings_modifyForm {change : List String → Form → Form}
    (keeps : ∀ place names content, Form.holdings place (change names content) = content.holdings place) :
    (node.modifyForm change segments).holdings path = node.holdings path := by
  rw [holdings_eq, holdings_eq]
  exact flatMap_modifyForm regular (fun place names content _ => keeps place names content) path segments

/-- A change of the field at a place changes what this field holds, and nothing else. -/
theorem holdings_modifyField {change : Field → Field} {edit : Holding → Holding}
    (agree : ∀ entry, (change entry).holding = edit entry.holding) :
    (node.modifyField change segments).holdings path = (node.holdings path).map fun entry =>
      (entry.1, if entry.1 = path.extend ⟨segments⟩ then edit entry.2 else entry.2) := by
  rw [holdings, holdings, views, views, fields_modifyField regular, List.map_map, List.map_map]
  refine List.map_congr_left fun entry _ => ?_
  simp only [Function.comp_apply]
  split
  · rw [agree]
  · rfl

/-- The fields of a form are those that stand beneath its path. -/
theorem startsWith_iff {front : List String} {content : Form} (stands : node.Stands front (.form content))
    {entry : Path × Form} (listed : entry ∈ node.forms false path) {seen : Path × Holding}
    (held : seen ∈ entry.2.holdings entry.1) :
    seen.1.startsWith (path.extend ⟨front⟩) = true ↔ entry.1 = path.extend ⟨front⟩ := by
  obtain ⟨place, other⟩ := entry
  obtain ⟨around, rfl, standsOther⟩ := mem_forms_iff.mp listed
  obtain ⟨names, field, same, -, -⟩ := Member.mem_views_iff.mp held
  rw [same, Path.extend_append, Path.startsWith_extend, List.isPrefixOf_iff_prefix]
  constructor
  · rintro ⟨rest, fronts⟩
    obtain ⟨rfl, -, -⟩ := stands_form_unique regular stands standsOther fronts
    rfl
  · intro own
    have fronts : around = front := congrArg Path.segments (Path.extend_injective own)
    rw [fronts]
    exact List.prefix_append front names

/-- Leaving the dialog of the form at some segments restores the fields beneath it, if the mode says so and
the dialog is open. -/
theorem holdings_closeDialog {inner : Node} (stands : node.Stands segments inner) (mode : CloseMode) :
    (node.modifyForm (fun _ => Form.closeDialog (path.extend ⟨segments⟩) mode) segments).holdings path =
      (node.holdings path).map fun entry =>
        (entry.1,
          if inner.isOpenDialog && mode.restores && entry.1.startsWith (path.extend ⟨segments⟩) then
            entry.2.restore
          else entry.2) := by
  rw [holdings_eq, holdings_eq, forms_modifyForm regular, List.flatMap_map, List.map_flatMap]
  refine List.flatMap_congr fun entry listed => ?_
  obtain ⟨place, content⟩ := entry
  obtain ⟨front, rfl, standsForm⟩ := mem_forms_iff.mp listed
  by_cases here : front = segments
  · subst here
    obtain rfl : inner = .form content := by
      have found := (get?_eq_some_iff regular).mpr stands
      rw [(get?_eq_some_iff regular).mpr standsForm] at found
      exact (Option.some.inj found).symm
    rw [edited_of_extend (Path.extend_root _).symm, Form.holdings_closeDialog]
    split
    · rename_i restores
      refine List.map_congr_left fun seen held => ?_
      rw [isOpenDialog, restores, (startsWith_iff path regular stands listed held).mpr rfl]
      rfl
    · rename_i keeps
      rw [Bool.not_eq_true] at keeps
      simp only [isOpenDialog, keeps, Bool.false_and, Bool.false_eq_true, if_false]
      exact (List.map_id _).symm
  · have apart : ∀ names, path.extend ⟨segments⟩ ≠ (path.extend ⟨front⟩).extend names := by
      intro names same
      rw [Path.extend_append] at same
      have fronts : segments = front ++ names.segments := congrArg Path.segments (Path.extend_injective same)
      subst fronts
      obtain ⟨nothing, -⟩ := stands_form_iff.mp (standsForm.beneath regular stands)
      exact here (by rw [nothing, List.append_nil])
    rw [edited_of_apart apart]
    refine (List.map_id _).symm.trans (List.map_congr_left fun seen held => ?_)
    split
    · rename_i restores
      rw [Bool.and_eq_true, Bool.and_eq_true] at restores
      cases inner with
      | form content =>
          have same := (startsWith_iff path regular stands listed held).mp restores.2
          exact absurd (congrArg Path.segments (Path.extend_injective same)) here
      | collection frame progress members => cases restores.1.1
      | series frame template siblings => cases restores.1.1
    · rfl

end Formwork.Node
