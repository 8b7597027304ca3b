import Formwork.Proofs.Node.Everywhere
import Formwork.Proofs.Stored

/-!
# What a reset does to a node

A reset gives every field the value with which it came up and forgets every message, however deep fieldsets and
siblings are nested. It asks for nothing that is derived, so flags and latches may be derived before it or after it
(`Node.reset_refresh`, `Node.reset_latch`), and a second reset finds nothing left to do (`Node.reset_reset`). A node that
a reset leaves as it is shows this in each field and in each group (`Node.reset_eq_self`).

What a reset has to keep is `Node.lasting`: everything but values, messages, flags and latches.
-/

set_option autoImplicit false

namespace Formwork

/-! ## Forms -/

namespace Form

/-- The form without values and messages, and without its flags and latches. The values at mounting, the marks that
buttons carry and the state of the dialog are kept. -/
def lasting (form : Form) : Form :=
  let blank := form.map (Field.stored ∘ Field.reset) Group.asBuilt
  { blank with inducers := blank.inducers.map Inducer.asBuilt }

theorem lasting_congr {first second : Form}
    (same : first.map (Field.stored ∘ Field.reset) Group.asBuilt =
      second.map (Field.stored ∘ Field.reset) Group.asBuilt) : first.lasting = second.lasting := by
  simp only [lasting, same]

variable (form : Form)

theorem lasting_reset : form.reset.lasting = form.lasting :=
  lasting_congr (form.map_map (fun _ => rfl) fun _ => rfl)

theorem lasting_refresh (lookup : Lookup) (path : Path) : (form.refresh lookup path).lasting = form.lasting :=
  lasting_congr (form.map_refresh (fun _ _ _ _ _ => rfl) (fun _ _ _ _ _ => rfl) lookup path)

theorem lasting_latch (lookup : Lookup) (path : Path) : (form.latch lookup path).lasting = form.lasting := by
  simp only [latch, lasting, map, List.map_map]
  rfl

theorem reset_reset : form.reset.reset = form.reset :=
  form.map_map (fun _ => rfl) fun _ => rfl

/-- Flags can be derived before or after the values are restored, as long as conditions read the same. -/
theorem reset_refresh (lookup : Lookup) (path : Path) :
    (form.refresh lookup path).reset = form.reset.refresh lookup path :=
  congrArg (fun members => { form.reset.refresh lookup path with members })
    (@Member.mapAll_refreshAll_comm Field.reset _ Group.clearErrors _ (fun _ _ _ _ _ => rfl)
      (fun _ _ _ _ _ => rfl) (fun _ => ⟨rfl, rfl⟩) ..)

theorem reset_latch (lookup : Lookup) (path : Path) :
    (form.latch lookup path).reset = form.reset.latch lookup path := rfl

theorem fields_reset (path : Path) :
    form.reset.fields path = (form.fields path).map fun entry => (entry.1, entry.2.reset) :=
  Member.fields_mapAll Field.reset Group.clearErrors path form.members

theorem groups_reset (path : Path) :
    form.reset.groups path = (form.groups path).map fun entry => (entry.1, entry.2.clearErrors) :=
  congrArg _ (Member.groups_mapAll Field.reset Group.clearErrors path form.members)

end Form

/-! ## Nodes -/

namespace Node

/-- The node at a path without values and messages, and without its flags and latches. -/
def lasting (path : Path) : Node → Node := map false (fun _ => Form.lasting) (fun _ => Frame.asBuilt) path

variable (path : Path) (node : Node)

/-- A change of everything that touches nothing lasting in any form or frame. -/
theorem lasting_map {onForm : Path → Form → Form} {onFrame : Path → Frame → Frame}
    (sameForm : ∀ place content, (onForm place content).lasting = content.lasting)
    (sameFrame : ∀ place frame, (onFrame place frame).asBuilt = frame.asBuilt) :
    (node.map false onForm onFrame path).lasting path = node.lasting path := by
  rw [lasting, map_map]
  simp only [sameForm, sameFrame]

theorem lasting_reset : node.reset.lasting path = node.lasting path := by
  rw [reset, mapForms_eq Form.reset path]
  exact lasting_map path node (fun _ content => content.lasting_reset) fun _ _ => rfl

theorem lasting_refresh (lookup : Lookup) : (node.refresh lookup path).lasting path = node.lasting path :=
  lasting_map path node (fun place content => content.lasting_refresh lookup place) fun _ _ => rfl

theorem lasting_latch (lookup : Lookup) : (node.latch lookup path).lasting path = node.lasting path :=
  lasting_map path node (fun place content => content.lasting_latch lookup place)
    fun place frame => Frame.asBuilt_move (.latch frame lookup place)

/-! ### Resetting and deriving -/

theorem reset_reset : node.reset.reset = node.reset := by
  rw [reset, mapForms, map_map]
  simp only [Form.reset_reset]

theorem reset_refresh (lookup : Lookup) : (node.refresh lookup path).reset = node.reset.refresh lookup path := by
  rw [reset, mapForms_eq Form.reset path, mapForms_eq Form.reset path, refresh, map_map, map_map]
  simp only [Form.reset_refresh]

theorem reset_latch (lookup : Lookup) : (node.latch lookup path).reset = node.reset.latch lookup path := by
  rw [reset, mapForms_eq Form.reset path, mapForms_eq Form.reset path, latch, map_map, map_map]
  simp only [Form.reset_latch]

/-- If a reset leaves the node as it is, it leaves every field and every group as it is. -/
theorem reset_eq_self {path : Path} {node : Node} (same : node.reset = node) :
    (∀ entry ∈ node.fields path, entry.2.reset = entry.2) ∧
      ∀ entry ∈ node.groups path, entry.2.clearErrors = entry.2 := by
  rw [reset, mapForms_eq Form.reset path, map_eq_self_iff] at same
  have forms := same.1
  constructor
  · intro entry listed
    obtain ⟨⟨place, content⟩, form, inside⟩ := List.mem_flatMap.mp listed
    have fields := content.fields_reset place
    rw [forms _ form] at fields
    exact congrArg Prod.snd (Formwork.map_eq_self_iff.mp fields.symm entry inside)
  · intro entry listed
    obtain ⟨⟨place, content⟩, form, inside⟩ := List.mem_flatMap.mp listed
    have groups := content.groups_reset place
    rw [forms _ form] at groups
    exact congrArg Prod.snd (Formwork.map_eq_self_iff.mp groups.symm entry inside)

end Node

end Formwork
