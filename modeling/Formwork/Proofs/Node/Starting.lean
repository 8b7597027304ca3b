import Formwork.Proofs.Holdings
import Formwork.Proofs.Node.Places

/-!
# What fields hold at the start

What every field holds when it is filled, whatever the data are, is held by all fields of a node that
was just built, and of one that was built and filled (`Node.build_starts`). The siblings of a series come
from filled members or are copies of its template, and the template is what was built.
-/

set_option autoImplicit false

namespace Formwork.Node

/-- All fields at and beneath a node hold what has a property. -/
def Each (holds : Holding → Prop) (node : Node) : Prop :=
  ∀ segments content, node.Stands segments (.form content) → Member.Each holds content.members

variable {holds : Holding → Prop}

theorem each_collection {frame : Frame} {progress : Option Progress} {members : List (String × Node)}
    (each : ∀ entry ∈ members, entry.2.Each holds) : (Node.collection frame progress members).Each holds := by
  intro segments content stands
  cases stands with
  | member inside below => exact each _ inside _ content below

theorem each_series {frame : Frame} {template : List (String × Node)} {siblings : List Sibling}
    (each : ∀ sibling ∈ siblings, ∀ entry ∈ sibling.members, entry.2.Each holds) :
    (Node.series frame template siblings).Each holds := by
  intro segments content stands
  cases stands with
  | sibling there inside below => exact each _ (List.mem_of_getElem? there) _ inside _ content below

/-- All fields hold what has a property, now and after they are filled. -/
def Starts (holds : Holding → Prop) (node : Node) : Prop :=
  node.Each holds ∧ ∀ initial, (node.fill initial).Each holds

theorem starts_collection {frame : Frame} {progress : Option Progress} {members : List (String × Node)}
    (starts : ∀ entry ∈ members, entry.2.Starts holds) :
    (Node.collection frame progress members).Starts holds := by
  refine ⟨each_collection fun entry inside => (starts entry inside).1, fun initial => each_collection ?_⟩
  rw [fillMembers_eq]
  exact List.forall_mem_map.mpr fun entry inside => (starts entry inside).2 _

/-- A series that is filled up with copies of a template. -/
theorem starts_populate {frame : Frame} {template : List (String × Node)}
    (starts : ∀ entry ∈ template, entry.2.Starts holds) :
    (Node.series frame template (frame.populate template [])).Starts holds := by
  refine ⟨each_series fun sibling inside => ?_, fun initial => each_series fun sibling inside => ?_⟩
  · rw [(members_of_mem_populate inside).resolve_left List.not_mem_nil]
    exact fun entry there => (starts entry there).1
  · rcases members_of_mem_populate inside with given | copy
    · obtain ⟨data, -, rfl⟩ := List.mem_map.mp given
      rw [Sibling.members_mk, fillMembers_eq]
      exact List.forall_mem_map.mpr fun entry there => (starts entry there).2 _
    · rw [copy]
      exact fun entry there => (starts entry there).1


mutual
/-- What is built holds in every field what such a field holds at the start. -/
theorem build_starts (start : Member.AtStart holds) {path : Path} {placement : Placement} {plan : NodePlan}
    {node : Node} (built : Node.build path placement plan = .ok node) : node.Starts holds := by
  match plan with
  | .form plan dialog members =>
      simp only [Node.build, Form.build, bind_eq_ok, pure_eq_ok] at built
      obtain ⟨content, ⟨_, -, _, -, _, -, _, -, built, membersBuilt, rfl⟩, rfl⟩ := built
      constructor
      · rintro segments content stands
        obtain ⟨-, same⟩ := stands_form_iff.mp stands
        cases same
        exact Member.each_buildAll start membersBuilt
      · rintro initial segments content stands
        obtain ⟨-, same⟩ := stands_form_iff.mp stands
        cases same
        exact Member.each_fillAll start _ _
  | .collection plan members =>
      simp only [Node.build, bind_eq_ok] at built
      obtain ⟨frame, -, built⟩ := built
      split at built
      · simp only [bind_eq_ok, pure_eq_ok] at built
        obtain ⟨template, templateBuilt, rfl⟩ := built
        exact starts_populate (buildMembers_starts start templateBuilt)
      · simp only [bind_eq_ok, pure_eq_ok] at built
        obtain ⟨entries, entriesBuilt, rfl⟩ := built
        exact starts_collection (buildMembers_starts start entriesBuilt)
  | .stepper plan members =>
      simp only [Node.build] at built
      split at built
      · cases built
      · split at built
        · cases built
        · simp only [bind_eq_ok, pure_eq_ok] at built
          obtain ⟨frame, -, entries, entriesBuilt, rfl⟩ := built
          exact starts_collection (buildMembers_starts start entriesBuilt)

/-- `build_starts` for the members of a collection. -/
theorem buildMembers_starts (start : Member.AtStart holds) {path : Path} {placement : Placement}
    {plans : List (String × NodePlan)} {members : List (String × Node)}
    (built : Node.buildMembers path placement plans = .ok members) :
    ∀ entry ∈ members, entry.2.Starts holds := by
  match plans with
  | [] =>
      cases built
      simp
  | (name, plan) :: rest =>
      simp only [Node.buildMembers, bind_eq_ok, pure_eq_ok] at built
      obtain ⟨_, -, node, nodeBuilt, others, othersBuilt, rfl⟩ := built
      exact List.forall_mem_cons.mpr ⟨build_starts start nodeBuilt, buildMembers_starts start othersBuilt⟩
end

end Formwork.Node
