import Formwork.Proofs.Node.Holdings
import Formwork.Proofs.Node.Inducers

/-!
# Templates

A template is what was built for the members of a series, and nothing ever happens to it (`Node.Unused`): the initial
data go into copies of it, and so does everything else. A node in which this holds of every series is stocked
(`Node.Stocked`). What is built is stocked, and so is what is left of a stocked node after anything that can happen
to it.

So whatever stands in a sibling that is added was built and never used (`Node.exists_build_of_unused`). No dialog is
open in it, and none of its inducers remembers anything: building alone does not look at conditions.
-/

set_option autoImplicit false

namespace Formwork.Node

open Formwork.Text

/-- Members that were built, and to which nothing has happened since. -/
def Unused (members : List (String × Node)) : Prop :=
  ∃ path placement plans, buildMembers path placement plans = .ok members

/-- The template of every series at and beneath a node is as it was built. -/
inductive Stocked : Node → Prop where
  | form (content : Form) : Stocked (.form content)
  | collection {frame : Frame} {progress : Option Progress} {members : List (String × Node)}
      (inner : ∀ entry ∈ members, Stocked entry.2) : Stocked (.collection frame progress members)
  | series {frame : Frame} {template : List (String × Node)} {siblings : List Sibling} (unused : Unused template)
      (inner : ∀ sibling ∈ siblings, ∀ entry ∈ sibling.members, Stocked entry.2) :
      Stocked (.series frame template siblings)

/-! ## What is built -/

section Building

variable {path : Path} {placement : Placement} {plan : NodePlan} {node : Node}

theorem Unused.exists_build {members : List (String × Node)} (unused : Unused members) :
    ∀ entry ∈ members, ∃ path placement plan, Node.build path placement plan = .ok entry.2 := by
  obtain ⟨path, placement, plans, built⟩ := unused
  induction plans generalizing members with
  | nil =>
      cases built
      exact nofun
  | cons entry rest ih =>
      simp only [buildMembers, bind_eq_ok, pure_eq_ok] at built
      obtain ⟨_, -, node, nodeBuilt, others, othersBuilt, rfl⟩ := built
      exact List.forall_mem_cons.mpr ⟨⟨_, _, _, nodeBuilt⟩, ih othersBuilt⟩

/-- What is built is a form, or a frame around members that were built, which are the template of a series if the plan
can be repeated. -/
theorem build_cases (built : Node.build path placement plan = .ok node) :
    (∃ content plan dialog members, Form.build path placement plan dialog members = .ok content ∧
        node = .form content) ∨
      ∃ frame plan members, buildFrame path placement plan = .ok frame ∧ Unused members ∧
        ((∃ progress, node = .collection frame progress members) ∨
          node = .series frame members (frame.populate members [])) := by
  cases plan with
  | form plan dialog members =>
      simp only [Node.build, bind_eq_ok, pure_eq_ok] at built
      obtain ⟨content, contentBuilt, rfl⟩ := built
      exact .inl ⟨content, plan, dialog, members, contentBuilt, rfl⟩
  | collection plan members =>
      simp only [Node.build, bind_eq_ok] at built
      obtain ⟨frame, frameBuilt, built⟩ := built
      split at built
      · simp only [bind_eq_ok, pure_eq_ok] at built
        obtain ⟨template, templateBuilt, rfl⟩ := built
        exact .inr ⟨frame, plan, template, frameBuilt, ⟨_, _, _, templateBuilt⟩, .inr rfl⟩
      · simp only [bind_eq_ok, pure_eq_ok] at built
        obtain ⟨entries, entriesBuilt, rfl⟩ := built
        exact .inr ⟨frame, plan, entries, frameBuilt, ⟨_, _, _, entriesBuilt⟩, .inl ⟨none, rfl⟩⟩
  | stepper plan members =>
      simp only [Node.build] at built
      split at built
      · cases built
      · split at built
        · cases built
        · simp only [bind_eq_ok, pure_eq_ok] at built
          obtain ⟨frame, frameBuilt, entries, entriesBuilt, rfl⟩ := built
          exact .inr ⟨frame, plan, entries, frameBuilt, ⟨_, _, _, entriesBuilt⟩, .inl ⟨_, rfl⟩⟩

/-- What stands in a node that was built was built itself. -/
theorem exists_build_of_stands {segments : List String} {inner : Node}
    (built : Node.build path placement plan = .ok node) (stands : node.Stands segments inner) :
    ∃ path placement plan, Node.build path placement plan = .ok inner := by
  induction stands generalizing path placement plan with
  | here => exact ⟨path, placement, plan, built⟩
  | member inside _ ih =>
      rcases build_cases built with ⟨_, _, _, _, -, same⟩ | ⟨_, _, _, -, unused, ⟨_, same⟩ | same⟩
      · cases same
      · cases same
        obtain ⟨_, _, _, memberBuilt⟩ := unused.exists_build _ inside
        exact ih memberBuilt
      · cases same
  | sibling there inside _ ih =>
      rcases build_cases built with ⟨_, _, _, _, -, same⟩ | ⟨_, _, _, -, unused, ⟨_, same⟩ | same⟩
      · cases same
      · cases same
      · cases same
        -- Without initial data every sibling is the template itself.
        have copy := (members_of_mem_populate (List.mem_of_getElem? there)).resolve_left List.not_mem_nil
        rw [copy] at inside
        obtain ⟨_, _, _, memberBuilt⟩ := unused.exists_build _ inside
        exact ih memberBuilt

/-- What stands in a member that was built and never used was built itself. -/
theorem exists_build_of_unused {members : List (String × Node)} (unused : Unused members)
    {entry : String × Node} (inside : entry ∈ members) {segments : List String} {inner : Node}
    (stands : entry.2.Stands segments inner) : ∃ path placement plan, Node.build path placement plan = .ok inner := by
  obtain ⟨_, _, _, built⟩ := unused.exists_build entry inside
  exact exists_build_of_stands built stands

theorem latched_compileOptional {induction : Induction} {source : Option String} {found : Option Inducer}
    (compiled : Inducer.compileOptional path induction source = .ok found) :
    ∀ inducer ∈ found, inducer.latched = false := by
  cases source with
  | none =>
      cases compiled
      exact nofun
  | some text =>
      obtain ⟨inducer, read, rfl⟩ := map_eq_ok.mp compiled
      obtain ⟨condition, -, rfl⟩ := map_eq_ok.mp read
      rintro _ ⟨⟩
      rfl

theorem latched_compileActivation {source : Option String} {found : Option Inducer}
    (compiled : compileActivation path placement source = .ok found) :
    ∀ inducer ∈ found, inducer.latched = false := by
  cases source with
  | none =>
      cases compiled
      exact nofun
  | some text =>
      unfold compileActivation at compiled
      dsimp only at compiled
      split at compiled
      · exact @latched_compileOptional path .activates (some text) found compiled
      · cases compiled

/-- Building does not look at conditions, so no inducer remembers its condition as true. -/
theorem latched_of_build (built : Node.build path placement plan = .ok node) :
    ∀ inducer ∈ node.ownInducers, inducer.latched = false := by
  rcases build_cases built with ⟨content, plan, dialog, members, contentBuilt, rfl⟩ |
    ⟨frame, plan, members, frameBuilt, -, ⟨_, rfl⟩ | rfl⟩
  · simp only [Form.build, bind_eq_ok, pure_eq_ok] at contentBuilt
    obtain ⟨opening, opens, closing, closes, activating, activates, _, -, _, -, rfl⟩ := contentBuilt
    intro inducer own
    simp only [ownInducers, List.mem_append, Option.mem_toList] at own
    rcases own with (first | second) | third
    · exact latched_compileOptional opens inducer first
    · exact latched_compileOptional closes inducer second
    · exact latched_compileActivation activates inducer third
  · intro inducer own
    exact latched_compileActivation (buildFrame_eq_ok frameBuilt).2.2 inducer (Option.mem_toList.mp own)
  · intro inducer own
    exact latched_compileActivation (buildFrame_eq_ok frameBuilt).2.2 inducer (Option.mem_toList.mp own)

/-- No dialog is open in what is built. -/
theorem closed_of_build (built : Node.build path placement plan = .ok node) : node.isOpenDialog = false := by
  rcases build_cases built with ⟨content, plan, dialog, members, contentBuilt, rfl⟩ |
    ⟨frame, plan, members, -, -, ⟨_, rfl⟩ | rfl⟩
  · simp only [Form.build, bind_eq_ok, pure_eq_ok] at contentBuilt
    obtain ⟨_, -, _, -, _, -, _, -, _, -, rfl⟩ := contentBuilt
    rw [isOpenDialog, Form.isOpenDialog]
    dsimp only
    split
    · rename_i found
      split at found
      · cases found
        rfl
      · cases found
    · rfl
  · rfl
  · rfl

/-- A form that is built with an inducer that opens it is the content of a dialog, and nothing but a form has one. -/
theorem exists_dialog_of_build (built : Node.build path placement plan = .ok node) {inducer : Inducer}
    (own : inducer ∈ node.ownInducers) (opens : inducer.induction = .opens) :
    ∃ content, node = .form content ∧ content.dialog.isSome = true := by
  have activates {placement : Placement} {source : Option String} {found : Option Inducer} {path : Path}
      (compiled : compileActivation path placement source = .ok found) : inducer ∉ found.toList := by
    intro inside
    have kind := (Inducer.kinds_compileActivation compiled).subset (List.mem_map.mpr ⟨inducer, inside, rfl⟩)
    rw [opens] at kind
    cases List.mem_singleton.mp kind
  rcases build_cases built with ⟨content, plan, dialog, members, contentBuilt, rfl⟩ |
    ⟨frame, plan, members, frameBuilt, -, ⟨_, rfl⟩ | rfl⟩
  · refine ⟨content, rfl, ?_⟩
    simp only [Form.build, bind_eq_ok, pure_eq_ok] at contentBuilt
    obtain ⟨opening, opensRead, closing, closesRead, activating, activatesRead, _, -, _, -, rfl⟩ := contentBuilt
    cases declared : plan.conditions.openWhen with
    | some source => simp
    | none =>
        rw [declared] at opensRead
        cases opensRead
        simp only [ownInducers, Option.toList_none, List.nil_append, List.mem_append] at own
        have closing := (Inducer.kinds_compileOptional closesRead).subset
          (List.mem_map.mpr ⟨inducer, own.resolve_right (activates activatesRead), rfl⟩)
        rw [opens] at closing
        cases List.mem_singleton.mp closing
  · exact absurd own (activates (buildFrame_eq_ok frameBuilt).2.2)
  · exact absurd own (activates (buildFrame_eq_ok frameBuilt).2.2)

/-- A property of nodes that grows with a node as it is built and filled: a form that is built has it, with initial
data and without, a collection has it if its members do, and a series if its siblings do. -/
structure Grows (holds : Node → Prop) : Prop where
  form : ∀ path placement plan dialog members content,
    Form.build path placement plan dialog members = .ok content →
      holds (.form content) ∧ ∀ initial, holds (.form (content.fill initial))
  collection : ∀ frame progress members, (∀ entry ∈ members, holds entry.2) → holds (.collection frame progress members)
  series : ∀ frame template siblings, Unused template →
    (∀ sibling ∈ siblings, ∀ entry ∈ sibling.members, holds entry.2) → holds (.series frame template siblings)

section Growing

variable {holds : Node → Prop}

theorem grown_fillMembers {members : List (String × Node)}
    (grown : ∀ entry ∈ members, ∀ initial, holds (entry.2.fill initial)) (initial : Option Json) :
    ∀ entry ∈ fillMembers initial members, holds entry.2 := by
  rw [fillMembers_eq]
  exact List.forall_mem_map.mpr fun entry inside => grown entry inside _

/-- The siblings of a series come from filled members or are copies of its template, which stays as it is. -/
theorem grown_populate (grows : Grows holds) {frame : Frame} {template : List (String × Node)}
    (unused : Unused template)
    (grown : ∀ entry ∈ template, holds entry.2 ∧ ∀ initial, holds (entry.2.fill initial)) :
    holds (.series frame template (frame.populate template [])) ∧
      ∀ initial, holds (fill initial (.series frame template (frame.populate template []))) := by
  constructor
  · refine grows.series _ _ _ unused fun sibling inside => ?_
    rw [(members_of_mem_populate inside).resolve_left List.not_mem_nil]
    exact fun entry there => (grown entry there).1
  · intro initial
    refine grows.series _ _ _ unused fun sibling inside => ?_
    rcases members_of_mem_populate inside with given | copy
    · obtain ⟨data, -, rfl⟩ := List.mem_map.mp given
      exact grown_fillMembers (fun entry there => (grown entry there).2) _
    · rw [copy]
      exact fun entry there => (grown entry there).1

theorem grown_collection (grows : Grows holds) {frame : Frame} {progress : Option Progress}
    {members : List (String × Node)}
    (grown : ∀ entry ∈ members, holds entry.2 ∧ ∀ initial, holds (entry.2.fill initial)) :
    holds (.collection frame progress members) ∧
      ∀ initial, holds (fill initial (.collection frame progress members)) :=
  ⟨grows.collection _ _ _ fun entry inside => (grown entry inside).1, fun _ =>
    grows.collection _ _ _ (grown_fillMembers (fun entry inside => (grown entry inside).2) _)⟩

mutual
/-- What grows with a node holds of every node that is built, and after it is filled. -/
theorem build_grown (grows : Grows holds) {path : Path} {placement : Placement} {plan : NodePlan} {node : Node}
    (built : Node.build path placement plan = .ok node) : holds node ∧ ∀ initial, holds (node.fill initial) := by
  match plan with
  | .form plan dialog members =>
      simp only [Node.build, bind_eq_ok, pure_eq_ok] at built
      obtain ⟨content, contentBuilt, rfl⟩ := built
      exact grows.form _ _ _ _ _ _ contentBuilt
  | .collection plan members =>
      simp only [Node.build, bind_eq_ok] at built
      obtain ⟨frame, -, built⟩ := built
      split at built
      · simp only [bind_eq_ok, pure_eq_ok] at built
        obtain ⟨template, templateBuilt, rfl⟩ := built
        exact grown_populate grows ⟨_, _, _, templateBuilt⟩ (buildMembers_grown grows templateBuilt)
      · simp only [bind_eq_ok, pure_eq_ok] at built
        obtain ⟨entries, entriesBuilt, rfl⟩ := built
        exact grown_collection grows (buildMembers_grown grows entriesBuilt)
  | .stepper plan members =>
      simp only [Node.build] at built
      split at built
      · cases built
      · split at built
        · cases built
        · simp only [bind_eq_ok, pure_eq_ok] at built
          obtain ⟨frame, -, entries, entriesBuilt, rfl⟩ := built
          exact grown_collection grows (buildMembers_grown grows entriesBuilt)

/-- `build_grown` for the members of a collection. -/
theorem buildMembers_grown (grows : Grows holds) {path : Path} {placement : Placement}
    {plans : List (String × NodePlan)} {members : List (String × Node)}
    (built : Node.buildMembers path placement plans = .ok members) :
    ∀ entry ∈ members, holds entry.2 ∧ ∀ initial, holds (entry.2.fill initial) := by
  match plans with
  | [] =>
      cases built
      exact nofun
  | (name, plan) :: rest =>
      simp only [Node.buildMembers, bind_eq_ok, pure_eq_ok] at built
      obtain ⟨_, -, node, nodeBuilt, others, othersBuilt, rfl⟩ := built
      exact List.forall_mem_cons.mpr ⟨build_grown grows nodeBuilt, buildMembers_grown grows othersBuilt⟩
end

end Growing

theorem stocked_grows : Grows Stocked where
  form _ _ _ _ _ _ _ := ⟨.form _, fun _ => .form _⟩
  collection _ _ _ inner := .collection inner
  series _ _ _ unused inner := .series unused inner

/-- No form at or beneath a node has an open dialog. -/
def Closed (node : Node) : Prop :=
  ∀ segments content, node.Stands segments (.form content) → content.isOpenDialog = false

theorem closed_grows : Grows Closed where
  form path placement plan dialog members content built := by
    have closed : content.isOpenDialog = false := by
      have nodeBuilt : Node.build path placement (.form plan dialog members) = .ok (.form content) := by
        rw [Node.build, built]
        rfl
      exact closed_of_build nodeBuilt
    refine ⟨fun segments found stands => ?_, fun initial segments found stands => ?_⟩
    all_goals
      obtain ⟨-, same⟩ := stands_form_iff.mp stands
      cases same
      exact closed
  collection _ _ _ inner segments content stands := by
    cases stands with
    | member inside below => exact inner _ inside _ content below
  series _ _ _ _ inner segments content stands := by
    cases stands with
    | sibling there inside below => exact inner _ (List.mem_of_getElem? there) _ inside _ content below

end Building

/-! ## What keeps a node stocked -/

namespace Stocked

variable {node : Node}

theorem markPrefilled (stocked : node.Stocked) : node.markPrefilled.Stocked := by
  induction stocked with
  | form content => exact .form content
  | collection _ ih =>
      refine .collection ?_
      rw [markPrefilledAll_eq]
      exact List.forall_mem_map.mpr ih
  | series unused inner _ => exact .series unused inner

/-- What stands in a stocked node is stocked. -/
theorem stands {inner : Node} {segments : List String} (stocked : node.Stocked)
    (stands : node.Stands segments inner) : inner.Stocked := by
  induction stands with
  | here => exact stocked
  | member inside _ ih =>
      cases stocked with
      | collection inner => exact ih (inner _ inside)
  | sibling there inside _ ih =>
      cases stocked with
      | series _ inner => exact ih (inner _ (List.mem_of_getElem? there) _ inside)

theorem map (onForm : Path → Form → Form) (onFrame : Path → Frame → Frame) (liveOnly : Bool) (path : Path)
    (stocked : node.Stocked) : (node.map liveOnly onForm onFrame path).Stocked := by
  induction stocked generalizing path with
  | form content => exact .form _
  | collection _ ih =>
      refine .collection ?_
      rw [mapMembers_eq]
      exact List.forall_mem_map.mpr fun entry inside => ih entry inside _
  | series unused inner ih =>
      refine .series unused ?_
      rw [mapSiblings_eq]
      refine List.forall_mem_map.mpr fun entry inside => ?_
      have there := List.fst_mem_of_mem_zipIdx inside
      rw [Sibling.members_mk]
      split
      · exact inner _ there
      · rw [mapMembers_eq]
        exact List.forall_mem_map.mpr fun member among => ih _ there member among _

/-- A change along a path that keeps every node on the way stocked. -/
theorem along {change : List String → Node → Node}
    (keeps : ∀ segments (node : Node), node.Stocked → (change segments node).Stocked) (segments : List String)
    (stocked : node.Stocked) : (node.along change segments).Stocked := by
  have members {entries : List (String × Node)} {rest : List String} (inner : ∀ entry ∈ entries, entry.2.Stocked)
      (ih : ∀ entry ∈ entries, ∀ segments, (entry.2.along change segments).Stocked) :
      ∀ entry ∈ alongMembers change rest entries, entry.2.Stocked := by
    rw [alongMembers_eq]
    cases rest with
    | nil => exact inner
    | cons first rest =>
        intro entry inside
        rcases Assoc.mem_modify inside with old | ⟨value, there, rfl⟩
        · exact inner entry old
        · exact ih (first, value) there rest
  induction stocked generalizing segments with
  | form content => exact keeps _ _ (.form content)
  | collection inner ih =>
      rw [Node.along]
      exact keeps _ _ (.collection (members inner fun entry inside segments => ih entry inside segments))
  | @series frame template siblings unused inner ih =>
      have changed (rest : List String) (position : Nat) :
          (Node.series frame template (alongSiblings change rest position siblings)).Stocked := by
        rw [alongSiblings_eq]
        refine .series unused fun sibling inside => ?_
        rcases mem_of_mem_modify inside with old | ⟨old, there, rfl⟩
        · exact inner sibling old
        · exact members (inner old there) fun entry inside segments => ih old there entry inside segments
      cases segments with
      | nil => exact keeps _ _ (.series unused inner)
      | cons index rest =>
          rw [Node.along]
          cases read : canonicalIndex? index with
          | none => simpa only [read] using keeps _ _ (.series unused inner)
          | some position => simpa only [read] using keeps _ _ (changed rest position)

/-- A stocked node may be put in the place of another one. -/
theorem modify {segments : List String} {inner moved : Node} (stocked : node.Stocked)
    (stands : node.get? segments = some inner) (isStocked : moved.Stocked) :
    (node.modify (fun _ => moved) segments).Stocked := by
  classical
  rw [modify_eq_along stands]
  refine along (fun rest other otherStocked => ?_) segments stocked
  split
  · exact isStocked
  · exact otherStocked

/-- An elementary change leaves all templates alone. -/
theorem move {later : Node} (stocked : node.Stocked) (regular : node.Regular) (move : Move node later) :
    later.Stocked := by
  cases move with
  | everywhere forms frames liveOnly path => exact stocked.map _ _ liveOnly path
  | onTheWay forms segments =>
      refine along (fun names inner isStocked => ?_) segments stocked
      cases isStocked with
      | form content => exact .form _
      | collection inner => exact .collection inner
      | series unused inner => exact .series unused inner
  | touch segments =>
      refine along (fun rest inner isStocked => ?_) segments stocked
      split
      · split
        · cases isStocked with
          | series unused inner =>
              refine .series unused fun sibling inside => ?_
              rcases mem_of_mem_modify inside with old | ⟨⟨pristine, members⟩, there, rfl⟩
              · exact inner sibling old
              · exact inner (.mk pristine members) there
        · exact isStocked
      · exact isStocked
  | validatePart place segments =>
      refine along (fun rest inner isStocked => ?_) segments stocked
      split
      · exact isStocked.map _ _ true place
      · exact isStocked
  | goTo found gone =>
      refine stocked.modify found ?_
      obtain ⟨frame, progress, members, reached, first, last, rfl, rfl⟩ := goTo_eq_ok gone
      have here := stocked.stands ((get?_eq_some_iff regular).mp found)
      cases here with
      | collection inner =>
          refine .collection fun entry inside => ?_
          obtain ⟨old, there, same | checked⟩ := mem_validateSteps inside
          · exact same ▸ inner _ there
          · exact checked ▸ (inner _ there).map _ _ true _

theorem addSibling {path : Path} {behind : Option Nat} {extended : Node} {position : Nat}
    (stocked : node.Stocked) (added : node.addSibling path behind = .ok (extended, position)) :
    extended.Stocked := by
  obtain ⟨frame, template, siblings, rfl, rfl, -⟩ := addSibling_eq_ok added
  cases stocked with
  | series unused inner =>
      refine .series unused fun sibling among => ?_
      rcases List.eq_or_mem_of_mem_insertIdx among with rfl | old
      · obtain ⟨_, _, _, built⟩ := id unused
        exact fun entry inside => (buildMembers_grown stocked_grows built entry inside).1
      · exact inner sibling old

theorem removeSibling {path : Path} {index : Nat} {reduced : Node} (stocked : node.Stocked)
    (removed : node.removeSibling path index = .ok reduced) : reduced.Stocked := by
  obtain ⟨frame, template, siblings, rfl, rfl, -⟩ := removeSibling_eq_ok removed
  cases stocked with
  | series unused inner =>
      exact .series unused fun sibling inside => inner sibling (List.mem_of_mem_eraseIdx inside)

end Stocked

end Formwork.Node
