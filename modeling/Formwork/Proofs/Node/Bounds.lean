import Formwork.Proofs.Node.Everywhere
import Formwork.Proofs.Node.Sound

/-!
# How many siblings there are

A series keeps its bounds from the start on (`Node.Sound`). What the marks of its siblings are at the
start is told by its plan and by the number of entries that the initial data have for it
(`Node.marks_fill`): the entries that there is room for and blank siblings up to the least number are
live, and behind them as many siblings are offered as there is room for.

No stepper lies beneath a series, for building refuses a stepper there (`Node.build_apart`), and what
a sibling is made of is in the plan of its template (`Node.not_stepper_beneath`).
-/

set_option autoImplicit false

namespace Formwork

open Formwork.Text

/-! ## Steppers apart from series -/

mutual
/-- Whether a stepper stands at or beneath a node of a plan. -/
def NodePlan.hasStepper : NodePlan → Bool
  | .form _ _ _ => false
  | .collection _ members => NodePlan.haveStepper members
  | .stepper _ _ => true

/-- Whether a stepper stands at or beneath one of some nodes. -/
def NodePlan.haveStepper : List (String × NodePlan) → Bool
  | [] => false
  | (_, plan) :: rest => plan.hasStepper || NodePlan.haveStepper rest
end

mutual
/-- Whether no stepper of a plan stands beneath a collection that can be repeated. -/
def NodePlan.isApart : NodePlan → Bool
  | .form _ _ _ => true
  | .collection plan members =>
    !(plan.isRepeatable && NodePlan.haveStepper members) && NodePlan.areApart members
  | .stepper _ members => NodePlan.areApart members

/-- `isApart` for all nodes of a list. -/
def NodePlan.areApart : List (String × NodePlan) → Bool
  | [] => true
  | (_, plan) :: rest => plan.isApart && NodePlan.areApart rest
end

namespace NodePlan

theorem haveStepper_eq_false_iff {members : List (String × NodePlan)} :
    haveStepper members = false ↔ ∀ entry ∈ members, entry.2.hasStepper = false := by
  induction members with
  | nil => simp [haveStepper]
  | cons entry rest ih => simp [haveStepper, ih]

theorem areApart_iff {members : List (String × NodePlan)} :
    areApart members = true ↔ ∀ entry ∈ members, entry.2.isApart = true := by
  induction members with
  | nil => simp [areApart]
  | cons entry rest ih => simp [areApart, ih]

/-- The plans that a plan lists beneath its own. -/
def members : NodePlan → List (String × NodePlan)
  | .form _ _ _ => []
  | .collection _ members => members
  | .stepper _ members => members

theorem isApart_of_mem (plan : NodePlan) (apart : plan.isApart = true) :
    ∀ entry ∈ plan.members, entry.2.isApart = true := by
  cases plan with
  | form plan dialog members => simp [NodePlan.members]
  | collection plan members =>
      simp only [isApart, Bool.and_eq_true] at apart
      exact areApart_iff.mp apart.2
  | stepper plan members => exact areApart_iff.mp apart

theorem hasStepper_of_mem (plan : NodePlan) (without : plan.hasStepper = false) :
    ∀ entry ∈ plan.members, entry.2.hasStepper = false := by
  cases plan with
  | form plan dialog members => simp [NodePlan.members]
  | collection plan members => exact haveStepper_eq_false_iff.mp without
  | stepper plan members => cases without

end NodePlan

namespace Node

/-- What holds of the plan of a node, and is passed on to the plans beneath it, holds of the plan of every node
that stands beneath it. -/
theorem plan_of_stands {holds : NodePlan → Prop}
    (inherited : ∀ plan, holds plan → ∀ entry ∈ plan.members, holds entry.2) {node inner : Node}
    {segments : List String} (uniform : node.Uniform) (here : holds node.plan)
    (stands : node.Stands segments inner) : holds inner.plan := by
  induction stands with
  | here => exact here
  | @member frame progress members name outer _ _ inside _ ih =>
      have listed : (name, outer.plan) ∈ plans members := by
        rw [plans_eq]
        exact List.mem_map.mpr ⟨_, inside, rfl⟩
      cases uniform with
      | collection inner =>
          refine ih (inner _ inside) ?_
          cases progress with
          | none => exact inherited _ here _ listed
          | some _ => exact inherited _ here _ listed
  | @sibling frame template siblings _ sibling name outer _ _ there inside _ ih =>
      cases uniform with
      | series inTemplate alike inner =>
          have among := List.mem_of_getElem? there
          have listed : (name, outer.plan) ∈ plans template := by
            rw [← alike sibling among, plans_eq]
            exact List.mem_map.mpr ⟨_, inside, rfl⟩
          exact ih (inner sibling among _ inside) (inherited _ here _ listed)

/-- Whether the node is a stepper. -/
def isStepper : Node → Bool
  | .collection _ (some _) _ => true
  | _ => false

/-- The plan of a series has no stepper. -/
theorem hasStepper_series {node : Node} {front : List String} (uniform : node.Uniform)
    (apart : node.plan.isApart = true) {frame : Frame} {template : List (String × Node)} {siblings : List Sibling}
    (series : node.Stands front (.series frame template siblings)) (repeats : frame.plan.isRepeatable = true) :
    (Node.series frame template siblings).plan.hasStepper = false := by
  have seriesApart := @plan_of_stands (fun plan => plan.isApart = true) NodePlan.isApart_of_mem _ _ _
    uniform apart series
  simp only [plan, NodePlan.isApart, repeats, Bool.true_and, Bool.and_eq_true, Bool.not_eq_true'] at seriesApart
  exact seriesApart.1

/-- No stepper stands beneath a series. -/
theorem not_stepper_beneath {node found : Node} {front rest : List String} (regular : node.Regular)
    (apart : node.plan.isApart = true) {frame : Frame} {template : List (String × Node)} {siblings : List Sibling}
    (series : node.Stands front (.series frame template siblings))
    (repeats : frame.plan.isRepeatable = true) (beneath : node.Stands (front ++ rest) found) :
    found.isStepper = false := by
  have without := hasStepper_series regular.uniform apart series repeats
  have foundWithout := @plan_of_stands (fun plan => plan.hasStepper = false) NodePlan.hasStepper_of_mem _ _ _
    (regular.stands series).uniform without (series.beneath regular beneath)
  cases found with
  | form content => rfl
  | collection frame progress members =>
      cases progress with
      | none => rfl
      | some _ => cases foundWithout
  | series frame template siblings => rfl

/-! ### Building -/

mutual
/-- No stepper of what is built stands beneath a series, and none at all if it is built beneath one. -/
theorem build_apart {path : Path} {placement : Placement} {plan : NodePlan} {node : Node}
    (built : Node.build path placement plan = .ok node) :
    node.plan.isApart = true ∧ (placement.withinSeries = true → node.plan.hasStepper = false) := by
  match plan with
  | .form plan dialog members =>
      simp only [Node.build, bind_eq_ok, pure_eq_ok] at built
      obtain ⟨content, -, rfl⟩ := built
      exact ⟨rfl, fun _ => rfl⟩
  | .collection plan members =>
      simp only [Node.build, bind_eq_ok] at built
      obtain ⟨frame, frameBuilt, built⟩ := built
      split at built
      · simp only [bind_eq_ok, pure_eq_ok] at built
        obtain ⟨template, templateBuilt, rfl⟩ := built
        obtain ⟨apart, without⟩ := buildMembers_apart templateBuilt
        simp only [Node.plan, NodePlan.isApart, NodePlan.hasStepper, apart, without rfl]
        simp
      · rename_i single
        simp only [bind_eq_ok, pure_eq_ok] at built
        obtain ⟨entries, entriesBuilt, rfl⟩ := built
        obtain ⟨apart, without⟩ := buildMembers_apart entriesBuilt
        obtain ⟨same, -⟩ := buildFrame_eq_ok frameBuilt
        rw [Bool.not_eq_true] at single
        simp only [Node.plan, NodePlan.isApart, NodePlan.hasStepper, apart, same, single]
        exact ⟨rfl, without⟩
  | .stepper plan members =>
      simp only [Node.build] at built
      split at built
      · cases built
      · rename_i allowed
        split at built
        · cases built
        · simp only [bind_eq_ok, pure_eq_ok] at built
          obtain ⟨frame, -, entries, entriesBuilt, rfl⟩ := built
          obtain ⟨apart, -⟩ := buildMembers_apart entriesBuilt
          refine ⟨apart, fun within => ?_⟩
          rw [within, Bool.or_true] at allowed
          exact absurd rfl allowed

/-- `build_apart` for the members of a collection. -/
theorem buildMembers_apart {path : Path} {placement : Placement} {listed : List (String × NodePlan)}
    {members : List (String × Node)} (built : Node.buildMembers path placement listed = .ok members) :
    NodePlan.areApart (plans members) = true ∧
      (placement.withinSeries = true → NodePlan.haveStepper (plans members) = false) := by
  match listed with
  | [] =>
      cases built
      exact ⟨rfl, fun _ => rfl⟩
  | (name, plan) :: rest =>
      simp only [Node.buildMembers, bind_eq_ok, pure_eq_ok] at built
      obtain ⟨_, -, node, nodeBuilt, others, othersBuilt, rfl⟩ := built
      obtain ⟨apart, without⟩ := build_apart nodeBuilt
      obtain ⟨othersApart, othersWithout⟩ := buildMembers_apart othersBuilt
      simp only [plans, NodePlan.areApart, NodePlan.haveStepper, apart, othersApart]
      exact ⟨rfl, fun within => by rw [without within, othersWithout within]; rfl⟩
end

/-! ## The siblings at the start -/

/-- The siblings of a collection. One that cannot be repeated has its members as the only one. -/
def siblings : Node → List Sibling
  | .form _ => []
  | .collection _ _ members => [.mk false members]
  | .series _ _ siblings => siblings

/-- Which siblings of a collection are pristine. -/
def marks (node : Node) : List Bool := node.siblings.map Sibling.isPristine

@[simp]
theorem marks_form (content : Form) : (Node.form content).marks = [] := rfl

@[simp]
theorem marks_collection (frame : Frame) (progress : Option Progress) (members : List (String × Node)) :
    (Node.collection frame progress members).marks = [false] := rfl

@[simp]
theorem marks_series (frame : Frame) (template : List (String × Node)) (siblings : List Sibling) :
    (Node.series frame template siblings).marks = siblings.map Sibling.isPristine := rfl

end Node

namespace CollectionPlan

/-- How many siblings of a series are live at the start if the initial data have some number of entries. -/
def liveAtStart (plan : CollectionPlan) (given : Nat) : Nat :=
  max (match plan.maxSiblings with
    | some greatest => min given greatest
    | none => given) (plan.minSiblings.getD 0)

/-- How many pristine siblings a series offers at the start. -/
def offeredAtStart (plan : CollectionPlan) (given : Nat) : Nat :=
  match plan.maxSiblings with
  | some greatest => min (plan.extraSiblings.getD 0) (greatest - plan.liveAtStart given)
  | none => plan.extraSiblings.getD 0

/-- Which siblings of a series are pristine at the start. -/
def marksAtStart (plan : CollectionPlan) (given : Nat) : List Bool :=
  List.replicate (plan.liveAtStart given) false ++ List.replicate (plan.offeredAtStart given) true

end CollectionPlan

namespace Frame

theorem max_admitted {α : Type} (frame : Frame) (entries : List α) :
    max (frame.admitted entries).length frame.least = frame.plan.liveAtStart entries.length := by
  unfold admitted CollectionPlan.liveAtStart least
  cases frame.plan.maxSiblings with
  | none => rfl
  | some greatest => rw [List.length_take, Nat.min_comm]

/-- The marks of the siblings of a series that was populated with live siblings. -/
theorem marks_populate {α : Type} (frame : Frame) (template : List (String × Node)) (entries : List α)
    {given : List Sibling} (live : given.map Sibling.isPristine = List.replicate given.length false)
    (length : given.length = (frame.admitted entries).length) :
    (frame.populate template given).map Sibling.isPristine = frame.plan.marksAtStart entries.length := by
  have total : given.length + (frame.least - given.length) = frame.plan.liveAtStart entries.length := by
    rw [← max_admitted, ← length]
    omega
  simp only [populate, List.map_append, List.map_replicate, live, Sibling.isPristine_mk,
    List.replicate_append_replicate, List.length_append, List.length_replicate, total]
  rfl

/-- A sibling of a series that was populated was made from the entry at its index, or is a copy of the
template behind the last entry. -/
theorem getElem?_populate {α : Type} {frame : Frame} {template : List (String × Node)} {entries : List α}
    {make : α → Sibling} {index : Nat} {sibling : Sibling}
    (least : ∀ greatest, frame.plan.maxSiblings = some greatest → frame.least ≤ greatest)
    (there : (frame.populate template ((frame.admitted entries).map make))[index]? = some sibling) :
    (∃ entry, entries[index]? = some entry ∧ sibling = make entry) ∨
      entries[index]? = none ∧ sibling.members = template := by
  by_cases given : index < (frame.admitted entries).length
  · left
    have prefixed : (frame.admitted entries)[index]? = entries[index]? := by
      unfold admitted at given ⊢
      cases bound : frame.plan.maxSiblings with
      | none => rfl
      | some greatest =>
          simp only [bound, List.length_take] at given
          exact List.getElem?_take_of_lt (by omega)
    rw [populate, List.append_assoc, List.getElem?_append_left (by simpa using given), List.getElem?_map,
      prefixed] at there
    obtain ⟨entry, found, rfl⟩ := Option.map_eq_some_iff.mp there
    exact ⟨entry, found, rfl⟩
  · right
    constructor
    · have inside := (List.getElem?_eq_some_iff.mp there).1
      rw [List.getElem?_eq_none_iff]
      unfold admitted at given
      cases bound : frame.plan.maxSiblings with
      | none =>
          simp only [bound] at given
          omega
      | some greatest =>
          have room : (frame.populate template ((frame.admitted entries).map make)).length ≤ greatest :=
            Node.length_populate bound (least greatest bound)
              (by rw [List.length_map]; exact Node.length_admitted bound)
          simp only [bound, List.length_take] at given
          omega
    · rw [populate, List.append_assoc, List.getElem?_append_right (by simpa using given)] at there
      rcases List.mem_append.mp (List.mem_of_getElem? there) with blank | offered
      · rw [List.eq_of_mem_replicate blank]
        rfl
      · rw [List.eq_of_mem_replicate offered]
        rfl

/-- There is room for all of no entries. -/
@[simp]
theorem admitted_nil {α : Type} (frame : Frame) : frame.admitted ([] : List α) = [] := by
  unfold admitted
  cases frame.plan.maxSiblings <;> simp

end Frame

/-- The part of some initial data that is meant for what stands at some segments: an index means an entry of a
list of siblings, and a name the field of an object. -/
def InitialData.along : List String → Option Json → Option Json
  | [], data => data
  | segment :: rest, data =>
    along rest (match canonicalIndex? segment with
      | some index => (siblingEntries data)[index]?
      | none => data.bind (Json.field? segment))

theorem InitialData.along_none (segments : List String) : along segments none = none := by
  induction segments with
  | nil => rfl
  | cons segment rest ih =>
      rw [along]
      cases canonicalIndex? segment with
      | none => exact ih
      | some index => exact ih

/-- The name of a member is no index. -/
theorem Text.canonicalIndex?_of_isMemberName {name : String} (named : isMemberName name.toList = true) :
    canonicalIndex? name = none := by
  rw [isMemberName, Bool.and_eq_true, Bool.not_eq_true'] at named
  rw [canonicalIndex?, naturalValue?, named.2, Bool.and_false]
  rfl

theorem InitialData.along_index (index : Nat) (rest : List String) (data : Option Json) :
    along (indexText index :: rest) data = along rest (siblingEntries data)[index]? := by
  rw [along, canonicalIndex?_eq_some_iff.mpr rfl]

theorem InitialData.along_name {name : String} (named : isMemberName name.toList = true) (rest : List String)
    (data : Option Json) : along (name :: rest) data = along rest (data.bind (Json.field? name)) := by
  rw [along, canonicalIndex?_of_isMemberName named]

namespace Node

/-- Every collection at and beneath a node, those of templates included, is as it was built: a stepper has steps,
of which only the first is visited; the bounds of a series do not contradict each other, and its siblings are
copies of the template. -/
inductive Planted : Node → Prop where
  | form (content : Form) : Planted (.form content)
  | collection {frame : Frame} {progress : Option Progress} {members : List (String × Node)}
      (starts : ∀ own, progress = some own → members ≠ [] ∧ own = .start members.length)
      (inner : ∀ entry ∈ members, Planted entry.2) : Planted (.collection frame progress members)
  | series {frame : Frame} {template : List (String × Node)}
      (least : ∀ greatest, frame.plan.maxSiblings = some greatest → frame.least ≤ greatest)
      (inTemplate : ∀ entry ∈ template, Planted entry.2) :
      Planted (.series frame template (frame.populate template []))

/-- Nothing is built of no plans only. -/
theorem buildMembers_eq_nil {path : Path} {placement : Placement} {plans : List (String × NodePlan)}
    (built : Node.buildMembers path placement plans = .ok []) : plans = [] := by
  cases plans with
  | nil => rfl
  | cons entry rest =>
      simp only [Node.buildMembers, bind_eq_ok, pure_eq_ok] at built
      obtain ⟨_, -, node, -, others, -, same⟩ := built
      cases same

mutual
/-- What is built is planted. -/
theorem build_planted {path : Path} {placement : Placement} {plan : NodePlan} {node : Node}
    (built : Node.build path placement plan = .ok node) : node.Planted := by
  match plan with
  | .form plan dialog members =>
      simp only [Node.build, bind_eq_ok, pure_eq_ok] at built
      obtain ⟨content, -, rfl⟩ := built
      exact .form content
  | .collection plan members =>
      simp only [Node.build, bind_eq_ok] at built
      obtain ⟨frame, frameBuilt, built⟩ := built
      split at built
      · simp only [bind_eq_ok, pure_eq_ok] at built
        obtain ⟨template, templateBuilt, rfl⟩ := built
        exact .series (buildFrame_eq_ok frameBuilt).2.1 (buildMembers_planted templateBuilt)
      · simp only [bind_eq_ok, pure_eq_ok] at built
        obtain ⟨entries, entriesBuilt, rfl⟩ := built
        exact .collection (by simp) (buildMembers_planted entriesBuilt)
  | .stepper plan members =>
      simp only [Node.build] at built
      split at built
      · cases built
      · split at built
        · cases built
        · rename_i listed
          simp only [bind_eq_ok, pure_eq_ok] at built
          obtain ⟨frame, -, entries, entriesBuilt, rfl⟩ := built
          refine .collection ?_ (buildMembers_planted entriesBuilt)
          rintro own ⟨⟩
          refine ⟨?_, rfl⟩
          rintro rfl
          exact listed (List.isEmpty_iff.mpr (buildMembers_eq_nil entriesBuilt))

/-- `build_planted` for the members of a collection. -/
theorem buildMembers_planted {path : Path} {placement : Placement} {plans : List (String × NodePlan)}
    {members : List (String × Node)} (built : Node.buildMembers path placement plans = .ok members) :
    ∀ entry ∈ members, entry.2.Planted := by
  match plans with
  | [] =>
      cases built
      simp
  | (name, plan) :: rest =>
      simp only [Node.buildMembers, bind_eq_ok, pure_eq_ok] at built
      obtain ⟨_, -, node, nodeBuilt, others, othersBuilt, rfl⟩ := built
      exact List.forall_mem_cons.mpr ⟨build_planted nodeBuilt, buildMembers_planted othersBuilt⟩
end

/-- Without initial data every series has the siblings that it is built with. -/
theorem Planted.marks_eq {node : Node} {segments : List String} {frame : Frame}
    {template : List (String × Node)} {siblings : List Sibling} (planted : node.Planted)
    (stands : node.Stands segments (.series frame template siblings)) :
    siblings.map Sibling.isPristine = frame.plan.marksAtStart 0 := by
  generalize same : Node.series frame template siblings = inner at stands
  induction stands with
  | here =>
      subst same
      cases planted with
      | series => exact Frame.marks_populate frame template ([] : List Unit) rfl (by simp)
  | member inside _ ih =>
      cases planted with
      | collection _ inner => exact ih (inner _ inside) same
  | sibling there inside _ ih =>
      cases planted with
      | series least inTemplate =>
          have copy := (members_of_mem_populate (List.mem_of_getElem? there)).resolve_left (by simp)
          exact ih (inTemplate _ (copy ▸ inside)) same

/-- With initial data every series has a live sibling for each entry that there is room for. -/
theorem Planted.marks_fill {node : Node} (planted : node.Planted) (regular : node.Regular)
    {segments : List String} {frame : Frame} {template : List (String × Node)} {siblings : List Sibling}
    (data : Option Json) (stands : (node.fill data).Stands segments (.series frame template siblings)) :
    siblings.map Sibling.isPristine =
      frame.plan.marksAtStart (InitialData.siblingEntries (InitialData.along segments data)).length := by
  induction planted generalizing segments data with
  | form content =>
      obtain ⟨-, same⟩ := stands_form_iff.mp stands
      cases same
  | collection _ inner ih =>
      have members := regular.collection
      cases stands with
      | member inside below =>
          rw [fillMembers_eq] at inside
          obtain ⟨entry, there, same⟩ := List.mem_map.mp inside
          cases same
          rw [InitialData.along_name (members.named _ there)]
          exact ih _ there (members.inner _ there) _ below
  | series least inTemplate ih =>
      rename_i outer blank
      have members := regular.template
      cases stands with
      | here =>
          exact Frame.marks_populate _ _ (InitialData.siblingEntries data)
            (by simp [Function.comp_def, List.map_const']) (List.length_map _)
      | @sibling _ _ _ index sibling name _ _ rest there inside below =>
          rw [InitialData.along_index]
          rcases Frame.getElem?_populate least there with ⟨entry, given, rfl⟩ | ⟨ends, copy⟩
          · rw [Sibling.members_mk, fillMembers_eq] at inside
            obtain ⟨member, among, same⟩ := List.mem_map.mp inside
            cases same
            rw [given, InitialData.along_name (members.named _ among)]
            exact ih _ among (members.inner _ among) _ below
          · -- The template was not filled, and there are no initial data behind the last entry.
            rw [ends, InitialData.along_none]
            exact (inTemplate _ (copy ▸ inside)).marks_eq below

/-! ## Removing siblings -/

/-- The siblings that are not pristine are counted by their marks. -/
theorem count_marks (siblings : List Sibling) :
    (siblings.map Sibling.isPristine).count false = liveCount siblings := by
  rw [liveCount, List.count, List.countP_map]
  exact List.countP_congr fun sibling _ => by simp

/-- Without a pristine sibling as many siblings are live as with it, and without a live one there is one less. -/
theorem liveCount_eraseIdx {siblings : List Sibling} {index : Nat} (inside : index < siblings.length) :
    liveCount (siblings.eraseIdx index) =
      if siblings[index]?.any Sibling.isPristine then liveCount siblings else liveCount siblings - 1 := by
  rw [liveCount, liveCount, ← (List.getElem_cons_eraseIdx_perm inside).countP_eq, List.getElem?_eq_getElem inside,
    List.countP_cons, Option.any_some]
  cases siblings[index].isPristine <;> simp

/-- A series that has enough live siblings can do without any of the pristine ones. -/
theorem Sound.removeSibling_of_pristine {node : Node} (sound : node.Sound) {index : Nat}
    (pristine : node.marks[index]? = some true) (path : Path) :
    ∃ reduced, node.removeSibling path index = .ok reduced := by
  cases sound with
  | form fits => simp at pristine
  | collection single inner =>
      cases index <;> simp at pristine
  | @series frame template siblings repeats inTemplate fresh inner enough room =>
      rw [marks_series, List.getElem?_map] at pristine
      obtain ⟨sibling, there, isPristine⟩ := Option.map_eq_some_iff.mp pristine
      have inside := (List.getElem?_eq_some_iff.mp there).1
      have kept := liveCount_eraseIdx inside
      rw [there, Option.any_some, if_pos isPristine] at kept
      refine ⟨.series frame template (siblings.eraseIdx index), ?_⟩
      rw [Node.removeSibling, if_neg (Nat.not_le.mpr inside)]
      exact if_neg (by omega)

/-! ## Lists of all series -/

/-- The plan of a series, and which of its siblings are pristine. -/
def row? : Node → Option (CollectionPlan × List Bool)
  | .series frame _ siblings => some (frame.plan, siblings.map Sibling.isPristine)
  | _ => none

/-- The plans and marks of all series with their paths. -/
def rows (path : Path) (node : Node) : List (Path × CollectionPlan × List Bool) :=
  (node.nodes false path).filterMap fun (place, inner) => inner.row?.map (place, ·)

theorem row?_eq_some_iff {node : Node} {plan : CollectionPlan} {marks : List Bool} :
    node.row? = some (plan, marks) ↔ ∃ frame template siblings, node = .series frame template siblings ∧
      frame.plan = plan ∧ siblings.map Sibling.isPristine = marks := by
  cases node with
  | form content => simp [row?]
  | collection frame progress members => simp [row?]
  | series frame template siblings => simp [row?]

theorem mem_rows_iff {path place : Path} {node : Node} {plan : CollectionPlan} {marks : List Bool} :
    (place, plan, marks) ∈ node.rows path ↔ ∃ segments frame template siblings,
      place = path.extend ⟨segments⟩ ∧ node.Stands segments (.series frame template siblings) ∧
        frame.plan = plan ∧ siblings.map Sibling.isPristine = marks := by
  rw [rows, List.mem_filterMap]
  constructor
  · rintro ⟨⟨found, inner⟩, listed, same⟩
    obtain ⟨row, isRow, same⟩ := Option.map_eq_some_iff.mp same
    cases same
    obtain ⟨frame, template, siblings, rfl, rfl, rfl⟩ := row?_eq_some_iff.mp isRow
    obtain ⟨segments, rfl, stands⟩ := mem_nodes_iff.mp listed
    exact ⟨segments, frame, template, siblings, rfl, stands, rfl, rfl⟩
  · rintro ⟨segments, frame, template, siblings, rfl, stands, rfl, rfl⟩
    exact ⟨_, mem_nodes_iff.mpr ⟨segments, rfl, stands⟩, rfl⟩

theorem rows_eq (path : Path) (node : Node) :
    node.rows path = (node.row?.map (path, ·)).toList ++
      node.branches.flatMap fun branch => branch.2.rows (path.extend ⟨branch.1⟩) := by
  simp only [rows, nodes_eq path node, List.filterMap_cons, List.filterMap_flatMap]
  cases node.row? <;> rfl

/-- A change of everything that keeps the plans of frames keeps all rows of siblings. -/
theorem rows_map {onForm : Path → Form → Form} {onFrame : Path → Frame → Frame}
    (keepsFrame : ∀ path frame, (onFrame path frame).plan = frame.plan) (path : Path) (node : Node) :
    (node.map false onForm onFrame path).rows path = node.rows path := by
  rw [rows, rows, nodes_map, List.filterMap_map]
  refine List.filterMap_congr fun entry _ => ?_
  obtain ⟨place, inner⟩ := entry
  cases inner with
  | form content => rfl
  | collection frame progress members => rfl
  | series frame template siblings =>
      simp only [Function.comp_apply, map, row?, keepsFrame, isPristine_mapSiblings]

theorem rows_refresh (lookup : Lookup) (path : Path) (node : Node) :
    (node.refresh lookup path).rows path = node.rows path := rows_map (fun _ _ => rfl) path node

theorem rows_latch (lookup : Lookup) (path : Path) (node : Node) :
    (node.latch lookup path).rows path = node.rows path :=
  @rows_map _ (Frame.latch lookup) (fun _ _ => rfl) path node

theorem rows_markPrefilled (path : Path) (node : Node) : node.markPrefilled.rows path = node.rows path := by
  induction node using Node.induction generalizing path with
  | form content => rfl
  | collection frame progress members ih =>
      rw [markPrefilled, rows_eq, rows_eq, markPrefilledAll_eq]
      simp only [branches, List.map_map, List.flatMap_map]
      exact congrArg _ (List.flatMap_congr fun entry inside => ih entry inside _)
  | series frame template siblings _ _ => rfl

end Node

end Formwork
