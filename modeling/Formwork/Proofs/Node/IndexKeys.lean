import Mathlib.Data.List.Perm.Basic
import Mathlib.Logic.Relation
import Formwork.Proofs.Node.Mounting
import Formwork.Proofs.Spellings

/-!
# Siblings at their indices

The data of a series are a list with one item for each sibling, or an object with the items at their
indices. The order of such an object does not matter: read by index it gives the list again
(`InitialData.siblingEntries_of_perm`). Replacing lists by objects this way, one after the other
(`InitialData.Rekeyings`), changes nothing about the node that the data fill (`InitialData.Rekeyings.fill`).
-/

set_option autoImplicit false

namespace Formwork

open Formwork.Text Formwork.Number

theorem Text.size?_indexText {index : Nat} (small : index < wordCount 64) :
    size? (indexText index).toList = some index := by
  have read := canonicalIndex?_eq_some_iff.mpr (rfl : indexText index = indexText index)
  have value := (Option.filter_eq_some_iff.mp read).1
  unfold size?
  dsimp only
  split
  · rename_i rest signed
    rw [signed, naturalValue?] at value
    simp at value
  · rw [value]
    simp [small]

/-- A value is found that was put in the place of another one, unless both are hidden by an earlier one. -/
theorem Assoc.get?_replaced {α : Type} (name key : String) (value changed : α) (front back : List (String × α)) :
    get? name (front ++ (key, value) :: back) = get? name (front ++ (key, changed) :: back) ∨
      name = key ∧ get? name (front ++ (key, value) :: back) = some value ∧
        get? name (front ++ (key, changed) :: back) = some changed := by
  induction front with
  | nil =>
      rw [List.nil_append, List.nil_append, get?, get?]
      by_cases same : key = name
      · exact .inr ⟨same.symm, if_pos same, if_pos same⟩
      · exact .inl (by rw [if_neg same, if_neg same])
  | cons entry rest ih =>
      rw [List.cons_append, List.cons_append, get?, get?]
      split
      · exact .inl rfl
      · exact ih

/-- Every member that is built comes from the plan with its name. -/
theorem Node.build_of_mem_buildMembers {path : Path} {placement : Placement} {plans : List (String × NodePlan)}
    {members : List (String × Node)} (built : buildMembers path placement plans = .ok members)
    {entry : String × Node} (inside : entry ∈ members) :
    ∃ plan, (entry.1, plan) ∈ plans ∧ build (path.join entry.1) placement plan = .ok entry.2 := by
  induction plans generalizing members with
  | nil =>
      cases built
      cases inside
  | cons head rest ih =>
      obtain ⟨name, plan⟩ := head
      simp only [buildMembers, bind_eq_ok, pure_eq_ok] at built
      obtain ⟨_, -, node, nodeBuilt, others, othersBuilt, rfl⟩ := built
      rcases List.mem_cons.mp inside with rfl | later
      · exact ⟨plan, List.mem_cons_self, nodeBuilt⟩
      · obtain ⟨other, declared, otherBuilt⟩ := ih othersBuilt later
        exact ⟨other, List.mem_cons_of_mem _ declared, otherBuilt⟩

/-- A series has room for some of its entries, whatever is made of them. -/
theorem Frame.map_admitted {α β : Type} (frame : Frame) (change : α → β) (entries : List α) :
    (frame.admitted entries).map change = frame.admitted (entries.map change) := by
  unfold admitted
  split
  · exact List.map_take
  · rfl

namespace InitialData

/-! ## Reading by index -/

/-- The values whose keys are sizes, with these sizes. -/
def sized {α : Type} (fields : List (String × α)) : List (Nat × α) :=
  fields.filterMap fun entry => (size? entry.1.toList).map (·, entry.2)

/-- Values in the order of the numbers in front of them. -/
def inOrder {α : Type} (entries : List (Nat × α)) : List α :=
  (entries.mergeSort fun first second => decide (first.1 ≤ second.1)).map Prod.snd

theorem siblingEntries_object (fields : List (String × Json)) :
    siblingEntries (some (.object fields)) = inOrder (sized fields) := rfl

/-- Sizes do not depend on what is made of the values. -/
theorem map_sized {α β : Type} (change : α → β) (fields : List (String × α)) :
    (sized fields).map (fun entry => (entry.1, change entry.2)) =
      sized (fields.map fun entry => (entry.1, change entry.2)) := by
  rw [sized, sized, List.filterMap_map, List.map_filterMap]
  refine List.filterMap_congr fun entry _ => ?_
  rw [Option.map_map]
  rfl

/-- The order does not depend on what is made of the values. -/
theorem map_inOrder {α β : Type} (change : α → β) (entries : List (Nat × α)) :
    (inOrder entries).map change = inOrder (entries.map fun entry => (entry.1, change entry.2)) := by
  have sorted := @List.map_mergeSort _ _ (fun first second : Nat × α => decide (first.1 ≤ second.1))
    (fun first second : Nat × β => decide (first.1 ≤ second.1)) (fun entry => (entry.1, change entry.2))
    entries fun _ _ _ _ => rfl
  rw [inOrder, inOrder, ← sorted, List.map_map, List.map_map]
  rfl

theorem map_siblingEntries {α : Type} (change : Json → α) (fields : List (String × Json)) :
    (siblingEntries (some (.object fields))).map change =
      inOrder (sized (fields.map fun entry => (entry.1, change entry.2))) := by
  rw [siblingEntries_object, map_inOrder, map_sized]

/-- Entries that can be arranged by increasing numbers are in this order. -/
theorem inOrder_of_perm {α : Type} {entries ordered : List (Nat × α)}
    (increasing : (ordered.map Prod.fst).Pairwise (· < ·)) (perm : entries.Perm ordered) :
    inOrder entries = ordered.map Prod.snd := by
  have sorted : (entries.mergeSort fun first second => decide (first.1 ≤ second.1)).Pairwise
      fun first second => first.1 ≤ second.1 := by
    refine (List.pairwise_mergeSort (fun first second third => ?_) (fun first second => ?_) entries).imp
      of_decide_eq_true
    · simpa only [decide_eq_true_eq] using Nat.le_trans
    · simpa only [Bool.or_eq_true, decide_eq_true_eq] using Nat.le_total first.1 second.1
  have weakly : ordered.Pairwise fun first second => first.1 ≤ second.1 :=
    (List.pairwise_map.mp increasing).imp Nat.le_of_lt
  have nodup : (ordered.map Prod.fst).Nodup := increasing.imp Nat.ne_of_lt
  have rearranged := (List.mergeSort_perm entries fun first second => decide (first.1 ≤ second.1)).trans perm
  refine congrArg (List.map Prod.snd) (List.Perm.eq_of_pairwise ?_ sorted weakly rearranged)
  intro first second there here below above
  exact List.inj_on_of_nodup_map nodup (rearranged.subset there) here (Nat.le_antisymm below above)

/-- The items of a list at their indices. -/
def indexFields (items : List Json) : List (String × Json) :=
  items.zipIdx.map fun entry => (indexText entry.2, entry.1)

theorem map_snd_indexFields (items : List Json) : (indexFields items).map Prod.snd = items := by
  rw [indexFields, List.map_map]
  exact List.zipIdx_map_fst 0 items

theorem keys_indexFields (items : List Json) :
    Assoc.keys (indexFields items) = (List.range' 0 items.length).map indexText := by
  rw [← List.zipIdx_map_snd, indexFields, Assoc.keys, List.map_map, List.map_map]
  rfl

theorem sized_indexFields {items : List Json} (few : items.length ≤ wordCount 64) :
    sized (indexFields items) = items.zipIdx.map Prod.swap := by
  rw [sized, indexFields, List.filterMap_map, ← List.filterMap_eq_map]
  refine List.filterMap_congr fun entry inside => ?_
  have small := (List.mem_zipIdx inside).2.1
  rw [Nat.zero_add] at small
  simp only [Function.comp_apply, Text.size?_indexText (Nat.lt_of_lt_of_le small few), Option.map_some]
  rfl

/-- Items at their indices are read in the order of the indices. -/
theorem siblingEntries_of_perm {items : List Json} (few : items.length ≤ wordCount 64)
    {fields : List (String × Json)} (perm : fields.Perm (indexFields items)) :
    siblingEntries (some (.object fields)) = items := by
  have increasing : ((items.zipIdx.map Prod.swap).map Prod.fst).Pairwise (· < ·) := by
    rw [List.map_map]
    exact (List.zipIdx_map_snd 0 items).symm ▸ List.pairwise_lt_range' 1
  have indexed : (sized fields).Perm (items.zipIdx.map Prod.swap) := sized_indexFields few ▸ perm.filterMap _
  rw [siblingEntries_object, inOrder_of_perm increasing indexed, List.map_map]
  exact List.zipIdx_map_fst 0 items

end InitialData

/-! ## Data for a plan -/

/-- What the data of a node consist of: the members of one object, the members of every sibling of a
series, or what a form makes of them. -/
inductive DataShape where
  | form
  | single (members : List (String × NodePlan))
  | series (members : List (String × NodePlan))

/-- The shape of the data for a plan. -/
def NodePlan.dataShape : NodePlan → DataShape
  | .form _ _ _ => .form
  | .collection plan members => if plan.isRepeatable then .series members else .single members
  | .stepper _ members => .single members

/-- The plans of the members that the data hold. -/
def DataShape.members : DataShape → List (String × NodePlan)
  | .form => []
  | .single members => members
  | .series members => members

theorem NodePlan.distinct_members {plan : NodePlan} (distinct : plan.hasDistinctNames = true) :
    (Assoc.keys plan.dataShape.members).Nodup ∧
      ∀ entry ∈ plan.dataShape.members, entry.2.hasDistinctNames = true := by
  cases plan with
  | form => exact ⟨List.nodup_nil, List.forall_mem_nil _⟩
  | collection plan members =>
      rw [hasDistinctNames, Bool.and_eq_true, Assoc.distinct_eq_true_iff, haveDistinctNames_iff] at distinct
      rw [dataShape]
      split
      · exact distinct
      · exact distinct
  | stepper plan members =>
      rw [hasDistinctNames, Bool.and_eq_true, Assoc.distinct_eq_true_iff, haveDistinctNames_iff] at distinct
      exact distinct

namespace InitialData

/-- One list of siblings in data of a shape is replaced by an object with the same siblings at their indices,
in any order. A list of the program has no more items than there are words of 64 bits. -/
inductive Rekeyed : DataShape → Json → Json → Prop where
  | indices {members : List (String × NodePlan)} {items : List Json} {fields : List (String × Json)}
      (few : items.length ≤ wordCount 64) (perm : fields.Perm (indexFields items)) :
      Rekeyed (.series members) (.list items) (.object fields)
  | item {members : List (String × NodePlan)} {entry changed : Json} (front back : List Json)
      (inner : Rekeyed (.single members) entry changed) :
      Rekeyed (.series members) (.list (front ++ entry :: back)) (.list (front ++ changed :: back))
  | entry {members : List (String × NodePlan)} {entry changed : Json} (key : String)
      (front back : List (String × Json)) (inner : Rekeyed (.single members) entry changed) :
      Rekeyed (.series members) (.object (front ++ (key, entry) :: back)) (.object (front ++ (key, changed) :: back))
  | member {members : List (String × NodePlan)} {name : String} {plan : NodePlan} {value changed : Json}
      (declared : (name, plan) ∈ members) (front back : List (String × Json))
      (inner : Rekeyed plan.dataShape value changed) :
      Rekeyed (.single members) (.object (front ++ (name, value) :: back)) (.object (front ++ (name, changed) :: back))

section

variable {shape : DataShape} {listed keyed : Json} (rekeyed : Rekeyed shape listed keyed)
include rekeyed

/-- What holds of all lists and objects still holds if it depends on the keys of objects only, and lists hand it
on to objects with their items at the indices. -/
theorem Rekeyed.throughout {onList : List Json → Prop} {onObject : List (String × Json) → Prop}
    (indices : ∀ items fields, fields.Perm (indexFields items) → onList items → onObject fields)
    (lists : ∀ first second : List Json, first.length = second.length → onList first → onList second)
    (objects : ∀ first second, Assoc.keys first = Assoc.keys second → onObject first → onObject second)
    (holds : listed.Throughout onList onObject) : keyed.Throughout onList onObject := by
  induction rekeyed with
  | @indices _ items fields few perm =>
      obtain ⟨here, inner⟩ := Json.throughout_list_iff.mp holds
      refine .object (indices items fields perm here) fun entry inside => inner entry.2 ?_
      rw [← map_snd_indexFields items]
      exact List.mem_map_of_mem (perm.subset inside)
  | item front back _ ih =>
      obtain ⟨here, inner⟩ := Json.throughout_list_iff.mp holds
      obtain ⟨inFront, there, inBack⟩ := by simpa only [List.forall_mem_append, List.forall_mem_cons] using inner
      refine .list (lists _ _ (by simp) here) ?_
      simpa only [List.forall_mem_append, List.forall_mem_cons] using ⟨inFront, ih there, inBack⟩
  | entry key front back _ ih | member _ front back _ ih =>
      obtain ⟨here, inner⟩ := Json.throughout_object_iff.mp holds
      obtain ⟨inFront, there, inBack⟩ := by simpa only [List.forall_mem_append, List.forall_mem_cons] using inner
      refine .object (objects _ _ (by simp [Assoc.keys]) here) ?_
      simpa only [List.forall_mem_append, List.forall_mem_cons] using ⟨inFront, ih there, inBack⟩

theorem Rekeyed.nested (nested : listed.Nested) : keyed.Nested := by
  refine rekeyed.throughout (fun items fields perm _ => ?_) (fun _ _ _ _ => trivial) (fun _ _ same here => ?_) nested
  · have keys : (Assoc.keys fields).Perm ((List.range' 0 items.length).map indexText) :=
      keys_indexFields items ▸ perm.map Prod.fst
    refine ⟨keys.nodup_iff.mpr ?_, fun key inside => ?_⟩
    · exact (List.nodup_range' 1).map fun _ _ => indexText_injective
    · obtain ⟨index, -, rfl⟩ := List.mem_map.mp (keys.subset inside)
      exact isName_of_plain (Path.plain_indexText index)
  · exact same ▸ here

theorem Rekeyed.full (full : listed.Full) : keyed.Full := by
  refine rekeyed.throughout (fun items fields perm some => ?_) (fun _ _ same some => ?_) (fun _ _ same some => ?_) full
  all_goals rintro rfl
  · have none : indexFields items = [] := perm.symm.eq_nil
    exact some (by simpa [indexFields] using none)
  · exact some (List.length_eq_zero_iff.mp same)
  · exact some (List.map_eq_nil_iff.mp same)

end

/-! ## Filling -/

/-- Two data fill a node that is built from a plan with data of a shape with the same content. -/
def FillAlike : DataShape → Json → Json → Prop
  | .form, first, second => first = second
  | .single members, first, second => ∀ path placement built, Node.buildMembers path placement members = .ok built →
      Node.fillMembers (some first) built = Node.fillMembers (some second) built
  | .series members, first, second => ∀ path placement built, Node.buildMembers path placement members = .ok built →
      (siblingEntries (some first)).map (fun entry => Node.fillMembers (some entry) built) =
        (siblingEntries (some second)).map fun entry => Node.fillMembers (some entry) built

theorem FillAlike.fill {plan : NodePlan} {first second : Json} (alike : FillAlike plan.dataShape first second)
    {path : Path} {placement : Placement} {node : Node} (built : Node.build path placement plan = .ok node) :
    node.fill (some first) = node.fill (some second) := by
  cases plan with
  | form plan dialog members =>
      obtain rfl : first = second := alike
      rfl
  | collection plan members =>
      simp only [Node.build, bind_eq_ok] at built
      obtain ⟨frame, -, built⟩ := built
      rw [NodePlan.dataShape] at alike
      split at built
      · rename_i repeatable
        rw [if_pos repeatable] at alike
        simp only [bind_eq_ok, pure_eq_ok] at built
        obtain ⟨template, templateBuilt, rfl⟩ := built
        have siblings := congrArg (fun lists => frame.admitted (lists.map (Sibling.mk false)))
          (alike _ _ _ templateBuilt)
        simp only [List.map_map] at siblings
        simp only [Node.fill, Frame.map_admitted]
        exact congrArg (fun given => Node.series frame template (frame.populate template given)) siblings
      · rename_i single
        rw [if_neg single] at alike
        simp only [bind_eq_ok, pure_eq_ok] at built
        obtain ⟨entries, entriesBuilt, rfl⟩ := built
        exact congrArg (Node.collection frame none) (alike _ _ _ entriesBuilt)
  | stepper plan members =>
      simp only [Node.build] at built
      split at built
      · cases built
      · split at built
        · cases built
        · simp only [bind_eq_ok, pure_eq_ok] at built
          obtain ⟨frame, -, entries, entriesBuilt, rfl⟩ := built
          exact congrArg (Node.collection frame _) (alike _ _ _ entriesBuilt)

/-- Members of one object are filled alike if the values at the key of a member fill it alike. -/
theorem FillAlike.member {members : List (String × NodePlan)} (unique : (Assoc.keys members).Nodup) {name : String}
    {plan : NodePlan} (declared : (name, plan) ∈ members) {value changed : Json}
    (alike : FillAlike plan.dataShape value changed) (front back : List (String × Json)) :
    FillAlike (.single members) (.object (front ++ (name, value) :: back))
      (.object (front ++ (name, changed) :: back)) := by
  intro path placement built membersBuilt
  rw [Node.fillMembers_eq, Node.fillMembers_eq]
  refine List.map_congr_left fun entry inside => congrArg (Prod.mk entry.1) ?_
  rw [Option.bind_some, Option.bind_some, Json.field?, Json.field?]
  rcases Assoc.get?_replaced entry.1 name value changed front back with same | ⟨sameName, before, after⟩
  · rw [same]
  · obtain ⟨other, otherDeclared, nodeBuilt⟩ := Node.build_of_mem_buildMembers membersBuilt inside
    rw [sameName] at otherDeclared
    obtain rfl : other = plan := Option.some.inj
      (((Assoc.get?_eq_some_iff unique).mpr otherDeclared).symm.trans
        ((Assoc.get?_eq_some_iff unique).mpr declared))
    rw [before, after]
    exact alike.fill nodeBuilt

/-- Siblings at their indices are filled as they are in a list. -/
theorem Rekeyed.fillAlike {shape : DataShape} {listed keyed : Json} (rekeyed : Rekeyed shape listed keyed)
    (unique : (Assoc.keys shape.members).Nodup)
    (distinct : ∀ entry ∈ shape.members, entry.2.hasDistinctNames = true) : FillAlike shape listed keyed := by
  induction rekeyed with
  | indices few perm =>
      intro path placement built _
      rw [siblingEntries_of_perm few perm, siblingEntries]
  | item front back _ ih =>
      intro path placement built membersBuilt
      simp only [siblingEntries, List.map_append, List.map_cons, ih unique distinct path placement built membersBuilt]
  | entry key front back _ ih =>
      intro path placement built membersBuilt
      rw [map_siblingEntries, map_siblingEntries]
      simp only [List.map_append, List.map_cons, ih unique distinct path placement built membersBuilt]
  | member declared front back _ ih =>
      obtain ⟨uniqueBelow, distinctBelow⟩ := NodePlan.distinct_members (distinct _ declared)
      exact (ih uniqueBelow distinctBelow).member unique declared front back

/-! ## One list after the other -/

/-- Lists are replaced one after the other, and nested ones in any order. -/
abbrev Rekeyings (shape : DataShape) : Json → Json → Prop := Relation.ReflTransGen (Rekeyed shape)

section

variable {shape : DataShape} {listed keyed : Json} (rekeyings : Rekeyings shape listed keyed)
include rekeyings

theorem Rekeyings.nested (nested : listed.Nested) : keyed.Nested := by
  induction rekeyings with
  | refl => exact nested
  | tail _ last ih => exact last.nested ih

theorem Rekeyings.full (full : listed.Full) : keyed.Full := by
  induction rekeyings with
  | refl => exact full
  | tail _ last ih => exact last.full ih

end

/-- An object without fields holds no lists. -/
theorem Rekeyings.eq_of_empty {shape : DataShape} {keyed : Json} (rekeyings : Rekeyings shape (.object []) keyed) :
    keyed = .object [] := by
  induction rekeyings with
  | refl => rfl
  | tail _ last ih =>
      subst ih
      generalize empty : Json.object [] = before at last
      cases last <;> simp at empty

/-- Data fill a node in the same way after any number of lists in them were replaced. -/
theorem Rekeyings.fill {plan : NodePlan} {listed keyed : Json} (rekeyings : Rekeyings plan.dataShape listed keyed)
    (distinct : plan.hasDistinctNames = true) {path : Path} {placement : Placement} {node : Node}
    (built : Node.build path placement plan = .ok node) : node.fill (some keyed) = node.fill (some listed) := by
  obtain ⟨unique, below⟩ := NodePlan.distinct_members distinct
  induction rekeyings with
  | refl => rfl
  | tail _ last ih => exact ((last.fillAlike unique below).fill built).symm.trans ih

end InitialData

end Formwork
