import Formwork.Proofs.Node.Leaves
import Formwork.Proofs.Node.Sound

/-!
# Nodes that match

Two nodes mirror each other if they have the same members, as many live siblings in every series, and
related forms at matching places (`Node.Mirrors`). Places match if the same names lead to them, and
siblings of the same rank among those that are not pristine (`Node.Matches`).

Everything outside pristine siblings has one match in a node that mirrors its own
(`Node.Mirrors.exists_match`, `Node.Matches.unique`), and the match mirrors it.
-/

set_option autoImplicit false

namespace Formwork.Node

open Formwork.Text

/-! ## Ranks -/

theorem rank_congr {siblings others : List Sibling}
    (same : siblings.map Sibling.isPristine = others.map Sibling.isPristine) (index : Nat) :
    rank siblings index = rank others index := by
  refine liveCount_congr ?_
  rw [List.map_take, List.map_take, same]

/-- A live sibling has fewer live siblings in front of it than there are. -/
theorem rank_lt_liveCount {siblings : List Sibling} {index : Nat} {members : List (String × Node)}
    (stands : siblings[index]? = some (.mk false members)) : rank siblings index < liveCount siblings := by
  obtain ⟨short, -⟩ := List.getElem?_eq_some_iff.mp stands
  have before := rank_lt stands short
  rwa [rank, rank, List.take_length] at before

/-- Every number below that of the live siblings is the rank of a live sibling. -/
theorem exists_rank_eq {siblings : List Sibling} {number : Nat} (small : number < liveCount siblings) :
    ∃ index members, siblings[index]? = some (.mk false members) ∧ rank siblings index = number := by
  induction siblings generalizing number with
  | nil => cases small
  | cons sibling rest ih =>
      obtain ⟨pristine, members⟩ := sibling
      rw [liveCount, List.countP_cons, ← liveCount] at small
      cases pristine with
      | true =>
          obtain ⟨index, others, stands, same⟩ := ih small
          refine ⟨index + 1, others, stands, ?_⟩
          rw [rank_cons, same]
          exact Nat.zero_add number
      | false =>
          cases number with
          | zero => exact ⟨0, members, rfl, rfl⟩
          | succ number =>
              obtain ⟨index, others, stands, same⟩ := ih (Nat.lt_of_succ_lt_succ small)
              refine ⟨index + 1, others, stands, ?_⟩
              rw [rank_cons, same]
              exact Nat.add_comm 1 number

/-! ## Mirrors and matches -/

/-- Two nodes have the same members, live siblings of the same number, and related forms. -/
inductive Mirrors (related : Form → Form → Prop) : Node → Node → Prop where
  | form {content other : Form} (holds : related content other) : Mirrors related (.form content) (.form other)
  | collection {frame otherFrame : Frame} {progress otherProgress : Option Progress}
      {members others : List (String × Node)} (names : Assoc.keys members = Assoc.keys others)
      (each : ∀ name inner other, (name, inner) ∈ members → (name, other) ∈ others →
        Mirrors related inner other) :
      Mirrors related (.collection frame progress members) (.collection otherFrame otherProgress others)
  | series {frame otherFrame : Frame} {template otherTemplate : List (String × Node)}
      {siblings others : List Sibling} (count : liveCount siblings = liveCount others)
      (names : ∀ first second members copies, siblings[first]? = some (.mk false members) →
        others[second]? = some (.mk false copies) → rank siblings first = rank others second →
          Assoc.keys members = Assoc.keys copies)
      (each : ∀ first second members copies, siblings[first]? = some (.mk false members) →
        others[second]? = some (.mk false copies) → rank siblings first = rank others second →
          ∀ name inner other, (name, inner) ∈ members → (name, other) ∈ copies → Mirrors related inner other) :
      Mirrors related (.series frame template siblings) (.series otherFrame otherTemplate others)

/-- Some segments in a node lead to the same place as other segments do in another node: by the same
names, and by siblings of the same rank among those that are not pristine. -/
inductive Matches : Node → Node → List String → List String → Prop where
  | here (node other : Node) : Matches node other [] []
  | form (content other : Form) (names : List String) : Matches (.form content) (.form other) names names
  | member {frame otherFrame : Frame} {progress otherProgress : Option Progress}
      {members others : List (String × Node)} {name : String} {inner other : Node}
      {segments places : List String} (inside : (name, inner) ∈ members) (insideOther : (name, other) ∈ others)
      (below : Matches inner other segments places) :
      Matches (.collection frame progress members) (.collection otherFrame otherProgress others)
        (name :: segments) (name :: places)
  | sibling {frame otherFrame : Frame} {template otherTemplate : List (String × Node)}
      {siblings others : List Sibling} {first second : Nat} {members copies : List (String × Node)}
      {name : String} {inner other : Node} {segments places : List String}
      (stands : siblings[first]? = some (.mk false members))
      (standsOther : others[second]? = some (.mk false copies))
      (sameRank : rank siblings first = rank others second) (inside : (name, inner) ∈ members)
      (insideOther : (name, other) ∈ copies) (below : Matches inner other segments places) :
      Matches (.series frame template siblings) (.series otherFrame otherTemplate others)
        (indexText first :: name :: segments) (indexText second :: name :: places)

theorem Matches.symm {node other : Node} {segments places : List String}
    (isMatch : node.Matches other segments places) : other.Matches node places segments := by
  induction isMatch with
  | here node other => exact .here other node
  | form content other names => exact .form other content names
  | member inside insideOther _ ih => exact .member insideOther inside ih
  | sibling stands standsOther sameRank inside insideOther _ ih =>
      exact .sibling standsOther stands sameRank.symm insideOther inside ih

theorem exists_member_of_keys {members others : List (String × Node)}
    (names : Assoc.keys members = Assoc.keys others) {name : String} {inner : Node}
    (inside : (name, inner) ∈ members) : ∃ other, (name, other) ∈ others := by
  have listed : name ∈ Assoc.keys others := names ▸ List.mem_map_of_mem inside
  obtain ⟨⟨_, other⟩, among, rfl⟩ := List.mem_map.mp listed
  exact ⟨other, among⟩

/-- In regular nodes a place has one match. -/
theorem Matches.unique {node other : Node} (regular : node.Regular) (regularOther : other.Regular)
    {segments places choices : List String} (first : node.Matches other segments places)
    (second : node.Matches other segments choices) : places = choices := by
  induction first generalizing choices with
  | here node other => cases second <;> rfl
  | form content other names => cases second <;> rfl
  | member inside insideOther _ ih =>
      cases second with
      | member inside' insideOther' below =>
          obtain rfl := regular.collection.unique inside inside'
          obtain rfl := regularOther.collection.unique insideOther insideOther'
          rw [ih (regular.collection.inner _ inside) (regularOther.collection.inner _ insideOther) below]
  | @sibling _ _ _ _ siblings others index position _ _ name _ _ segments places stands standsOther sameRank
      inside insideOther _ ih =>
      generalize path : indexText index :: name :: segments = whole at second
      cases second with
      | here => cases path
      | sibling stands' standsOther' sameRank' inside' insideOther' below =>
          injection path with sameIndex path
          injection path with sameName path
          subst sameName path
          obtain rfl := indexText_injective sameIndex
          rw [stands] at stands'
          cases stands'
          obtain rfl := rank_injective standsOther standsOther' (sameRank.symm.trans sameRank')
          rw [standsOther] at standsOther'
          cases standsOther'
          have members := regular.series (List.mem_of_getElem? stands)
          have copies := regularOther.series (List.mem_of_getElem? standsOther)
          obtain rfl := members.unique inside inside'
          obtain rfl := copies.unique insideOther insideOther'
          rw [ih (members.inner _ inside) (copies.inner _ insideOther) below]

namespace Mirrors

variable {related : Form → Form → Prop} {node other : Node}

theorem symm (mirrors : node.Mirrors related other) :
    other.Mirrors (fun content copy => related copy content) node := by
  induction mirrors with
  | form holds => exact .form holds
  | collection names _ ih =>
      exact .collection names.symm fun name inner other inside insideOther => ih name other inner insideOther inside
  | series count names _ ih =>
      refine .series count.symm (fun first second members copies stands standsOther sameRank => ?_)
        fun first second members copies stands standsOther sameRank name inner other inside insideOther => ?_
      · exact (names second first copies members standsOther stands sameRank.symm).symm
      · exact ih second first copies members standsOther stands sameRank.symm name other inner insideOther inside

/-- Everything outside pristine siblings has a match, which mirrors it. -/
theorem exists_match (mirrors : node.Mirrors related other) (regular : node.Regular)
    (regularOther : other.Regular) {segments : List String} {inner : Node}
    (stands : node.Stands segments inner) (shown : ¬ node.Offered segments) :
    ∃ places copy, other.Stands places copy ∧ ¬ other.Offered places ∧ inner.Mirrors related copy ∧
      ∀ rest others, inner.Matches copy rest others → node.Matches other (segments ++ rest) (places ++ others) := by
  induction stands generalizing other with
  | here node =>
      refine ⟨[], other, .here other, ?_, mirrors, fun rest others isMatch => isMatch⟩
      rintro ⟨front, frame, template, siblings, index, members, rest, same, -, -⟩
      exact List.append_ne_nil_of_right_ne_nil front (List.cons_ne_nil _ _) same.symm
  | member inside _ ih =>
      cases mirrors with
      | collection names each =>
          obtain ⟨outer, insideOther⟩ := exists_member_of_keys names inside
          rw [offered_member regular inside] at shown
          obtain ⟨places, copy, standsCopy, shownCopy, mirrors, onward⟩ :=
            ih (each _ _ _ inside insideOther) (regular.collection.inner _ inside)
              (regularOther.collection.inner _ insideOther) shown
          refine ⟨_ :: places, copy, .member insideOther standsCopy, ?_, mirrors, ?_⟩
          · rwa [offered_member regularOther insideOther]
          · exact fun rest others isMatch => .member inside insideOther (onward rest others isMatch)
  | @sibling frame template siblings index sibling name outer inner segments stands inside _ ih =>
      cases mirrors with
      | @series _ otherFrame _ otherTemplate _ others count names each =>
          rw [offered_sibling regular stands inside, not_or] at shown
          obtain ⟨pristine, members⟩ := sibling
          obtain rfl : pristine = false := by simpa using shown.1
          have small := rank_lt_liveCount stands
          rw [count] at small
          obtain ⟨position, copies, standsOther, sameRank⟩ := exists_rank_eq small
          have sameNames := names _ _ _ _ stands standsOther sameRank.symm
          obtain ⟨outerCopy, insideOther⟩ := exists_member_of_keys sameNames inside
          have regularMembers := regular.series (List.mem_of_getElem? stands)
          have regularCopies := regularOther.series (List.mem_of_getElem? standsOther)
          obtain ⟨places, copy, standsCopy, shownCopy, mirrors, onward⟩ :=
            ih (each _ _ _ _ stands standsOther sameRank.symm _ _ _ inside insideOther)
              (regularMembers.inner _ inside) (regularCopies.inner _ insideOther) shown.2
          refine ⟨indexText position :: name :: places, copy, .sibling standsOther insideOther standsCopy, ?_,
            mirrors, ?_⟩
          · rw [offered_sibling regularOther standsOther insideOther, not_or]
            exact ⟨Bool.false_ne_true, shownCopy⟩
          · exact fun rest others isMatch =>
              .sibling stands standsOther sameRank.symm inside insideOther (onward rest others isMatch)

/-- A change of forms and frames that keeps related forms related keeps a mirror. -/
theorem map {onForm : Path → Form → Form} (keeps : ∀ path content other, related content other →
      related content (onForm path other)) (onFrame : Path → Frame → Frame) (path : Path)
    (mirrors : node.Mirrors related other) : node.Mirrors related (other.map false onForm onFrame path) := by
  induction mirrors generalizing path with
  | form holds => exact .form (keeps path _ _ holds)
  | collection names _ ih =>
      rw [Node.map, mapMembers_eq]
      refine .collection ?_ fun name inner other inside insideOther => ?_
      · rw [names]
        simp [Assoc.keys]
      · obtain ⟨⟨_, old⟩, there, same⟩ := List.mem_map.mp insideOther
        cases same
        exact ih _ _ _ inside there _
  | @series frame otherFrame template otherTemplate siblings others count names _ ih =>
      have pristine := isPristine_mapSiblings false onForm onFrame path others
      have stood {second : Nat} {copies : List (String × Node)}
          (stands : (mapSiblings false onForm onFrame path 0 others)[second]? = some (.mk false copies)) :
          ∃ old, others[second]? = some (.mk false old) ∧
            copies = old.map fun entry => (entry.1, entry.2.map false onForm onFrame
              ((path.join (indexText second)).join entry.1)) := by
        rw [mapSiblings_eq, List.getElem?_map, List.getElem?_zipIdx, Option.map_map] at stands
        obtain ⟨⟨_, old⟩, there, same⟩ := Option.map_eq_some_iff.mp stands
        simp only [Function.comp_apply, Nat.zero_add, Bool.false_and, Bool.false_eq_true, if_false,
          mapMembers_eq, Sibling.isPristine_mk, Sibling.members_mk, Sibling.mk.injEq] at same
        obtain ⟨rfl, rfl⟩ := same
        exact ⟨old, there, rfl⟩
      refine .series ?_ (fun first second members copies stands standsOther sameRank => ?_)
        fun first second members copies stands standsOther sameRank name inner other inside insideOther => ?_
      · rw [count, liveCount_congr pristine]
      · obtain ⟨old, there, rfl⟩ := stood standsOther
        rw [rank_congr pristine] at sameRank
        rw [names first second members old stands there sameRank]
        simp [Assoc.keys]
      · obtain ⟨old, there, rfl⟩ := stood standsOther
        rw [rank_congr pristine] at sameRank
        obtain ⟨⟨_, earlier⟩, among, same⟩ := List.mem_map.mp insideOther
        cases same
        exact ih first second members old stands there sameRank _ _ _ inside among _

theorem markPrefilled (mirrors : node.Mirrors related other) : node.Mirrors related other.markPrefilled := by
  induction mirrors with
  | form holds => exact .form holds
  | collection names _ ih =>
      rw [Node.markPrefilled, markPrefilledAll_eq]
      refine .collection ?_ fun name inner other inside insideOther => ?_
      · rw [names]
        simp [Assoc.keys]
      · obtain ⟨⟨_, old⟩, there, same⟩ := List.mem_map.mp insideOther
        cases same
        exact ih _ _ _ inside there
  | series count names each _ => exact .series count names each

end Mirrors

end Formwork.Node
