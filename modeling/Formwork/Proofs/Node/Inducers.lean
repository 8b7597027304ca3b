import Formwork.Proofs.Node.Built
import Formwork.Proofs.Node.Everywhere

/-!
# The inducers of a node

`Node.inducers` lists all inducers of a tree with their paths, in the order in which they are looked at: a
collection comes in front of what stands beneath it (`Node.outerFirst`), and the inducers of a form open,
close and activate it, in this order (`Node.kinds_of_built`). So what an inducer does and where it stands
tells it from all others (`Node.nodup_events`).
-/

set_option autoImplicit false

namespace Formwork

/-! ## Kinds -/

namespace Inducer

/-- What is reported of an inducer at a path that fires. -/
def event (path : Path) (inducer : Inducer) : InducedEvent := ⟨inducer.induction, path⟩

/-- What some inducers do, in their order. -/
def kinds (inducers : List Inducer) : List Induction := inducers.map induction

/-- The kinds in the order in which a form declares them. -/
def order : List Induction := [.opens, .closes, .activates]

theorem kind_compile {path : Path} {induction : Induction} {source : String} {inducer : Inducer}
    (compiled : Inducer.compile path induction source = .ok inducer) : inducer.induction = induction := by
  obtain ⟨condition, -, rfl⟩ := map_eq_ok.mp compiled
  rfl

theorem kinds_compileOptional {path : Path} {induction : Induction} {source : Option String}
    {found : Option Inducer} (compiled : compileOptional path induction source = .ok found) :
    (kinds found.toList).Sublist [induction] := by
  cases source with
  | none =>
      cases compiled
      exact List.nil_sublist _
  | some text =>
      obtain ⟨inducer, read, rfl⟩ := map_eq_ok.mp compiled
      exact (congrArg (fun kind => [kind]) (kind_compile read)) ▸ List.Sublist.refl _

theorem kinds_compileActivation {path : Path} {placement : Placement} {source : Option String}
    {found : Option Inducer} (compiled : compileActivation path placement source = .ok found) :
    (kinds found.toList).Sublist [.activates] := by
  cases source with
  | none =>
      cases compiled
      exact List.nil_sublist _
  | some text =>
      unfold compileActivation at compiled
      dsimp only at compiled
      split at compiled
      · obtain ⟨inducer, read, rfl⟩ := map_eq_ok.mp compiled
        exact (congrArg (fun kind => [kind]) (kind_compile read)) ▸ List.Sublist.refl _
      · cases compiled

end Inducer

open Inducer

theorem Form.kinds_asBuilt (form : Form) : kinds form.asBuilt.inducers = kinds form.inducers := by
  simp only [kinds, asBuilt, map, List.map_map]
  rfl

theorem Frame.kinds_asBuilt (frame : Frame) :
    kinds frame.asBuilt.inducer.toList = kinds frame.inducer.toList := by
  cases inducer : frame.inducer <;> simp [kinds, asBuilt, inducer, Inducer.asBuilt]

namespace Node

/-- The inducers that a node declares itself. -/
def ownInducers : Node → List Inducer
  | .form content => content.inducers
  | .collection frame _ _ => frame.inducer.toList
  | .series frame _ _ => frame.inducer.toList

/-- The inducers of every form and frame at and beneath a node are built in their order. -/
def InOrder (node : Node) : Prop :=
  node.Built (fun content => (kinds content.inducers).Sublist order)
    fun frame => (kinds frame.inducer.toList).Sublist order

/-- Building puts inducers in their order. -/
theorem kinds_byBuilding :
    ByBuilding (fun content => (kinds content.inducers).Sublist order)
      fun frame => (kinds frame.inducer.toList).Sublist order where
  form path placement plan dialog members content built := by
    rw [Form.kinds_asBuilt]
    simp only [Form.build, bind_eq_ok, pure_eq_ok] at built
    obtain ⟨opening, opens, closing, closes, activating, activates, _, -, _, -, rfl⟩ := built
    simp only [kinds, List.map_append]
    exact ((kinds_compileOptional opens).append (kinds_compileOptional closes)).append
      (kinds_compileActivation activates)
  frame path placement plan frame built := by
    obtain ⟨-, -, activates⟩ := buildFrame_eq_ok built
    rw [Frame.kinds_asBuilt]
    exact (kinds_compileActivation activates).trans (by decide)

/-- A node opens, closes and activates in this order. -/
theorem kinds_sublist {node : Node} (inOrder : node.InOrder) : (kinds node.ownInducers).Sublist order := by
  cases inOrder with
  | form own => rwa [Form.kinds_asBuilt] at own
  | collection own => rwa [Frame.kinds_asBuilt] at own
  | series own => rwa [Frame.kinds_asBuilt] at own

/-! ## Listing -/

/-- The inducers of a node at a path and of everything beneath it, with the paths at which they stand. -/
def inducers (path : Path) (node : Node) : List (Path × Inducer) :=
  node.listing (fun place content => content.inducers.map (place, ·))
    (fun place frame => frame.inducer.toList.map (place, ·)) path

theorem inducers_eq (path : Path) (node : Node) : node.inducers path =
    (node.nodes false path).flatMap fun entry => entry.2.ownInducers.map (entry.1, ·) := by
  refine List.flatMap_congr fun entry _ => ?_
  obtain ⟨place, inner⟩ := entry
  cases inner <;> rfl

theorem mem_inducers_iff {path place : Path} {node : Node} {inducer : Inducer} :
    (place, inducer) ∈ node.inducers path ↔
      ∃ inner, (place, inner) ∈ node.nodes false path ∧ inducer ∈ inner.ownInducers := by
  rw [inducers_eq, List.mem_flatMap]
  constructor
  · rintro ⟨⟨found, inner⟩, listed, there⟩
    obtain ⟨own, inside, same⟩ := List.mem_map.mp there
    cases same
    exact ⟨inner, listed, inside⟩
  · rintro ⟨inner, listed, inside⟩
    exact ⟨(place, inner), listed, List.mem_map.mpr ⟨inducer, inside, rfl⟩⟩

/-- The inducers that rise are reported in the order in which they are listed. -/
theorem rising_eq (lookup : Lookup) (path : Path) (node : Node) : node.rising lookup path =
    ((node.inducers path).filter fun entry => entry.2.rises entry.1 lookup).map fun entry =>
      entry.2.event entry.1 := by
  rw [rising, inducers_eq, List.filter_flatMap, List.map_flatMap]
  refine List.flatMap_congr fun entry _ => ?_
  obtain ⟨place, inner⟩ := entry
  rw [List.filter_map, List.map_map]
  cases inner <;> rfl

theorem inducers_refresh (lookup : Lookup) (here path : Path) (node : Node) :
    (node.refresh lookup here).inducers path = node.inducers path := by
  refine listing_map (fun here place content => ?_) (fun _ _ _ => rfl) false here path node
  rw [Form.refresh]

theorem inducers_modifyField (change : Field → Field) (segments : List String) (path : Path) (node : Node) :
    (node.modifyField change segments).inducers path = node.inducers path := by
  refine listing_modifyForm (fun place names content => ?_) segments path node
  cases names with
  | nil => rfl
  | cons name rest => rfl

theorem inducers_touch (segments : List String) (path : Path) (node : Node) :
    (node.touch segments).inducers path = node.inducers path :=
  listing_touch segments path node

/-! ## Order -/

/-- What stands beneath a path is no proper beginning of it. -/
theorem extend_not_mem_ancestors (path : Path) (rest : List String) : path.extend ⟨rest⟩ ∉ path.ancestors := by
  intro above
  obtain ⟨further, some, same⟩ := Path.mem_ancestors_iff.mp above
  rw [Path.extend_append] at same
  have nothing := Path.extend_injective (path.extend_nil.trans same)
  have empty := congrArg Path.segments nothing
  exact some (List.append_eq_nil_iff.mp empty.symm).2

/-- No node is listed behind one that stands beneath it. -/
theorem outerFirst {node : Node} (regular : node.Regular) (path : Path) :
    (node.nodes false path).Pairwise fun first second => second.1 ∉ first.1.ancestors := by
  induction node using branchInduction generalizing path with
  | step node ih =>
      rw [nodes_eq, List.pairwise_cons, List.pairwise_flatMap]
      refine ⟨fun entry listed => ?_, fun branch inside => ih branch inside (regular.branch inside) _, ?_⟩
      · obtain ⟨branch, inside, there⟩ := List.mem_flatMap.mp listed
        obtain ⟨rest, same, -⟩ := mem_nodes_iff.mp there
        rw [same, Path.extend_append]
        exact extend_not_mem_ancestors path _
      · -- The fronts of two branches are as long as each other, so neither is a beginning of the other.
        refine (List.pairwise_map.mp regular.nodup_fronts).imp_of_mem fun {one two} inOne inTwo apart => ?_
        rintro ⟨first, _⟩ listedFirst ⟨second, _⟩ listedSecond above
        obtain ⟨front, rfl, -⟩ := mem_nodes_iff.mp listedFirst
        obtain ⟨back, rfl, -⟩ := mem_nodes_iff.mp listedSecond
        obtain ⟨rest, -, same⟩ := Path.mem_ancestors_iff.mp above
        rw [Path.extend_append, Path.extend_append, Path.extend_append] at same
        have segments := congrArg Path.segments (Path.extend_injective same)
        exact apart (List.append_inj_left segments (length_front inOne inTwo))

/-- No two inducers do the same at the same place. -/
theorem nodup_events {node : Node} (regular : node.Regular) (inOrder : node.InOrder) (path : Path) :
    ((node.inducers path).map fun entry => entry.2.event entry.1).Nodup := by
  rw [inducers_eq, List.map_flatMap, List.nodup_flatMap]
  constructor
  · intro entry listed
    obtain ⟨place, inner⟩ := entry
    obtain ⟨segments, -, stands⟩ := mem_nodes_iff.mp listed
    have distinct : (kinds inner.ownInducers).Nodup := (kinds_sublist (inOrder.stands stands)).nodup (by decide)
    refine List.Nodup.of_map InducedEvent.induction ?_
    rw [List.map_map, List.map_map]
    exact distinct
  · refine (List.pairwise_map.mp (nodup_nodes regular path)).imp fun apart => ?_
    intro event inFirst inSecond
    obtain ⟨_, there, rfl⟩ := List.mem_map.mp inFirst
    obtain ⟨_, there', same⟩ := List.mem_map.mp inSecond
    obtain ⟨one, -, rfl⟩ := List.mem_map.mp there
    obtain ⟨two, -, rfl⟩ := List.mem_map.mp there'
    exact apart (congrArg InducedEvent.path same).symm

end Node

end Formwork
