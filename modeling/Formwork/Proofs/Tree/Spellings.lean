import Formwork.Proofs.Node.IndexKeys
import Formwork.Proofs.Tree.Extras
import Formwork.Proofs.Tree.Restoring

/-!
# Mounting with any spelling of the data

A description that can be mounted is mounted into the same tree with nested data, with their lists of siblings
replaced by objects with the indices as keys, and with any spelling of these data with dotted keys
(`Tree.mount_spellings`).
-/

set_option autoImplicit false

namespace Formwork.Tree

open Formwork.InitialData

/-- Nested data are put into the same tree if their lists of siblings are replaced by objects and the result is
spelled in another way. -/
theorem planted_eq {blueprint : Blueprint} {here : Path} {built : Node}
    (nodeBuilt : Node.build here .top blueprint.root = .ok built) {nested keyed spelled : Json}
    (isNested : nested.Nested) (rekeyings : Rekeyings blueprint.root.dataShape nested keyed)
    (spells : Spells spelled keyed) :
    planted blueprint (some spelled) built = planted blueprint (some nested) built := by
  have filled := rekeyings.fill blueprint.distinct nodeBuilt
  rw [planted, planted, Option.map_some, Option.map_some, expandKeys_of_spells spells (rekeyings.nested isNested),
    expandKeys_of_nested isNested, filled]

/-- A description is mounted into one tree with nested data and with everything that they can be replaced
by: lists of siblings by objects with the siblings at their indices, and the result by any of its spellings with
dotted keys. If no list and no object in the data is empty, the flat form is one of them. Replacing dotted keys
twice is the same as doing it once. -/
theorem mount_spellings :
    (∀ (blueprint : Blueprint) (initial : Option Json) (start : Tree), Tree.mount blueprint initial = .ok start →
      ∀ fields : List (String × Json), Json.Nested (.object fields) → ∃ tree,
        Tree.mount blueprint (some (.object fields)) = .ok tree ∧
          ∀ keyed, Rekeyings blueprint.root.dataShape (.object fields) keyed →
            (∀ spelled, Spells spelled keyed → Tree.mount blueprint (some spelled) = .ok tree) ∧
              ((∀ entry ∈ fields, entry.2.Full) → Tree.mount blueprint (some keyed.flatten) = .ok tree)) ∧
      ∀ value, expandKeys (expandKeys value) = expandKeys value := by
  refine ⟨fun blueprint initial start mounted fields nested => ?_, expandKeys_expandKeys⟩
  obtain ⟨here, built, nodeBuilt, -, -, mounts⟩ := (ReachedFrom.mounted mounted).exists_built
  refine ⟨_, mounts _, fun keyed rekeyings => ?_⟩
  have spelt : ∀ spelled, Spells spelled keyed → Tree.mount blueprint (some spelled) =
      .ok (planted blueprint (some (.object fields)) built).refresh.prefilled.latch := by
    intro spelled spells
    rw [mounts, planted_eq nodeBuilt nested rekeyings spells]
  refine ⟨spelt, fun full => spelt _ ?_⟩
  cases fields with
  | nil =>
      rw [rekeyings.eq_of_empty]
      exact .same _
  | cons entry rest => exact spells_flatten (rekeyings.full (.object (List.cons_ne_nil _ _) full))

/-- The data of a guest. -/
def guestNamed (name : String) : Json := .object [("guest", .object [("name", .text name)])]

/-- The data of a journey to Rome. -/
def toRome (guests : Json) : Json := .object [("route", .object [("to", .text "Rome")]), ("guests", guests)]

/-- The journey of two guests may be given with lists, with the guests at their indices in another order, behind keys
as well, and flat. -/
theorem mount_spellings_journeys : ∃ tree,
    Tree.mount journeys (some (.object
      [("journeys", .list [toRome (.list [guestNamed "Ada", guestNamed "Bob"])])])) = .ok tree ∧
    Tree.mount journeys (some (.object
      [("journeys", .list [.object [("route.to", .text "Rome"), ("guests.1", guestNamed "Bob"),
        ("guests.0", guestNamed "Ada")]])])) = .ok tree ∧
    Tree.mount journeys (some (.object
      [("journeys.0.route.to", .text "Rome"), ("journeys.0.guests.1.guest.name", .text "Bob"),
        ("journeys.0.guests.0.guest.name", .text "Ada")])) = .ok tree := by
  obtain ⟨start, mounted⟩ : ∃ start, Tree.mount journeys none = .ok start := ⟨_, rfl⟩
  have nested : Json.Nested (.object [("journeys", .list [toRome (.list [guestNamed "Ada", guestNamed "Bob"])])]) := by
    simp [Json.Nested, Json.throughout_list_iff, Json.throughout_object_iff, Json.Throughout.text, IsName, guestNamed,
      toRome, Assoc.keys, or_imp, forall_and]
  have full : ∀ entry ∈ [("journeys", Json.list [toRome (.list [guestNamed "Ada", guestNamed "Bob"])])],
      entry.2.Full := by
    simp [Json.Full, Json.throughout_list_iff, Json.throughout_object_iff, Json.Throughout.text, guestNamed, toRome]
  obtain ⟨tree, asLists, spellings⟩ := mount_spellings.1 journeys none start mounted _ nested
  have guests : Rekeyed journeys.root.dataShape
      (.object [("journeys", .list [toRome (.list [guestNamed "Ada", guestNamed "Bob"])])])
      (.object [("journeys", .list [toRome (.object [("1", guestNamed "Bob"), ("0", guestNamed "Ada")])])]) :=
    @Rekeyed.member _ _ (.collection { CollectionPlan.plain with extraSiblings := some 1 } _) _ _ (.head _) [] []
      (.item [] [] (.member (.tail _ (.head _)) [_] [] (.indices (by decide) (.swap _ _ _))))
  have all : Rekeyed journeys.root.dataShape
      (.object [("journeys", .list [toRome (.object [("1", guestNamed "Bob"), ("0", guestNamed "Ada")])])])
      (.object [("journeys", .object [("0", toRome (.object [("1", guestNamed "Bob"), ("0", guestNamed "Ada")]))])]) :=
    @Rekeyed.member _ _ (.collection { CollectionPlan.plain with extraSiblings := some 1 } _) _ _ (.head _) [] []
      (.indices (by decide) (.refl _))
  refine ⟨tree, asLists, (spellings _ (.single guests)).1 _ ?_, ?_⟩
  · have behind := Spells.dotted "guests" (.same (.object [("1", guestNamed "Bob"), ("0", guestNamed "Ada")]))
      (.same (.object [])) (.append _ _)
    have routed := Spells.dotted "route" (.same (.object [("to", .text "Rome")])) behind (.append _ _)
    have listed := Spells.field "journeys" (.item routed (.same (.list []))) (.same (.object []))
    simpa [InitialData.under, toRome] using listed
  · have flat := (spellings _ (.tail (.single guests) all)).2 full
    simpa [Json.flatten, Json.flattenFields, toRome, guestNamed, InitialData.under] using flat

end Formwork.Tree
