import Formwork.Proofs.Node.RenumberedMarks
import Formwork.Proofs.Node.Templates
import Formwork.Proofs.Tree.Dialogs
import Formwork.Proofs.Tree.Landing

/-!
# Siblings that come later

A sibling that is added is a copy of a template to which nothing has happened since it was built
(`Tree.Reachable.stocked`): its inducers remember nothing and its dialogs are closed
(`Tree.exists_build_of_added`). The tree is settled right after, so every condition in the new sibling that is true
at once is taken for one that has turned true, and its inducer is carried out (`Tree.Reachable.introduces`). The
siblings that are there from the start are different in this: mounting remembers what is true, and nothing is
carried out (`Tree.introduced_unlike_mounted`).
-/

set_option autoImplicit false

namespace Formwork

open Formwork.Text

/-! ## Inducers along a run -/

namespace Inducer

variable {first second : Inducer} (same : first.asBuilt = second.asBuilt) (path : Path)
include same

/-- Inducers that were built alike are reported alike. -/
theorem event_of_asBuilt : first.event path = second.event path := by
  have event (inducer : Inducer) : inducer.asBuilt.event path = inducer.event path := rfl
  rw [← event first, same, event]

/-- Inducers that were built alike hold together. -/
theorem holds_of_asBuilt (lookup : Lookup) : first.holds path lookup = second.holds path lookup := by
  have holds (inducer : Inducer) : inducer.asBuilt.holds path lookup = inducer.holds path lookup := rfl
  rw [← holds first, same, holds]

end Inducer

namespace Tree

variable {tree after : Tree}

/-- The inducers of a tree as they were built, with their paths. -/
def builtInducers (tree : Tree) : List (Path × Inducer) := tree.inducers.map fun entry => (entry.1, entry.2.asBuilt)

theorem builtInducers_eq_listing (tree : Tree) : tree.builtInducers =
    tree.root.listing (fun place content => content.asBuilt.inducers.map (place, ·))
      (fun place frame => frame.asBuilt.inducer.toList.map (place, ·)) tree.here := by
  rw [builtInducers, Tree.inducers, Node.inducers, Node.listing, Node.listing, List.map_flatMap]
  refine List.flatMap_congr fun entry _ => ?_
  obtain ⟨place, inner⟩ := entry
  have frames (frame : Frame) : (frame.inducer.toList.map (place, ·)).map
      (fun entry => (entry.1, entry.2.asBuilt)) = frame.asBuilt.inducer.toList.map (place, ·) := by
    rw [Frame.asBuilt]
    cases frame.inducer <;> rfl
  cases inner with
  | form content =>
      change (content.inducers.map (place, ·)).map _ = (content.inducers.map Inducer.asBuilt).map (place, ·)
      rw [List.map_map, List.map_map]
      rfl
  | collection frame progress members => exact frames frame
  | series frame template siblings => exact frames frame

/-- What the inducers of a tree are is fixed by building, and only what they remember changes. -/
theorem Moves.builtInducers (moves : Moves tree after) : after.builtInducers = tree.builtInducers := by
  rw [builtInducers_eq_listing, builtInducers_eq_listing]
  exact moves.listing (fun place content => content.inducers.map (place, ·))
    fun place frame => frame.inducer.toList.map (place, ·)

/-- Where the same inducers were built, an inducer of one tree is one of the other tree as well. -/
theorem exists_inducer (same : after.builtInducers = tree.builtInducers) {path : Path} {inducer : Inducer}
    (listed : (path, inducer) ∈ tree.inducers) :
    ∃ later, (path, later) ∈ after.inducers ∧ later.asBuilt = inducer.asBuilt := by
  have there : (path, inducer.asBuilt) ∈ tree.builtInducers := List.mem_map.mpr ⟨_, listed, rfl⟩
  rw [← same] at there
  obtain ⟨⟨place, later⟩, inside, equal⟩ := List.mem_map.mp there
  injection equal with here built
  exact ⟨later, here ▸ inside, built⟩

/-! ## What is read after a run -/

/-- A field that is planned as a button is one, so what the fields read as is told by what they hold. -/
theorem views_reading {ofFrame : Frame → Prop}
    (built : tree.root.Built (fun content => Member.HasPlannedButtons content.members) ofFrame) :
    tree.root.views (fun entry active => entry.reading active) tree.here = tree.holdings.map fun seen =>
      (seen.1, fun active => if seen.2.widget == .button then .button active else .value seen.2.value) := by
  rw [holdings, Node.holdings, Node.views, Node.views, List.map_map]
  refine List.map_congr_left fun entry listed => Prod.ext rfl (funext fun active => ?_)
  change entry.2.reading active = if entry.2.plan.isButton = true then _ else _
  rw [Field.reading, built.isButton listed]
  rfl

/-- After a tree was settled in which no button fires, everything reads as before. -/
theorem lookup_settle {cycle : Cycle} (regular : cycle.tree.root.Regular) (quiet : cycle.tree.firing = none)
    {ofFrame : Frame → Prop}
    (built : cycle.tree.root.Built (fun content => Member.HasPlannedButtons content.members) ofFrame) :
    cycle.settle.1.tree.lookup = cycle.tree.lookup := by
  have later := cycle.settle_moves.built regular built
  have fires : cycle.settle.1.tree.fires = cycle.tree.fires := by
    funext place
    rw [fires_of_quiet (settle_atRest cycle).quiet, fires_of_quiet quiet]
  rw [lookup, lookup, readings_eq, readings_eq, views_reading later, views_reading built, fires,
    Cycle.settle_keeps regular quiet]

/-! ## New siblings -/

theorem Moves.stocked (moves : Moves tree after) (regular : tree.root.Regular) (stocked : tree.root.Stocked) :
    after.root.Stocked := by
  refine (moves.keeps (motive := fun later => later.root.Regular ∧ later.root.Stocked)
    (fun move holds => ⟨holds.1.follows move.retains.toFollows, ?_⟩) ⟨regular, stocked⟩).2
  rcases move.root with same | moved
  · rw [same]
    exact holds.2
  · exact holds.2.move holds.1 moved

theorem stocked_node? {place : Path} {node : Node} (regular : tree.root.Regular) (stocked : tree.root.Stocked)
    (stands : tree.node? place = some node) : node.Stocked := by
  obtain ⟨segments, -, found⟩ := Option.bind_eq_some_iff.mp stands
  exact stocked.stands ((Node.get?_eq_some_iff regular).mp found)

/-- A stocked node may be put in the place of another one. -/
theorem stocked_modify {place : Path} {node moved : Node} (stocked : tree.root.Stocked)
    (stands : tree.node? place = some node) (isStocked : moved.Stocked) :
    (tree.change place (Node.modify fun _ => moved)).root.Stocked := by
  unfold change
  split
  · rename_i segments below
    rw [node?, below] at stands
    exact stocked.modify stands isStocked
  · exact stocked

theorem Course.stocked {operation : Operation} (course : Course tree operation after) (regular : tree.root.Regular)
    (stocked : tree.root.Stocked) : after.root.Stocked := by
  cases course with
  | moves moves => exact moves.stocked regular stocked
  | addSibling stands added moves =>
      exact moves.stocked (regular.follows (root_follows_modify stands (Node.follows_addSibling added)))
        (stocked_modify stocked stands ((stocked_node? regular stocked stands).addSibling added))
  | removeSibling stands removed moves =>
      exact moves.stocked (regular.follows (root_follows_modify stands (Node.follows_removeSibling removed)))
        (stocked_modify stocked stands ((stocked_node? regular stocked stands).removeSibling removed))

theorem mount_stocked {blueprint : Blueprint} {initial : Option Json}
    (mounted : Tree.mount blueprint initial = .ok tree) : tree.root.Stocked := by
  obtain ⟨here, built, nodeBuilt, rfl⟩ := mount_eq_ok mounted
  have filled := (Node.build_grown Node.stocked_grows nodeBuilt).2 (initial.map InitialData.expandKeys)
  exact ((filled.map _ _ false _).markPrefilled).map _ _ false _

/-- In a reachable tree every template is as it was built. -/
theorem Reachable.stocked (reachable : tree.Reachable) : tree.root.Stocked := by
  induction reachable with
  | mounted mounted => exact mount_stocked mounted
  | @after tree reachable operation stocked => exact (tree.after_course operation).stocked reachable.regular stocked

/-- What stands in a sibling that was just added was built, and nothing has happened to it since. -/
theorem exists_build_of_added {series : Path} {behind : Option Nat} {node extended : Node} {position : Nat}
    (regular : tree.root.Regular) (stocked : node.Stocked) (stands : tree.node? series = some node)
    (added : node.addSibling series behind = .ok (extended, position)) {path : Path} {inner : Node}
    (listed : (path, inner) ∈ (tree.change series (Node.modify fun _ => extended)).nodes)
    (beneath : path.startsWith (series.join (indexText position)) = true) :
    ∃ path placement plan, Node.build path placement plan = .ok inner := by
  have follows := Node.follows_addSibling added
  have later := regular.follows (root_follows_modify stands follows)
  have there := node?_replaced regular stands follows
  obtain ⟨frame, template, siblings, rfl, rfl, -, inside, -⟩ := Node.addSibling_eq_ok added
  generalize tree.change series _ = changed at later there listed
  obtain ⟨segments, rfl, standsNow⟩ := Node.mem_nodes_iff.mp ((node?_eq_some_iff later).mp there)
  obtain ⟨front, rfl, standsInner⟩ := Node.mem_nodes_iff.mp listed
  obtain ⟨rest, rfl⟩ : ∃ rest, front = segments ++ indexText position :: rest := by
    obtain ⟨rest, same⟩ := List.isPrefixOf_iff_prefix.mp beneath
    have whole :
        changed.here.segments ++ (segments ++ indexText position :: rest) = changed.here.segments ++ front := by
      simpa [Path.join, Path.extend] using same
    exact ⟨rest, (List.append_cancel_left whole).symm⟩
  have copied : (siblings.insertIdx position (.mk false template))[position]? = some (.mk false template) := by
    rw [List.getElem?_insertIdx_self, if_pos inside]
  rcases (standsNow.beneath later standsInner).of_series with ⟨nothing, -⟩ |
    ⟨index, sibling, name, outer, others, same, found, member, below⟩
  · cases nothing
  · injection same with sameIndex _
    obtain rfl := indexText_injective sameIndex
    obtain rfl := Option.some.inj (copied.symm.trans found)
    cases stocked with
    | series unused _ => exact Node.exists_build_of_unused unused member below

/-- The dialog of a form to which nothing has happened since it was built is closed. -/
theorem not_mem_openDialogs_of_build {path : Path} (fresh : ∀ inner, (path, inner) ∈ tree.nodes →
    ∃ path placement plan, Node.build path placement plan = .ok inner) : path ∉ tree.openDialogs := by
  intro isOpen
  obtain ⟨content, listed, opened⟩ := mem_openDialogs_iff.mp isOpen
  obtain ⟨⟨_, inner⟩, there, same⟩ := List.mem_filterMap.mp listed
  obtain ⟨own, isForm, same⟩ := Option.map_eq_some_iff.mp same
  cases same
  obtain ⟨_, _, _, built⟩ := fresh inner there
  have closed := Node.closed_of_build built
  cases inner with
  | form other =>
      cases isForm
      exact absurd opened (Bool.eq_false_iff.mp closed)
  | collection frame progress members => cases isForm
  | series frame template siblings => cases isForm

/-- No dialog is open in a tree that was just mounted, whatever its conditions say. -/
theorem openDialogs_mount {blueprint : Blueprint} {initial : Option Json}
    (mounted : Tree.mount blueprint initial = .ok tree) : tree.openDialogs = [] := by
  obtain ⟨here, built, nodeBuilt, rfl⟩ := mount_eq_ok mounted
  rw [openDialogs_latch, List.eq_nil_iff_forall_not_mem]
  intro path isOpen
  obtain ⟨content, listed, opened⟩ := mem_openDialogs_iff.mp isOpen
  rw [forms, prefilled, Node.forms_markPrefilled] at listed
  have before : path ∈ (planted blueprint initial built).openDialogs := by
    rw [← openDialogs_refresh]
    exact mem_openDialogs_iff.mpr ⟨content, listed, opened⟩
  obtain ⟨plain, there, wasOpen⟩ := mem_openDialogs_iff.mp before
  obtain ⟨front, -, stands⟩ := Node.mem_forms_iff.mp there
  have closed := (Node.build_grown Node.closed_grows nodeBuilt).2 _ front plain stands
  rw [wasOpen] at closed
  cases closed

end Tree

/-! ## What a new sibling brings about -/

namespace Cycle

/-- What happens when a sibling comes in at a path. -/
structure Introduces (newcomer : Path) (cycle : Cycle) : Prop where
  /-- Of the inducers in the new sibling those are carried out whose conditions hold, for none of them remembers
  anything. -/
  reports : ∀ event : InducedEvent, event.path.startsWith newcomer = true →
    (event ∈ cycle.report.induced ↔ ∃ inducer, (event.path, inducer) ∈ cycle.tree.inducers ∧
      inducer.induction = event.induction ∧ inducer.holds event.path cycle.tree.lookup = true)
  /-- Of the dialogs in the new sibling those are open that such an inducer has opened. -/
  opens : ∀ path : Path, path.startsWith newcomer = true →
    (path ∈ cycle.tree.openDialogs ↔ ⟨.opens, path⟩ ∈ cycle.report.induced)
  /-- The new sibling starts like one that is there from the start, without an event and with all dialogs closed,
  exactly if no condition of an inducer in it holds. -/
  silent_iff : ((∀ event ∈ cycle.report.induced, event.path.startsWith newcomer = false) ∧
      ∀ path ∈ cycle.tree.openDialogs, path.startsWith newcomer = false) ↔
    ∀ path inducer, (path, inducer) ∈ cycle.tree.inducers → path.startsWith newcomer = true →
      inducer.holds path cycle.tree.lookup = false

variable {cycle : Cycle}

theorem mem_risen_iff {event : InducedEvent} : event ∈ cycle.risen ↔
    ∃ inducer, (event.path, inducer) ∈ cycle.tree.inducers ∧ inducer.induction = event.induction ∧
      inducer.rises event.path cycle.tree.lookup = true := by
  have risen : cycle.risen = ((cycle.tree.inducers.filter fun entry => entry.2.rises entry.1 cycle.tree.lookup).map
      fun entry => entry.2.event entry.1) := by
    rw [Cycle.risen, Tree.rising, Node.rising_eq, ← Tree.inducers_refresh cycle.tree, ← Tree.lookup_refresh cycle.tree]
    rfl
  rw [risen, List.mem_map]
  constructor
  · rintro ⟨⟨path, inducer⟩, inside, rfl⟩
    obtain ⟨listed, rises⟩ := List.mem_filter.mp inside
    exact ⟨inducer, listed, rfl, rises⟩
  · rintro ⟨inducer, listed, kind, rises⟩
    refine ⟨_, List.mem_filter.mpr ⟨listed, rises⟩, ?_⟩
    rw [Inducer.event, kind]

theorem sibling_execute (event : InducedEvent) (cycle : Cycle) :
    (cycle.execute event).1.report.sibling = cycle.report.sibling := by
  unfold execute
  split
  · rfl
  · split
    · rfl
    · rfl
  · split
    · rfl
    · split
      · rename_i navigated
        obtain ⟨_, _, _, _, -, -, same⟩ := cycle.navigate_eq_ok navigated
        rw [same]
      · rfl

/-- Settling reports no other sibling. -/
theorem sibling_settle (cycle : Cycle) : cycle.settle.1.report.sibling = cycle.report.sibling := by
  have all (events : List InducedEvent) (cycle : Cycle) :
      (executeAll events cycle).1.report.sibling = cycle.report.sibling := by
    induction events generalizing cycle with
    | nil => rfl
    | cons event rest ih =>
        rw [executeAll_cons]
        exact (ih _).trans (sibling_execute event cycle)
  exact all cycle.risen cycle.induced

section Settle

variable (regular : cycle.tree.root.Regular) (quiet : cycle.tree.firing = none)
  (buttons : cycle.tree.root.Built (fun content => Member.HasPlannedButtons content.members) fun _ => True)
  {newcomer : Path}
  (fresh : ∀ path inner, (path, inner) ∈ cycle.tree.nodes → path.startsWith newcomer = true →
    ∃ path placement plan, Node.build path placement plan = .ok inner)
include regular quiet buttons fresh

omit regular quiet buttons in
/-- An inducer that remembers nothing rises if its condition holds. -/
theorem rises_of_fresh {path : Path} {inducer : Inducer} (listed : (path, inducer) ∈ cycle.tree.inducers)
    (beneath : path.startsWith newcomer = true) :
    inducer.rises path cycle.tree.lookup = inducer.holds path cycle.tree.lookup := by
  obtain ⟨inner, there, own⟩ := Node.mem_inducers_iff.mp listed
  obtain ⟨_, _, _, built⟩ := fresh path inner there beneath
  rw [Inducer.rises, Node.latched_of_build built inducer own, Bool.not_false, Bool.and_true]

theorem mem_risen_iff_of_fresh {event : InducedEvent} (beneath : event.path.startsWith newcomer = true) :
    event ∈ cycle.risen ↔ ∃ inducer, (event.path, inducer) ∈ cycle.settle.1.tree.inducers ∧
      inducer.induction = event.induction ∧ inducer.holds event.path cycle.settle.1.tree.lookup = true := by
  have same := cycle.settle_moves.builtInducers
  rw [mem_risen_iff, Tree.lookup_settle regular quiet buttons]
  constructor
  · rintro ⟨inducer, listed, kind, rises⟩
    rw [rises_of_fresh fresh listed beneath] at rises
    obtain ⟨later, there, built⟩ := Tree.exists_inducer same listed
    refine ⟨later, there, ?_, ?_⟩
    · exact (congrArg InducedEvent.induction (Inducer.event_of_asBuilt built event.path)).trans kind
    · rwa [Inducer.holds_of_asBuilt built]
  · rintro ⟨later, there, kind, holds⟩
    obtain ⟨inducer, listed, built⟩ := Tree.exists_inducer same.symm there
    refine ⟨inducer, listed, ?_, ?_⟩
    · exact (congrArg InducedEvent.induction (Inducer.event_of_asBuilt built event.path)).trans kind
    · rw [rises_of_fresh fresh listed beneath, Inducer.holds_of_asBuilt built]
      exact holds

omit buttons in
theorem mem_openDialogs_iff_of_fresh {path : Path} (beneath : path.startsWith newcomer = true) :
    path ∈ cycle.settle.1.tree.openDialogs ↔ ⟨.opens, path⟩ ∈ cycle.risen := by
  constructor
  · intro isOpen
    refine (opens_settle regular isOpen).resolve_left (Tree.not_mem_openDialogs_of_build fun inner there => ?_)
    exact fresh path inner there beneath
  · intro risen
    obtain ⟨inducer, listed, kind, -⟩ := mem_risen_iff.mp risen
    obtain ⟨inner, there, own⟩ := Node.mem_inducers_iff.mp listed
    obtain ⟨_, _, _, built⟩ := fresh path inner there beneath
    obtain ⟨content, rfl, isDialog⟩ := Node.exists_dialog_of_build built own kind
    exact mem_openDialogs_settle regular quiet (List.mem_filterMap.mpr ⟨_, there, rfl⟩) isDialog risen

/-- What a sibling brings about when a tree is settled into which it was put as it was built. -/
theorem introduces_settle (silent : cycle.report.induced = []) : cycle.settle.1.Introduces newcomer := by
  have reported : cycle.settle.1.report.induced = cycle.risen := by
    rw [induced_settle, silent, List.nil_append]
  have reports (event : InducedEvent) (beneath : event.path.startsWith newcomer = true) :=
    mem_risen_iff_of_fresh regular quiet buttons fresh beneath
  have opens (path : Path) (beneath : path.startsWith newcomer = true) :=
    mem_openDialogs_iff_of_fresh regular quiet fresh beneath
  rw [← reported] at reports opens
  refine ⟨reports, opens, ?_⟩
  constructor
  · rintro ⟨noEvent, -⟩ path inducer listed beneath
    by_contra holds
    rw [Bool.not_eq_false] at holds
    have event := (reports ⟨inducer.induction, path⟩ beneath).mpr ⟨inducer, listed, rfl, holds⟩
    have apart := noEvent _ event
    rw [beneath] at apart
    cases apart
  · intro noneHolds
    have noEvent : ∀ event ∈ cycle.settle.1.report.induced, event.path.startsWith newcomer = false := by
      intro event inside
      by_contra beneath
      rw [Bool.not_eq_false] at beneath
      obtain ⟨inducer, listed, -, holds⟩ := (reports event beneath).mp inside
      rw [noneHolds event.path inducer listed beneath] at holds
      cases holds
    refine ⟨noEvent, fun path isOpen => ?_⟩
    by_contra beneath
    rw [Bool.not_eq_false] at beneath
    have apart := noEvent _ ((opens path beneath).mp isOpen)
    rw [beneath] at apart
    cases apart

end Settle

end Cycle

namespace Tree

variable {tree : Tree}

/-- A sibling that is added to a reachable tree is one of those that come in. -/
theorem Reachable.introduces (reachable : tree.Reachable) {series : Path} {behind : Option Nat} {cycle : Cycle}
    (done : tree.addSibling series behind = .ok cycle) :
    ∃ index, cycle.report.sibling = some index ∧ cycle.Introduces (series.join (indexText index)) := by
  obtain ⟨-, node, extended, index, stands, added, rfl⟩ := addSibling_eq_ok done
  have follows := Node.follows_addSibling added
  have stocked := stocked_node? reachable.regular reachable.stocked stands
  have plain := reachable.built Node.buttons_byBuilding
  refine ⟨index, Cycle.sibling_settle _, Cycle.introduces_settle ?_ ?_ ?_ ?_ rfl⟩
  · exact reachable.regular.follows (root_follows_modify stands follows)
  · exact (tree.firing_change _ _).trans reachable.atRest.quiet
  · exact built_modify plain stands ((built_node? reachable.regular plain stands).addSibling added)
  · intro path inner listed beneath
    exact exists_build_of_added reachable.regular stocked stands added listed beneath

/-- Cups of coffee that are flavored unless somebody objects, each with a dialog for its flavor. -/
def flavoredCups : Blueprint where
  namespaceText := none
  root := .collection .plain
    [("cups", .collection { CollectionPlan.plain with extraSiblings := some 1 }
      [("coffee", .form ⟨none, none, .absent⟩ none
          [("flavored", .field { FieldPlan.standard with initial := some (.text "yes") })]),
        ("flavor", .form ⟨none, none, { Conditions.absent with openWhen := some "..coffee.flavored" }⟩ (some .plain)
          [("syrup", .field .standard)])])]
  distinct := by decide

/-- The first cup is flavored from the start, and its dialog is closed. A second cup is flavored just the same, but
its dialog is opened as it comes in. -/
theorem introduced_unlike_mounted : ∃ tree cycle, Tree.mount flavoredCups none = .ok tree ∧
    tree.addSibling ⟨["cups"]⟩ none = .ok cycle ∧ cycle.report.sibling = some 1 ∧
      cycle.report.induced = [⟨.opens, ⟨["cups", "1", "flavor"]⟩⟩] ∧
        cycle.tree.openDialogs = [⟨["cups", "1", "flavor"]⟩] := by
  have opens : ((Tree.mount flavoredCups none).toOption.bind fun tree =>
      (tree.addSibling ⟨["cups"]⟩ none).toOption.map fun cycle =>
        (cycle.report.sibling, cycle.report.induced, cycle.tree.openDialogs)) =
      some (some 1, [⟨.opens, ⟨["cups", "1", "flavor"]⟩⟩], [⟨["cups", "1", "flavor"]⟩]) := by decide +kernel
  obtain ⟨tree, mounted, opens⟩ := Option.bind_eq_some_iff.mp opens
  obtain ⟨cycle, added, same⟩ := Option.map_eq_some_iff.mp opens
  rw [toOption_eq_some] at mounted added
  injection same with sibling same
  injection same with induced dialogs
  exact ⟨tree, cycle, mounted, added, sibling, induced, dialogs⟩

/-- The second cup is the sibling that comes in, with all that it brings about. -/
theorem introduces_flavoredCup : ∃ tree cycle, Tree.mount flavoredCups none = .ok tree ∧
    tree.addSibling ⟨["cups"]⟩ none = .ok cycle ∧
      ∃ index, cycle.report.sibling = some index ∧ cycle.Introduces (Path.join ⟨["cups"]⟩ (indexText index)) := by
  have adds : ((Tree.mount flavoredCups none).toOption.bind fun tree =>
      (tree.addSibling ⟨["cups"]⟩ none).toOption.map fun _ => ()) = some () := by decide +kernel
  obtain ⟨tree, mounted, adds⟩ := Option.bind_eq_some_iff.mp adds
  obtain ⟨cycle, added, -⟩ := Option.map_eq_some_iff.mp adds
  rw [toOption_eq_some] at mounted added
  exact ⟨tree, cycle, mounted, added, Reachable.introduces (.mounted mounted) added⟩

end Tree

end Formwork
