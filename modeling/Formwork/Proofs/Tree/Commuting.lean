import Formwork.Proofs.Stored
import Formwork.Proofs.Node.Entering
import Formwork.Proofs.Node.Validity
import Formwork.Proofs.Tree.Deeds
import Formwork.Proofs.Tree.Marks
import Formwork.Proofs.Tree.Reading

/-!
# Edits of different fields commute

Setting a value stores it and settles the tree. While a tree is settled inducers may fire, dialogs open and steps be
reached, but nothing is stored as long as no button fires (`Tree.StoredAlike.settle`). So what is stored after two
values have been set does not depend on their order (`Tree.StoredAlike.store_comm`).

A tree at rest has the flags and the latches that are derived from what it stores. Two trees at rest that store the
same can therefore be told apart by their messages, dialogs and steps only (`Tree.MutedAlike.of_stored`), and so can
the trees after two edits of different fields in either order (`Tree.Reachable.setValue_comm`).
-/

set_option autoImplicit false

namespace Formwork

/-- What a frame remembers depends on what was built only. -/
theorem Frame.latch_asBuilt (lookup : Lookup) (path : Path) (frame : Frame) :
    frame.asBuilt.latch lookup path = frame.latch lookup path := by
  simp only [latch, asBuilt, Option.map_map]
  rfl

namespace Form

theorem views_muted {α : Type} {view : Field → α} (keeps : ∀ entry, view entry.clearErrors = view entry) (path : Path)
    (form : Form) : Member.views view path form.muted.members = Member.views view path form.members :=
  form.views_clearErrors keeps path

theorem groups_muted (path : Path) (form : Form) :
    form.muted.groups path = (form.groups path).map fun entry => (entry.1, entry.2.clearErrors) :=
  congrArg _ (Member.groups_mapAll Field.clearErrors Group.clearErrors path form.members)

end Form

namespace Tree

/-! ## Changes along two paths -/

theorem below?_change (tree : Tree) (place other : Path) (edit : List String → Node → Node) :
    (tree.change place edit).below? other = tree.below? other := by
  rw [below?, below?, here_change]

theorem change_of_none {tree : Tree} {place : Path} {edit : List String → Node → Node}
    (below : tree.below? place = none) : tree.change place edit = tree := by rw [change, below]

/-- Changes along two paths can be made in either order, if they can be so in the root. -/
theorem change_comm {tree : Tree} {place other : Path} {first second : List String → Node → Node}
    (agree : ∀ segments others, tree.below? place = some segments → tree.below? other = some others →
      first segments (second others tree.root) = second others (first segments tree.root)) :
    (tree.change other second).change place first = (tree.change place first).change other second := by
  cases below : tree.below? place with
  | none =>
      rw [change_of_none ((tree.below?_change other place second).trans below), change_of_none below]
  | some segments =>
      cases belowOther : tree.below? other with
      | none =>
          rw [change_of_none belowOther, change_of_none ((tree.below?_change place other first).trans belowOther)]
      | some others =>
          rw [change_of_below ((tree.below?_change other place second).trans below), change_of_below belowOther,
            change_of_below ((tree.below?_change place other first).trans belowOther), change_of_below below,
            agree segments others below belowOther]

/-! ## Trees that store the same -/

/-- Two trees differ at most in flags and latches, in messages, in dialogs and in steps. -/
structure StoredAlike (first second : Tree) : Prop where
  namespaceText : first.namespaceText = second.namespaceText
  root : first.root.redraw Form.stored Frame.asBuilt = second.root.redraw Form.stored Frame.asBuilt

namespace StoredAlike

theorem refl (tree : Tree) : StoredAlike tree tree := ⟨rfl, rfl⟩

variable {first second third : Tree}

theorem symm (alike : StoredAlike first second) : StoredAlike second first :=
  ⟨alike.namespaceText.symm, alike.root.symm⟩

theorem trans (alike : StoredAlike first second) (further : StoredAlike second third) : StoredAlike first third :=
  ⟨alike.namespaceText.trans further.namespaceText, alike.root.trans further.root⟩

variable (tree : Tree)

/-! ### What stores nothing -/

/-- A change along a path that is not seen once the root is redrawn stores nothing. -/
theorem change {place : Path} {edit : List String → Node → Node}
    (same : ∀ segments, tree.below? place = some segments →
      (edit segments tree.root).redraw Form.stored Frame.asBuilt = tree.root.redraw Form.stored Frame.asBuilt) :
    StoredAlike (tree.change place edit) tree := by
  unfold Tree.change
  split
  · rename_i segments below
    exact ⟨rfl, same segments below⟩
  · exact .refl tree

theorem refresh : StoredAlike tree.refresh tree :=
  ⟨rfl, Node.redraw_map (fun _ content => content.stored_refresh _ _) (fun _ _ => rfl) false _ _⟩

theorem latch : StoredAlike tree.latch tree :=
  ⟨rfl, Node.redraw_map (fun _ content => content.stored_latch _ _)
    (fun _ frame => Frame.asBuilt_move (.latch frame _ _)) false _ _⟩

variable {tree}

theorem navigate {cycle after : Cycle} {place : Path} {index : Nat} {arrived : Bool}
    (navigated : cycle.navigate place index = .ok (after, arrived)) : StoredAlike after.tree cycle.tree := by
  obtain ⟨node, moved, failures, validation, stands, gone, rfl⟩ := cycle.navigate_eq_ok navigated
  refine change cycle.tree fun segments below => ?_
  rw [node?, below] at stands
  exact Node.redraw_modify stands (Node.redraw_goTo (fun _ content => content.stored_validate _) gone)

/-- No inducer stores anything if there is no mode in which a dialog could be left. -/
theorem execute {cycle : Cycle} (still : cycle.closeMode? = none) (event : InducedEvent) :
    StoredAlike (cycle.execute event).1.tree cycle.tree := by
  unfold Cycle.execute
  split
  · exact change cycle.tree fun segments _ =>
      Node.redraw_modifyForm (fun _ content => content.stored_openDialog) segments _
  · rw [still]
    exact .refl _
  · split
    · exact .refl _
    · split
      · rename_i navigated
        exact navigate navigated
      · exact .refl _

theorem executeAll {cycle : Cycle} (quiet : cycle.tree.firing = none) (events : List InducedEvent) :
    StoredAlike (Cycle.executeAll events cycle).1.tree cycle.tree := by
  induction events generalizing cycle with
  | nil => exact .refl _
  | cons event rest ih =>
      rw [Cycle.executeAll_cons]
      have still : cycle.closeMode? = none := by rw [Cycle.closeMode?, quiet, Option.bind_none, Option.bind_none]
      have later := @ih ((cycle.execute event).1.reported event) ((cycle.firing_execute event).trans quiet)
      exact later.trans (execute still event)

/-- Settling stores nothing as long as no button fires. -/
theorem settle {cycle : Cycle} (quiet : cycle.tree.firing = none) : StoredAlike cycle.settle.1.tree cycle.tree := by
  have derived : StoredAlike cycle.tree.refresh.latch cycle.tree := (latch _).trans (refresh _)
  have induced := @executeAll { cycle with tree := cycle.tree.refresh.latch } quiet cycle.tree.refresh.rising
  have silent (tree : Tree) : StoredAlike { tree with firing := none } tree := ⟨rfl, rfl⟩
  exact (latch _).trans ((refresh _).trans ((silent _).trans (induced.trans derived)))

/-! ### Storing -/

/-- What is entered when a value is stored. -/
def entering (value : Value) (names : List String) (content : Form) : Form :=
  content.modifyField (Field.setValue value) names

theorem store_eq (tree : Tree) (place : Path) (value : Value) :
    tree.store place value = tree.change place (Node.enter (entering value)) := by
  unfold Tree.store
  cases below : tree.below? place with
  | none => simp only [Tree.change, below]
  | some segments =>
      have belowToo : (tree.change place (Node.modifyField (Field.setValue value))).below? place = some segments := by
        rw [below?_change, below]
      rw [change_of_below belowToo, change_of_below below, change_of_below below]
      rfl

/-- The same value is stored alike. -/
theorem store (alike : StoredAlike first second) (place : Path) (value : Value) :
    StoredAlike (first.store place value) (second.store place value) := by
  have below : first.below? place = second.below? place := by
    rw [below?, below?, Tree.here, Tree.here, alike.namespaceText]
  rw [store_eq, store_eq, Tree.change, Tree.change, below]
  cases second.below? place with
  | none => exact alike
  | some segments =>
      have agree (names : List String) (content : Form) :
          (entering value names content).stored = entering value names content.stored :=
        content.stored_modifyField value names
      refine ⟨alike.namespaceText, ?_⟩
      dsimp only
      rw [Node.redraw_enter _ agree, Node.redraw_enter _ agree, alike.root]

/-- Values of different fields can be stored in either order. -/
theorem store_comm {place other : Path} (apart : place ≠ other) (value content : Value) (tree : Tree) :
    (tree.store other content).store place value = (tree.store place value).store other content := by
  simp only [store_eq]
  refine change_comm fun segments others below belowOther => ?_
  have differ : segments ≠ others := by
    rintro rfl
    exact apart ((below?_eq_some_iff.mp below).trans (below?_eq_some_iff.mp belowOther).symm)
  have swap (names others : List String) (form : Form) (distinct : names ≠ others) :
      entering value names (entering content others form) = entering content others (entering value names form) :=
    form.modifyField_comm _ _ distinct
  exact Node.enter_comm swap differ tree.root

end StoredAlike

/-! ## What is derived -/

/-- The tree as it is stored. -/
def stored (tree : Tree) : Tree := { tree with root := tree.root.redraw Form.stored Frame.asBuilt }

theorem lookup_stored (tree : Tree) : tree.stored.lookup = tree.lookup :=
  lookup_congr rfl rfl (Node.views_redraw (fun place content => content.views_stored (fun _ => rfl) place) _ _)

/-- At rest, flags and latches are those that are derived from what is stored. -/
theorem AtRest.redraw_muted {tree : Tree} (rest : tree.AtRest) : tree.root.redraw Form.muted id =
    (tree.stored.root.refresh tree.stored.lookup tree.here).latch tree.stored.lookup tree.here := by
  have root : tree.root = (tree.root.refresh tree.lookup tree.here).latch tree.lookup tree.here := by
    rw [refresh_eq_self_iff.mp rest.refreshed, latch_eq_self_iff.mp rest.latched]
  rw [lookup_stored]
  conv_lhs => rw [root]
  rw [Node.refresh, Node.latch, Node.map_map, Node.map_map]
  exact Node.redraw_map_comm (fun place content => content.muted_derive _ place)
    (fun place frame => (frame.latch_asBuilt _ place).symm) _ _

/-- Two trees differ at most in messages, in dialogs and in steps. -/
structure MutedAlike (first second : Tree) : Prop where
  namespaceText : first.namespaceText = second.namespaceText
  root : first.root.redraw Form.muted id = second.root.redraw Form.muted id

/-- Trees at rest that store the same derive the same. -/
theorem MutedAlike.of_stored {first second : Tree} (alike : StoredAlike first second) (rest : first.AtRest)
    (restToo : second.AtRest) : MutedAlike first second := by
  have here : first.here = second.here := by rw [Tree.here, Tree.here, alike.namespaceText]
  have root : first.stored.root = second.stored.root := alike.root
  have lookup : first.stored.lookup = second.stored.lookup :=
    lookup_congr alike.namespaceText (rest.quiet.trans restToo.quiet.symm) (by rw [root])
  refine ⟨alike.namespaceText, ?_⟩
  rw [rest.redraw_muted, restToo.redraw_muted, root, lookup, here]

/-! ## What is left of the order of edits -/

/-- The same values and flags stand at the same places, the same inducers are remembered as true, the same siblings
are pristine, and so the same data is collected and sent. -/
structure SameState (first second : Tree) : Prop where
  fields : (first.fields.map fun entry =>
      (entry.1, entry.2.value, entry.2.hidden, entry.2.disabled, entry.2.required)) =
    second.fields.map fun entry => (entry.1, entry.2.value, entry.2.hidden, entry.2.disabled, entry.2.required)
  groups : (first.groups.map fun entry => (entry.1, entry.2.hidden, entry.2.disabled)) =
    second.groups.map fun entry => (entry.1, entry.2.hidden, entry.2.disabled)
  inducers : (first.forms.map fun entry => (entry.1, entry.2.inducers)) =
    second.forms.map fun entry => (entry.1, entry.2.inducers)
  frames : first.frames = second.frames
  markings : first.markings = second.markings
  collected : first.collected = second.collected
  payload : first.payload = second.payload

namespace MutedAlike

variable {first second : Tree}

theorem here (alike : MutedAlike first second) : first.here = second.here := by
  rw [Tree.here, Tree.here, alike.namespaceText]

/-- What can be read off the muted forms is the same. -/
theorem flatMap_forms {α : Type} (alike : MutedAlike first second) {view : Path × Form → List α}
    (keeps : ∀ path content, view (path, content.muted) = view (path, content)) (liveOnly : Bool) :
    (first.root.forms liveOnly first.here).flatMap view = (second.root.forms liveOnly second.here).flatMap view := by
  have seen (tree : Tree) : (tree.root.forms liveOnly tree.here).flatMap view =
      ((tree.root.redraw Form.muted id).forms liveOnly tree.here).flatMap view := by
    rw [Node.forms_redraw, List.flatMap_map]
    exact List.flatMap_congr fun entry _ => (keeps entry.1 entry.2).symm
  rw [seen, seen, alike.root, alike.here]

theorem frames (alike : MutedAlike first second) : first.frames = second.frames := by
  have seen (tree : Tree) : tree.frames = (tree.root.redraw Form.muted id).frames tree.here := by
    rw [Node.frames_redraw]
    exact (List.map_id _).symm
  rw [seen, seen, alike.root, alike.here]

theorem markings (alike : MutedAlike first second) : first.markings = second.markings := by
  have seen (tree : Tree) : tree.markings = (tree.root.redraw Form.muted id).markings tree.here :=
    (Node.markings_redraw tree.here tree.root).symm
  rw [seen, seen, alike.root, alike.here]

theorem sameState (alike : MutedAlike first second) : SameState first second := by
  constructor
  case fields =>
    have seen (tree : Tree) := Node.views_eq (fun entry => (entry.value, entry.hidden, entry.disabled, entry.required))
      tree.here tree.root
    refine (seen first).trans (Eq.trans ?_ (seen second).symm)
    exact alike.flatMap_forms (fun path content => content.views_muted (fun _ => rfl) path) false
  case groups =>
    simp only [groups, Node.groups, List.map_flatMap]
    refine alike.flatMap_forms (fun path content => ?_) false
    rw [content.groups_muted, List.map_map]
    rfl
  case inducers =>
    simp only [Tree.forms, List.map_eq_flatMap]
    exact alike.flatMap_forms (fun _ _ => rfl) false
  case frames => exact alike.frames
  case markings => exact alike.markings
  case collected => exact alike.flatMap_forms (fun path content => content.collected_clearErrors path) true
  case payload =>
    have keeps (content : Form) : content.muted.wire = content.wire := content.wire_clearErrors
    have seen (tree : Tree) : tree.payload = (tree.root.redraw Form.muted id).wire :=
      (Node.wire_redraw keeps tree.root).symm
    rw [seen, seen, alike.root]

end MutedAlike

/-- Two different fields of a reachable tree may be edited in either order, whatever is induced on the way: the trees
that come out differ at most in messages, in dialogs and in steps. -/
theorem Reachable.setValue_comm {tree : Tree} (reachable : tree.Reachable) {place other : Path} (apart : place ≠ other)
    {value content : Value} {first firstThen second secondThen : Cycle}
    (setFirst : tree.setValue place value = .ok first)
    (setFirstThen : first.tree.setValue other content = .ok firstThen)
    (setSecond : tree.setValue other content = .ok second)
    (setSecondThen : second.tree.setValue place value = .ok secondThen) :
    SameState firstThen.tree secondThen.tree := by
  -- What is stored in the end, in terms of the tree before both edits.
  have quiet := reachable.atRest.quiet
  have stored {before : Tree} {path : Path} {entered : Value} {cycle : Cycle} (still : before.firing = none)
      (set : before.setValue path entered = .ok cycle) : StoredAlike cycle.tree (before.store path entered) := by
    obtain ⟨-, -, rfl⟩ := setValue_eq_ok set
    exact StoredAlike.settle ((before.firing_store path entered).trans still)
  have settled {before : Tree} {path : Path} {entered : Value} {cycle : Cycle} (rest : before.AtRest)
      (set : before.setValue path entered = .ok cycle) : cycle.tree.AtRest :=
    @AtRest.answer before cycle (.setValue path entered) rest set
  have restFirst := settled reachable.atRest setFirst
  have restSecond := settled reachable.atRest setSecond
  have alike : StoredAlike firstThen.tree secondThen.tree := by
    refine (stored restFirst.quiet setFirstThen).trans ?_
    refine ((stored quiet setFirst).store other content).trans ?_
    rw [← StoredAlike.store_comm apart]
    exact (((stored quiet setSecond).store place value).symm).trans (stored restSecond.quiet setSecondThen).symm
  exact (MutedAlike.of_stored alike (settled restFirst setFirstThen) (settled restSecond setSecondThen)).sameState

/-- An order whose wrapping is asked for in a dialog, unless its color is known when the order becomes a gift. -/
def wrappedGifts : Blueprint where
  namespaceText := none
  root := .collection .plain
    [("order", .form ⟨none, none, .absent⟩ none [("gift", .field .standard)]),
      ("wrapping", .form ⟨none, none, { Conditions.absent with openWhen := some "order.gift && !.color" }⟩ none
        [("color", .field .standard)])]
  distinct := by decide

/-- The dialog opens if the order becomes a gift first and does not if the color is chosen first, and this is all the
difference that the order of the two edits makes. -/
theorem setValue_comm_wrappedGifts : ∃ (tree : Tree) (gift color giftColor colorGift : Cycle),
    Tree.mount wrappedGifts none = .ok tree ∧ tree.setValue ⟨["order", "gift"]⟩ (.text "yes") = .ok gift ∧
      gift.tree.setValue ⟨["wrapping", "color"]⟩ (.text "red") = .ok giftColor ∧
      tree.setValue ⟨["wrapping", "color"]⟩ (.text "red") = .ok color ∧
      color.tree.setValue ⟨["order", "gift"]⟩ (.text "yes") = .ok colorGift ∧
      gift.report.induced = [⟨.opens, ⟨["wrapping"]⟩⟩] ∧ colorGift.report.induced = [] ∧
      SameState giftColor.tree colorGift.tree := by
  have edits : ((Tree.mount wrappedGifts none).toOption.bind fun tree =>
      (tree.setValue ⟨["order", "gift"]⟩ (.text "yes")).toOption.bind fun gift =>
        (gift.tree.setValue ⟨["wrapping", "color"]⟩ (.text "red")).toOption.bind fun _ =>
          (tree.setValue ⟨["wrapping", "color"]⟩ (.text "red")).toOption.bind fun color =>
            (color.tree.setValue ⟨["order", "gift"]⟩ (.text "yes")).toOption.map fun colorGift =>
              (gift.report.induced, colorGift.report.induced)) =
      some ([⟨.opens, ⟨["wrapping"]⟩⟩], []) := by decide +kernel
  obtain ⟨tree, mounted, edits⟩ := Option.bind_eq_some_iff.mp edits
  obtain ⟨gift, setGift, edits⟩ := Option.bind_eq_some_iff.mp edits
  obtain ⟨giftColor, setGiftColor, edits⟩ := Option.bind_eq_some_iff.mp edits
  obtain ⟨color, setColor, edits⟩ := Option.bind_eq_some_iff.mp edits
  obtain ⟨colorGift, setColorGift, induced⟩ := Option.map_eq_some_iff.mp edits
  rw [toOption_eq_some] at mounted setGift setGiftColor setColor setColorGift
  obtain ⟨opened, stayed⟩ := Prod.mk.injEq .. ▸ induced
  have apart : Path.mk ["order", "gift"] ≠ ⟨["wrapping", "color"]⟩ := by decide
  exact ⟨tree, gift, color, giftColor, colorGift, mounted, setGift, setGiftColor, setColor, setColorGift, opened,
    stayed, Reachable.setValue_comm (.mounted mounted) apart setGift setGiftColor setColor setColorGift⟩

end Tree

end Formwork
