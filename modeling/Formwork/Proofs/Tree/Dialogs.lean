import Formwork.Proofs.Tree.Inducing
import Formwork.Proofs.Tree.Values

/-!
# Open dialogs

Only inducers that are carried out open and close dialogs: nothing else that happens to a tree changes which dialogs
are open (`Tree.openDialogs`). A dialog that is open after some inducers were carried out was open before, or one of
them opens it (`Cycle.opens_executeAll`). A dialog that was open is still open, or one of them closes it, and then it
is closed at this moment and in a mode (`Cycle.closes_executeAll`). Where no button fires there is no mode, so no
dialog closes (`Cycle.stays_settle`).
-/

set_option autoImplicit false

namespace Formwork

/-! ## Forms -/

namespace Form

theorem isOpenDialog_congr {first second : Form} (same : first.dialog = second.dialog) :
    first.isOpenDialog = second.isOpenDialog := by
  rw [isOpenDialog, isOpenDialog, same]

variable (form : Form)

theorem dialog_validate (path : Path) : (form.validate path).dialog = form.dialog := by
  unfold validate
  split <;> rfl

/-- A form that is told to open its dialog has it open, if there is one. -/
theorem isOpenDialog_openDialog : form.openDialog.isOpenDialog = form.dialog.isSome := by
  unfold openDialog
  cases isDialog : form.dialog with
  | none =>
      dsimp only
      rw [isOpenDialog, isDialog]
      rfl
  | some dialog =>
      dsimp only
      split
      · rename_i isOpen
        rw [isOpenDialog, isDialog]
        exact isOpen
      · rfl

theorem isOpenDialog_shut : form.shut.isOpenDialog = false := by
  unfold shut isOpenDialog
  cases form.dialog <;> rfl

/-- Building fixes which forms are the content of a dialog. -/
theorem isSome_dialog_asBuilt : form.asBuilt.dialog.isSome = form.dialog.isSome := by
  change (Option.map _ form.dialog).isSome = _
  exact Option.isSome_map

/-- A form whose dialog is left has it open if it was open, and the mode keeps it: a reset always does, and an
application does if a field is invalid. -/
theorem isOpenDialog_closeDialog (path : Path) (mode : CloseMode) :
    (form.closeDialog path mode).isOpenDialog =
      (form.isOpenDialog && (mode = .reset || (mode = .apply && !(form.failures path).isEmpty))) := by
  unfold closeDialog
  cases isOpen : form.isOpenDialog with
  | false => exact isOpen
  | true =>
      have checked : (form.validate path).isOpenDialog = true :=
        (isOpenDialog_congr (form.dialog_validate path)).trans isOpen
      rw [if_pos rfl]
      cases mode with
      | apply =>
          dsimp only
          cases (form.failures path).isEmpty with
          | true => exact isOpenDialog_shut _
          | false => exact checked
      | close => exact isOpenDialog_shut _
      | reset => exact isOpen
      | clear => exact isOpenDialog_shut _

end Form

/-! ## Nodes -/

namespace Node

/-- The path of a form, if its dialog is open. -/
def openDialog (path : Path) (content : Form) : List Path := if content.isOpenDialog then [path] else []

/-- The paths of all forms at and beneath a node whose dialogs are open. -/
def openDialogs (path : Path) (node : Node) : List Path := node.listing openDialog (fun _ _ => []) path

variable {node : Node} {path place : Path}

theorem mem_openDialog_iff {content : Form} :
    place ∈ openDialog path content ↔ place = path ∧ content.isOpenDialog = true := by
  unfold openDialog
  split
  · rename_i isOpen
    exact List.mem_singleton.trans ⟨fun here => ⟨here, isOpen⟩, And.left⟩
  · rename_i isClosed
    exact ⟨nofun, fun both => absurd both.2 isClosed⟩

theorem openDialog_congr {first second : Form} (same : first.dialog = second.dialog) :
    openDialog path first = openDialog path second := by
  rw [openDialog, openDialog, Form.isOpenDialog_congr same]

theorem mem_openDialogs_iff : place ∈ node.openDialogs path ↔
    ∃ content, (place, content) ∈ node.forms false path ∧ content.isOpenDialog = true := by
  rw [openDialogs, listing_eq_forms, List.mem_flatMap]
  constructor
  · rintro ⟨⟨here, content⟩, listed, inside⟩
    obtain ⟨rfl, isOpen⟩ := mem_openDialog_iff.mp inside
    exact ⟨content, listed, isOpen⟩
  · rintro ⟨content, listed, isOpen⟩
    exact ⟨_, listed, mem_openDialog_iff.mpr ⟨rfl, isOpen⟩⟩

/-- A change of everything that keeps the dialog of every form. -/
theorem openDialogs_map {onForm : Path → Form → Form} (onFrame : Path → Frame → Frame)
    (keeps : ∀ here content, (onForm here content).dialog = content.dialog) (liveOnly : Bool) (here path : Path)
    (node : Node) : (node.map liveOnly onForm onFrame here).openDialogs path = node.openDialogs path :=
  @listing_map _ openDialog (fun _ _ => []) onForm onFrame
    (fun here _ content => openDialog_congr (keeps here content)) (fun _ _ _ => rfl) liveOnly here path node

theorem openDialogs_mapForms {change : Form → Form} (keeps : ∀ content, (change content).dialog = content.dialog)
    (path : Path) (node : Node) : (node.mapForms change).openDialogs path = node.openDialogs path :=
  openDialogs_map _ (fun _ content => keeps content) false .root path node

/-- A change of the form on the way that keeps its dialog. -/
theorem openDialogs_modifyForm {change : List String → Form → Form}
    (keeps : ∀ names content, (change names content).dialog = content.dialog) (segments : List String) (path : Path)
    (node : Node) : (node.modifyForm change segments).openDialogs path = node.openDialogs path :=
  listing_modifyForm (fun _ names content => openDialog_congr (keeps names content)) segments path node

theorem openDialogs_modifyField (change : Field → Field) (segments : List String) (path : Path) (node : Node) :
    (node.modifyField change segments).openDialogs path = node.openDialogs path := by
  refine openDialogs_modifyForm (fun names content => ?_) segments path node
  cases names <;> rfl

/-- A form where a node stands is changed by a change along the way to this node, and no other form is. -/
theorem mem_forms_modifyForm (regular : node.Regular) {segments : List String} {inner : Node}
    (stands : node.Stands segments inner) (change : Form → Form) {later : Form} :
    (place, later) ∈ (node.modifyForm (fun _ => change) segments).forms false path ↔
      ∃ content, (place, content) ∈ node.forms false path ∧
        later = if place = path.extend ⟨segments⟩ then change content else content := by
  rw [forms_modifyForm regular, List.mem_map]
  have edits {content : Form} (listed : (place, content) ∈ node.forms false path) :
      edited (fun _ => change) (path.extend ⟨segments⟩) (place, content) =
        (place, if place = path.extend ⟨segments⟩ then change content else content) := by
    obtain ⟨front, rfl, standsForm⟩ := mem_forms_iff.mp listed
    by_cases here : path.extend ⟨front⟩ = path.extend ⟨segments⟩
    · rw [if_pos here, ← here, edited_of_extend (Path.extend_root _).symm]
    · rw [if_neg here]
      -- No node stands beneath a form, so the way leads through this form only if it ends there.
      refine edited_of_apart fun names same => here ?_
      rw [Path.extend_append] at same
      have fronts : segments = front ++ names.segments := congrArg Path.segments (Path.extend_injective same)
      subst fronts
      obtain ⟨nothing, -⟩ := stands_form_iff.mp (standsForm.beneath regular stands)
      rw [nothing, List.append_nil]
  constructor
  · rintro ⟨⟨other, content⟩, listed, same⟩
    obtain rfl : other = place := congrArg Prod.fst same
    rw [edits listed] at same
    exact ⟨content, listed, (congrArg Prod.snd same).symm⟩
  · rintro ⟨content, listed, rfl⟩
    exact ⟨_, listed, edits listed⟩

end Node

/-! ## Trees -/

namespace Tree

/-- The paths of all forms whose dialogs are open. -/
def openDialogs (tree : Tree) : List Path := tree.root.openDialogs tree.here

variable {tree after : Tree} {path place : Path}

theorem mem_openDialogs_iff :
    path ∈ tree.openDialogs ↔ ∃ content, (path, content) ∈ tree.forms ∧ content.isOpenDialog = true :=
  Node.mem_openDialogs_iff

/-- The dialog at a path is open if the node there is a form with an open dialog. -/
theorem any_isOpenDialog_iff (regular : tree.root.Regular) :
    (tree.node? path).any Node.isOpenDialog = true ↔ path ∈ tree.openDialogs := by
  rw [mem_openDialogs_iff, Option.any_eq_true]
  constructor
  · rintro ⟨node, stands, isOpen⟩
    cases node with
    | form content => exact ⟨content, List.mem_filterMap.mpr ⟨_, (node?_eq_some_iff regular).mp stands, rfl⟩, isOpen⟩
    | collection frame progress members => cases isOpen
    | series frame template siblings => cases isOpen
  · rintro ⟨content, listed, isOpen⟩
    obtain ⟨front, rfl, standsForm⟩ := Node.mem_forms_iff.mp listed
    exact ⟨.form content, (node?_eq_some_iff regular).mpr (Node.mem_nodes_iff.mpr ⟨front, rfl, standsForm⟩), isOpen⟩

/-- After some moves a form stands where it stood, and what building fixes has not changed in it. -/
theorem Moves.exists_form (moves : Moves tree after) {content : Form} (listed : (path, content) ∈ tree.forms) :
    ∃ later, (path, later) ∈ after.forms ∧ later.asBuilt = content.asBuilt := by
  have mem {tree : Tree} {built : Form} : (path, built) ∈ tree.root.listing
      (fun place content => [(place, content.asBuilt)]) (fun _ _ => []) tree.here ↔
        ∃ content, (path, content) ∈ tree.forms ∧ content.asBuilt = built := by
    rw [Node.listing_eq_forms, List.mem_flatMap]
    constructor
    · rintro ⟨⟨_, content⟩, there, inside⟩
      cases List.mem_singleton.mp inside
      exact ⟨content, there, rfl⟩
    · rintro ⟨content, there, rfl⟩
      exact ⟨_, there, List.mem_singleton_self _⟩
  refine mem.mp ?_
  rw [moves.listing (fun place content => [(place, content)]) fun _ _ => []]
  exact mem.mpr ⟨content, listed, rfl⟩

/-! ### What keeps dialogs as they are -/

theorem openDialogs_refresh (tree : Tree) : tree.refresh.openDialogs = tree.openDialogs :=
  @Node.openDialogs_map (Form.refresh tree.lookup) _ (fun _ _ => rfl) false tree.here tree.here tree.root

theorem openDialogs_latch (tree : Tree) : tree.latch.openDialogs = tree.openDialogs :=
  @Node.openDialogs_map (Form.latch tree.lookup) _ (fun _ _ => rfl) false tree.here tree.here tree.root

theorem openDialogs_restore (tree : Tree) : tree.restore.openDialogs = tree.openDialogs := by
  refine (openDialogs_latch _).trans ((openDialogs_refresh _).trans ?_)
  exact @Node.openDialogs_mapForms Form.reset (fun _ => rfl) tree.here tree.root

theorem openDialogs_change {edit : List String → Node → Node}
    (keeps : ∀ segments, tree.below? place = some segments →
      (edit segments tree.root).openDialogs tree.here = tree.root.openDialogs tree.here) :
    (tree.change place edit).openDialogs = tree.openDialogs := by
  unfold change
  split
  · rename_i segments below
    exact keeps segments below
  · rfl

theorem openDialogs_modifyField (tree : Tree) (place : Path) (change : Field → Field) :
    (tree.change place (Node.modifyField change)).openDialogs = tree.openDialogs :=
  openDialogs_change fun segments _ => Node.openDialogs_modifyField change segments _ _

theorem openDialogs_store (tree : Tree) (place : Path) (value : Value) :
    (tree.store place value).openDialogs = tree.openDialogs := by
  refine Eq.trans (openDialogs_change fun segments _ => ?_) (tree.openDialogs_modifyField place _)
  exact Node.listing_touch segments _ _

/-- A note changes messages, and none of them is about a dialog. -/
theorem Note.openDialogs (noted : Note tree after) : after.openDialogs = tree.openDialogs := by
  have alike := noted.alike
  have blank (tree : Tree) : tree.root.clearErrors.openDialogs tree.here = tree.openDialogs :=
    @Node.openDialogs_mapForms Form.clearErrors (fun _ => rfl) tree.here tree.root
  rw [← blank, ← blank, alike.root, alike.here]

theorem Notes.openDialogs (notes : Notes tree after) : after.openDialogs = tree.openDialogs := by
  induction notes with
  | refl => rfl
  | tail _ last same => exact last.openDialogs.trans same

/-- After a change of the form of a node a dialog is open if it is open in the form that has come of its form. -/
theorem mem_openDialogs_change (regular : tree.root.Regular) (listed : place ∈ tree.nodePlaces)
    (change : Form → Form) :
    path ∈ (tree.change place (Node.modifyForm fun _ => change)).openDialogs ↔
      ∃ content, (path, content) ∈ tree.forms ∧
        (if path = place then change content else content).isOpenDialog = true := by
  obtain ⟨⟨_, node⟩, there, rfl⟩ := List.mem_map.mp listed
  obtain ⟨segments, rfl, stands⟩ := Node.mem_nodes_iff.mp there
  rw [change_of_below (below?_eq_some_iff.mpr rfl), mem_openDialogs_iff]
  constructor
  · rintro ⟨later, inside, isOpen⟩
    obtain ⟨content, before, rfl⟩ := (Node.mem_forms_modifyForm regular stands change).mp inside
    exact ⟨content, before, isOpen⟩
  · rintro ⟨content, before, isOpen⟩
    exact ⟨_, (Node.mem_forms_modifyForm regular stands change).mpr ⟨content, before, rfl⟩, isOpen⟩

end Tree

/-! ## Inducers that are carried out -/

namespace Cycle

variable {cycle : Cycle} {path : Path}

theorem openDialogs_navigate {place : Path} {index : Nat} {later : Cycle} {arrived : Bool}
    (navigated : cycle.navigate place index = .ok (later, arrived)) :
    later.tree.openDialogs = cycle.tree.openDialogs := by
  obtain ⟨node, moved, failures, validation, stands, gone, rfl⟩ := cycle.navigate_eq_ok navigated
  refine Tree.openDialogs_change fun segments below => ?_
  rw [Tree.node?, below] at stands
  have keeps (here path : Path) (content : Form) := @Node.openDialog_congr path _ _ (content.dialog_validate here)
  exact Node.listing_modify stands (Node.listing_goTo keeps gone) _

section Execute

variable (regular : cycle.tree.root.Regular) {event : InducedEvent} (listed : event.path ∈ cycle.tree.nodePlaces)
include regular listed

/-- A dialog that is open after an inducer was carried out was open before, or the inducer opens it. -/
theorem opens_execute (isOpen : path ∈ (cycle.execute event).1.tree.openDialogs) :
    path ∈ cycle.tree.openDialogs ∨ event = ⟨.opens, path⟩ := by
  obtain ⟨induction, place⟩ := event
  unfold execute at isOpen
  cases induction with
  | opens =>
      obtain ⟨content, there, opened⟩ := (Tree.mem_openDialogs_change regular listed _).mp isOpen
      by_cases here : path = place
      · exact .inr (by rw [here])
      · rw [if_neg here] at opened
        exact .inl (Tree.mem_openDialogs_iff.mpr ⟨content, there, opened⟩)
  | closes =>
      dsimp only at isOpen
      split at isOpen
      · exact .inl isOpen
      · rename_i mode _
        dsimp only at isOpen
        rw [Tree.openDialogs_refresh] at isOpen
        obtain ⟨content, there, opened⟩ := (Tree.mem_openDialogs_change regular listed _).mp isOpen
        refine .inl (Tree.mem_openDialogs_iff.mpr ⟨content, there, ?_⟩)
        split at opened
        · rw [Form.isOpenDialog_closeDialog, Bool.and_eq_true] at opened
          exact opened.1
        · exact opened
  | activates =>
      refine .inl ?_
      dsimp only at isOpen
      split at isOpen
      · exact isOpen
      · split at isOpen
        · rename_i navigated
          rwa [openDialogs_navigate navigated] at isOpen
        · exact isOpen

/-- A dialog that was open before an inducer was carried out is still open, or the inducer closes it, in a mode that
is given. -/
theorem closes_execute (wasOpen : path ∈ cycle.tree.openDialogs) :
    path ∈ (cycle.execute event).1.tree.openDialogs ∨
      event = ⟨.closes, path⟩ ∧ ∃ mode, cycle.closeMode? = some mode ∧ mode ≠ .reset := by
  obtain ⟨induction, place⟩ := event
  unfold execute
  cases induction with
  | opens =>
      refine .inl ((Tree.mem_openDialogs_change regular listed _).mpr ?_)
      obtain ⟨content, there, opened⟩ := Tree.mem_openDialogs_iff.mp wasOpen
      refine ⟨content, there, ?_⟩
      split
      · rw [Form.isOpenDialog_openDialog]
        unfold Form.isOpenDialog at opened
        split at opened
        · rename_i isDialog
          rw [isDialog]
          rfl
        · cases opened
      · exact opened
  | closes =>
      dsimp only
      split
      · exact .inl wasOpen
      · rename_i mode given
        obtain ⟨content, there, opened⟩ := Tree.mem_openDialogs_iff.mp wasOpen
        by_cases stays : path = place ∧ mode ≠ .reset
        · exact .inr ⟨by rw [stays.1], mode, given, stays.2⟩
        · refine .inl ?_
          dsimp only
          rw [Tree.openDialogs_refresh]
          refine (Tree.mem_openDialogs_change regular listed _).mpr ⟨content, there, ?_⟩
          split
          · rename_i here
            obtain rfl : mode = .reset := by
              by_contra other
              exact stays ⟨here, other⟩
            rw [Form.isOpenDialog_closeDialog, opened]
            rfl
          · exact opened
  | activates =>
      refine .inl ?_
      dsimp only
      split
      · exact wasOpen
      · split
        · rename_i navigated
          rwa [openDialogs_navigate navigated]
        · exact wasOpen

/-- An inducer that opens a form opens its dialog, if it has one. -/
theorem mem_openDialogs_execute {content : Form} (there : (event.path, content) ∈ cycle.tree.forms)
    (isDialog : content.dialog.isSome = true) (opens : event.induction = .opens) :
    event.path ∈ (cycle.execute event).1.tree.openDialogs := by
  obtain ⟨induction, place⟩ := event
  cases opens
  refine (Tree.mem_openDialogs_change regular listed _).mpr ⟨content, there, ?_⟩
  rw [if_pos rfl, Form.isOpenDialog_openDialog]
  exact isDialog

end Execute

/-! ### One after the other -/

/-- A cycle in which some inducers are about to be carried out, all of which stand at nodes. -/
structure Lists (cycle : Cycle) (events : List InducedEvent) : Prop where
  regular : cycle.tree.root.Regular
  places : ∀ event ∈ events, event.path ∈ cycle.tree.nodePlaces

/-- Carrying out an inducer moves no node. -/
theorem Lists.execute {event : InducedEvent} {rest : List InducedEvent} (lists : cycle.Lists (event :: rest)) :
    ((cycle.execute event).1.reported event).Lists rest := by
  have moves := cycle.execute_moves event
  refine ⟨lists.regular.follows moves.retains.toFollows, fun later inside => ?_⟩
  change later.path ∈ (cycle.execute event).1.tree.nodePlaces
  rw [moves.nodePlaces]
  exact lists.places later (List.mem_cons_of_mem event inside)

theorem Lists.executeAll {front back : List InducedEvent} (lists : cycle.Lists (front ++ back)) :
    (executeAll front cycle).1.Lists back := by
  induction front generalizing cycle with
  | nil => exact lists
  | cons event rest ih => exact ih lists.execute

theorem executeAll_append (front back : List InducedEvent) (cycle : Cycle) :
    (executeAll (front ++ back) cycle).1 = (executeAll back (executeAll front cycle).1).1 := by
  induction front generalizing cycle with
  | nil => rfl
  | cons event rest ih => exact ih ((cycle.execute event).1.reported event)

section ExecuteAll

variable {events : List InducedEvent} (lists : cycle.Lists events)
include lists

/-- A dialog that is open after some inducers were carried out was open before, or one of them opens it. -/
theorem opens_executeAll (isOpen : path ∈ (executeAll events cycle).1.tree.openDialogs) :
    path ∈ cycle.tree.openDialogs ∨ ⟨.opens, path⟩ ∈ events := by
  induction events generalizing cycle with
  | nil => exact .inl isOpen
  | cons event rest ih =>
      rw [executeAll_cons] at isOpen
      rcases ih lists.execute isOpen with before | later
      · refine (opens_execute lists.regular (lists.places event List.mem_cons_self) before).imp_right ?_
        rintro rfl
        exact List.mem_cons_self
      · exact .inr (List.mem_cons_of_mem event later)

/-- A dialog that was open before some inducers were carried out is still open, or it is closed when it comes to one
of them, in a mode that all of them are given. -/
theorem closes_executeAll (wasOpen : path ∈ cycle.tree.openDialogs) :
    path ∈ (executeAll events cycle).1.tree.openDialogs ∨
      (∃ mode, cycle.closeMode? = some mode ∧ mode ≠ .reset) ∧ ∃ front back,
        events = front ++ ⟨.closes, path⟩ :: back ∧ path ∈ (executeAll front cycle).1.tree.openDialogs ∧
          path ∉ ((executeAll front cycle).1.execute ⟨.closes, path⟩).1.tree.openDialogs := by
  induction events generalizing cycle with
  | nil => exact .inl wasOpen
  | cons event rest ih =>
      rw [executeAll_cons]
      by_cases stays : path ∈ (cycle.execute event).1.tree.openDialogs
      · refine (ih lists.execute stays).imp_right ?_
        rintro ⟨⟨mode, given, closing⟩, front, back, rfl, isOpen, isClosed⟩
        have same : ((cycle.execute event).1.reported event).closeMode? = cycle.closeMode? := by
          rw [closeMode?, closeMode?]
          exact congrArg (fun firing : Option Firing => (firing.bind _).bind _) (cycle.firing_execute event)
        exact ⟨⟨mode, same.symm.trans given, closing⟩, event :: front, back, rfl, isOpen, isClosed⟩
      · have closed := closes_execute lists.regular (lists.places event List.mem_cons_self) wasOpen
        obtain ⟨rfl, mode, given, closing⟩ := closed.resolve_left stays
        exact .inr ⟨⟨mode, given, closing⟩, [], rest, rfl, wasOpen, stays⟩

/-- Where no mode is given, no dialog closes. -/
theorem stays_executeAll (quiet : cycle.closeMode? = none) (wasOpen : path ∈ cycle.tree.openDialogs) :
    path ∈ (executeAll events cycle).1.tree.openDialogs := by
  refine (closes_executeAll lists wasOpen).resolve_right ?_
  rintro ⟨⟨mode, given, -⟩, -⟩
  rw [quiet] at given
  cases given

/-- Where no mode is given, a dialog that one of the inducers opens is open after all of them. -/
theorem mem_openDialogs_executeAll (quiet : cycle.closeMode? = none) {content : Form}
    (there : (path, content) ∈ cycle.tree.forms) (isDialog : content.dialog.isSome = true)
    (among : ⟨.opens, path⟩ ∈ events) : path ∈ (executeAll events cycle).1.tree.openDialogs := by
  obtain ⟨front, back, rfl⟩ := List.append_of_mem among
  have rest : (executeAll front cycle).1.Lists (⟨.opens, path⟩ :: back) := lists.executeAll
  obtain ⟨later, thereLater, same⟩ := (cycle.executeAll_moves front).exists_form there
  have isDialogLater : later.dialog.isSome = true := by
    rw [← Form.isSome_dialog_asBuilt, same, Form.isSome_dialog_asBuilt]
    exact isDialog
  have opened := mem_openDialogs_execute rest.regular (rest.places _ List.mem_cons_self) thereLater isDialogLater rfl
  have quietLater : ((executeAll front cycle).1.execute ⟨.opens, path⟩).1.closeMode? = none := by
    rw [closeMode?, firing_execute, firing_executeAll]
    exact quiet
  rw [executeAll_append, executeAll_cons]
  exact stays_executeAll rest.execute quietLater opened

end ExecuteAll

/-! ### Settling -/

theorem openDialogs_induced (cycle : Cycle) : cycle.induced.tree.openDialogs = cycle.tree.openDialogs :=
  (Tree.openDialogs_latch _).trans (Tree.openDialogs_refresh _)

theorem openDialogs_settle (cycle : Cycle) :
    cycle.settle.1.tree.openDialogs = (executeAll cycle.risen cycle.induced).1.tree.openDialogs :=
  (Tree.openDialogs_latch _).trans (Tree.openDialogs_refresh _)

theorem induced_moves (cycle : Cycle) : Tree.Moves cycle.tree cycle.induced.tree :=
  (Relation.ReflTransGen.single (.refresh _)).tail (.latch _)

section Settle

variable (regular : cycle.tree.root.Regular)
include regular

theorem lists_risen : cycle.induced.Lists cycle.risen := by
  refine ⟨regular.follows cycle.induced_moves.retains.toFollows, fun event inside => ?_⟩
  have places : cycle.tree.refresh.latch.nodePlaces = cycle.tree.refresh.nodePlaces :=
    Tree.Moves.nodePlaces (.single (.latch _))
  change event.path ∈ cycle.tree.refresh.latch.nodePlaces
  rw [places]
  exact path_mem_nodePlaces inside

/-- A dialog that is open after a tree was settled was open before, or an inducer that has risen opens it. -/
theorem opens_settle (isOpen : path ∈ cycle.settle.1.tree.openDialogs) :
    path ∈ cycle.tree.openDialogs ∨ ⟨.opens, path⟩ ∈ cycle.risen := by
  rw [openDialogs_settle] at isOpen
  rw [← openDialogs_induced]
  exact opens_executeAll (lists_risen regular) isOpen

/-- A dialog that was open before a tree was settled is still open, or it is closed when it comes to an inducer that
has risen and closes it, in the mode that the firing button gives. -/
theorem closes_settle (wasOpen : path ∈ cycle.tree.openDialogs) :
    path ∈ cycle.settle.1.tree.openDialogs ∨
      (∃ mode, cycle.closeMode? = some mode ∧ mode ≠ .reset) ∧ ∃ front back,
        cycle.risen = front ++ ⟨.closes, path⟩ :: back ∧
          path ∈ (executeAll front cycle.induced).1.tree.openDialogs ∧
            path ∉ ((executeAll front cycle.induced).1.execute ⟨.closes, path⟩).1.tree.openDialogs := by
  rw [← openDialogs_induced] at wasOpen
  rw [openDialogs_settle]
  exact closes_executeAll (lists_risen regular) wasOpen

section Quiet

variable (quiet : cycle.tree.firing = none)
include quiet

omit regular in
theorem closeMode?_induced_of_quiet : cycle.induced.closeMode? = none := by
  change (cycle.tree.firing.bind _).bind _ = none
  rw [quiet]
  rfl

/-- While no button fires, no dialog closes. -/
theorem stays_settle (wasOpen : path ∈ cycle.tree.openDialogs) : path ∈ cycle.settle.1.tree.openDialogs := by
  rw [← openDialogs_induced] at wasOpen
  rw [openDialogs_settle]
  exact stays_executeAll (lists_risen regular) (closeMode?_induced_of_quiet quiet) wasOpen

/-- While no button fires, a dialog is open afterwards that an inducer opens which has risen. -/
theorem mem_openDialogs_settle {content : Form} (there : (path, content) ∈ cycle.tree.forms)
    (isDialog : content.dialog.isSome = true) (among : ⟨.opens, path⟩ ∈ cycle.risen) :
    path ∈ cycle.settle.1.tree.openDialogs := by
  obtain ⟨later, thereLater, same⟩ := cycle.induced_moves.exists_form there
  have isDialogLater : later.dialog.isSome = true := by
    rw [← Form.isSome_dialog_asBuilt, same, Form.isSome_dialog_asBuilt]
    exact isDialog
  rw [openDialogs_settle]
  exact mem_openDialogs_executeAll (lists_risen regular) (closeMode?_induced_of_quiet quiet) thereLater isDialogLater
    among

end Quiet

end Settle

end Cycle

end Formwork
