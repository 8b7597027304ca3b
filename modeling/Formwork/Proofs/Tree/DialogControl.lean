import Formwork.Proofs.Node.Validity
import Formwork.Proofs.Tree.Newcomers

/-!
# What opens and closes a dialog

Along an operation a dialog opens only if its inducer for opening is reported, and it closes only if its inducer for
closing is reported and a call that activates its button leaves it in a mode that closes (`Cycle.Drives`). The calls of
a chain do so one after the other, and all others do nothing to dialogs (`Cycle.perform_drives`). What leaving
brings about depends on the mode: an application closes the dialog exactly if every operable field in it is valid at
that moment, and a mode that restores puts every field in it back to its value at mounting
(`Executed.LeavesAt.leaves`).

Siblings that come or go take their dialogs with them. They may open a dialog elsewhere, if a condition reads what
has come or gone, but then its inducer is reported as well (`Tree.Reachable.controlsDialogs`); a note that opens when
an order comes in is one (`Tree.opened_elsewhere`).
-/

set_option autoImplicit false

namespace Formwork

/-! ## Leaving a dialog -/

namespace Executed

/-- The call activates its button, its first argument names a mode, and among the inducers that turn true is one that
closes the form at a path. At the moment at which it comes to this inducer the dialog is open. -/
inductive LeavesAt : Executed → Path → CloseMode → Cycle → Prop where
  | activate {button dialog : Path} {arguments : List Argument} {before : Cycle} {mode : CloseMode}
      {front back : List InducedEvent}
      (named : ((arguments.map (before.tree.argumentText button)).head?.bind CloseMode.ofName?) = some mode)
      (risen : (before.activated button arguments).risen = front ++ ⟨.closes, dialog⟩ :: back)
      (isOpen : dialog ∈ (Cycle.executeAll front (before.activated button arguments).induced).1.tree.openDialogs) :
      LeavesAt ⟨button, .activate arguments, before⟩ dialog mode
        (Cycle.executeAll front (before.activated button arguments).induced).1

/-- The call closes the dialog at a path: it leaves the dialog in a mode other than a reset, and the dialog is closed
right after that. -/
def Closes (executed : Executed) (dialog : Path) : Prop :=
  ∃ mode moment, executed.LeavesAt dialog mode moment ∧ mode ≠ .reset ∧
    dialog ∉ (moment.execute ⟨.closes, dialog⟩).1.tree.openDialogs

end Executed

/-- What leaving an open dialog in a mode brings about at a moment. -/
structure Cycle.Leaves (moment : Cycle) (dialog : Path) (mode : CloseMode) : Prop where
  /-- A reset keeps the dialog open, and an application does if an operable field in it is invalid. -/
  stays_iff : dialog ∈ (moment.execute ⟨.closes, dialog⟩).1.tree.openDialogs ↔
    mode = .reset ∨ mode = .apply ∧ ∃ place field, (place, field) ∈ moment.tree.fields ∧
      place.startsWith dialog = true ∧ field.isOperable = true ∧ field.check ≠ []
  /-- A reset and a clearing restore all fields in the dialog. -/
  restored : mode.restores = true → ∀ place field,
    (place, field) ∈ (moment.execute ⟨.closes, dialog⟩).1.tree.fields → place.startsWith dialog = true →
      field.value = field.initial

namespace Tree

variable {tree : Tree} (regular : tree.root.Regular) {dialog place : Path} {content : Form}
variable (there : (dialog, content) ∈ tree.forms)
include regular there

/-- One form stands at a path. -/
theorem form_unique {other : Form} (too : (dialog, other) ∈ tree.forms) : other = content := by
  obtain ⟨front, rfl, stands⟩ := Node.mem_forms_iff.mp there
  obtain ⟨around, same, standsOther⟩ := Node.mem_forms_iff.mp too
  have fronts : front ++ [] = around ++ [] :=
    congrArg (fun place : Path => place.segments ++ []) (Path.extend_injective same)
  obtain ⟨-, -, rfl⟩ := Node.stands_form_unique regular stands standsOther fronts
  rfl

/-- The fields of a form are those whose paths begin with its path. -/
theorem mem_fields_of_form {field : Field} :
    (place, field) ∈ content.fields dialog ↔ (place, field) ∈ tree.fields ∧ place.startsWith dialog = true := by
  obtain ⟨front, rfl, stands⟩ := Node.mem_forms_iff.mp there
  constructor
  · intro inside
    obtain ⟨names, rfl, member⟩ := Form.mem_fields_iff.mp inside
    rw [Path.extend_append, Path.startsWith_extend]
    refine ⟨Node.mem_fields_iff.mpr ⟨front, content, names, rfl, stands, member⟩, ?_⟩
    exact List.isPrefixOf_iff_prefix.mpr (List.prefix_append front names)
  · rintro ⟨listed, beneath⟩
    obtain ⟨around, other, names, rfl, standsOther, member⟩ := Node.mem_fields_iff.mp listed
    rw [Path.startsWith_extend, List.isPrefixOf_iff_prefix] at beneath
    obtain ⟨rest, fronts⟩ := beneath
    obtain ⟨rfl, -, rfl⟩ := Node.stands_form_unique regular stands standsOther fronts
    exact Form.mem_fields_iff.mpr ⟨names, (Path.extend_append ..).symm, member⟩

/-- An application of a form fails in the operable fields in it that are invalid. -/
theorem isEmpty_failures_iff : (content.failures dialog).isEmpty = false ↔ ∃ place field,
    (place, field) ∈ tree.fields ∧ place.startsWith dialog = true ∧ field.isOperable = true ∧ field.check ≠ [] := by
  rw [Bool.eq_false_iff, ne_eq, List.isEmpty_iff, Form.failures, Member.failures_eq_nil_iff]
  constructor
  · intro fails
    by_contra valid
    refine fails fun names field member operable => ?_
    have inside : (dialog.extend ⟨names⟩, field) ∈ content.fields dialog := Form.mem_fields_iff.mpr ⟨names, rfl, member⟩
    obtain ⟨listed, beneath⟩ := (mem_fields_of_form regular there).mp inside
    by_contra invalid
    exact valid ⟨_, field, listed, beneath, operable, fun passes => invalid (List.isEmpty_iff.mpr passes)⟩
  · rintro ⟨place, field, listed, beneath, operable, invalid⟩ passes
    obtain ⟨names, -, member⟩ := Form.mem_fields_iff.mp ((mem_fields_of_form regular there).mpr ⟨listed, beneath⟩)
    exact invalid (List.isEmpty_iff.mp (passes names field member operable))

end Tree

/-- An open dialog that is left in the mode that the firing button gives. -/
theorem Cycle.leaves_of_isOpen {moment : Cycle} (regular : moment.tree.root.Regular) {dialog : Path} {mode : CloseMode}
    (given : moment.closeMode? = some mode) (isOpen : dialog ∈ moment.tree.openDialogs) :
    moment.Leaves dialog mode := by
  obtain ⟨content, there, opened⟩ := Tree.mem_openDialogs_iff.mp isOpen
  have listed : dialog ∈ moment.tree.nodePlaces := by
    obtain ⟨⟨_, node⟩, stands, same⟩ := List.mem_filterMap.mp there
    obtain ⟨own, isForm, same⟩ := Option.map_eq_some_iff.mp same
    cases same
    exact List.mem_map.mpr ⟨_, stands, rfl⟩
  constructor
  · have left : (moment.execute ⟨.closes, dialog⟩).1.tree.openDialogs = (moment.tree.change dialog
        (Node.modifyForm fun _ => Form.closeDialog dialog mode)).openDialogs := by
      rw [execute, given]
      exact Tree.openDialogs_refresh _
    rw [left, Tree.mem_openDialogs_change regular listed]
    have stays : (∃ other, (dialog, other) ∈ moment.tree.forms ∧
        (if dialog = dialog then other.closeDialog dialog mode else other).isOpenDialog = true) ↔
          (content.closeDialog dialog mode).isOpenDialog = true := by
      constructor
      · rintro ⟨other, too, stillOpen⟩
        rwa [if_pos rfl, Tree.form_unique regular there too] at stillOpen
      · intro stillOpen
        exact ⟨content, there, by rwa [if_pos rfl]⟩
    rw [stays, Form.isOpenDialog_closeDialog, opened, ← Tree.isEmpty_failures_iff regular there]
    simp
  · intro restores place field inside beneath
    have does := @execute_does moment regular ⟨.closes, dialog⟩ listed
    have leaves : moment.leave ⟨.closes, dialog⟩ = [.leave dialog mode] := by
      rw [leave, given]
      exact if_pos ((Tree.any_isOpenDialog_iff regular).mpr isOpen)
    rw [leaves] at does
    obtain ⟨before, -, holding⟩ := does.exists_origin inside
    have restored : (Deed.leave dialog mode).restores place = true := (Bool.and_eq_true _ _).mpr ⟨restores, beneath⟩
    have held : field.holding = before.holding.restore := holding.trans (Deed.result_of_restores restored)
    exact (congrArg Holding.value held).trans (congrArg Holding.initial held).symm

namespace Executed

variable {executed : Executed} {dialog : Path} {mode : CloseMode} {moment : Cycle}

theorem LeavesAt.leaves (left : executed.LeavesAt dialog mode moment) (regular : executed.before.tree.root.Regular) :
    moment.Leaves dialog mode := by
  cases left with
  | @activate button dialog arguments before mode front back named risen isOpen =>
      have lists : (before.activated button arguments).induced.Lists (front ++ ⟨.closes, dialog⟩ :: back) :=
        risen ▸ @Cycle.lists_risen (before.activated button arguments) regular
      refine Cycle.leaves_of_isOpen lists.executeAll.regular ?_ isOpen
      rw [Cycle.closeMode?_executeAll]
      exact named

end Executed

/-! ## Calls -/

namespace Cycle

/-- Some calls lead from one cycle to another one, and no dialog opens or closes without its inducer. -/
structure Drives (executed : List Executed) (before after : Cycle) : Prop where
  reports : before.report.induced ⊆ after.report.induced
  opens : ∀ path ∈ after.tree.openDialogs, path ∈ before.tree.openDialogs ∨ ⟨.opens, path⟩ ∈ after.report.induced
  closes : ∀ path ∈ before.tree.openDialogs, path ∈ after.tree.openDialogs ∨
    ⟨.closes, path⟩ ∈ after.report.induced ∧ ∃ one ∈ executed, one.Closes path

namespace Drives

variable {first second : List Executed} {before middle after : Cycle}

/-- Where the same dialogs are open and nothing that was reported is lost, nothing more is to be said. -/
theorem of_same (dialogs : after.tree.openDialogs = before.tree.openDialogs)
    (reports : before.report.induced ⊆ after.report.induced) : Drives first before after where
  reports := reports
  opens _ isOpen := .inl (dialogs ▸ isOpen)
  closes _ wasOpen := .inl (dialogs ▸ wasOpen)

theorem of_notes (notes : Tree.Notes before.tree after.tree) (reports : after.report.induced = before.report.induced) :
    Drives first before after :=
  .of_same notes.openDialogs fun _ inside => reports ▸ inside

theorem trans (one : Drives first before middle) (two : Drives second middle after) :
    Drives (first ++ second) before after where
  reports := List.Subset.trans one.reports two.reports
  opens path isOpen := by
    rcases two.opens path isOpen with between | opened
    · exact (one.opens path between).imp_right fun opened => two.reports opened
    · exact .inr opened
  closes path wasOpen := by
    rcases one.closes path wasOpen with between | ⟨closed, call, among, closes⟩
    · refine (two.closes path between).imp_right ?_
      rintro ⟨closed, call, among, closes⟩
      exact ⟨closed, call, List.mem_append_right _ among, closes⟩
    · exact .inr ⟨two.reports closed, call, List.mem_append_left _ among, closes⟩

end Drives

variable {cycle : Cycle}

theorem induced_beginSubmission (button : Path) (method : Method) (remaining reject : List Call) (cycle : Cycle) :
    (cycle.beginSubmission button method remaining reject).1.report.induced = cycle.report.induced := by
  unfold beginSubmission
  cases method <;> dsimp only <;> split <;> rfl

theorem reports_settle (cycle : Cycle) : cycle.report.induced ⊆ cycle.settle.1.report.induced := by
  rw [induced_settle]
  exact List.subset_append_left _ _

section Settle

variable (regular : cycle.tree.root.Regular)
include regular

/-- Settling a tree opens dialogs only by inducers that it reports. -/
theorem opens_settle_reported {path : Path} (isOpen : path ∈ cycle.settle.1.tree.openDialogs) :
    path ∈ cycle.tree.openDialogs ∨ ⟨.opens, path⟩ ∈ cycle.settle.1.report.induced := by
  refine (opens_settle regular isOpen).imp_right fun risen => ?_
  rw [induced_settle]
  exact List.mem_append_right _ risen

/-- Settling a tree in which no button fires closes no dialog. -/
theorem settle_drives (quiet : cycle.tree.firing = none) (executed : List Executed) :
    Drives executed cycle cycle.settle.1 where
  reports := cycle.reports_settle
  opens _ isOpen := opens_settle_reported regular isOpen
  closes _ wasOpen := .inl (stays_settle regular quiet wasOpen)

/-- A call that activates its button closes the dialogs that it leaves. -/
theorem activate_drives (button : Path) (arguments : List Argument) :
    Drives [⟨button, .activate arguments, cycle⟩] cycle (cycle.activated button arguments).settle.1 where
  reports := (cycle.activated button arguments).reports_settle
  opens _ isOpen := @opens_settle_reported (cycle.activated button arguments) regular _ isOpen
  closes path wasOpen := by
    refine (@closes_settle (cycle.activated button arguments) path regular wasOpen).imp_right ?_
    rintro ⟨⟨mode, given, closing⟩, front, back, risen, isOpen, isClosed⟩
    constructor
    · rw [induced_settle, risen]
      exact List.mem_append_right _ (List.mem_append_right _ List.mem_cons_self)
    · exact ⟨_, List.mem_singleton_self _, mode, _, .activate given risen isOpen, closing, isClosed⟩

end Settle

section Rest

variable (regular : cycle.tree.root.Regular)
include regular

/-- After a move that keeps all dialogs as they are, settling closes none. -/
theorem moved_drives {changed : Tree} (moves : Tree.Moves cycle.tree changed) (stillQuiet : changed.firing = none)
    (dialogs : changed.openDialogs = cycle.tree.openDialogs) (executed : List Executed) :
    Drives executed cycle ({ cycle with tree := changed } : Cycle).settle.1 := by
  have same : Drives [] cycle { cycle with tree := changed } := .of_same dialogs fun _ inside => inside
  exact same.trans (@settle_drives { cycle with tree := changed } (regular.follows moves.retains.toFollows) stillQuiet
    executed)

variable (quiet : cycle.tree.firing = none)
include quiet

theorem assign_drives (button : Path) (target : Reference) (value : Option Value) (executed : List Executed) :
    Drives executed cycle (cycle.assign button target value).1 := by
  unfold assign
  cases cycle.tree.resolveField? button target with
  | none => exact .of_same rfl fun _ inside => inside
  | some place =>
      cases value with
      | none => exact .of_same rfl fun _ inside => inside
      | some content =>
          exact moved_drives regular (cycle.tree.store_moves place content)
            ((cycle.tree.firing_store place content).trans quiet) (cycle.tree.openDialogs_store place content) executed

theorem setSelfDisabled_drives (button : Path) (disabled : Bool) (executed : List Executed) :
    Drives executed cycle ({ cycle with
      tree := cycle.tree.change button (Node.modifyField (Field.setSelfDisabled disabled)) } : Cycle).settle.1 :=
  moved_drives regular (.single (.setSelfDisabled cycle.tree button disabled))
    ((Tree.firing_change _ _ _).trans quiet) (cycle.tree.openDialogs_modifyField button _) executed

/-- A call drives dialogs by its inducers. -/
theorem perform_drives (button : Path) (remaining reject : List Call) (call : Call) :
    Drives [⟨button, call, cycle⟩] cycle (cycle.perform button remaining reject call).1 := by
  cases call with
  | activate arguments => exact activate_drives regular button arguments
  | submit => exact .of_notes (cycle.beginSubmission_notes _ _ _ _) (induced_beginSubmission _ _ _ _ cycle)
  | submitPartial => exact .of_notes (cycle.beginSubmission_notes _ _ _ _) (induced_beginSubmission _ _ _ _ cycle)
  | setFieldValue target source => exact assign_drives regular quiet _ _ _ _
  | deleteValue target => exact assign_drives regular quiet _ _ _ _
  | reset => exact .of_same cycle.tree.openDialogs_restore fun _ inside => inside
  | disable => exact setSelfDisabled_drives regular quiet button true _
  | enable => exact setSelfDisabled_drives regular quiet button false _
  | proceed given =>
      unfold perform
      dsimp only
      split
      · exact .of_same rfl fun _ inside => inside
      · exact .of_same rfl fun _ inside => inside
  | clearErrors => exact .of_notes (Tree.clearErrors_notes _) rfl
  | noop => exact .of_same rfl fun _ inside => inside

end Rest

section Chains

variable (regular : cycle.tree.root.Regular) (rest : cycle.tree.AtRest)
include regular rest

/-- A chain drives dialogs as its calls do, one after the other. -/
theorem runChain_drives (button : Path) (reject chain : List Call) :
    Drives (cycle.executedChain button reject chain) cycle (cycle.runChain button reject chain).1 := by
  induction chain generalizing cycle with
  | nil => exact .of_same rfl fun _ inside => inside
  | cons call others ih =>
      have first := perform_drives regular rest.quiet button others reject call
      have moves := cycle.perform_moves button others reject call
      have stillRest := perform_atRest rest button others reject call
      unfold runChain executedChain
      generalize cycle.perform button others reject call = performed at first moves stillRest ⊢
      obtain ⟨after, ending⟩ := performed
      cases ending with
      | completed => exact first.trans (ih (regular.follows moves.retains.toFollows) stillRest)
      | suspended => exact first
      | failed => exact first

/-- A run drives dialogs as its chain does, and then as the reject chain does. -/
theorem run_drives (button : Path) (chain reject : List Call) :
    Drives (cycle.executedRun button chain reject) cycle (cycle.run button chain reject) := by
  have first := runChain_drives regular rest button reject chain
  have moves := cycle.runChain_moves button reject chain
  have stillRest := runChain_atRest rest button reject chain
  unfold run executedRun
  generalize cycle.runChain button reject chain = ran at first moves stillRest ⊢
  obtain ⟨after, ending⟩ := ran
  cases ending with
  | completed => exact first.trans (.of_same rfl fun _ inside => inside)
  | suspended => exact first.trans (.of_same rfl fun _ inside => inside)
  | failed => exact first.trans (runChain_drives (regular.follows moves.retains.toFollows) stillRest button [] reject)

end Chains

/-- Only moves lead to a call of a chain. -/
theorem moves_of_mem_executedChain {button : Path} {reject chain : List Call} {executed : Executed}
    (ran : executed ∈ cycle.executedChain button reject chain) : Tree.Moves cycle.tree executed.before.tree := by
  induction chain generalizing cycle with
  | nil => cases ran
  | cons call others ih =>
      have moves := cycle.perform_moves button others reject call
      unfold executedChain at ran
      rcases List.mem_cons.mp ran with rfl | later
      · exact .refl
      · generalize cycle.perform button others reject call = performed at moves later
        obtain ⟨after, ending⟩ := performed
        cases ending with
        | completed => exact moves.trans (ih later)
        | suspended => cases later
        | failed => cases later

theorem moves_of_mem_executedRun {button : Path} {chain reject : List Call} {executed : Executed}
    (ran : executed ∈ cycle.executedRun button chain reject) : Tree.Moves cycle.tree executed.before.tree := by
  have moves := cycle.runChain_moves button reject chain
  unfold executedRun at ran
  rcases List.mem_append.mp ran with first | second
  · exact moves_of_mem_executedChain first
  · generalize cycle.runChain button reject chain = result at moves second
    obtain ⟨after, ending⟩ := result
    cases ending with
    | completed => cases second
    | suspended => cases second
    | failed => exact moves.trans (moves_of_mem_executedChain second)

end Cycle

/-! ## Operations -/

namespace Tree

variable {tree : Tree} {cycle : Cycle}

section Operations

variable (regular : tree.root.Regular) (rest : tree.AtRest)
include regular rest

theorem click_drives {path : Path} (done : tree.click path = .ok cycle) :
    Cycle.Drives (tree.executed (.click path)) (.start tree) cycle := by
  obtain ⟨-, field, button, found, isButton, -, -, rfl⟩ := click_eq_ok done
  rw [executed, done, found]
  simp only [Option.bind_some, isButton]
  exact @Cycle.run_drives (.start tree) regular rest path _ _

theorem complete_drives {outcome : Outcome} (done : tree.complete outcome = .ok cycle) :
    Cycle.Drives (tree.executed (.complete outcome)) (.start tree) cycle := by
  obtain ⟨pending, waits, rfl⟩ := complete_eq_ok done
  rw [executed, waits]
  cases success? outcome with
  | some response =>
      have notes := tree.informed_notes response
      have first : Cycle.Drives [] (.start tree) (.start (tree.informed response)) := .of_notes notes rfl
      exact first.trans (@Cycle.run_drives (.start (tree.informed response))
        (regular.follows notes.moves.retains.toFollows) (notes.atRest rest) pending.button pending.remaining
        pending.reject)
  | none =>
      have notes := tree.refused_notes outcome
      have first : Cycle.Drives [] (.start tree) ⟨tree.refused outcome, refusal outcome⟩ :=
        .of_same notes.openDialogs (List.nil_subset _)
      exact first.trans (@Cycle.runChain_drives ⟨tree.refused outcome, refusal outcome⟩
        (regular.follows notes.moves.retains.toFollows) (notes.atRest rest) pending.button [] pending.reject)

end Operations

/-- Only moves lead to a call that an operation executes. -/
theorem moves_of_mem_executed {operation : Operation} {executed : Executed} (ran : executed ∈ tree.executed operation) :
    Moves tree executed.before.tree := by
  cases operation with
  | click path =>
      rw [Tree.executed] at ran
      split at ran
      · exact @Cycle.moves_of_mem_executedRun (.start tree) _ _ _ _ ran
      · cases ran
  | complete outcome =>
      rw [Tree.executed] at ran
      split at ran
      · rename_i pending response _ _
        exact (tree.informed_notes response).moves.trans
          (@Cycle.moves_of_mem_executedRun (.start (tree.informed response)) _ _ _ _ ran)
      · exact (tree.refused_notes outcome).moves.trans
          (@Cycle.moves_of_mem_executedChain ⟨tree.refused outcome, refusal outcome⟩ _ _ _ _ ran)
      · cases ran
  | _ => cases ran

/-- Only clicks and deliveries execute calls. -/
theorem runs_of_mem_executed {operation : Operation} {executed : Executed} (ran : executed ∈ tree.executed operation) :
    (∃ button, operation = .click button) ∨ ∃ outcome, operation = .complete outcome := by
  cases operation with
  | click path => exact .inl ⟨path, rfl⟩
  | complete outcome => exact .inr ⟨outcome, rfl⟩
  | _ => cases ran

/-! ### Navigation -/

theorem inducers_navigate {place : Path} {index : Nat} {later : Cycle} {arrived : Bool}
    (navigated : cycle.navigate place index = .ok (later, arrived)) : later.tree.inducers = cycle.tree.inducers := by
  obtain ⟨node, moved, failures, validation, stands, gone, rfl⟩ := cycle.navigate_eq_ok navigated
  unfold change
  split
  · rename_i segments below
    rw [node?, below] at stands
    refine Node.listing_modify stands (Node.listing_goTo (fun here path content => ?_) gone) _
    rw [Form.validate]
    split <;> rfl
  · rfl

theorem lookup_navigate {place : Path} {index : Nat} {later : Cycle} {arrived : Bool}
    (navigated : cycle.navigate place index = .ok (later, arrived)) : later.tree.lookup = cycle.tree.lookup := by
  obtain ⟨node, moved, failures, validation, stands, gone, rfl⟩ := cycle.navigate_eq_ok navigated
  unfold change
  split
  · rename_i segments below
    rw [node?, below] at stands
    exact lookup_congr rfl rfl (Node.views_modify stands (Node.views_goTo (fun _ => rfl) gone) _)
  · rfl

/-- Going to a step fires no inducer. -/
theorem risen_navigate (rest : cycle.tree.AtRest) {place : Path} {index : Nat} {later : Cycle} {arrived : Bool}
    (navigated : cycle.navigate place index = .ok (later, arrived)) : later.risen = [] := by
  have same := (inducers_refresh later.tree).trans (inducers_navigate navigated)
  rw [Cycle.risen, rising_of_rest rest same, lookup_refresh, lookup_navigate navigated, turned]
  simp

/-! ### Siblings -/

/-- Siblings that come under other indices take their dialogs with them. -/
theorem carried_openDialogs : Carried fun tree path => path ∈ tree.openDialogs where
  carry regular stands moves listed lands := by
    obtain ⟨content, there, isOpen⟩ := mem_openDialogs_iff.mp listed
    exact mem_openDialogs_iff.mpr ⟨content, (carried_forms content).carry regular stands moves there lands, isOpen⟩

/-- Siblings that come or go are first put in their places, where those dialogs are open that were open before. Then the
tree is settled. -/
structure Resettled (tree : Tree) (operation : Operation) (cycle : Cycle) : Prop where
  opens : ∀ place ∈ cycle.tree.openDialogs, (∃ path ∈ tree.openDialogs, tree.landing operation path = some place) ∨
    ⟨.opens, place⟩ ∈ cycle.report.induced
  stays : ∀ path ∈ tree.openDialogs, ∀ place, tree.landing operation path = some place →
    place ∈ cycle.tree.openDialogs

section Siblings

variable (reachable : tree.Reachable) {series : Path}
include reachable

omit reachable in
theorem resettled_settle {operation : Operation} {changed : Cycle} (regular : changed.tree.root.Regular)
    (quiet : changed.tree.firing = none)
    (origin : ∀ place ∈ changed.tree.openDialogs, ∃ path ∈ tree.openDialogs, tree.landing operation path = some place)
    (lands : ∀ path ∈ tree.openDialogs, ∀ place, tree.landing operation path = some place →
      place ∈ changed.tree.openDialogs) : tree.Resettled operation changed.settle.1 where
  opens place isOpen := (Cycle.opens_settle_reported regular isOpen).imp_left (origin place)
  stays path wasOpen place landed := Cycle.stays_settle regular quiet (lands path wasOpen place landed)

theorem resettled_addSibling {behind : Option Nat} (done : tree.answer (.addSibling series behind) = .ok cycle) :
    tree.Resettled (.addSibling series behind) cycle := by
  have moved := landing_addSibling done
  have regular := reachable.regular
  obtain ⟨-, node, extended, position, stands, added, rfl⟩ := addSibling_eq_ok done
  have follows := root_follows_modify stands (Node.follows_addSibling added)
  refine resettled_settle (regular.follows follows) ((tree.firing_change _ _).trans reachable.atRest.quiet) ?_ ?_
  · intro place isOpen
    rcases carried_openDialogs.origin_of_added regular stands added isOpen with ⟨path, wasOpen, lands⟩ | ⟨rest, rfl⟩
    · exact ⟨path, wasOpen, (moved path).trans lands⟩
    · have stocked := stocked_node? regular reachable.stocked stands
      refine absurd isOpen (not_mem_openDialogs_of_build fun inner there => ?_)
      exact exists_build_of_added regular stocked stands added there ((Path.startsWith_join _ _ _ _).mpr rfl)
  · intro path wasOpen place lands
    rw [moved] at lands
    exact carried_openDialogs.addSibling regular stands added wasOpen lands

theorem resettled_removeSibling {index : Nat} (done : tree.answer (.removeSibling series index) = .ok cycle) :
    tree.Resettled (.removeSibling series index) cycle := by
  have moved := landing_removeSibling done
  have regular := reachable.regular
  obtain ⟨-, node, reduced, stands, removed, rfl⟩ := removeSibling_eq_ok done
  have follows := root_follows_modify stands (Node.follows_removeSibling removed)
  refine resettled_settle (regular.follows follows) ((tree.firing_change _ _).trans reachable.atRest.quiet) ?_ ?_
  · intro place isOpen
    obtain ⟨path, wasOpen, lands⟩ := carried_openDialogs.origin_of_removed regular stands removed isOpen
    exact ⟨path, wasOpen, (moved path).trans lands⟩
  · intro path wasOpen place lands
    rw [moved] at lands
    exact carried_openDialogs.removeSibling regular stands removed wasOpen lands

end Siblings

end Tree

/-! ## All operations -/

/-- Validation, navigation, a reset and messages of a server have nothing to do with dialogs. -/
def Operation.sparesDialogs : Operation → Bool
  | .validate | .validatePart _ | .goToStep _ _ | .reset | .applyErrors _ => true
  | .setValue _ _ | .click _ | .addSibling _ _ | .removeSibling _ _ | .complete _ => false

/-- The same goes for the calls of a chain that submit, restore, redirect or forget messages. -/
def Call.sparesDialogs : Call → Bool
  | .submit | .submitPartial | .reset | .proceed _ | .clearErrors | .noop => true
  | .activate _ | .setFieldValue _ _ | .deleteValue _ | .disable | .enable => false

theorem Cycle.openDialogs_perform {cycle : Cycle} {call : Call} (spares : call.sparesDialogs = true) (button : Path)
    (remaining reject : List Call) :
    (cycle.perform button remaining reject call).1.tree.openDialogs = cycle.tree.openDialogs := by
  cases call with
  | submit => exact (cycle.beginSubmission_notes _ _ _ _).openDialogs
  | submitPartial => exact (cycle.beginSubmission_notes _ _ _ _).openDialogs
  | reset => exact cycle.tree.openDialogs_restore
  | proceed given =>
      unfold perform
      dsimp only
      split <;> rfl
  | clearErrors => exact (Tree.clearErrors_notes _).openDialogs
  | noop => rfl
  | activate arguments => cases spares
  | setFieldValue target source => cases spares
  | deleteValue target => cases spares
  | disable => cases spares
  | enable => cases spares

namespace Tree

variable {tree : Tree} {operation : Operation} {cycle : Cycle}

/-- What an accepted operation has to do with dialogs. -/
structure ControlsDialogs (tree : Tree) (operation : Operation) (cycle : Cycle) : Prop where
  /-- A dialog that is open was open before, wherever its siblings have taken it, or it was opened by its inducer. -/
  opens : ∀ place ∈ cycle.tree.openDialogs, (∃ path ∈ tree.openDialogs, tree.landing operation path = some place) ∨
    ⟨.opens, place⟩ ∈ cycle.report.induced
  /-- A dialog that was open and is still there, but closed, was closed by its inducer, in a call that activates its
  button with a mode that closes. -/
  closes : ∀ path ∈ tree.openDialogs, ∀ place, tree.landing operation path = some place →
    place ∉ cycle.tree.openDialogs →
      place = path ∧ ((∃ button, operation = .click button) ∨ ∃ outcome, operation = .complete outcome) ∧
        ⟨.closes, path⟩ ∈ cycle.report.induced ∧ ∃ executed ∈ tree.executed operation, executed.Closes path
  /-- A call that leaves an open dialog in a mode does with it what the mode says. -/
  leaves : ∀ executed ∈ tree.executed operation, ∀ dialog mode moment, executed.LeavesAt dialog mode moment →
    moment.Leaves dialog mode
  /-- Some operations do nothing to dialogs. -/
  spares : operation.sparesDialogs = true → cycle.tree.openDialogs = tree.openDialogs
  /-- Neither do some calls. -/
  sparesInCall : ∀ executed ∈ tree.executed operation, executed.call.sparesDialogs = true → ∀ remaining reject,
    (executed.before.perform executed.button remaining reject executed.call).1.tree.openDialogs =
      executed.before.tree.openDialogs
  /-- Nor does a failed submission, if no reject chain follows. -/
  sparesInFailure : ∀ outcome pending, operation = .complete outcome → tree.pending = some pending →
    success? outcome = none → pending.reject = [] → cycle.tree.openDialogs = tree.openDialogs

theorem openDialogs_of_spares (rest : tree.AtRest) (done : tree.answer operation = .ok cycle)
    (spares : operation.sparesDialogs = true) : cycle.tree.openDialogs = tree.openDialogs := by
  cases operation with
  | validate =>
      cases done
      exact tree.validate_notes.openDialogs
  | validatePart scope =>
      cases done
      exact (tree.validatePart_notes scope).openDialogs
  | goToStep path index =>
      obtain ⟨-, moved, arrived, navigated, rfl⟩ := goToStep_eq_ok done
      have nothing := @risen_navigate (.start tree) rest _ _ _ _ navigated
      rw [Cycle.openDialogs_settle, nothing]
      exact (Cycle.openDialogs_induced moved).trans (Cycle.openDialogs_navigate navigated)
  | reset =>
      obtain ⟨-, rfl⟩ := reset_eq_ok done
      exact tree.openDialogs_restore
  | applyErrors messages =>
      cases done
      exact (tree.applyErrors_notes messages).openDialogs
  | setValue path value => cases spares
  | click path => cases spares
  | addSibling path behind => cases spares
  | removeSibling path index => cases spares
  | complete outcome => cases spares

theorem openDialogs_of_fails {outcome : Outcome} {pending : Pending}
    (done : tree.answer (.complete outcome) = .ok cycle) (waits : tree.pending = some pending)
    (fails : success? outcome = none) (nothing : pending.reject = []) : cycle.tree.openDialogs = tree.openDialogs := by
  rw [answer, complete_eq waits, fails, nothing] at done
  cases done
  exact (tree.refused_notes outcome).openDialogs

/-- Every operation on a reachable tree opens and closes dialogs by their inducers only. -/
theorem Reachable.controlsDialogs (reachable : tree.Reachable) (done : tree.answer operation = .ok cycle) :
    tree.ControlsDialogs operation cycle := by
  have regular := reachable.regular
  have rest := reachable.atRest
  have leaves (executed : Executed) (ran : executed ∈ tree.executed operation) (dialog : Path) (mode : CloseMode)
      (moment : Cycle) (left : executed.LeavesAt dialog mode moment) : moment.Leaves dialog mode :=
    left.leaves (regular.follows (moves_of_mem_executed ran).retains.toFollows)
  have spares := openDialogs_of_spares rest done
  have sparesInCall (executed : Executed) (_ : executed ∈ tree.executed operation)
      (spares : executed.call.sparesDialogs = true) :=
    @Cycle.openDialogs_perform executed.before executed.call spares executed.button
  have sparesInFailure (outcome : Outcome) (pending : Pending) (same : operation = .complete outcome) :=
    @openDialogs_of_fails tree cycle outcome pending (same ▸ done)
  have resettled (settled : tree.Resettled operation cycle) : tree.ControlsDialogs operation cycle :=
    ⟨settled.opens, fun path wasOpen place lands isClosed => absurd (settled.stays path wasOpen place lands) isClosed,
      leaves, spares, sparesInCall, sparesInFailure⟩
  have driven (drives : Cycle.Drives (tree.executed operation) (.start tree) cycle)
      (stays : tree.landing operation = some) : tree.ControlsDialogs operation cycle := by
    refine ⟨fun place isOpen => ?_, fun path wasOpen place lands isClosed => ?_, leaves, spares, sparesInCall,
      sparesInFailure⟩
    · exact (drives.opens place isOpen).imp_left fun wasOpen => ⟨place, wasOpen, congrFun stays place⟩
    · rw [stays] at lands
      cases lands
      obtain ⟨reported, call, ran, closes⟩ := (drives.closes path wasOpen).resolve_left isClosed
      exact ⟨rfl, runs_of_mem_executed ran, reported, call, ran, closes⟩
  cases operation with
  | addSibling series behind => exact resettled (resettled_addSibling reachable done)
  | removeSibling series index => exact resettled (resettled_removeSibling reachable done)
  | click path => exact driven (click_drives regular rest done) (tree.landing_of_stays _ nofun nofun)
  | complete outcome => exact driven (complete_drives regular rest done) (tree.landing_of_stays _ nofun nofun)
  | setValue path value =>
      obtain ⟨-, -, rfl⟩ := setValue_eq_ok done
      refine driven ?_ (tree.landing_of_stays _ nofun nofun)
      exact @Cycle.moved_drives (.start tree) regular _ (tree.store_moves path value)
        ((tree.firing_store path value).trans rest.quiet) (tree.openDialogs_store path value) _
  | _ => exact driven (.of_same (spares rfl) nofun) (tree.landing_of_stays _ nofun nofun)

/-- A gift is wrapped in a dialog, in which a color has to be chosen before it is applied. -/
def wrappings : Blueprint where
  namespaceText := none
  root := .collection .plain
    [("order", .form ⟨none, none, .absent⟩ none [("gift", .field .standard)]),
      ("wrapping", .form
        ⟨none, none, { Conditions.absent with
          openWhen := some "order.gift", closeWhen := some "wrapping.done:active" }⟩ (some .plain)
        [("color", .field .standard),
          ("done", .field { FieldPlan.standard with widget := .button, action := some "activate(\"apply\")" })])]
  distinct := by decide

/-- The dialog of a gift is open, and applying it closes it once a color is chosen. -/
theorem controlsDialogs_wrappings : ∃ (tree : Tree) (cycle : Cycle), tree.Reachable ∧
    tree.openDialogs = [⟨["wrapping"]⟩] ∧ tree.answer (.click ⟨["wrapping", "done"]⟩) = .ok cycle ∧
      tree.ControlsDialogs (.click ⟨["wrapping", "done"]⟩) cycle ∧ cycle.tree.openDialogs = [] := by
  have closes : ((Tree.mount wrappings none).toOption.bind fun start =>
      let wrapped := start.after (.setValue ⟨["order", "gift"]⟩ (.text "yes"))
      let colored := wrapped.after (.setValue ⟨["wrapping", "color"]⟩ (.text "red"))
      (colored.answer (.click ⟨["wrapping", "done"]⟩)).toOption.map fun cycle =>
        (colored.openDialogs, cycle.tree.openDialogs)) = some ([⟨["wrapping"]⟩], []) := by decide +kernel
  obtain ⟨start, mounted, closes⟩ := Option.bind_eq_some_iff.mp closes
  obtain ⟨cycle, clicked, same⟩ := Option.map_eq_some_iff.mp closes
  rw [toOption_eq_some] at mounted clicked
  obtain ⟨before, behind⟩ := Prod.mk.inj same
  have reachable := Reachable.after (.after (.mounted mounted) (.setValue ⟨["order", "gift"]⟩ (.text "yes")))
    (.setValue ⟨["wrapping", "color"]⟩ (.text "red"))
  exact ⟨_, cycle, reachable, before, clicked, reachable.controlsDialogs clicked, behind⟩

/-- A note that opens when there is a first order. -/
def notedOrders : Blueprint where
  namespaceText := none
  root := .collection .plain
    [("orders", .collection { CollectionPlan.plain with minSiblings := some 0 }
      [("order", .form ⟨none, none, .absent⟩ none
        [("size", .field { FieldPlan.standard with initial := some (.text "small") })])]),
      ("note", .form ⟨none, none, { Conditions.absent with openWhen := some "orders.0.order.size" }⟩ (some .plain)
        [("text", .field .standard)])]
  distinct := by decide

/-- The first order that comes in opens the note, which stands elsewhere. -/
theorem opened_elsewhere : ∃ tree cycle, Tree.mount notedOrders none = .ok tree ∧
    tree.addSibling ⟨["orders"]⟩ none = .ok cycle ∧ tree.openDialogs = [] ∧
      cycle.report.induced = [⟨.opens, ⟨["note"]⟩⟩] ∧ cycle.tree.openDialogs = [⟨["note"]⟩] := by
  have opens : ((Tree.mount notedOrders none).toOption.bind fun tree =>
      (tree.addSibling ⟨["orders"]⟩ none).toOption.map fun cycle =>
        (tree.openDialogs, cycle.report.induced, cycle.tree.openDialogs)) =
      some ([], [⟨.opens, ⟨["note"]⟩⟩], [⟨["note"]⟩]) := by decide +kernel
  obtain ⟨tree, mounted, opens⟩ := Option.bind_eq_some_iff.mp opens
  obtain ⟨cycle, added, same⟩ := Option.map_eq_some_iff.mp opens
  rw [toOption_eq_some] at mounted added
  obtain ⟨before, same⟩ := Prod.mk.inj same
  obtain ⟨induced, behind⟩ := Prod.mk.inj same
  exact ⟨tree, cycle, mounted, added, before, induced, behind⟩

end Tree

end Formwork
