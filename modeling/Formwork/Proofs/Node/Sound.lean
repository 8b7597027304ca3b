import Mathlib.Data.List.InsertIdx
import Mathlib.Data.List.Perm.Basic
import Formwork.Proofs.Node.Starting
import Formwork.Proofs.Node.Stepping

/-!
# Sound nodes

A node is sound if every field holds values of the kind that its widget stores, if a collection is a
series exactly where its plan is repeatable, and if every series has as many live siblings as it must
keep and no more siblings than it can hold (`Node.Sound`). Templates are sound as well, and their fields
hold the values at mounting, for new siblings are copies of them.

What is built is sound (`Node.build_sound`), and so is what is left of a sound node after anything that
can happen to it.
-/

set_option autoImplicit false

namespace Formwork

open Formwork.Text

/-! ## Forms -/

/-- All fields beneath the members of a group hold values of the right kind. -/
def Member.Fits (members : List (String × Member)) : Prop :=
  ∀ names field, Stands members names (.field field) → field.holding.Fits

namespace Form

/-- All fields of the form hold values of the right kind. -/
def Fits (form : Form) : Prop := Member.Fits form.members

variable {form : Form}

theorem fits_iff (path : Path) : form.Fits ↔ ∀ seen ∈ form.holdings path, seen.2.Fits :=
  Member.each_iff_views path

/-- Forms with the same holdings hold values of the right kind together. -/
theorem Fits.of_holdings {later : Form} (fits : form.Fits)
    (same : later.holdings .root = form.holdings .root) : later.Fits := by
  rw [fits_iff .root] at fits ⊢
  rwa [same]

theorem Fits.refresh (fits : form.Fits) (lookup : Lookup) (path : Path) : (form.refresh lookup path).Fits :=
  fits.of_holdings (form.holdings_refresh _ lookup path)

theorem Fits.clearErrors (fits : form.Fits) : form.clearErrors.Fits :=
  fits.of_holdings (form.holdings_clearErrors _)

theorem Fits.validate (fits : form.Fits) (path : Path) : (form.validate path).Fits :=
  fits.of_holdings (form.holdings_validate _ path)

theorem Fits.validateAt (fits : form.Fits) (path : Path) (names : List String) :
    (form.validateAt path names).Fits :=
  fits.of_holdings (form.holdings_validateAt _ path names)

theorem Fits.openDialog (fits : form.Fits) : form.openDialog.Fits :=
  fits.of_holdings (form.holdings_openDialog _)

theorem Fits.reset (fits : form.Fits) : form.reset.Fits := by
  rw [fits_iff .root] at fits ⊢
  rw [holdings_reset]
  exact List.forall_mem_map.mpr fun seen listed => (fits seen listed).restore

theorem Fits.closeDialog (fits : form.Fits) (path : Path) (mode : CloseMode) :
    (form.closeDialog path mode).Fits := by
  rw [fits_iff .root] at fits ⊢
  rw [holdings_closeDialog]
  split
  · exact List.forall_mem_map.mpr fun seen listed => (fits seen listed).restore
  · exact fits

/-- A change of the field at some names that stores values of the right kind. -/
theorem Fits.modifyField (fits : form.Fits) {change : Field → Field} {edit : Holding → Holding}
    (agree : ∀ entry, (change entry).holding = edit entry.holding)
    (keeps : ∀ held : Holding, held.Fits → (edit held).Fits) (names : List String) :
    (form.modifyField change names).Fits := by
  cases names with
  | nil => exact fits
  | cons name rest =>
      rw [fits_iff .root] at fits ⊢
      intro seen listed
      rcases Member.mem_views_modifyAt agree listed with old | ⟨old, there, rfl⟩
      · exact fits seen old
      · exact keeps _ (fits old there)

theorem Fits.addErrors (fits : form.Fits) (messages : List String) (names : List String) :
    (form.modifyGroup (Group.addErrors messages) names).Fits :=
  fits.of_holdings (holdings_of_clearErrors _
    (form.clearErrors_modifyGroup (Group.clearErrors_addErrors messages) names))

/-- An elementary change stores values of the right kind only. -/
theorem Fits.move {later : Form} (fits : form.Fits) (move : Form.Move form later) : later.Fits := by
  cases move with
  | stay => exact fits
  | refresh => exact fits.refresh _ _
  | latch => exact fits
  | validate => exact fits.validate _
  | validateAt => exact fits.validateAt _ _
  | setErrors messages => exact @modifyField _ fits _ id (Field.holding_setErrors messages) (fun _ held => held) _
  | setValue value => exact fits.modifyField (Field.holding_setValue value) (fun _ held => held.store value) _
  | setSelfDisabled disabled =>
      exact @modifyField _ fits _ id (Field.holding_setSelfDisabled disabled) (fun _ held => held) _
  | addErrors messages => exact fits.addErrors messages _
  | clearErrors => exact fits.clearErrors
  | reset => exact fits.reset
  | openDialog => exact fits.openDialog
  | closeDialog => exact fits.closeDialog _ _

end Form

namespace Node

/-! ## Sound nodes -/

/-- What holds of a node however it was used. -/
inductive Sound : Node → Prop where
  | form {content : Form} (fits : content.Fits) : Sound (.form content)
  | collection {frame : Frame} {progress : Option Progress} {members : List (String × Node)}
      (single : frame.plan.isRepeatable = false) (inner : ∀ entry ∈ members, Sound entry.2) :
      Sound (.collection frame progress members)
  | series {frame : Frame} {template : List (String × Node)} {siblings : List Sibling}
      (repeats : frame.plan.isRepeatable = true) (inTemplate : ∀ entry ∈ template, Sound entry.2)
      (fresh : ∀ entry ∈ template, entry.2.Each Holding.IsInitial)
      (inner : ∀ sibling ∈ siblings, ∀ entry ∈ sibling.members, Sound entry.2)
      (enough : frame.least ≤ liveCount siblings)
      (room : ∀ greatest, frame.plan.maxSiblings = some greatest → siblings.length ≤ greatest) :
      Sound (.series frame template siblings)

/-! ### Counting live siblings -/

/-- The number of live siblings depends only on which siblings are pristine. -/
theorem liveCount_congr {siblings others : List Sibling}
    (same : siblings.map Sibling.isPristine = others.map Sibling.isPristine) :
    liveCount siblings = liveCount others := by
  have counted (siblings : List Sibling) :
      liveCount siblings = (siblings.map Sibling.isPristine).countP fun pristine => !pristine := by
    rw [List.countP_map]
    rfl
  rw [counted, counted, same]

/-- Touching a sibling does not make fewer siblings live. -/
theorem liveCount_touched (siblings : List Sibling) (position : Nat) :
    liveCount siblings ≤ liveCount (siblings.modify position Sibling.touched) := by
  induction siblings generalizing position with
  | nil => simp
  | cons sibling rest ih =>
      cases position with
      | zero =>
          obtain ⟨pristine, members⟩ := sibling
          cases pristine <;> simp [liveCount, Sibling.touched, Sibling.isPristine]
      | succ position =>
          have later := ih position
          simp only [liveCount, List.modify_succ_cons, List.countP_cons] at later ⊢
          omega

theorem liveCount_insertIdx {siblings : List Sibling} {position : Nat} (inside : position ≤ siblings.length)
    (members : List (String × Node)) :
    liveCount (siblings.insertIdx position (.mk false members)) = liveCount siblings + 1 := by
  rw [liveCount, (List.perm_insertIdx _ siblings inside).countP_eq]
  exact List.countP_cons_of_pos rfl

theorem liveCount_le_length (siblings : List Sibling) : liveCount siblings ≤ siblings.length :=
  List.countP_le_length

theorem liveCount_append (first second : List Sibling) :
    liveCount (first ++ second) = liveCount first + liveCount second := List.countP_append

/-- Siblings none of which is pristine are all live. -/
theorem liveCount_of_live {siblings : List Sibling} (live : ∀ sibling ∈ siblings, sibling.isPristine = false) :
    liveCount siblings = siblings.length :=
  List.countP_eq_length.mpr fun sibling inside => by simp [live sibling inside]

theorem liveCount_pristine (number : Nat) (members : List (String × Node)) :
    liveCount (List.replicate number (.mk true members)) = 0 :=
  List.countP_eq_zero.mpr fun sibling inside => by simp [List.eq_of_mem_replicate inside]

/-! ### The start -/

/-- How many live siblings a series has at the start. -/
theorem liveCount_populate {frame : Frame} {template : List (String × Node)} {given : List Sibling}
    (live : ∀ sibling ∈ given, sibling.isPristine = false) :
    liveCount (frame.populate template given) = max given.length frame.least := by
  have blanks : liveCount (List.replicate (frame.least - given.length) (.mk false template)) =
      frame.least - given.length := by
    rw [liveCount_of_live, List.length_replicate]
    intro sibling inside
    rw [List.eq_of_mem_replicate inside]
    rfl
  rw [Frame.populate, liveCount_append, liveCount_append, liveCount_of_live live, blanks,
    liveCount_pristine]
  omega

theorem length_populate {frame : Frame} {template : List (String × Node)} {given : List Sibling}
    {greatest : Nat} (bound : frame.plan.maxSiblings = some greatest) (least : frame.least ≤ greatest)
    (fits : given.length ≤ greatest) : (frame.populate template given).length ≤ greatest := by
  simp only [Frame.populate, bound, List.length_append, List.length_replicate]
  omega

/-- A series that was populated with sound siblings is sound. -/
theorem Sound.populate {frame : Frame} {template : List (String × Node)} {given : List Sibling}
    (repeats : frame.plan.isRepeatable = true) (inTemplate : ∀ entry ∈ template, Sound entry.2)
    (fresh : ∀ entry ∈ template, entry.2.Each Holding.IsInitial)
    (inGiven : ∀ sibling ∈ given, sibling.isPristine = false ∧ ∀ entry ∈ sibling.members, Sound entry.2)
    (least : ∀ greatest, frame.plan.maxSiblings = some greatest → frame.least ≤ greatest)
    (fits : ∀ greatest, frame.plan.maxSiblings = some greatest → given.length ≤ greatest) :
    (Node.series frame template (frame.populate template given)).Sound := by
  refine .series repeats inTemplate fresh (fun sibling inside => ?_) ?_ fun greatest bound => ?_
  · rcases members_of_mem_populate inside with old | copy
    · exact (inGiven sibling old).2
    · rwa [copy]
  · rw [liveCount_populate fun sibling inside => (inGiven sibling inside).1]
    exact Nat.le_max_right _ _
  · exact length_populate bound (least greatest bound) (fits greatest bound)

theorem length_admitted {α : Type} {frame : Frame} {entries : List α} {greatest : Nat}
    (bound : frame.plan.maxSiblings = some greatest) : (frame.admitted entries).length ≤ greatest := by
  simp only [Frame.admitted, bound, List.length_take]
  omega

mutual
/-- What is built is sound. -/
theorem build_sound {path : Path} {placement : Placement} {plan : NodePlan} {node : Node}
    (built : Node.build path placement plan = .ok node) : node.Sound := by
  match plan with
  | .form plan dialog members =>
      simp only [Node.build, Form.build, bind_eq_ok, pure_eq_ok] at built
      obtain ⟨content, ⟨_, -, _, -, _, -, _, -, built, membersBuilt, rfl⟩, rfl⟩ := built
      exact .form (Member.each_buildAll Field.fits_initialValue membersBuilt)
  | .collection plan members =>
      simp only [Node.build, bind_eq_ok] at built
      obtain ⟨frame, frameBuilt, built⟩ := built
      obtain ⟨same, least, -⟩ := buildFrame_eq_ok frameBuilt
      split at built
      · rename_i repeats
        simp only [bind_eq_ok, pure_eq_ok] at built
        obtain ⟨template, templateBuilt, rfl⟩ := built
        exact .populate (same ▸ repeats) (buildMembers_sound templateBuilt)
          (fun entry inside => (buildMembers_starts Field.isInitial_initialValue templateBuilt entry inside).1)
          (by simp) least (by simp)
      · rename_i single
        simp only [bind_eq_ok, pure_eq_ok] at built
        obtain ⟨entries, entriesBuilt, rfl⟩ := built
        exact .collection (same ▸ by simpa using single) (buildMembers_sound entriesBuilt)
  | .stepper plan members =>
      simp only [Node.build] at built
      split at built
      · cases built
      · rename_i allowed
        split at built
        · cases built
        · simp only [bind_eq_ok, pure_eq_ok] at built
          obtain ⟨frame, frameBuilt, entries, entriesBuilt, rfl⟩ := built
          obtain ⟨same, -⟩ := buildFrame_eq_ok frameBuilt
          refine .collection (same ▸ ?_) (buildMembers_sound entriesBuilt)
          simp only [Bool.or_eq_true, not_or] at allowed
          simpa using allowed.1

/-- `build_sound` for the members of a collection. -/
theorem buildMembers_sound {path : Path} {placement : Placement} {plans : List (String × NodePlan)}
    {members : List (String × Node)} (built : Node.buildMembers path placement plans = .ok members) :
    ∀ entry ∈ members, entry.2.Sound := by
  match plans with
  | [] =>
      cases built
      simp
  | (name, plan) :: rest =>
      simp only [Node.buildMembers, bind_eq_ok, pure_eq_ok] at built
      obtain ⟨_, -, node, nodeBuilt, others, othersBuilt, rfl⟩ := built
      exact List.forall_mem_cons.mpr ⟨build_sound nodeBuilt, buildMembers_sound othersBuilt⟩
end

namespace Sound

theorem fill {node : Node} (sound : node.Sound) (initial : Option Json) : (node.fill initial).Sound := by
  have members {entries : List (String × Node)} (ih : ∀ entry ∈ entries, ∀ initial, (entry.2.fill initial).Sound)
      (initial : Option Json) : ∀ entry ∈ fillMembers initial entries, entry.2.Sound := by
    rw [fillMembers_eq]
    exact List.forall_mem_map.mpr fun entry inside => ih entry inside _
  induction sound generalizing initial with
  | form fits => exact .form (Member.each_fillAll Field.fits_initialValue _ _)
  | collection single _ ih => exact .collection single (members ih initial)
  | @series frame template siblings repeats inTemplate fresh _ enough room ih _ =>
      refine .populate repeats inTemplate fresh ?_ (fun greatest bound => ?_) fun greatest bound => ?_
      · exact List.forall_mem_map.mpr fun entry _ => ⟨rfl, members ih (some entry)⟩
      · have length := liveCount_le_length siblings
        have bounded := room greatest bound
        omega
      · rw [List.length_map]
        exact length_admitted bound

theorem markPrefilled {node : Node} (sound : node.Sound) : node.markPrefilled.Sound := by
  induction sound with
  | form fits => exact .form fits
  | collection single _ ih =>
      refine .collection single ?_
      rw [markPrefilledAll_eq]
      exact List.forall_mem_map.mpr ih
  | series repeats inTemplate fresh inner enough room _ _ =>
      exact .series repeats inTemplate fresh inner enough room

/-- What stands in a sound node is sound. -/
theorem stands {node inner : Node} {segments : List String} (sound : node.Sound)
    (stands : node.Stands segments inner) : inner.Sound := by
  induction stands with
  | here => exact sound
  | member inside _ ih =>
      cases sound with
      | collection _ inner => exact ih (inner _ inside)
  | sibling stands inside _ ih =>
      cases sound with
      | series _ _ _ inner _ _ => exact ih (inner _ (List.mem_of_getElem? stands) _ inside)

/-! ### Changes -/

/-- A change of forms and frames that keeps their values in kind and their plans. -/
theorem map {onForm : Path → Form → Form} {onFrame : Path → Frame → Frame}
    (keepsForm : ∀ path content, content.Fits → (onForm path content).Fits)
    (keepsFrame : ∀ path frame, (onFrame path frame).plan = frame.plan) (liveOnly : Bool) (path : Path)
    {node : Node} (sound : node.Sound) : (node.map liveOnly onForm onFrame path).Sound := by
  have least (path : Path) (frame : Frame) : (onFrame path frame).least = frame.least := by
    rw [Frame.least, keepsFrame]
    rfl
  induction sound generalizing path with
  | form fits => exact .form (keepsForm path _ fits)
  | collection single _ ih =>
      refine .collection ((keepsFrame _ _).symm ▸ single) ?_
      rw [mapMembers_eq]
      exact List.forall_mem_map.mpr fun entry inside => ih entry inside _
  | @series frame template siblings repeats inTemplate fresh inner enough room _ ih =>
      have pristine := isPristine_mapSiblings liveOnly onForm onFrame path siblings
      refine .series ((keepsFrame _ _).symm ▸ repeats) inTemplate fresh ?_ ?_ fun greatest bound => ?_
      · rw [mapSiblings_eq]
        refine List.forall_mem_map.mpr fun entry inside => ?_
        have stands := List.fst_mem_of_mem_zipIdx inside
        rw [Sibling.members_mk]
        split
        · exact inner _ stands
        · rw [mapMembers_eq]
          exact List.forall_mem_map.mpr fun member there => ih _ stands member there _
      · rw [least, liveCount_congr pristine]
        exact enough
      · rw [keepsFrame] at bound
        rw [← List.length_map Sibling.isPristine, pristine, List.length_map]
        exact room greatest bound

/-- A change along a path that keeps every node sound. -/
theorem along {change : List String → Node → Node}
    (keeps : ∀ segments (node : Node), node.Sound → (change segments node).Sound) (segments : List String)
    {node : Node} (sound : node.Sound) : (node.along change segments).Sound := by
  have members {entries : List (String × Node)} {rest : List String}
      (inner : ∀ entry ∈ entries, entry.2.Sound)
      (ih : ∀ entry ∈ entries, ∀ segments, (entry.2.along change segments).Sound) :
      ∀ entry ∈ alongMembers change rest entries, entry.2.Sound := by
    rw [alongMembers_eq]
    cases rest with
    | nil => exact inner
    | cons first rest =>
        intro entry inside
        rcases Assoc.mem_modify inside with old | ⟨value, there, rfl⟩
        · exact inner entry old
        · exact ih (first, value) there rest
  induction sound generalizing segments with
  | form fits => exact keeps _ _ (.form fits)
  | collection single inner ih =>
      rw [Node.along]
      exact keeps _ _ (.collection single (members inner fun entry inside segments => ih entry inside segments))
  | @series frame template siblings repeats inTemplate fresh inner enough room _ ih =>
      have changed (rest : List String) (position : Nat) :
          (Node.series frame template (alongSiblings change rest position siblings)).Sound := by
        have pristine := isPristine_alongSiblings change rest position siblings
        rw [alongSiblings_eq] at pristine ⊢
        refine .series repeats inTemplate fresh (fun sibling inside => ?_) ?_ fun greatest bound => ?_
        · rcases mem_of_mem_modify inside with old | ⟨old, there, rfl⟩
          · exact inner sibling old
          · exact members (inner old there) fun entry inside segments => ih old there entry inside segments
        · rw [liveCount_congr pristine]
          exact enough
        · rw [List.length_modify]
          exact room greatest bound
      cases segments with
      | nil => exact keeps _ _ (.series repeats inTemplate fresh inner enough room)
      | cons index rest =>
          rw [Node.along]
          cases read : canonicalIndex? index with
          | none => simpa only [read] using keeps _ _ (.series repeats inTemplate fresh inner enough room)
          | some position => simpa only [read] using keeps _ _ (changed rest position)

theorem modifyForm {change : List String → Form → Form}
    (keeps : ∀ names content, content.Fits → (change names content).Fits) (segments : List String)
    {node : Node} (sound : node.Sound) : (node.modifyForm change segments).Sound := by
  refine along (fun names inner isSound => ?_) segments sound
  cases isSound with
  | form fits => exact .form (keeps names _ fits)
  | collection single inner => exact .collection single inner
  | series repeats inTemplate fresh inner enough room => exact .series repeats inTemplate fresh inner enough room

/-- Putting a sound node in the place of another one. -/
theorem modify {segments : List String} {node inner moved : Node} (sound : node.Sound)
    (stands : node.get? segments = some inner) (isSound : moved.Sound) :
    (node.modify (fun _ => moved) segments).Sound := by
  classical
  rw [modify_eq_along stands]
  refine along (fun rest other otherSound => ?_) segments sound
  split
  · exact isSound
  · exact otherSound

theorem touch (segments : List String) {node : Node} (sound : node.Sound) : (node.touch segments).Sound := by
  refine along (fun rest inner isSound => ?_) segments sound
  split
  · split
    · rename_i frame template siblings _ position _
      cases isSound with
      | series repeats inTemplate fresh inner enough room =>
          refine .series repeats inTemplate fresh (fun sibling inside => ?_) ?_ fun greatest bound => ?_
          · rcases mem_of_mem_modify inside with old | ⟨old, there, rfl⟩
            · exact inner sibling old
            · obtain ⟨pristine, members⟩ := old
              exact inner (.mk pristine members) there
          · exact Nat.le_trans enough (liveCount_touched siblings position)
          · rw [List.length_modify]
            exact room greatest bound
    · exact isSound
  · exact isSound

theorem refresh (lookup : Lookup) (path : Path) {node : Node} (sound : node.Sound) :
    (node.refresh lookup path).Sound :=
  sound.map (fun path _ fits => fits.refresh lookup path) (fun _ _ => rfl) false path

theorem latch (lookup : Lookup) (path : Path) {node : Node} (sound : node.Sound) :
    (node.latch lookup path).Sound :=
  @map (Form.latch lookup) (Frame.latch lookup) (fun _ _ fits => fits) (fun _ _ => rfl) false path node sound

theorem validate (path : Path) {node : Node} (sound : node.Sound) : (node.validate path).Sound := by
  refine sound.map (fun place content fits => ?_) (fun _ _ => rfl) true path
  split
  · exact fits
  · exact fits.validate place

theorem goTo {path : Path} {index : Nat} {node moved : Node} {failures : List (Path × List String)}
    (sound : node.Sound) (gone : node.goTo path index = .ok (moved, failures)) : moved.Sound := by
  obtain ⟨frame, progress, members, reached, first, last, rfl, rfl⟩ := goTo_eq_ok gone
  cases sound with
  | collection single inner =>
      refine .collection single fun entry inside => ?_
      obtain ⟨old, there, same | checked⟩ := mem_validateSteps inside
      · exact same ▸ inner _ there
      · exact checked ▸ (inner _ there).validate _

/-- An elementary change of a sound node. -/
theorem move {node later : Node} (sound : node.Sound) (regular : node.Regular) (move : Move node later) :
    later.Sound := by
  cases move with
  | everywhere forms frames liveOnly path =>
      exact sound.map (fun place content fits => fits.move (forms place content))
        (fun place frame => Frame.plan_of_move (frames place frame)) liveOnly path
  | onTheWay forms segments => exact sound.modifyForm (fun names content fits => fits.move (forms names content)) _
  | touch segments => exact sound.touch segments
  | validatePart place segments =>
      refine sound.along (fun rest inner isSound => ?_) segments
      split
      · exact isSound.validate place
      · exact isSound
  | goTo stands gone =>
      exact sound.modify stands ((sound.stands ((get?_eq_some_iff regular).mp stands)).goTo gone)

theorem addSibling {path : Path} {behind : Option Nat} {node extended : Node} {position : Nat}
    (sound : node.Sound) (added : node.addSibling path behind = .ok (extended, position)) :
    extended.Sound := by
  obtain ⟨frame, template, siblings, rfl, rfl, -, inside, free⟩ := addSibling_eq_ok added
  cases sound with
  | series repeats inTemplate fresh inner enough room =>
      refine .series repeats inTemplate fresh (fun sibling among => ?_) ?_ fun greatest bound => ?_
      · rcases List.eq_or_mem_of_mem_insertIdx among with rfl | old
        · exact inTemplate
        · exact inner sibling old
      · rw [liveCount_insertIdx inside]
        omega
      · rw [List.length_insertIdx_of_le_length inside]
        exact free greatest bound

theorem removeSibling {path : Path} {index : Nat} {node reduced : Node} (sound : node.Sound)
    (removed : node.removeSibling path index = .ok reduced) : reduced.Sound := by
  obtain ⟨frame, template, siblings, rfl, rfl, enough⟩ := removeSibling_eq_ok removed
  cases sound with
  | series repeats inTemplate fresh inner _ room =>
      refine .series repeats inTemplate fresh (fun sibling inside => inner sibling (List.mem_of_mem_eraseIdx inside))
        enough fun greatest bound => ?_
      exact Nat.le_trans (List.length_eraseIdx_le siblings index) (room greatest bound)

end Sound

end Node

end Formwork
