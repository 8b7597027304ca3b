import Formwork.Proofs.InitialData
import Formwork.Proofs.Node.Mirrors

/-!
# Data that were sent and are put in place again

What a node sends can be put in place in any node that was built from the same plan. There every field
that was sent holds its value again, or the blank value of its widget if it was hidden, and every
series has as many live siblings as the one whose data it was given
(`Node.mirrors_fill`).

The data of a form are flat, under dotted keys. The names of one field are never a beginning of those of
another (`Member.Stands.apart`), so the keys expand to nested objects without one value taking
the place of another.
-/

set_option autoImplicit false

namespace Formwork

open Formwork.Text

/-! ## Values -/

/-- A value of the kind that a widget stores is read back from what is sent. -/
theorem Widget.fit_ofJson_toWire {widget : Widget} {value : Value} (fits : widget.fit value = value) :
    widget.fit (.ofJson value.toWire) = value := by
  cases value with
  | text content => exact fits
  | many choices =>
      have read : Value.ofJson (Value.many choices).toWire = .many choices := by
        rw [Value.toWire, Json.texts, Value.ofJson, List.map_map]
        exact congrArg Value.many (List.map_id choices)
      rw [read, fits]
  | flag checked =>
      have isCheckbox : widget = .checkbox := by
        cases widget <;> first | rfl | cases fits
      subst isCheckbox
      cases checked <;> decide

theorem Widget.fit_blank (widget : Widget) : widget.fit widget.blank = widget.blank := by
  cases widget <;> rfl

namespace Field

/-- The value that a field holds after its data were sent and put in place again. -/
def restored (field : Field) : Value := if field.hidden then field.plan.widget.blank else field.value

theorem initialValue_wireValue {field : Field} (fits : field.holding.Fits) :
    initialValue field.plan (some field.wireValue) = field.restored := by
  have read : initialValue field.plan (some field.wireValue) =
      field.plan.widget.fit (.ofJson field.wireValue) := rfl
  rw [read, wireValue, restored]
  split
  · rw [show field.value.blank = field.plan.widget.blank from fits.blank]
    exact Widget.fit_ofJson_toWire field.plan.widget.fit_blank
  · exact Widget.fit_ofJson_toWire fits.value

end Field

/-! ## Members -/

namespace Member

theorem mem_plans_iff {members : List (String × Member)} {name : String} {plan : MemberPlan} :
    (name, plan) ∈ plans members ↔ ∃ member, (name, member) ∈ members ∧ member.plan = plan := by
  simp [plans_eq]

/-- Where one group has a member, a group of the same plans has one, too. -/
theorem Stands.of_plans {members others : List (String × Member)} (same : plans others = plans members)
    {names : List String} {member : Member} (stands : Stands members names member) :
    ∃ other, Stands others names other ∧ other.plan = member.plan := by
  induction stands generalizing others with
  | @here members name member inside =>
      have listed : (name, member.plan) ∈ plans others := same ▸ mem_plans_iff.mpr ⟨member, inside, rfl⟩
      obtain ⟨other, there, samePlan⟩ := mem_plans_iff.mp listed
      exact ⟨other, .here there, samePlan⟩
  | @beneath members name names outer member inside below ih =>
      have listed : (name, outer.plan) ∈ plans others := same ▸ mem_plans_iff.mpr ⟨outer, inside, rfl⟩
      obtain ⟨around, there, samePlan⟩ := mem_plans_iff.mp listed
      cases outer with
      | field entry => exact absurd below not_stands_nil
      | fieldset group inner =>
          cases around with
          | field entry => cases samePlan
          | fieldset otherGroup otherInner =>
              injection samePlan with _ sameInner
              obtain ⟨other, standsOther, samePlan⟩ := ih sameInner
              exact ⟨other, .beneath there standsOther, samePlan⟩

/-- A member is filled with the data at its names. -/
theorem Stands.fillAll {members : List (String × Member)} {names : List String} {member : Member}
    (stands : Stands members names member) (initial : Option Json) :
    Stands (Member.fillAll initial members) names
      (member.fill (initial.bind fun data => data.at? (.ofNames names))) := by
  induction stands generalizing initial with
  | @here members name member inside =>
      rw [fillAll_eq]
      simp only [Json.at?_ofNames_single]
      exact .here (List.mem_map.mpr ⟨_, inside, rfl⟩)
  | @beneath members name names outer member inside below ih =>
      rw [fillAll_eq]
      refine .beneath (List.mem_map.mpr ⟨_, inside, rfl⟩) ?_
      have inner := ih (initial.bind (Json.field? name))
      simp only [Json.at?_ofNames_cons, ← Option.bind_assoc]
      cases outer with
      | field entry => exact absurd below not_stands_nil
      | fieldset group members => exact inner

/-- The names of one field are not a beginning of those of another. -/
theorem Stands.apart {members : List (String × Member)} (regular : Regular members)
    {names others : List String} {field other : Field} (stands : Stands members names (.field field))
    (standsOther : Stands members others (.field other)) (different : names ≠ others) :
    InitialData.Apart names others := by
  have alone {front rest : List String} {first second : Field} (stands : Stands members front (.field first))
      (longer : Stands members (front ++ rest) (.field second)) : rest = [] := by
    by_contra more
    obtain ⟨outer, standsOuter, below⟩ := (stands_append_iff stands.ne_nil more).mp longer
    obtain rfl := stands.unique regular standsOuter
    exact not_stands_nil below
  constructor
  · rintro ⟨rest, rfl⟩
    obtain rfl := alone stands standsOther
    exact different (List.append_nil names).symm
  · rintro ⟨rest, rfl⟩
    obtain rfl := alone standsOther stands
    exact different (List.append_nil others)

end Member

/-! ## Forms -/

namespace Form

/-- A form holds the data that another form sends. -/
def Restores (content other : Form) : Prop :=
  ∀ names field, Member.Stands content.members names (.field field) → field.isSent = true →
    ∃ held, (Path.mk names, held) ∈ other.holdings .root ∧ held.value = field.restored

theorem Restores.congr {content other changed : Form} (restores : content.Restores other)
    (same : changed.holdings .root = other.holdings .root) : content.Restores changed := by
  intro names field stands sent
  rw [same]
  exact restores names field stands sent

/-- The value of a field that is sent is found at the names of the field. -/
theorem at?_expandKeys_wire {content : Form} (regular : Member.Regular content.members) {names : List String}
    {field : Field} (stands : Member.Stands content.members names (.field field)) (sent : field.isSent = true) :
    (InitialData.expandKeys content.wire).at? (.ofNames names) = some field.wireValue := by
  have keyed {entry : Path × Field} (listed : entry ∈ content.fields .root) :
      InitialData.keyNames entry.1.text = entry.1.segments ∧
        Member.Stands content.members entry.1.segments (.field entry.2) := by
    obtain ⟨others, same, standsOther⟩ := Form.mem_fields_iff.mp listed
    rw [Path.root_extend] at same
    rw [same]
    exact ⟨InitialData.keyNames_text (standsOther.plain regular), standsOther⟩
  have apart : (content.fields .root).Pairwise fun first second =>
      InitialData.Apart (InitialData.keyNames first.1.text) (InitialData.keyNames second.1.text) := by
    refine (List.pairwise_map.mp (Form.nodup_fields regular .root)).imp_of_mem ?_
    intro first second inFirst inSecond different
    obtain ⟨sameFirst, standsFirst⟩ := keyed inFirst
    obtain ⟨sameSecond, standsSecond⟩ := keyed inSecond
    rw [sameFirst, sameSecond]
    exact standsFirst.apart regular standsSecond fun same => different (congrArg Path.mk same)
  have listed : (Path.mk names, field) ∈ content.fields .root :=
    Form.mem_fields_iff.mpr ⟨names, (Path.root_extend _).symm, stands⟩
  have found := @InitialData.at?_expandKeys (((content.fields .root).filter fun entry => entry.2.isSent).map
    fun entry => (entry.1.text, entry.2.wireValue)) ?_ ?_ _ (List.mem_map_of_mem (List.mem_filter.mpr ⟨listed, sent⟩))
  · rw [(keyed listed).1] at found
    refine found.trans (congrArg some ?_)
    rw [Field.wireValue]
    split <;> exact InitialData.expandKeys_toWire _
  · exact List.pairwise_map.mpr (apart.sublist List.filter_sublist)
  · refine List.forall_mem_map.mpr fun entry among => ?_
    obtain ⟨same, standsEntry⟩ := keyed (List.mem_of_mem_filter among)
    rw [same]
    exact standsEntry.ne_nil

/-- A form of the same plan that is filled with what was sent holds it. -/
theorem restores_fill {content base : Form} (regular : Member.Regular content.members) (fits : content.Fits)
    (same : base.plan = content.plan) :
    content.Restores (base.fill (some (InitialData.expandKeys content.wire))) := by
  intro names field stands sent
  injection same with _ _ sameMembers
  obtain ⟨other, standsOther, samePlan⟩ := stands.of_plans sameMembers
  cases other with
  | fieldset group members => cases samePlan
  | field entry =>
      injection samePlan with samePlan
      have filled := standsOther.fillAll (some (InitialData.expandKeys content.wire))
      rw [Option.bind_some, at?_expandKeys_wire regular stands sent] at filled
      refine ⟨_, Member.mem_views_iff.mpr ⟨names, _, (Path.root_extend _).symm, rfl, filled⟩, ?_⟩
      rw [Field.holding_fill]
      dsimp only
      rw [samePlan]
      exact Field.initialValue_wireValue (fits names field stands)

end Form

/-! ## Nodes -/

namespace Node

theorem mem_plans_iff {members : List (String × Node)} {name : String} {plan : NodePlan} :
    (name, plan) ∈ plans members ↔ ∃ node, (name, node) ∈ members ∧ node.plan = plan := by
  simp [plans_eq]

/-- What is sent for a member is found at its name. -/
theorem field?_expandKeys_wire {members : List (String × Node)} (regular : RegularMembers members)
    {name : String} {inner : Node} (inside : (name, inner) ∈ members) :
    (InitialData.expandKeys (.object (wireMembers members))).field? name =
      some (InitialData.expandKeys inner.wire) := by
  have keyed {entry : String × Node} (among : entry ∈ members) : InitialData.keyNames entry.1 = [entry.1] :=
    InitialData.keyNames_of_name (InitialData.isName_of_plain (Path.plain_of_isMemberName (regular.named entry among)))
  have found := @InitialData.at?_expandKeys (wireMembers members) ?_ ?_ (name, inner.wire) ?_
  · rwa [keyed inside, Json.at?_ofNames_single] at found
  · rw [wireMembers_eq, List.pairwise_map]
    refine (List.pairwise_map.mp regular.nodup).imp_of_mem ?_
    intro first second inFirst inSecond different
    rw [keyed inFirst, keyed inSecond]
    exact InitialData.apart_of_ne different
  · rw [wireMembers_eq]
    refine List.forall_mem_map.mpr fun entry among => ?_
    rw [keyed among]
    exact List.cons_ne_nil _ _
  · rw [wireMembers_eq]
    exact List.mem_map_of_mem inside

theorem length_wireSiblings (siblings : List Sibling) : (wireSiblings siblings).length = liveCount siblings := by
  induction siblings with
  | nil => rfl
  | cons sibling rest ih =>
      obtain ⟨pristine, members⟩ := sibling
      rw [liveCount, List.countP_cons, ← liveCount, ← ih]
      cases pristine <;> rfl

/-- Live siblings in front have their indices as ranks. -/
theorem rank_append {given : List Sibling} (live : ∀ sibling ∈ given, sibling.isPristine = false) {index : Nat}
    (among : index < given.length) (others : List Sibling) : rank (given ++ others) index = index := by
  have all : liveCount (given.take index) = (given.take index).length :=
    liveCount_of_live fun sibling inside => live sibling (List.mem_of_mem_take inside)
  rw [rank, List.take_append_of_le_length (Nat.le_of_lt among), ← liveCount, all]
  exact List.length_take_of_le (Nat.le_of_lt among)

/-- A series that is given enough siblings adds pristine ones only. -/
theorem populate_of_le {frame : Frame} {template : List (String × Node)} {given : List Sibling}
    (enough : frame.least ≤ given.length) :
    ∃ number, frame.populate template given = given ++ List.replicate number (.mk true template) := by
  rw [Frame.populate, Nat.sub_eq_zero_of_le enough, List.replicate_zero, List.append_nil]
  exact ⟨_, rfl⟩

/-- A series with room for all entries admits all of them. -/
theorem admitted_of_le {α : Type} {frame : Frame} {entries : List α}
    (room : ∀ greatest, frame.plan.maxSiblings = some greatest → entries.length ≤ greatest) :
    frame.admitted entries = entries := by
  unfold Frame.admitted
  split
  · rename_i greatest bound
    exact List.take_of_length_le (room greatest bound)
  · rfl

/-! ### Series -/

/-- The live siblings of a series of the same template that is given the data of some siblings. -/
def resent (template : List (String × Node)) (siblings : List Sibling) : List Sibling :=
  (wireSiblings siblings).map fun entry =>
    .mk false (fillMembers (some (InitialData.expandKeys entry)) template)

section Resent

variable {template : List (String × Node)} {siblings : List Sibling}

theorem not_pristine_resent : ∀ sibling ∈ resent template siblings, sibling.isPristine = false :=
  List.forall_mem_map.mpr fun _ _ => rfl

theorem length_resent : (resent template siblings).length = liveCount siblings := by
  rw [resent, List.length_map, length_wireSiblings]

/-- A series that is given the data of another one has a live sibling for each of the other one's, and
offers more of them. -/
theorem fill_series {frame otherFrame : Frame} {otherTemplate : List (String × Node)} {others : List Sibling}
    (samePlan : otherFrame.plan = frame.plan) (enough : frame.least ≤ liveCount siblings)
    (room : ∀ greatest, frame.plan.maxSiblings = some greatest → siblings.length ≤ greatest) :
    ∃ number, (Node.series otherFrame template others).fill
        (some (InitialData.expandKeys (Node.series frame otherTemplate siblings).wire)) =
      .series otherFrame template
        (resent template siblings ++ List.replicate number (.mk true template)) := by
  have least : otherFrame.least = frame.least := by
    rw [Frame.least, samePlan]
    rfl
  have entries : InitialData.siblingEntries (some (InitialData.expandKeys
      (Node.series frame otherTemplate siblings).wire)) =
        (wireSiblings siblings).map InitialData.expandKeys := by
    rw [wire, InitialData.expandKeys, InitialData.expandItems_eq]
    rfl
  have admitted : otherFrame.admitted ((wireSiblings siblings).map InitialData.expandKeys) =
      (wireSiblings siblings).map InitialData.expandKeys := by
    refine admitted_of_le fun greatest bound => ?_
    rw [samePlan] at bound
    rw [List.length_map, length_wireSiblings]
    exact Nat.le_trans (liveCount_le_length siblings) (room greatest bound)
  have given : ((wireSiblings siblings).map InitialData.expandKeys).map (fun entry =>
      Sibling.mk false (fillMembers (some entry) template)) = resent template siblings := List.map_map
  rw [fill, entries, admitted, given]
  obtain ⟨number, populated⟩ := @populate_of_le otherFrame template (resent template siblings)
    (by rw [length_resent, least]; exact enough)
  exact ⟨number, by rw [populated]⟩

/-- A live sibling was given the data of the one that has its rank. -/
theorem eq_fillMembers_of_rank {first second number : Nat} {members copies : List (String × Node)}
    (stands : siblings[first]? = some (.mk false members))
    (standsOther : (resent template siblings ++ List.replicate number (.mk true template))[second]? =
      some (.mk false copies))
    (sameRank : rank siblings first =
      rank (resent template siblings ++ List.replicate number (.mk true template)) second) :
    copies = fillMembers (some (InitialData.expandKeys (.object (wireMembers members)))) template := by
  have among : second < (resent template siblings).length := by
    by_contra beyond
    rw [List.getElem?_append_right (Nat.not_lt.mp beyond)] at standsOther
    have offered := List.eq_of_mem_replicate (List.mem_of_getElem? standsOther)
    injection offered with offered
    cases offered
  rw [rank_append not_pristine_resent among] at sameRank
  rw [List.getElem?_append_left among, resent, List.getElem?_map, ← sameRank,
    getElem?_wireSiblings stands] at standsOther
  injection standsOther with standsOther
  injection standsOther with _ copied
  exact copied.symm

end Resent

/-! ### Nodes of the same plan -/

section SamePlan

variable {base : Node} (sound : base.Sound) {frame : Frame}
include sound

theorem exists_collection_of_plan {progress : Option Progress} {members : List (String × Node)}
    (single : frame.plan.isRepeatable = false)
    (same : base.plan = (Node.collection frame progress members).plan) :
    ∃ otherFrame otherProgress others, base = .collection otherFrame otherProgress others ∧
      plans others = plans members := by
  cases sound with
  | form => cases progress <;> cases same
  | @collection otherFrame otherProgress others _ inner =>
      refine ⟨otherFrame, otherProgress, others, rfl, ?_⟩
      cases progress <;> cases otherProgress <;> injection same
  | series repeats =>
      cases progress with
      | none =>
          injection same with samePlan
          rw [samePlan, single] at repeats
          cases repeats
      | some _ => cases same

theorem exists_series_of_plan {template : List (String × Node)} {siblings : List Sibling}
    (repeats : frame.plan.isRepeatable = true) (same : base.plan = (Node.series frame template siblings).plan) :
    ∃ otherFrame otherTemplate others, base = .series otherFrame otherTemplate others ∧
      otherFrame.plan = frame.plan ∧ plans otherTemplate = plans template := by
  cases sound with
  | form => cases same
  | @collection otherFrame otherProgress others single inner =>
      cases otherProgress with
      | none =>
          injection same with samePlan
          rw [samePlan, repeats] at single
          cases single
      | some _ => cases same
  | @series otherFrame otherTemplate others _ _ _ _ _ =>
      injection same with samePlan samePlans
      exact ⟨otherFrame, otherTemplate, others, rfl, samePlan, samePlans⟩

end SamePlan

/-- Members of the same plans that are filled with what was sent mirror those that sent it. -/
theorem mirrors_fillMembers {members template : List (String × Node)} (regular : RegularMembers members)
    (sound : ∀ entry ∈ template, entry.2.Sound) (same : plans template = plans members)
    (ih : ∀ entry ∈ members, ∀ base : Node, base.Sound → base.plan = entry.2.plan →
      entry.2.Mirrors Form.Restores (base.fill (some (InitialData.expandKeys entry.2.wire)))) :
    Assoc.keys members =
        Assoc.keys (fillMembers (some (InitialData.expandKeys (.object (wireMembers members)))) template) ∧
      ∀ name inner other, (name, inner) ∈ members →
        (name, other) ∈ fillMembers (some (InitialData.expandKeys (.object (wireMembers members)))) template →
          inner.Mirrors Form.Restores other := by
  rw [fillMembers_eq]
  constructor
  · rw [← keys_plans members, ← same, keys_plans]
    simp [Assoc.keys]
  · intro name inner other inside insideOther
    obtain ⟨⟨key, base⟩, among, filled⟩ := List.mem_map.mp insideOther
    injection filled with sameName sameNode
    subst sameName sameNode
    rw [Option.bind_some, field?_expandKeys_wire regular inside]
    refine ih _ inside base (sound _ among) ?_
    -- Both plans stand at the same name among the plans of the members.
    have listed : (key, base.plan) ∈ plans members := same ▸ mem_plans_iff.mpr ⟨base, among, rfl⟩
    obtain ⟨twin, insideTwin, sameTwin⟩ := mem_plans_iff.mp listed
    obtain rfl := regular.unique insideTwin inside
    exact sameTwin.symm

/-- A node of the same plan that is filled with what was sent mirrors the node that sent it, and its forms
hold the values that were sent. -/
theorem mirrors_fill {node base : Node} (regular : node.Regular) (sound : node.Sound) (soundBase : base.Sound)
    (same : base.plan = node.plan) :
    node.Mirrors Form.Restores (base.fill (some (InitialData.expandKeys node.wire))) := by
  induction sound generalizing base with
  | @form content fits =>
      cases soundBase with
      | @form other _ => exact .form (Form.restores_fill regular.form fits same)
      | @collection _ progress _ _ _ => cases progress <;> cases same
      | series => cases same
  | @collection frame progress members single _ ih =>
      obtain ⟨otherFrame, otherProgress, others, rfl, samePlans⟩ :=
        exists_collection_of_plan soundBase single same
      cases soundBase with
      | collection _ soundOthers =>
          obtain ⟨names, each⟩ := mirrors_fillMembers regular.collection soundOthers samePlans
            fun entry inside base => ih entry inside (regular.collection.inner entry inside)
          exact .collection names each
  | @series frame template siblings repeats _ _ _ enough room _ ih =>
      obtain ⟨otherFrame, otherTemplate, others, rfl, samePlan, samePlans⟩ :=
        exists_series_of_plan soundBase repeats same
      obtain ⟨number, filled⟩ := @fill_series otherTemplate siblings frame otherFrame template others samePlan
        enough room
      rw [filled]
      have alike : ∀ sibling ∈ siblings, plans sibling.members = plans template := by
        cases regular.uniform with
        | series _ alike _ => exact alike
      have inTemplate : ∀ entry ∈ otherTemplate, entry.2.Sound := by
        cases soundBase with
        | series _ inTemplate _ _ _ _ => exact inTemplate
      have mirrored {first : Nat} {members : List (String × Node)}
          (stands : siblings[first]? = some (.mk false members)) := by
        have inside := List.mem_of_getElem? stands
        exact mirrors_fillMembers (regular.series inside) inTemplate (samePlans.trans (alike _ inside).symm)
          fun entry among base => ih _ inside entry among ((regular.series inside).inner entry among)
      refine .series ?_ (fun first second members copies stands standsOther sameRank => ?_)
        fun first second members copies stands standsOther sameRank => ?_
      · rw [liveCount_append, liveCount_pristine, liveCount_of_live not_pristine_resent, length_resent]
        rfl
      · rw [eq_fillMembers_of_rank stands standsOther sameRank]
        exact (mirrored stands).1
      · rw [eq_fillMembers_of_rank stands standsOther sameRank]
        exact (mirrored stands).2

end Node

end Formwork
