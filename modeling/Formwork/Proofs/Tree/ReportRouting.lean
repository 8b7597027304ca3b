import Formwork.Proofs.Node.Effects
import Formwork.Proofs.Tree.Validation

/-!
# The report of a validation comes back

The keys of a report are the dotted texts of paths below the root. A tree reads them as it reads the keys of a
server: each one is the path of the field that has failed (`Tree.path_key`), and there the validation has recorded
the messages that stand under the key. So to hand a tree its own report changes nothing
(`Tree.Reachable.routesBack`), as long as no field has the name under which messages mean the group around them.
-/

set_option autoImplicit false

namespace Formwork

/-! ## What a validation leaves at a field that fails -/

/-- The messages that a check answers are those that a validation records. -/
theorem Field.setErrors_check (field : Field) : field.validate.setErrors field.check = field.validate := rfl

/-- After a validation a field shows what its check answers. -/
theorem Field.errors_validate (field : Field) : field.validate.errors = field.check := by
  rw [errors, validate]
  cases field.check <;> rfl

/-- A validation of a fresh group checks its operable fields where they stand. -/
theorem Member.Stands.validateAll {lookup : Lookup} {scope : Path} {hiddenAbove disabledAbove : Bool}
    {members : List (String × Member)} {names : List String} {field : Field}
    (stands : Stands members names (.field field))
    (fresh : refreshAll lookup scope hiddenAbove disabledAbove members = members) (operable : field.isOperable = true)
    (place : Path) : Stands (Member.validateAll place members) names (.field field.validate) := by
  have visible : field.hidden = false := by
    rw [Field.isOperable, Bool.and_eq_true, Bool.and_eq_true, Bool.not_eq_true'] at operable
    exact operable.1.1
  generalize found : Member.field field = member at stands
  induction stands generalizing scope hiddenAbove disabledAbove place with
  | @here members name member inside =>
      subst found
      have checked : (Member.field field).validate (place.join name) = .field field.validate := by
        rw [validate, if_pos operable]
      rw [validateAll_eq]
      exact .here (List.mem_map.mpr ⟨_, inside, Prod.ext rfl checked⟩)
  | @beneath outermost name names outer member inside below ih =>
      have inner := (flags_of_refresh_eq_self (refreshAll_eq_self_iff.mp fresh _ inside)).2.2
      cases outer with
      | field entry => exact absurd below Member.not_stands_nil
      | fieldset group members =>
          have shown : group.hidden = false := by
            by_contra isHidden
            rw [show (Member.fieldset group members).hidden = true by simpa [Member.hidden] using isHidden] at inner
            have hidden := below.hidden inner
            rw [← found] at hidden
            exact absurd (visible.symm.trans hidden) Bool.false_ne_true
          have checked : (Member.fieldset group members).validate (place.join name) =
              .fieldset (settle (place.join name) members group) (Member.validateAll (place.join name) members) := by
            rw [validate, shown, if_neg Bool.false_ne_true]
          have among : (name, Member.fieldset (settle (place.join name) members group)
              (Member.validateAll (place.join name) members)) ∈ Member.validateAll place outermost := by
            rw [validateAll_eq]
            exact List.mem_map.mpr ⟨_, inside, Prod.ext rfl checked⟩
          exact .beneath among (ih inner (place.join name) found)

/-- A validation of a fresh form checks its operable fields where they stand. -/
theorem Form.mem_fields_validate {lookup : Lookup} {path place : Path} {form : Form} {field : Field}
    (fresh : form.refresh lookup path = form) (operable : field.isOperable = true)
    (listed : (place, field) ∈ form.fields path) : (place, field.validate) ∈ (form.validate path).fields path := by
  obtain ⟨names, rfl, stands⟩ := mem_fields_iff.mp listed
  have members := (refresh_eq_self_iff.mp fresh).2
  have shown : form.group.hidden = false := by
    by_contra isHidden
    rw [Bool.not_eq_false] at isHidden
    rw [isHidden] at members
    have hidden : field.hidden = true := stands.hidden members
    simp [Field.isOperable, hidden] at operable
  rw [validate, shown, if_neg Bool.false_ne_true]
  exact mem_fields_iff.mpr ⟨names, rfl, stands.validateAll members operable path⟩

namespace Tree

variable {tree : Tree}

/-- A field that fails in a validation has the outcome of its check afterwards. -/
theorem AtRest.mem_fields_validate (rest : tree.AtRest) {path : Path} {field : Field}
    (fails : (path, field) ∈ tree.failing) : (path, field.validate) ∈ tree.validate.1.fields := by
  rw [rest.failing_eq] at fails
  obtain ⟨⟨place, form⟩, live, inside⟩ := List.mem_flatMap.mp fails
  split at inside
  · cases inside
  · rename_i isOpen
    obtain ⟨listed, operable⟩ := List.mem_filter.mp (List.mem_of_mem_filter inside)
    have checked : (place, form.validate place) ∈ tree.validate.1.root.forms true tree.here := by
      refine (Node.liveForms_map true _ _ tree.here tree.root).symm ▸ List.mem_map.mpr ⟨_, live, ?_⟩
      exact Prod.ext rfl (if_neg isOpen)
    have isForm : (place, form.validate place) ∈ tree.validate.1.forms :=
      ((Node.liveNodes_sublist tree.here _).filterMap _).subset checked
    exact List.mem_flatMap.mpr ⟨_, isForm, Form.mem_fields_validate (rest.fresh live) operable listed⟩

/-! ## Messages that are there already -/

/-- Messages that the field under their key shows already change nothing. -/
theorem applyMessages_eq_self {key : String} {messages : List String} {field : Field}
    (found : tree.field? (tree.target key) = some field) (same : field.setErrors messages = field) :
    tree.applyMessages key messages = tree := by
  rw [applyMessages_eq, found, Option.isSome_some, if_pos rfl]
  rw [field?] at found
  obtain ⟨segments, below, stands⟩ := Option.bind_eq_some_iff.mp found
  rw [change_of_below below, Node.modifyField_eq_self fun other there => ?_]
  rw [stands] at there
  cases there
  exact same

theorem applyErrors_eq_self {messages : Messages}
    (same : ∀ entry ∈ messages, tree.applyMessages entry.1 entry.2 = tree) : tree.applyErrors messages = tree := by
  induction messages with
  | nil => rfl
  | cons entry rest ih =>
      obtain ⟨first, others⟩ := List.forall_mem_cons.mp same
      have later : tree.applyErrors (entry :: rest) = (tree.applyMessages entry.1 entry.2).applyErrors rest := rfl
      rw [later, first, ih others]

/-! ## The report comes back -/

/-- The keys of a report lead to the fields that have failed, and the messages are recorded there already. -/
structure RoutesBack (tree : Tree) : Prop where
  /-- There is one key for each field that fails, with its messages. -/
  messages : tree.validate.2.messages =
    tree.failing.map fun entry => (ValidationReport.key tree.here entry.1, entry.2.check)
  /-- After the validation each key is taken for the path of its field, which shows the messages. -/
  addressed : ∀ path field, (path, field) ∈ tree.failing →
    tree.validate.1.target (ValidationReport.key tree.here path) = path ∧
      tree.validate.1.field? path = some field.validate ∧ field.validate.errors = field.check
  unchanged : tree.validate.1.applyErrors tree.validate.2.messages = tree.validate.1

theorem Reachable.routesBack (reachable : tree.Reachable)
    (named : ∀ path field, (path, field) ∈ tree.fields → path.last? ≠ some Response.groupKey) : tree.RoutesBack := by
  have regular := reachable.regular
  have rest := reachable.atRest
  have messages : tree.validate.2.messages =
      tree.failing.map fun entry => (ValidationReport.key tree.here entry.1, entry.2.check) := by
    rw [report_validate regular rest]
  have addressed (path : Path) (field : Field) (fails : (path, field) ∈ tree.failing) :
      tree.validate.1.target (ValidationReport.key tree.here path) = path ∧
        tree.validate.1.field? path = some field.validate := by
    have place : tree.path (ValidationReport.key tree.here path) = path :=
      path_key_of_failing regular rest (path, field) fails
    have samePath (key : String) : tree.validate.1.path key = tree.path key := rfl
    have validated : tree.validate.1.Reachable := reachable.after .validate
    refine ⟨?_, (field?_eq_some_iff validated.regular).mpr (rest.mem_fields_validate fails)⟩
    rw [target, samePath, place, if_neg (named path field (rest.failing_sublist.subset fails))]
  refine {
    messages := messages
    addressed := fun path field fails => ?_
    unchanged := applyErrors_eq_self fun entry inside => ?_ }
  · obtain ⟨target, found⟩ := addressed path field fails
    exact ⟨target, found, field.errors_validate⟩
  · rw [messages] at inside
    obtain ⟨⟨path, field⟩, fails, rfl⟩ := List.mem_map.mp inside
    obtain ⟨target, found⟩ := addressed path field fails
    exact applyMessages_eq_self (target.symm ▸ found) field.setErrors_check

/-- The size of the second order is missing, and the report says so under the index of the order. -/
theorem routesBack_orders : ∃ tree, Tree.mount orders none = .ok tree ∧
    (tree.after (.setValue ⟨["shop", "1", "order", "size"]⟩ (.text ""))).validate.2.messages =
      [("1.order.size", ["This field is required."])] ∧
    (tree.after (.setValue ⟨["shop", "1", "order", "size"]⟩ (.text ""))).RoutesBack := by
  have holds : ((Tree.mount orders none).toOption.map fun tree =>
      ((tree.after (.setValue ⟨["shop", "1", "order", "size"]⟩ (.text ""))).validate.2.messages,
        (tree.after (.setValue ⟨["shop", "1", "order", "size"]⟩ (.text ""))).fields.all fun entry =>
          decide (entry.1.last? ≠ some Response.groupKey))) =
      some ([("1.order.size", ["This field is required."])], true) := by decide +kernel
  obtain ⟨tree, mounted, same⟩ := Option.map_eq_some_iff.mp holds
  rw [toOption_eq_some] at mounted
  obtain ⟨messages, named⟩ := Prod.mk.inj same
  exact ⟨tree, mounted, messages, Reachable.routesBack (.after (.mounted mounted) _) fun path field listed =>
    of_decide_eq_true (List.all_eq_true.mp named (path, field) listed)⟩

end Tree

end Formwork
