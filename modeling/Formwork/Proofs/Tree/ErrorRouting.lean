import Formwork.Proofs.Node.Effects
import Formwork.Proofs.Node.Payload
import Formwork.Proofs.Tree.Paths

/-!
# Messages of a server and the fields they are about

A server knows a field by the location of its value in the payload, and answers messages under the
keys and indices of this location. They are recorded on the field that sent the value and nowhere
else exactly if no pristine sibling stands in front of a sibling on the way to the field
(`Tree.Reachable.recordsOnly_iff`): pristine siblings are left out of the payload, but count in the
paths that messages are looked up by. So the messages about a sibling that was filled in behind
one that is only offered go to the wrong sibling (`Tree.applyErrors_astray`).
-/

set_option autoImplicit false

namespace Formwork

theorem Field.setErrors_ne (field : Field) : ∃ messages, field.setErrors messages ≠ field := by
  by_cases valid : field.validity = .valid
  · refine ⟨[""], fun same => ?_⟩
    have recorded := congrArg Field.validity same
    rw [valid] at recorded
    cases recorded
  · exact ⟨[], fun same => valid (congrArg Field.validity same).symm⟩

namespace Tree

/-- The messages are recorded on the field at a path and change no other field, no form or fieldset
and none of the messages that belong to no place. -/
structure RecordsOnly (tree after : Tree) (place : Path) (messages : List String) : Prop where
  fields : after.fields = tree.fields.map fun entry =>
    (entry.1, if entry.1 = place then entry.2.setErrors messages else entry.2)
  groups : after.groups = tree.groups
  strayErrors : after.strayErrors = tree.strayErrors

section Effects

variable {tree : Tree} (regular : tree.root.Regular)
include regular

/-- Messages are recorded on the field that they are meant for, and on no other one. -/
theorem fields_applyMessages (key : String) (contents : List String) :
    (tree.applyMessages key contents).fields = tree.fields.map fun entry =>
      (entry.1, if entry.1 = tree.target key then entry.2.setErrors contents else entry.2) := by
  cases isField : (tree.field? (tree.target key)).isSome with
  | true =>
      obtain ⟨field, found⟩ := Option.isSome_iff_exists.mp isField
      obtain ⟨segments, below, -⟩ := Option.bind_eq_some_iff.mp found
      rw [applyMessages_eq, if_pos isField, change_of_below below, below?_eq_some_iff.mp below]
      exact Node.fields_modifyField regular _ tree.here segments
  | false =>
      have noField : ∀ entry ∈ tree.fields, entry.1 ≠ tree.target key := by
        rintro ⟨place, field⟩ listed rfl
        rw [(field?_eq_some_iff regular).mpr listed] at isField
        cases isField
      have apart : (tree.fields.map fun entry =>
          (entry.1, if entry.1 = tree.target key then entry.2.setErrors contents else entry.2)) = tree.fields := by
        refine (List.map_congr_left fun entry listed => ?_).trans (List.map_id _)
        rw [if_neg (noField entry listed)]
        rfl
      rw [apart, applyMessages_eq, isField, if_neg Bool.false_ne_true]
      split
      · unfold change
        split
        · exact Node.fields_modifyGroup regular _ tree.here _
        · rfl
      · rfl

/-- Messages for a path with a field are recorded on this field only. -/
theorem applyMessages_recordsOnly {key : String} (named : (tree.path key).last? ≠ some Response.groupKey)
    {field : Field} (there : tree.field? (tree.path key) = some field) (messages : List String) :
    tree.RecordsOnly (tree.applyMessages key messages) (tree.path key) messages := by
  have target : tree.target key = tree.path key := if_neg named
  have below : tree.below? (tree.path key) = some (Path.parse key).segments :=
    below?_eq_some_iff.mpr rfl
  rw [applyMessages_eq, target, there, Option.isSome_some, if_pos rfl, change, below]
  exact ⟨Node.fields_modifyField regular _ tree.here _, Node.groups_modifyField regular _ tree.here _, rfl⟩

/-- Messages change no field but the one that they are meant for. -/
theorem mem_fields_applyMessages {key : String} {place : Path} {field : Field}
    (listed : (place, field) ∈ tree.fields) (elsewhere : place ≠ tree.target key)
    (messages : List String) :
    (place, field) ∈ (tree.applyMessages key messages).fields := by
  rw [fields_applyMessages regular]
  exact List.mem_map.mpr ⟨_, listed, by rw [if_neg elsewhere]⟩

end Effects

/-- Messages that are meant for another place are not recorded. -/
theorem Reachable.not_recordsOnly {tree : Tree} (reachable : tree.Reachable) {key : String} {place : Path}
    {field : Field} (listed : (place, field) ∈ tree.fields) (elsewhere : place ≠ tree.target key)
    {messages : List String} (changed : field.setErrors messages ≠ field) :
    ¬ tree.RecordsOnly (tree.after (.applyErrors [(key, messages)])) place messages := by
  intro records
  -- The field would stand at its path both as it was and with the messages.
  have kept : (place, field) ∈ (tree.after (.applyErrors [(key, messages)])).fields :=
    mem_fields_applyMessages reachable.regular listed elsewhere messages
  have recorded : (place, field.setErrors messages) ∈
      (tree.after (.applyErrors [(key, messages)])).fields := by
    rw [records.fields]
    exact List.mem_map.mpr ⟨_, listed, by rw [if_pos rfl]⟩
  have regular := (reachable.after (.applyErrors [(key, messages)])).regular
  have found := (field?_eq_some_iff regular).mpr recorded
  exact changed (Option.some.inj (found.symm.trans ((field?_eq_some_iff regular).mpr kept)))

theorem mem_fields_of_sends {tree : Tree} {location : Json.Location} {segments : List String}
    {field : Field} (sends : tree.root.Sends location segments field) :
    (tree.here.extend ⟨segments⟩, field) ∈ tree.fields := by
  obtain ⟨front, content, names, rfl, form, member⟩ := sends.stands
  exact Node.mem_fields_iff.mpr ⟨front, content, names, rfl, form, member⟩

/-- In a reachable tree messages under the location of a value reach the field that sent the value,
and nothing else, exactly if no pristine sibling stands in front of a sibling on the way to the field. -/
theorem Reachable.recordsOnly_iff {tree : Tree} (reachable : tree.Reachable) {location : Json.Location}
    {segments : List String} {field : Field} (sends : tree.root.Sends location segments field)
    (named : segments.getLast? ≠ some Response.groupKey) :
    (∀ messages, tree.RecordsOnly (tree.after (.applyErrors [(location.text, messages)]))
        (tree.here.extend ⟨segments⟩) messages) ↔
      tree.root.Unbroken segments := by
  have regular := reachable.regular
  have last : (tree.path location.text).last? ≠ some Response.groupKey := by
    have same := sends.getLast?_eq regular
    obtain ⟨front, content, names, rfl, form, member⟩ := sends.stands
    have some := List.getLast?_isSome.mpr (List.append_ne_nil_of_right_ne_nil front member.ne_nil)
    obtain ⟨name, found⟩ := Option.isSome_iff_exists.mp some
    rw [found] at same named
    rwa [path, Path.last?, Path.extend, List.getLast?_append, same]
  rw [← sends.parse_eq_iff regular]
  constructor
  · intro records
    by_contra astray
    obtain ⟨messages, changed⟩ := field.setErrors_ne
    refine reachable.not_recordsOnly (mem_fields_of_sends sends) ?_ changed (records messages)
    rw [target, if_neg last]
    exact fun same => astray (congrArg Path.segments (Path.extend_injective same)).symm
  · intro same messages
    have place : tree.path location.text = tree.here.extend ⟨segments⟩ := by
      rw [path, ← same]
    have there : tree.field? (tree.path location.text) = some field := by
      rw [place]
      exact (field?_eq_some_iff regular).mpr (mem_fields_of_sends sends)
    rw [← place]
    exact applyMessages_recordsOnly regular last there messages

/-- Messages about the first order, which is filled in, are recorded on it. -/
theorem recordsOnly_first_order : ∃ tree : Tree, tree.Reachable ∧ ∃ field : Field,
    tree.root.Sends [.item 0, .key "order", .key "size"] ["0", "order", "size"] field ∧
      ∀ messages, tree.RecordsOnly (tree.after (.applyErrors [("0.order.size", messages)]))
        (tree.here.extend ⟨["0", "order", "size"]⟩) messages := by
  obtain ⟨tree, frame, template, content, second, field, others, reachable, root, members, sent⟩ :
      ∃ tree : Tree, ∃ frame template content second field others, tree.Reachable ∧
        tree.root = .series frame template [.mk false [("order", .form content)], second] ∧
          content.members = ("size", .field field) :: others ∧ field.isSent = true :=
    ⟨_, _, _, _, _, _, _, .after (.mounted (rfl : Tree.mount orders none = _))
      (.setValue ⟨["shop", "0", "order", "size"]⟩ (.text "large")), rfl, rfl, rfl⟩
  have stands : Member.Stands content.members ["size"] (.field field) := by
    rw [members]
    exact .here (.head _)
  have sends : tree.root.Sends [.item 0, .key "order", .key "size"] ["0", "order", "size"] field := by
    rw [root]
    exact @Node.Sends.sibling _ _ _ 0 _ "order" _ _ _ _ rfl (.head _) (.form stands sent)
  refine ⟨tree, reachable, field, sends, (reachable.recordsOnly_iff sends (by decide)).mpr ?_⟩
  have regular := reachable.regular
  rw [root] at regular ⊢
  exact (@Node.unbroken_sibling _ _ _ regular 0 _ rfl "order" _ (.head _) ["size"]).mpr
    ⟨nofun, Node.unbroken_form content ["size"]⟩

/-- Messages about the second order are not recorded on it if only the second one is filled in. -/
theorem applyErrors_astray : ∃ tree : Tree, tree.Reachable ∧ ∃ field : Field,
    tree.root.Sends [.item 0, .key "order", .key "size"] ["1", "order", "size"] field ∧
      ¬ tree.RecordsOnly (tree.after (.applyErrors [("0.order.size", ["too large"])]))
        (tree.here.extend ⟨["1", "order", "size"]⟩) ["too large"] := by
  obtain ⟨tree, frame, template, first, content, field, others, reachable, here, root, members, sent,
      known⟩ :
      ∃ tree : Tree, ∃ frame template first content field others, tree.Reachable ∧
        tree.here = ⟨["shop"]⟩ ∧
          tree.root = .series frame template [.mk true first, .mk false [("order", .form content)]] ∧
            content.members = ("size", .field field) :: others ∧ field.isSent = true ∧
              field.validity = .untouched :=
    ⟨_, _, _, _, _, _, _, .after (.mounted (rfl : Tree.mount orders none = _))
      (.setValue ⟨["shop", "1", "order", "size"]⟩ (.text "large")), rfl, rfl, rfl, rfl, rfl⟩
  have stands : Member.Stands content.members ["size"] (.field field) := by
    rw [members]
    exact .here (.head _)
  have sends : tree.root.Sends [.item 0, .key "order", .key "size"] ["1", "order", "size"] field := by
    rw [root]
    exact @Node.Sends.sibling _ _ _ 1 _ "order" _ _ _ _ rfl (.head _) (.form stands sent)
  refine ⟨tree, reachable, field, sends,
    reachable.not_recordsOnly (mem_fields_of_sends sends) ?_ fun same => ?_⟩
  · rw [target, path, here]
    decide
  · have recorded := congrArg Field.validity same
    rw [known] at recorded
    cases recorded

end Tree

end Formwork
