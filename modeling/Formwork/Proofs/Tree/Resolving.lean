import Formwork.Proofs.Tree.DialogControl
import Formwork.Proofs.Tree.Reading

/-!
# What conditions and calls see

Conditions are evaluated while a tree is being changed, so its fields are recorded before: their values, the places of
the buttons, and which button fires (`Snapshot`). Every field is recorded under the path that it remembers, and what
is recorded later under the same path would hide what was recorded before. Calls look into the tree itself, where they
follow a path down.

Remembered paths are canonical and unique, so both see the same (`Tree.lookup_snapshot`). A reference has several
candidates. A condition takes the first one that there is, and a call the first one with a value. If the condition has
come upon a value, these are one and the same (`Tree.resolveField?_of_place?`).
-/

set_option autoImplicit false

namespace Formwork

/-! ## Records of fields -/

/-- What was recorded of some fields. -/
structure Snapshot where
  /-- The values of the fields that are no buttons. -/
  values : Path → Option Value
  /-- The places of the buttons. -/
  buttons : Path → Bool
  /-- The button that fires. -/
  active : Option Path

namespace Snapshot

/-- Nothing was recorded yet. -/
def blank (active : Option Path) : Snapshot := ⟨fun _ => none, fun _ => false, active⟩

/-- Records a field under a path. -/
def record (snapshot : Snapshot) (entry : Path × Field) : Snapshot :=
  if entry.2.isButton then { snapshot with buttons := Function.update snapshot.buttons entry.1 true }
  else { snapshot with values := Function.update snapshot.values entry.1 (some entry.2.value) }

/-- What a path reads as; a value is looked for first. -/
def lookup (snapshot : Snapshot) : Lookup := fun place =>
  match snapshot.values place with
  | some value => some (.value value)
  | none => if snapshot.buttons place then some (.button (snapshot.active == some place)) else none

variable (snapshot : Snapshot)

theorem active_record (entry : Path × Field) : (snapshot.record entry).active = snapshot.active := by
  unfold record
  split <;> rfl

/-- A record changes nothing that is read elsewhere. -/
theorem lookup_record_of_ne {entry : Path × Field} {place : Path} (elsewhere : place ≠ entry.1) :
    (snapshot.record entry).lookup place = snapshot.lookup place := by
  unfold record
  split
  · simp only [lookup, Function.update_of_ne elsewhere]
  · simp only [lookup, Function.update_of_ne elsewhere]

/-- What is recorded under a new path is read there. -/
theorem lookup_record_self {entry : Path × Field} (fresh : snapshot.lookup entry.1 = none) :
    (snapshot.record entry).lookup entry.1 = some (entry.2.reading (snapshot.active == some entry.1)) := by
  have noValue : snapshot.values entry.1 = none := by
    rw [lookup] at fresh
    split at fresh
    · cases fresh
    · assumption
  unfold record Field.reading
  split
  · simp only [lookup, noValue, Function.update_self, if_true]
  · simp only [lookup, Function.update_self]

/-- Under paths that are new and that do not repeat, every field is read as it was recorded. -/
theorem lookup_foldl_record {entries : List (Path × Field)} (once : (entries.map Prod.fst).Nodup)
    {snapshot : Snapshot} (fresh : ∀ entry ∈ entries, snapshot.lookup entry.1 = none) (place : Path) :
    (entries.foldl record snapshot).lookup place =
      ((entries.find? fun entry => entry.1 = place).map fun entry =>
        entry.2.reading (snapshot.active == some place)).or (snapshot.lookup place) := by
  induction entries generalizing snapshot with
  | nil => rfl
  | cons entry rest ih =>
      obtain ⟨unlike, once⟩ := List.nodup_cons.mp once
      obtain ⟨freshHere, freshRest⟩ := List.forall_mem_cons.mp fresh
      have stillFresh : ∀ other ∈ rest, (snapshot.record entry).lookup other.1 = none := by
        intro other inside
        have apart : other.1 ≠ entry.1 := fun same => unlike (same ▸ List.mem_map_of_mem inside)
        exact (snapshot.lookup_record_of_ne apart).trans (freshRest other inside)
      rw [List.foldl_cons, ih once stillFresh, active_record]
      by_cases here : entry.1 = place
      · subst here
        have behind : (rest.find? fun other => other.1 = entry.1) = none := by
          refine List.find?_eq_none.mpr fun other inside same => unlike ?_
          exact (of_decide_eq_true same) ▸ List.mem_map_of_mem inside
        rw [behind, snapshot.lookup_record_self freshHere, List.find?_cons, decide_eq_true rfl]
        rfl
      · rw [snapshot.lookup_record_of_ne (Ne.symm here), List.find?_cons, decide_eq_false here]

end Snapshot

/-! ## References -/

/-- The first candidate of a reference that reads as something. -/
def Reference.place? (reference : Reference) (scope : Path) (lookup : Lookup) : Option Path :=
  (reference.candidates scope).find? fun place => (lookup place).isSome

/-- A reference reads as the place that it means. -/
theorem Reference.resolve_eq (reference : Reference) (scope : Path) (lookup : Lookup) :
    reference.resolve scope lookup = (reference.place? scope lookup).bind lookup := by
  unfold resolve place?
  induction reference.candidates scope with
  | nil => rfl
  | cons place rest ih =>
      rw [List.findSome?_cons, List.find?_cons]
      cases read : lookup place with
      | none => exact ih
      | some reading => exact read.symm

namespace Tree

variable {tree : Tree}

/-! ## What is recorded of a tree -/

/-- The fields under the paths that they remember. -/
def remembered (tree : Tree) (layout : Layout) : List (Path × Field) :=
  (layout.paths Layout.isField).zip (tree.fields.map Prod.snd)

/-- All fields of a tree, recorded under the paths that they remember, in the order of rendering. -/
def snapshot (tree : Tree) (layout : Layout) : Snapshot :=
  (tree.remembered layout).foldl Snapshot.record (.blank (tree.firing.map Firing.path))

theorem remembered_layout : tree.remembered tree.layout = tree.fields := by
  have places : tree.layout.paths Layout.isField = tree.fields.map Prod.fst := Node.paths_fields tree.here tree.root
  rw [remembered, places]
  exact (List.zip_of_prod rfl rfl).symm

theorem fires_eq (tree : Tree) (place : Path) : tree.fires place = (tree.firing.map Firing.path == some place) := by
  rw [fires]
  cases tree.firing with
  | none => rfl
  | some firing => rfl

/-- Conditions read what was recorded. -/
theorem lookup_snapshot (regular : tree.root.Regular) : (tree.snapshot tree.layout).lookup = tree.lookup := by
  funext place
  rw [snapshot, remembered_layout, lookup_eq_find]
  have once : (tree.fields.map Prod.fst).Nodup := Node.nodup_fields regular tree.here
  rw [Snapshot.lookup_foldl_record once fun _ _ => rfl]
  cases found : tree.fields.find? fun entry => entry.1 = place with
  | none => rfl
  | some entry =>
      have here : entry.1 = place := by simpa using List.find?_some found
      rw [Option.map_some, Option.map_some, here, fires_eq]
      rfl

/-! ## What a reference means -/

/-- A path reads as a value exactly if the field there is no button and holds this value. -/
theorem lookup_eq_value_iff (regular : tree.root.Regular) {place : Path} {value : Value} :
    tree.lookup place = some (.value value) ↔
      ∃ field, tree.field? place = some field ∧ field.isButton = false ∧ field.value = value := by
  rw [lookup_eq regular, Option.map_eq_some_iff]
  refine exists_congr fun field => and_congr_right fun _ => ?_
  rw [Field.reading]
  cases field.isButton <;> simp

variable (tree) in
/-- Whether there is a field with a value at a path. -/
def holdsValue (place : Path) : Bool := (tree.field? place).any fun field => !field.isButton

theorem resolveField?_eq_find (button : Path) (target : Reference) :
    tree.resolveField? button target = (target.candidates button.enclosing).find? tree.holdsValue := by
  refine congrArg (List.find? · _) (funext fun place => ?_)
  rw [holdsValue]
  cases tree.field? place <;> rfl

theorem holdsValue_iff (regular : tree.root.Regular) {place : Path} :
    tree.holdsValue place = true ↔ ∃ value, tree.lookup place = some (.value value) := by
  simp only [lookup_eq_value_iff regular, holdsValue, Option.any_eq_true, Bool.not_eq_true']
  constructor
  · rintro ⟨field, stands, isData⟩
    exact ⟨field.value, field, stands, isData, rfl⟩
  · rintro ⟨_, field, stands, isData, rfl⟩
    exact ⟨field, stands, isData⟩

section Resolving

variable (regular : tree.root.Regular) {target : Reference} {button place : Path}
include regular

/-- If a condition comes upon a value first, so does a call of a button in the same form or fieldset. -/
theorem resolveField?_of_place? (means : target.place? button.enclosing tree.lookup = some place) {value : Value}
    (reads : tree.lookup place = some (.value value)) : tree.resolveField? button target = some place := by
  rw [resolveField?_eq_find]
  obtain ⟨-, front, back, candidates, before⟩ := List.find?_eq_some_iff_append.mp means
  have holds := (holdsValue_iff regular).mpr ⟨value, reads⟩
  refine List.find?_eq_some_iff_append.mpr ⟨holds, front, back, candidates, ?_⟩
  intro earlier inside
  -- What does not read at all does not read as a value.
  have nothing := before earlier inside
  rw [Bool.not_eq_true', ← Bool.not_eq_true] at nothing ⊢
  intro holds
  obtain ⟨_, readsToo⟩ := (holdsValue_iff regular).mp holds
  exact nothing (readsToo ▸ rfl)

/-- If a call comes upon a value first, a condition in the same form or fieldset either comes upon the same one, or
upon a button before. -/
theorem place?_of_resolveField? (found : tree.resolveField? button target = some place) :
    target.place? button.enclosing tree.lookup = some place ∨
      ∃ other active, target.place? button.enclosing tree.lookup = some other ∧
        tree.lookup other = some (.button active) := by
  have holds : tree.holdsValue place = true := List.find?_some (resolveField?_eq_find button target ▸ found)
  obtain ⟨_, reads⟩ := (holdsValue_iff regular).mp holds
  cases means : target.place? button.enclosing tree.lookup with
  | none =>
      have listed := List.mem_of_find?_eq_some (resolveField?_eq_find button target ▸ found)
      have nothing := List.find?_eq_none.mp means place listed
      rw [reads] at nothing
      exact absurd rfl nothing
  | some other =>
      have reads : (tree.lookup other).isSome = true :=
        @List.find?_some _ (fun place => (tree.lookup place).isSome) _ _ means
      obtain ⟨reading, readsOther⟩ := Option.isSome_iff_exists.mp reads
      cases reading with
      | value value =>
          rw [resolveField?_of_place? regular means readsOther] at found
          exact .inl found
      | button active => exact .inr ⟨other, active, rfl, readsOther⟩

end Resolving

/-! ## Conditions and calls -/

/-- Conditions and calls see the same of a tree whose elements remember their paths. -/
structure SeenAlike (tree : Tree) (layout : Layout) : Prop where
  /-- What was recorded answers as the field to which the search by remembered paths leads: with its value, or for a
  button with whether this is the one that fires, and with nothing where there is no field. -/
  answers : ∀ place, (tree.snapshot layout).lookup place = (layout.field? tree.root place).map fun field =>
    if field.isButton then .button (tree.firing.map Firing.path == some place) else .value field.value
  /-- Conditions are evaluated against what was recorded. -/
  conditions : (tree.snapshot layout).lookup = tree.lookup
  /-- Calls find what the search finds. -/
  calls : ∀ place, tree.field? place = layout.field? tree.root place
  /-- What a condition reads for a reference is read at the place that the reference means. -/
  reads : ∀ (target : Reference) scope, target.resolve scope (tree.snapshot layout).lookup =
    (target.place? scope (tree.snapshot layout).lookup).bind (tree.snapshot layout).lookup
  /-- If a reference of a condition means a field with a value, it means the same field for the calls of every button
  in the same form or fieldset. -/
  resolves : ∀ (target : Reference) scope place field, target.place? scope (tree.snapshot layout).lookup = some place →
    layout.field? tree.root place = some field → field.isButton = false → ∀ button, button.enclosing = scope →
      tree.resolveField? button target = some place
  /-- As an argument it then has the value that the condition reads. -/
  arguments : ∀ (target : Reference) (button : Path) value,
    target.resolve button.enclosing (tree.snapshot layout).lookup = some (.value value) →
      tree.argumentValue? button (.path target) = some value
  /-- A call passes over buttons, and over nothing else. -/
  passes : ∀ target button place, tree.resolveField? button target = some place →
    target.place? button.enclosing (tree.snapshot layout).lookup = some place ∨
      ∃ other active, target.place? button.enclosing (tree.snapshot layout).lookup = some other ∧
        (tree.snapshot layout).lookup other = some (.button active)

/-- Whatever paths its elements came by, a regular tree that remembers where they stand is seen alike. -/
theorem seenAlike_layout (regular : tree.root.Regular) : tree.SeenAlike tree.layout := by
  have conditions := lookup_snapshot regular
  have calls (place : Path) : tree.field? place = tree.layout.field? tree.root place := by
    rw [layout, Node.field?_layout]
    rfl
  refine {
    answers := fun place => ?_
    conditions := conditions
    calls := calls
    reads := fun target scope => target.resolve_eq scope _
    resolves := fun target scope place field means found isData button same => ?_
    arguments := fun target button value reads => ?_
    passes := fun target button place found => ?_ }
  · rw [conditions, lookup_eq regular, calls, fires_eq]
    rfl
  · subst same
    rw [← calls] at found
    rw [conditions] at means
    exact resolveField?_of_place? regular means ((lookup_eq_value_iff regular).mpr ⟨field, found, isData, rfl⟩)
  · rw [conditions, Reference.resolve_eq, Option.bind_eq_some_iff] at reads
    obtain ⟨place, means, reads⟩ := reads
    obtain ⟨field, found, -, rfl⟩ := (lookup_eq_value_iff regular).mp reads
    rw [argumentValue?, resolveField?_of_place? regular means reads, Option.bind_some, found]
    rfl
  · rw [conditions]
    exact place?_of_resolveField? regular found

/-- In every reachable tree, at every moment of an operation and whichever button fires then, conditions and calls see
the same. -/
theorem Reachable.seenAlike (reachable : tree.Reachable) :
    (∃ layout, tree.Remembers layout) ∧ ∀ layout, tree.Remembers layout → ∀ moment, Moves tree moment →
      ∀ firing, ({ moment with firing } : Tree).SeenAlike layout := by
  refine ⟨reachable.remembers, fun layout remembers moment moves firing => ?_⟩
  have fired : Moves tree { moment with firing } := .tail moves (.fire moment firing)
  obtain rfl := remembers.layout_eq
  rw [← fired.layout]
  exact seenAlike_layout (reachable.regular.follows fired.retains.toFollows)

/-- While the button of the wrapping fires, it is read as firing, and a reference to the gift means the same field for
the conditions of the wrapping and for the calls of the button. -/
theorem seenAlike_wrappings : ∃ (tree : Tree) (layout : Layout) (fired : Tree),
    Tree.mount wrappings none = .ok tree ∧ tree.Remembers layout ∧
      fired = { tree with firing := some ⟨⟨["wrapping", "done"]⟩, ["apply"]⟩ } ∧ fired.SeenAlike layout ∧
        (fired.snapshot layout).lookup ⟨["wrapping", "done"]⟩ = some (.button true) ∧
          (Reference.mk 0 ⟨["order", "gift"]⟩).place? ⟨["wrapping"]⟩ (fired.snapshot layout).lookup =
            some ⟨["order", "gift"]⟩ ∧
            fired.resolveField? ⟨["wrapping", "done"]⟩ ⟨0, ⟨["order", "gift"]⟩⟩ = some ⟨["order", "gift"]⟩ := by
  have runs : ((Tree.mount wrappings none).toOption.map fun tree =>
      let fired : Tree := { tree with firing := some ⟨⟨["wrapping", "done"]⟩, ["apply"]⟩ }
      ((fired.snapshot tree.layout).lookup ⟨["wrapping", "done"]⟩,
        (Reference.mk 0 ⟨["order", "gift"]⟩).place? ⟨["wrapping"]⟩ (fired.snapshot tree.layout).lookup,
        fired.resolveField? ⟨["wrapping", "done"]⟩ ⟨0, ⟨["order", "gift"]⟩⟩)) =
      some (some (.button true), some ⟨["order", "gift"]⟩, some ⟨["order", "gift"]⟩) := by decide +kernel
  obtain ⟨tree, mounted, same⟩ := Option.map_eq_some_iff.mp runs
  rw [toOption_eq_some] at mounted
  obtain ⟨fires, same⟩ := Prod.mk.inj same
  obtain ⟨means, resolved⟩ := Prod.mk.inj same
  have remembers : tree.Remembers tree.layout := .mounted mounted
  have alike := (Reachable.mounted mounted).seenAlike.2 tree.layout remembers tree .refl
    (some ⟨⟨["wrapping", "done"]⟩, ["apply"]⟩)
  exact ⟨tree, tree.layout, _, mounted, remembers, rfl, alike, fires, means, resolved⟩

end Tree

end Formwork
