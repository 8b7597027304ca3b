import Formwork.Expression.Evaluation
import Formwork.Action
import Formwork.Proofs.Node.Branches

/-!
# References under a namespace

The same tree may stand at the top or under a namespace, where every path begins with the namespace. A relative
reference then still means what it meant. An absolute one is tried without the namespace first, which leads
nowhere, then from the scope and from everything around it, and from the root of the tree last
(`Reference.candidates_absolute`); at the top the root comes first. So the two agree only on references that are
*steady* (`Reference.Steady`): one that means a field at the root means no field further down as well, and none
leads out of the tree and by the name of the namespace back into it.

The first candidate that a tree knows is the same for a steady reference with and without the namespace
(`Reference.Steady.findSome?_candidates`), and so is the truth of a condition (`Expression.evaluate_spaced`). A
relative reference that does not lead too far up (`Reference.Stays`) means the same behind any path, whatever stands
outside (`Reference.Stays.resolve`).
-/

set_option autoImplicit false

namespace Formwork

/-! ## Paths behind a path -/

namespace Path

variable (above place : Path)

theorem size_extend : (above.extend place).size = above.size + place.size := List.length_append

theorem size_truncate {length : Nat} (short : length ≤ place.size) : (place.truncate length).size = length :=
  List.length_take_of_le short

/-- What is left behind the first path is cut off behind the second one as before. -/
theorem truncate_extend (length : Nat) :
    (above.extend place).truncate (above.size + length) = above.extend (place.truncate length) :=
  congrArg Path.mk (List.take_length_add_append length)

theorem truncate_extend_of_le {length : Nat} (short : length ≤ above.size) :
    (above.extend place).truncate length = above.truncate length :=
  congrArg Path.mk (List.take_append_of_le_length short)

theorem truncate_size : place.truncate place.size = place := congrArg Path.mk List.take_length

variable {place} in
theorem last?_extend (inner : place ≠ .root) : (above.extend place).last? = place.last? :=
  List.getLast?_append_of_ne_nil _ fun empty => inner (congrArg mk empty)

variable {place} in
theorem enclosing_extend (inner : place ≠ .root) : (above.extend place).enclosing = above.extend place.enclosing :=
  congrArg mk (List.dropLast_append_of_ne_nil fun empty => inner (congrArg mk empty))

/-- A path and its proper beginnings are its beginnings of all sizes. -/
theorem cons_ancestors : place :: place.ancestors = (List.range (place.size + 1)).reverse.map place.truncate := by
  rw [List.range_succ, List.reverse_concat, List.map_cons, truncate_size, ancestors]

end Path

/-! ## Candidates -/

namespace Reference

variable (reference : Reference) (scope : Path)

/-- What an absolute reference may mean beneath the top: behind each beginning of the scope, the longest first. -/
def beneath : List Path :=
  (List.range scope.size).reverse.map fun length => (scope.truncate (length + 1)).extend reference.path

theorem size_of_mem_beneath {place : Path} (inside : place ∈ reference.beneath scope) :
    reference.path.size < place.size := by
  obtain ⟨length, listed, rfl⟩ := List.mem_map.mp inside
  have short := List.mem_range.mp (List.mem_reverse.mp listed)
  rw [Path.size_extend, Path.size_truncate _ short]
  omega

/-- Beneath the top no two of the paths are the same. -/
theorem nodup_beneath : (reference.beneath scope).Nodup := by
  refine (List.nodup_reverse.mpr List.nodup_range).map_on fun first inFirst second inSecond same => ?_
  have sizes := congrArg Path.size same
  have shortFirst := List.mem_range.mp (List.mem_reverse.mp inFirst)
  have shortSecond := List.mem_range.mp (List.mem_reverse.mp inSecond)
  rw [Path.size_extend, Path.size_extend, Path.size_truncate _ shortFirst, Path.size_truncate _ shortSecond] at sizes
  omega

/-- Paths that are new and distinct are added in their order. -/
theorem addNew_of_nodup {found paths : List Path} (nodup : (found ++ paths).Nodup) :
    addNew found paths = found ++ paths := by
  induction paths generalizing found with
  | nil => exact (List.append_nil _).symm
  | cons path rest ih =>
      rw [List.append_cons] at nodup ⊢
      have new : found.contains path = false := by
        rw [List.contains_eq_mem, decide_eq_false_iff_not]
        intro old
        exact (List.nodup_append.mp (List.nodup_append.mp nodup).1).2.2 path old path (by simp) rfl
      exact (congrArg (addNew · rest) (if_neg (by rw [new]; exact Bool.false_ne_true))).trans (ih nodup)

/-- An absolute reference is tried from the top, and then beneath it. -/
theorem candidates_absolute (absolute : reference.isRelative = false) :
    reference.candidates scope = reference.path :: reference.beneath scope := by
  have scopes : ((scope :: scope.ancestors).filter fun place => !place.isRoot) =
      (List.range scope.size).reverse.map fun length => scope.truncate (length + 1) := by
    rw [Path.cons_ancestors, List.range_succ_eq_map, List.reverse_cons, List.map_append, List.filter_append,
      ← List.map_reverse, List.map_map]
    have top : [0].map scope.truncate = [Path.root] := rfl
    rw [top, List.filter_eq_self.mpr ?_, List.filter_eq_nil_iff.mpr (by simp [Path.isRoot, Path.root]),
      List.append_nil]
    · rfl
    · intro place inside
      obtain ⟨length, listed, rfl⟩ := List.mem_map.mp inside
      have short := List.mem_range.mp (List.mem_reverse.mp listed)
      have size : (scope.truncate (length + 1)).segments.length = length + 1 := scope.size_truncate short
      rw [Bool.not_eq_true', Function.comp_apply, Path.isRoot, Bool.eq_false_iff]
      intro empty
      rw [List.isEmpty_iff.mp empty] at size
      cases size
  have listed : ((scope :: scope.ancestors).filter fun place => !place.isRoot).map (fun place =>
      place.extend reference.path) = reference.beneath scope := by
    rw [scopes, List.map_map]
    rfl
  rw [candidates, absolute, if_neg Bool.false_ne_true]
  dsimp only
  rw [listed]
  refine addNew_of_nodup (List.nodup_cons.mpr ⟨fun inside => ?_, reference.nodup_beneath scope⟩)
  exact Nat.lt_irrefl _ (reference.size_of_mem_beneath scope inside)

/-! ## Steady references -/

/-- What a reference means is the same with and without a namespace, if the fields of a tree stand at some
places. -/
structure Steady (above : Path) (places : List Path) : Prop where
  /-- An absolute reference to a field at the root means no other field. -/
  only : reference.isRelative = false → reference.path ∈ places →
    ∀ place ∈ reference.candidates scope, place ∈ places → place = reference.path
  /-- What may be meant under the namespace may be meant without it. -/
  inside : ∀ place ∈ places, above.extend place ∈ reference.candidates (above.extend scope) →
    place ∈ reference.candidates scope

instance (above : Path) (places : List Path) : Decidable (reference.Steady scope above places) :=
  decidable_of_iff ((reference.isRelative = false → reference.path ∈ places →
      ∀ place ∈ reference.candidates scope, place ∈ places → place = reference.path) ∧
    ∀ place ∈ places, above.extend place ∈ reference.candidates (above.extend scope) →
      place ∈ reference.candidates scope) ⟨fun both => ⟨both.1, both.2⟩, fun steady => ⟨steady.only, steady.inside⟩⟩

end Reference

/-- Some places know under a namespace what other ones know without it, and nothing is known elsewhere. -/
structure Spaced {Known : Type} (above : Path) (places : List Path) (plain spaced : Path → Option Known) : Prop where
  same : ∀ place, spaced (above.extend place) = plain place
  inside : ∀ path known, spaced path = some known → ∃ place, path = above.extend place
  listed : ∀ place known, plain place = some known → place ∈ places

/-- What is taken from something known behind the namespace, if it is the same as without it. -/
theorem Spaced.bind {Known Other : Type} {above : Path} {places : List Path} {plain spaced : Path → Option Known}
    (shift : Spaced above places plain spaced) {view viewThere : Path → Known → Option Other}
    (same : ∀ place known, viewThere (above.extend place) known = view place known) :
    Spaced above places (fun place => (plain place).bind (view place))
      fun path => (spaced path).bind (viewThere path) where
  same place := by
    rw [shift.same]
    exact congrArg (plain place).bind (funext (same place))
  inside path other found := by
    obtain ⟨known, there, -⟩ := Option.bind_eq_some_iff.mp found
    exact shift.inside path known there
  listed place other found := by
    obtain ⟨known, there, -⟩ := Option.bind_eq_some_iff.mp found
    exact shift.listed place known there

namespace Reference

variable {Known : Type} {above scope : Path} {places : List Path} {plain spaced : Path → Option Known}
variable {reference : Reference}

/-- A candidate under the namespace that is known is one of the candidates without it. -/
theorem Steady.exists_candidate (steady : reference.Steady scope above places)
    (shift : Spaced above places plain spaced) {path : Path} {known : Known} (found : spaced path = some known)
    (listed : path ∈ reference.candidates (above.extend scope)) :
    ∃ place ∈ reference.candidates scope, path = above.extend place := by
  obtain ⟨place, rfl⟩ := shift.inside path known found
  exact ⟨place, steady.inside place (shift.listed place known ((shift.same place).symm.trans found)) listed, rfl⟩

/-- A path is too short for a candidate if there is not enough of it in front of the path of the reference. -/
theorem Steady.eq_none_of_short (steady : reference.Steady scope above places)
    (absolute : reference.isRelative = false) (shift : Spaced above places plain spaced) {path : Path}
    (listed : path ∈ reference.candidates (above.extend scope))
    (short : path.size < above.size + reference.path.size) : spaced path = none := by
  cases found : spaced path with
  | none => rfl
  | some known =>
      obtain ⟨place, inside, rfl⟩ := steady.exists_candidate shift found listed
      rw [candidates_absolute _ _ absolute, List.mem_cons] at inside
      rw [Path.size_extend] at short
      rcases inside with rfl | below
      · omega
      · have := reference.size_of_mem_beneath scope below
        omega

theorem candidates_relative (relative : reference.isRelative = true) :
    reference.candidates scope = if scope.size + 1 < reference.ascend then []
      else [(scope.truncate (scope.size + 1 - reference.ascend)).extend reference.path] := by
  rw [candidates, relative, if_pos rfl]

/-- A relative reference that leads no further up than its scope is deep means the same behind a path. -/
theorem candidates_extend (relative : reference.isRelative = true) (near : reference.ascend ≤ scope.size + 1) :
    reference.candidates (above.extend scope) = (reference.candidates scope).map above.extend := by
  have length : (above.extend scope).size + 1 - reference.ascend =
      above.size + (scope.size + 1 - reference.ascend) := by
    rw [Path.size_extend]
    omega
  rw [candidates_relative relative, candidates_relative relative, if_neg (by rw [Path.size_extend]; omega),
    if_neg (by omega), length, Path.truncate_extend, Path.extend_assoc]
  rfl

/-- Under a namespace the beginnings of the namespace come behind those of the scope. -/
theorem beneath_extend : reference.beneath (above.extend scope) =
    (reference.beneath scope).map above.extend ++ reference.beneath above := by
  rw [beneath, Path.size_extend, List.range_add, List.reverse_append, List.map_append, ← List.map_reverse,
    List.map_map, beneath, List.map_map]
  congr 1
  · refine List.map_congr_left fun length _ => ?_
    simp only [Function.comp_apply]
    rw [Nat.add_assoc, Path.truncate_extend, Path.extend_assoc]
  · refine List.map_congr_left fun length listed => ?_
    rw [Path.truncate_extend_of_le _ _ (List.mem_range.mp (List.mem_reverse.mp listed))]

/-- The last candidates of an absolute reference: only the root of the tree counts among them. -/
theorem Steady.findSome?_beneath (steady : reference.Steady scope above places)
    (absolute : reference.isRelative = false) (shift : Spaced above places plain spaced) (some : above ≠ .root) :
    (reference.beneath above).findSome? spaced = plain reference.path := by
  obtain ⟨first, rest, split⟩ := List.exists_cons_of_ne_nil fun empty => some (congrArg Path.mk empty)
  have size : above.size = rest.length + 1 := congrArg List.length split
  have listed {path : Path} (inside : path ∈ reference.beneath above) :
      path ∈ reference.candidates (above.extend scope) := by
    rw [candidates_absolute _ _ absolute, beneath_extend]
    exact List.mem_cons_of_mem _ (List.mem_append_right _ inside)
  have unfolded : reference.beneath above = above.extend reference.path ::
      (List.range rest.length).reverse.map fun length => (above.truncate (length + 1)).extend reference.path := by
    rw [beneath, size, List.range_succ, List.reverse_concat, List.map_cons, ← size, Path.truncate_size]
  have shorter : ((List.range rest.length).reverse.map fun length =>
      (above.truncate (length + 1)).extend reference.path).findSome? spaced = none := by
    refine List.findSome?_eq_none_iff.mpr fun path inside => ?_
    refine steady.eq_none_of_short absolute shift (listed (unfolded ▸ List.mem_cons_of_mem _ inside)) ?_
    obtain ⟨length, below, rfl⟩ := List.mem_map.mp inside
    have short := List.mem_range.mp (List.mem_reverse.mp below)
    rw [Path.size_extend, Path.size_truncate _ (by omega)]
    omega
  rw [unfolded, List.findSome?_cons, shift.same, shorter]
  cases plain reference.path <;> rfl

/-- A steady reference means the same with and without the namespace. -/
theorem Steady.findSome?_candidates (steady : reference.Steady scope above places)
    (shift : Spaced above places plain spaced) :
    (reference.candidates (above.extend scope)).findSome? spaced = (reference.candidates scope).findSome? plain := by
  cases kind : reference.isRelative with
  | true =>
      by_cases near : reference.ascend ≤ scope.size + 1
      · rw [candidates_extend kind near, List.findSome?_map]
        exact congrArg (List.findSome? · _) (funext shift.same)
      · -- Without the namespace the reference leads out of the tree, and under it out of the tree as well.
        have nothing : reference.candidates scope = [] := by rw [candidates_relative kind, if_pos (by omega)]
        rw [nothing, List.findSome?_nil]
        refine List.findSome?_eq_none_iff.mpr fun path listed => ?_
        cases found : spaced path with
        | none => rfl
        | some known =>
            obtain ⟨place, inside, -⟩ := steady.exists_candidate shift found listed
            rw [nothing] at inside
            cases inside
  | false =>
      by_cases top : above = .root
      · subst top
        have same : spaced = plain := funext fun place => by rw [← shift.same, Path.root_extend]
        rw [same, Path.root_extend]
      · have first : spaced reference.path = none := by
          refine steady.eq_none_of_short kind shift ?_ ?_
          · rw [candidates_absolute _ _ kind]
            exact List.mem_cons_self
          · have : above.size ≠ 0 := fun empty => top (congrArg Path.mk (List.length_eq_zero_iff.mp empty))
            omega
        have below : ((reference.beneath scope).map above.extend).findSome? spaced =
            (reference.beneath scope).findSome? plain := by
          rw [List.findSome?_map]
          exact congrArg (List.findSome? · _) (funext shift.same)
        rw [candidates_absolute _ _ kind, candidates_absolute _ _ kind, List.findSome?_cons, first,
          beneath_extend, List.findSome?_append, below, steady.findSome?_beneath kind shift top, List.findSome?_cons]
        cases here : plain reference.path with
        | none => exact Option.or_none
        | some known =>
            -- A reference that means the field at the root means no field beneath it.
            have nowhere : (reference.beneath scope).findSome? plain = none := by
              refine List.findSome?_eq_none_iff.mpr fun place inside => ?_
              cases there : plain place with
              | none => rfl
              | some other =>
                  have root := steady.only kind (shift.listed _ _ here) place
                    (by rw [candidates_absolute _ _ kind]; exact List.mem_cons_of_mem _ inside)
                    (shift.listed _ _ there)
                  have longer := reference.size_of_mem_beneath scope inside
                  rw [root] at longer
                  exact absurd longer (Nat.lt_irrefl _)
            rw [nowhere, Option.none_or]

/-! ## References that stay -/

/-- A relative reference that leads no further up than its scope is deep, so that it does not depend on where the
scope itself stands. -/
structure Stays (reference : Reference) (scope : Path) : Prop where
  relative : reference.isRelative = true
  near : reference.ascend ≤ scope.size + 1

instance (reference : Reference) (scope : Path) : Decidable (reference.Stays scope) :=
  decidable_of_iff (reference.isRelative = true ∧ reference.ascend ≤ scope.size + 1)
    ⟨fun both => ⟨both.1, both.2⟩, fun stays => ⟨stays.relative, stays.near⟩⟩

/-- What a reference that stays is resolved to is the same behind a path, whatever stands outside. -/
theorem Stays.resolve (stays : reference.Stays scope) {lookup lookupThere : Lookup}
    (same : ∀ place, lookupThere (above.extend place) = lookup place) :
    reference.resolve (above.extend scope) lookupThere = reference.resolve scope lookup := by
  rw [Reference.resolve, Reference.resolve, candidates_extend stays.relative stays.near, List.findSome?_map]
  exact congrArg (List.findSome? · _) (funext same)

end Reference

/-! ## Conditions and calls -/

mutual
/-- The references of a condition. -/
def Expression.references : Expression → List Reference
  | .reference target => [target]
  | .active target => [target]
  | .literal _ => []
  | .not operand => operand.references
  | .all operands => Expression.referencesAll operands
  | .any operands => Expression.referencesAll operands
  | .compare left _ right => left.references ++ right.references

/-- The references of some conditions. -/
def Expression.referencesAll : List Expression → List Reference
  | [] => []
  | first :: rest => first.references ++ Expression.referencesAll rest
end

/-- The references of an argument. -/
def Argument.references : Argument → List Reference
  | .path target => [target]
  | _ => []

/-- The references of a call. -/
def Call.references : Call → List Reference
  | .activate arguments => arguments.flatMap Argument.references
  | .setFieldValue target source => target :: source.references
  | .deleteValue target => [target]
  | _ => []

/-- The references of a pipeline. -/
def Pipeline.references (pipeline : Pipeline) : List Reference :=
  (pipeline.success ++ pipeline.reject).flatMap Call.references

/-- Whether some references are steady. -/
def Steadies (above scope : Path) (places : List Path) (references : List Reference) : Prop :=
  ∀ reference ∈ references, reference.Steady scope above places

namespace Expression

section Congruence

variable {scope there : Path} {lookup lookupThere : Lookup}

theorem operand?_congr (truth : Bool) {expression : Expression}
    (same : ∀ target ∈ expression.references, target.resolve there lookupThere = target.resolve scope lookup) :
    expression.operand? there lookupThere truth = expression.operand? scope lookup truth := by
  cases expression with
  | reference target => rw [operand?, operand?, same target List.mem_cons_self]
  | _ => rfl

mutual
/-- A condition is as true elsewhere if its references mean the same there. -/
theorem evaluate_congr {expression : Expression}
    (same : ∀ target ∈ expression.references, target.resolve there lookupThere = target.resolve scope lookup) :
    expression.evaluate there lookupThere = expression.evaluate scope lookup := by
  match expression with
  | .reference target => rw [evaluate, evaluate, same target List.mem_cons_self]
  | .active target => rw [evaluate, evaluate, same target List.mem_cons_self]
  | .literal _ => rfl
  | .not operand => rw [evaluate, evaluate, @evaluate_congr operand same]
  | .all operands => rw [evaluate, evaluate, @evaluateAll_congr operands same]
  | .any operands => rw [evaluate, evaluate, @evaluateAny_congr operands same]
  | .compare left comparison right =>
      obtain ⟨inLeft, inRight⟩ := List.forall_mem_append.mp same
      rw [evaluate, evaluate, evaluate_congr inLeft, evaluate_congr inRight, operand?_congr _ inLeft,
        operand?_congr _ inRight]

theorem evaluateAll_congr {operands : List Expression}
    (same : ∀ target ∈ referencesAll operands, target.resolve there lookupThere = target.resolve scope lookup) :
    evaluateAll there lookupThere operands = evaluateAll scope lookup operands := by
  match operands with
  | [] => rfl
  | first :: rest =>
      obtain ⟨inFirst, inRest⟩ := List.forall_mem_append.mp same
      rw [evaluateAll, evaluateAll, evaluate_congr inFirst, evaluateAll_congr inRest]

theorem evaluateAny_congr {operands : List Expression}
    (same : ∀ target ∈ referencesAll operands, target.resolve there lookupThere = target.resolve scope lookup) :
    evaluateAny there lookupThere operands = evaluateAny scope lookup operands := by
  match operands with
  | [] => rfl
  | first :: rest =>
      obtain ⟨inFirst, inRest⟩ := List.forall_mem_append.mp same
      rw [evaluateAny, evaluateAny, evaluate_congr inFirst, evaluateAny_congr inRest]
end

end Congruence

theorem steadies_append {above scope : Path} {places : List Path} {first second : List Reference} :
    Steadies above scope places (first ++ second) ↔
      Steadies above scope places first ∧ Steadies above scope places second := List.forall_mem_append

/-- A condition whose references are steady is as true with the namespace as without it. -/
theorem evaluate_spaced {above scope : Path} {places : List Path} {plain spaced : Lookup}
    (shift : Spaced above places plain spaced) {expression : Expression}
    (steady : Steadies above scope places expression.references) :
    expression.evaluate (above.extend scope) spaced = expression.evaluate scope plain :=
  evaluate_congr fun target inside => (steady target inside).findSome?_candidates shift

end Expression

end Formwork
