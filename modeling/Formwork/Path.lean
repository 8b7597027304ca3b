import Formwork.Text.Blank

/-!
# Paths

A path is the list of names that leads from the top of a tree to a form, a field or a
collection. In texts it is dotted: `customer.name`, or `orders.0.coffee.size`, where a
sibling of a repeatable collection is addressed by its index. The empty path addresses
the top. `parse` reads a dotted text, trims every segment and drops the empty ones, so a
path that was read has no segment that is empty or holds a dot.
-/

set_option autoImplicit false

namespace Formwork

/-- The segments of a path, outermost first. -/
structure Path where
  segments : List String
deriving DecidableEq, Repr

namespace Path

/-- The path of the top of a tree. -/
def root : Path := ⟨[]⟩

def isRoot (path : Path) : Bool := path.segments.isEmpty

/-- The number of segments. -/
def size (path : Path) : Nat := path.segments.length

/-- The path that a dotted text stands for. -/
def parse (text : String) : Path :=
  ⟨(((Text.pieces '.' text.toList).map Text.trim).filter (!·.isEmpty)).map String.ofList⟩

/-- The dotted text of a path. -/
def text (path : Path) : String := String.intercalate "." path.segments

/-- The path of a member. -/
def join (path : Path) (segment : String) : Path := ⟨path.segments ++ [segment]⟩

/-- The path that leads along one path and then along another. -/
def extend (path other : Path) : Path := ⟨path.segments ++ other.segments⟩

/-- At most the first `length` segments. -/
def truncate (path : Path) (length : Nat) : Path := ⟨path.segments.take length⟩

/-- The last segment. -/
def last? (path : Path) : Option String := path.segments.getLast?

/-- The last segment, or the empty text at the top. -/
def name (path : Path) : String := path.last?.getD ""

/-- The path one segment shorter. -/
def parent? (path : Path) : Option Path :=
  if path.isRoot then none else some ⟨path.segments.dropLast⟩

/-- The path one segment shorter; the top is its own enclosing path. -/
def enclosing (path : Path) : Path := ⟨path.segments.dropLast⟩

/-- Whether the path begins with the segments of another. -/
def startsWith (path other : Path) : Bool := other.segments.isPrefixOf path.segments

/-- What remains of the path after the segments of another in front of it. -/
def stripFront? (path other : Path) : Option Path :=
  if path.startsWith other then some ⟨path.segments.drop other.size⟩ else none

/-- The proper beginnings of the path, the longest first and the top last. -/
def ancestors (path : Path) : List Path :=
  (List.range path.size).reverse.map path.truncate

/-! ## Laws -/

theorem extend_root (path : Path) : path.extend root = path := by
  simp [extend, root]

theorem root_extend (path : Path) : root.extend path = path := by
  simp [extend, root]

theorem extend_assoc (first second third : Path) :
    (first.extend second).extend third = first.extend (second.extend third) := by
  simp [extend]

theorem join_eq_extend (path : Path) (segment : String) : path.join segment = path.extend ⟨[segment]⟩ := rfl

theorem enclosing_join (path : Path) (segment : String) : (path.join segment).enclosing = path := by
  simp [enclosing, join]

/-- Stripping undoes extending. -/
theorem stripFront?_extend (path other : Path) : (path.extend other).stripFront? path = some other := by
  simp [stripFront?, startsWith, extend, size]

/-- Only extensions can be stripped. -/
theorem stripFront?_eq_some_iff {path other rest : Path} :
    path.stripFront? other = some rest ↔ path = other.extend rest := by
  constructor
  · intro found
    unfold stripFront? startsWith at found
    split at found
    · rename_i isFront
      obtain ⟨tail, tailEq⟩ := List.isPrefixOf_iff_prefix.mp isFront
      injection found with restEq
      subst restEq
      obtain ⟨segments⟩ := path
      simp only at tailEq
      subst tailEq
      simp [extend, size]
    · cases found
  · rintro rfl
    exact stripFront?_extend other rest

end Path

end Formwork
