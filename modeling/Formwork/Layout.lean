import Formwork.Node.Mounting

/-!
# Remembered paths

The elements of a tree can be made to remember their paths. Then a path is kept many times over: by
the element itself, in front of the paths of all elements beneath it, and once more in the template
of every series above. A *layout* is what the elements of a node remember.

Elements get their paths when they are built (`Node.layout`). Only siblings that come and go change
them: a new sibling is a copy of the template moved to its place, and the siblings behind it are
renumbered (`Layout.addSibling`, `Layout.removeSibling`). An element is found by trying which of the
elements beneath a collection remembers a beginning of the path that is looked for (`Layout.way?`).
-/

set_option autoImplicit false

namespace Formwork

open Formwork.Text

/-- The path that an element remembers, and what the elements beneath it remember. -/
inductive Layout where
  | field (path : Path)
  | fieldset (path : Path) (members : List (String × Layout))
  | form (path : Path) (members : List (String × Layout))
  | collection (path : Path) (members : List (String × Layout))
  | series (path : Path) (template : List (String × Layout)) (siblings : List (List (String × Layout)))

/-! ## The paths at building -/

mutual
/-- What a member that is built at a path remembers. -/
def Member.layout (path : Path) : Member → Layout
  | .field _ => .field path
  | .fieldset _ members => .fieldset path (Member.layoutAll path members)

/-- What the members of a group that is built at a path remember. -/
def Member.layoutAll (path : Path) : List (String × Member) → List (String × Layout)
  | [] => []
  | (name, member) :: rest => (name, member.layout (path.join name)) :: Member.layoutAll path rest
end

mutual
/-- What a node that is built at a path remembers. -/
def Node.layout (path : Path) : Node → Layout
  | .form content => .form path (Member.layoutAll path content.members)
  | .collection _ _ members => .collection path (Node.layoutMembers path members)
  | .series _ template siblings =>
    .series path (Node.layoutMembers (path.join templateSegment) template)
      (Node.layoutSiblings path 0 siblings)

/-- What the members of a collection that is built at a path remember. -/
def Node.layoutMembers (path : Path) : List (String × Node) → List (String × Layout)
  | [] => []
  | (name, node) :: rest => (name, node.layout (path.join name)) :: Node.layoutMembers path rest

/-- What the siblings of a series at a path remember, the first of which has the given index. -/
def Node.layoutSiblings (path : Path) (index : Nat) : List Sibling → List (List (String × Layout))
  | [] => []
  | .mk _ members :: rest =>
    Node.layoutMembers (path.join (indexText index)) members :: Node.layoutSiblings path (index + 1) rest
end

namespace Layout

/-- The path that the element itself remembers. -/
def path : Layout → Path
  | .field path => path
  | .fieldset path _ => path
  | .form path _ => path
  | .collection path _ => path
  | .series path _ _ => path

/-! ## Enumeration -/

mutual
/-- An element and everything beneath it in the order of rendering, templates apart. -/
def elements : Layout → List Layout
  | .field path => [.field path]
  | .fieldset path members => .fieldset path members :: memberElements members
  | .form path members => .form path members :: memberElements members
  | .collection path members => .collection path members :: memberElements members
  | .series path template siblings => .series path template siblings :: siblingElements siblings

/-- The elements at and beneath some members. -/
def memberElements : List (String × Layout) → List Layout
  | [] => []
  | (_, part) :: rest => part.elements ++ memberElements rest

/-- The elements of the siblings of a series. -/
def siblingElements : List (List (String × Layout)) → List Layout
  | [] => []
  | members :: rest => memberElements members ++ siblingElements rest
end

def isField : Layout → Bool
  | .field _ => true
  | _ => false

/-- Whether the element is a form or a fieldset. -/
def isGroup : Layout → Bool
  | .fieldset _ _ => true
  | .form _ _ => true
  | _ => false

/-- Whether the element is a form or a collection. -/
def isNode : Layout → Bool
  | .field _ => false
  | .fieldset _ _ => false
  | _ => true

/-- The paths that the elements of a kind remember. -/
def paths (kind : Layout → Bool) (layout : Layout) : List Path := (layout.elements.filter kind).map path

/-! ## Moving -/

mutual
/-- Moves an element with everything beneath it to a path. -/
def rebase (place : Path) : Layout → Layout
  | .field _ => .field place
  | .fieldset _ members => .fieldset place (rebaseMembers place members)
  | .form _ members => .form place (rebaseMembers place members)
  | .collection _ members => .collection place (rebaseMembers place members)
  | .series _ template siblings =>
    .series place (rebaseMembers (place.join Node.templateSegment) template) (renumber place 0 siblings)

/-- Moves members beneath a path. -/
def rebaseMembers (place : Path) : List (String × Layout) → List (String × Layout)
  | [] => []
  | (name, part) :: rest => (name, part.rebase (place.join name)) :: rebaseMembers place rest

/-- Moves siblings beneath the path of their series, the first of which has the given index. -/
def renumber (place : Path) (index : Nat) : List (List (String × Layout)) → List (List (String × Layout))
  | [] => []
  | members :: rest => rebaseMembers (place.join (indexText index)) members :: renumber place (index + 1) rest
end

/-- Moves the siblings of a series from an index on. -/
def renumberFrom (place : Path) (first : Nat) (siblings : List (List (String × Layout))) :
    List (List (String × Layout)) :=
  siblings.take first ++ renumber place first (siblings.drop first)

/-- Puts a copy of the template behind a sibling or at the end, and renumbers the siblings behind it. -/
def addSibling (behind : Option Nat) : Layout → Layout
  | .series path template siblings =>
    let position := behind.elim siblings.length (· + 1)
    let copy := rebaseMembers (path.join (indexText position)) template
    .series path template (renumberFrom path (position + 1) (siblings.insertIdx position copy))
  | other => other

/-- Leaves out a sibling, and renumbers the siblings behind it. -/
def removeSibling (index : Nat) : Layout → Layout
  | .series path template siblings =>
    .series path template (renumberFrom path index (siblings.eraseIdx index))
  | other => other

/-! ## Searching -/

/-- Whether a path leads to the element or beneath it, by the path that the element remembers. -/
def leads (place : Path) (layout : Layout) : Bool := place.startsWith layout.path

mutual
/-- The names and indices that lead to a path. Beneath a collection the search goes on in the first
element that leads to the path; inside a form it goes by names. -/
def way? (place : Path) : Layout → Option (List String)
  | .field path => if path = place then some [] else none
  | .fieldset path _ => (place.stripFront? path).map Path.segments
  | .form path _ => (place.stripFront? path).map Path.segments
  | .collection path members => if path = place then some [] else memberWay? place members
  | .series path _ siblings => if path = place then some [] else siblingWay? place 0 siblings

/-- The way on through the first of some members that leads to a path. -/
def memberWay? (place : Path) : List (String × Layout) → Option (List String)
  | [] => none
  | (name, part) :: rest =>
    if part.leads place then (part.way? place).map (name :: ·) else memberWay? place rest

/-- The way on through the first of some siblings with a member that leads to a path. -/
def siblingWay? (place : Path) (index : Nat) : List (List (String × Layout)) → Option (List String)
  | [] => none
  | members :: rest =>
    if members.any fun entry => entry.2.leads place then
      (memberWay? place members).map (indexText index :: ·)
    else siblingWay? place (index + 1) rest
end

/-- The node that is found at a path. -/
def node? (layout : Layout) (root : Node) (place : Path) : Option Node :=
  (layout.way? place).bind fun segments => root.get? segments

/-- The group of the form or fieldset that is found at a path. -/
def group? (layout : Layout) (root : Node) (place : Path) : Option Group :=
  (layout.way? place).bind fun segments => root.group? segments

/-- The field that is found at a path. -/
def field? (layout : Layout) (root : Node) (place : Path) : Option Field :=
  (layout.way? place).bind fun segments => root.field? segments

mutual
/-- Changes the node that is found at a path. -/
def changeAt (edit : Layout → Layout) (place : Path) : Layout → Layout
  | .field path => .field path
  | .fieldset path members => .fieldset path members
  | .form path members => if path = place then edit (.form path members) else .form path members
  | .collection path members =>
    if path = place then edit (.collection path members)
    else .collection path (changeMembers edit place members)
  | .series path template siblings =>
    if path = place then edit (.series path template siblings)
    else .series path template (changeSiblings edit place siblings)

/-- Changes the node at a path beneath the first of some members that leads there. -/
def changeMembers (edit : Layout → Layout) (place : Path) : List (String × Layout) → List (String × Layout)
  | [] => []
  | (name, part) :: rest =>
    if part.leads place then (name, part.changeAt edit place) :: rest
    else (name, part) :: changeMembers edit place rest

/-- Changes the node at a path beneath the first of some siblings with a member that leads there. -/
def changeSiblings (edit : Layout → Layout) (place : Path) :
    List (List (String × Layout)) → List (List (String × Layout))
  | [] => []
  | members :: rest =>
    if members.any fun entry => entry.2.leads place then changeMembers edit place members :: rest
    else members :: changeSiblings edit place rest
end

end Layout

end Formwork
