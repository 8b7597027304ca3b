import Formwork.Form

/-!
# Nodes

A tree is made of forms and collections. A collection groups named nodes. A *series* is a
collection that can be repeated: it holds siblings, each with the same named nodes, and a
template from which a new sibling is made. A *stepper* is a collection that also keeps how far
its members have been visited.

Nodes hold no paths. The path of a member is the path of its collection followed by its name,
and beneath a series the index of the sibling stands in between. Three recursions carry
everything else: `Node.nodes` lists what is in a tree together with its path, `Node.lineage`
follows a path down, and `Node.along` changes what stands on the way of a path.
-/

set_option autoImplicit false

namespace Formwork

open Formwork.Text

/-- What a collection holds besides its members. -/
structure Frame where
  plan : CollectionPlan
  /-- Activates the collection as a step of a stepper. -/
  inducer : Option Inducer
deriving Repr

namespace Frame

/-- The inducer of a collection at a path, if it has turned true since it was last remembered. -/
def rising (lookup : Lookup) (path : Path) (frame : Frame) : List InducedEvent :=
  (frame.inducer.toList.filter (·.rises path lookup)).map fun inducer => ⟨inducer.induction, path⟩

/-- The frame with the truth of its inducer remembered. -/
def latch (lookup : Lookup) (path : Path) (frame : Frame) : Frame :=
  { frame with inducer := frame.inducer.map (·.latch path lookup) }

/-- The number of siblings that a series must keep. -/
def least (frame : Frame) : Nat := frame.plan.minSiblings.getD 0

end Frame

/-- The values of a collection, or those of each live sibling of a series. -/
inductive SiblingData where
  | single (values : List (Path × Value))
  | siblings (values : List (List (Path × Value)))
deriving DecidableEq, Repr

/-- How far the steps of a stepper have been visited. -/
structure Progress where
  current : Nat
  /-- For each step, whether it has been visited. -/
  visited : List Bool
deriving DecidableEq, Repr

namespace Progress

/-- Of some steps, only the first one is visited from the start. -/
def start (steps : Nat) : Progress := ⟨0, (List.range steps).map (· == 0)⟩

/-- The last step that has been visited. -/
def furthest (progress : Progress) : Nat :=
  progress.visited.length - 1 - progress.visited.reverse.idxOf true

/-- Whether a step has been visited. -/
def hasVisited (progress : Progress) (index : Nat) : Bool := progress.visited.getD index false

/-- The progress after a move to a step. -/
def moveTo (index : Nat) (progress : Progress) : Progress :=
  ⟨index, progress.visited.set index true⟩

end Progress

mutual
/-- A form or a collection. -/
inductive Node where
  | form (content : Form)
  /-- A collection, or a stepper if it keeps a progress. -/
  | collection (frame : Frame) (progress : Option Progress) (members : List (String × Node))
  /-- A collection that can be repeated. -/
  | series (frame : Frame) (template : List (String × Node)) (siblings : List Sibling)

/-- One instance of the members of a series. A pristine sibling is offered, but was not
touched yet: it takes no part in validation and is not sent. -/
inductive Sibling where
  | mk (pristine : Bool) (members : List (String × Node))
end

namespace Sibling

def isPristine : Sibling → Bool
  | .mk pristine _ => pristine

def members : Sibling → List (String × Node)
  | .mk _ members => members

/-- A sibling that was touched. -/
def touched : Sibling → Sibling
  | .mk _ members => .mk false members

end Sibling

namespace Node

def form? : Node → Option Form
  | .form content => some content
  | _ => none

/-! ## Enumeration -/

mutual
/-- A node at a path and all nodes beneath it with their paths, in the order of rendering. The
pristine siblings are left out if only live ones are asked for. -/
def nodes (liveOnly : Bool) (path : Path) : Node → List (Path × Node)
  | .form content => [(path, .form content)]
  | .collection frame progress members =>
    (path, .collection frame progress members) :: memberNodes liveOnly path members
  | .series frame template siblings =>
    (path, .series frame template siblings) :: siblingNodes liveOnly path 0 siblings

/-- The nodes at and beneath some members at a path. -/
def memberNodes (liveOnly : Bool) (path : Path) : List (String × Node) → List (Path × Node)
  | [] => []
  | (name, node) :: rest => node.nodes liveOnly (path.join name) ++ memberNodes liveOnly path rest

/-- The nodes of the siblings of a series at a path, the first of which has the given index. -/
def siblingNodes (liveOnly : Bool) (path : Path) (index : Nat) : List Sibling → List (Path × Node)
  | [] => []
  | .mk pristine members :: rest =>
    (if liveOnly && pristine then [] else memberNodes liveOnly (path.join (indexText index)) members) ++
      siblingNodes liveOnly path (index + 1) rest
end

/-- The forms at and beneath a node. -/
def forms (liveOnly : Bool) (path : Path) (node : Node) : List (Path × Form) :=
  (node.nodes liveOnly path).filterMap fun (place, inner) => inner.form?.map (place, ·)

/-- The fields at and beneath a node, those of pristine siblings included. -/
def fields (path : Path) (node : Node) : List (Path × Field) :=
  (node.forms false path).flatMap fun (place, content) => content.fields place

/-- The paths and nodes that stand directly beneath a collection. -/
def children (path : Path) : Node → List (Path × Node)
  | .form _ => []
  | .collection _ _ members => members.map fun (name, node) => (path.join name, node)
  | .series _ _ siblings => siblings.zipIdx.flatMap fun (sibling, index) =>
    sibling.members.map fun (name, node) => ((path.join (indexText index)).join name, node)

/-! ## Following a path -/

mutual
/-- The nodes on the way along some segments, outermost first, each with the segments that
remain behind it. -/
def lineage (segments : List String) : Node → List (List String × Node)
  | .form content => [(segments, .form content)]
  | .collection frame progress members =>
    (segments, .collection frame progress members) :: memberLineage segments members
  | .series frame template siblings =>
    (segments, .series frame template siblings) ::
      match segments with
      | [] => []
      | index :: rest =>
        match canonicalIndex? index with
        | some position => siblingLineage rest position siblings
        | none => []

/-- The way on through named members. -/
def memberLineage (segments : List String) : List (String × Node) → List (List String × Node)
  | [] => []
  | (name, node) :: others =>
    match segments with
    | [] => []
    | first :: rest => if first = name then node.lineage rest else memberLineage segments others

/-- The way on through the sibling at an index. -/
def siblingLineage (segments : List String) : Nat → List Sibling → List (List String × Node)
  | _, [] => []
  | 0, .mk _ members :: _ => memberLineage segments members
  | index + 1, _ :: rest => siblingLineage segments index rest
end

/-- The node that some segments lead to. -/
def get? (segments : List String) (node : Node) : Option Node :=
  (node.lineage segments).findSome? fun (remaining, inner) => if remaining.isEmpty then some inner else none

/-- The form that some segments lead into, and the names that remain inside the form. -/
def formAt? (segments : List String) (node : Node) : Option (List String × Form) :=
  (node.lineage segments).findSome? fun (remaining, inner) => inner.form?.map (remaining, ·)

/-- The field that some segments lead to. -/
def field? (segments : List String) (node : Node) : Option Field :=
  (node.formAt? segments).bind fun (names, content) => content.field? names

/-- The group of the form or fieldset that some segments lead to. -/
def group? (segments : List String) (node : Node) : Option Group :=
  (node.formAt? segments).bind fun (names, content) => content.group? names

/-! ## Changing along a path -/

mutual
/-- Changes every node on the way along some segments, the innermost first. The change is told
which segments remain behind the node. -/
def along (change : List String → Node → Node) (segments : List String) : Node → Node
  | .form content => change segments (.form content)
  | .collection frame progress members =>
    change segments (.collection frame progress (alongMembers change segments members))
  | .series frame template siblings =>
    change segments (.series frame template
      (match segments with
      | [] => siblings
      | index :: rest =>
        match canonicalIndex? index with
        | some position => alongSiblings change rest position siblings
        | none => siblings))

/-- The change carried on into named members. -/
def alongMembers (change : List String → Node → Node) (segments : List String) :
    List (String × Node) → List (String × Node)
  | [] => []
  | (name, node) :: others =>
    match segments with
    | [] => (name, node) :: others
    | first :: rest =>
      if first = name then (name, node.along change rest) :: others
      else (name, node) :: alongMembers change segments others

/-- The change carried on into the sibling at an index. -/
def alongSiblings (change : List String → Node → Node) (segments : List String) :
    Nat → List Sibling → List Sibling
  | _, [] => []
  | 0, .mk pristine members :: rest => .mk pristine (alongMembers change segments members) :: rest
  | index + 1, sibling :: rest => sibling :: alongSiblings change segments index rest
end

/-- Changes the node that some segments lead to. -/
def modify (change : Node → Node) : List String → Node → Node :=
  along fun remaining node => if remaining.isEmpty then change node else node

/-- Changes the form that some segments lead into; the change is told the names that remain. -/
def modifyForm (change : List String → Form → Form) : List String → Node → Node :=
  along fun
    | names, .form content => .form (change names content)
    | _, other => other

/-- Changes the field that some segments lead to. -/
def modifyField (change : Field → Field) : List String → Node → Node :=
  modifyForm fun names => Form.modifyField change names

/-- Changes the group of the form or fieldset that some segments lead to. -/
def modifyGroup (change : Group → Group) : List String → Node → Node :=
  modifyForm fun names => Form.modifyGroup change names

/-- Touches every sibling on the way along some segments. -/
def touch : List String → Node → Node :=
  along fun
    | index :: _, .series frame template siblings =>
      match canonicalIndex? index with
      | some position => .series frame template (siblings.modify position Sibling.touched)
      | none => .series frame template siblings
    | _, other => other

/-! ## Changing everything -/

mutual
/-- Changes every form and every frame at and beneath a node at a path; pristine siblings are
passed over if only live ones are to change. -/
def map (liveOnly : Bool) (onForm : Path → Form → Form) (onFrame : Path → Frame → Frame) (path : Path) :
    Node → Node
  | .form content => .form (onForm path content)
  | .collection frame progress members =>
    .collection (onFrame path frame) progress (mapMembers liveOnly onForm onFrame path members)
  | .series frame template siblings =>
    .series (onFrame path frame) template (mapSiblings liveOnly onForm onFrame path 0 siblings)

/-- `map` for named members. -/
def mapMembers (liveOnly : Bool) (onForm : Path → Form → Form) (onFrame : Path → Frame → Frame)
    (path : Path) : List (String × Node) → List (String × Node)
  | [] => []
  | (name, node) :: rest =>
    (name, node.map liveOnly onForm onFrame (path.join name)) :: mapMembers liveOnly onForm onFrame path rest

/-- `map` for siblings, the first of which has the given index. -/
def mapSiblings (liveOnly : Bool) (onForm : Path → Form → Form) (onFrame : Path → Frame → Frame)
    (path : Path) (index : Nat) : List Sibling → List Sibling
  | [] => []
  | .mk pristine members :: rest =>
    .mk pristine
        (if liveOnly && pristine then members
        else mapMembers liveOnly onForm onFrame (path.join (indexText index)) members) ::
      mapSiblings liveOnly onForm onFrame path (index + 1) rest
end

/-- Changes every form at and beneath a node. -/
def mapForms (change : Form → Form) : Node → Node :=
  map false (fun _ content => change content) (fun _ frame => frame) .root

/-- The node at a path with all flags derived anew. -/
def refresh (lookup : Lookup) (path : Path) : Node → Node :=
  map false (Form.refresh lookup) (fun _ frame => frame) path

/-- The node at a path with the truth of all inducers remembered. -/
def latch (lookup : Lookup) (path : Path) : Node → Node :=
  map false (Form.latch lookup) (Frame.latch lookup) path

/-- The inducers of a node itself that have turned true since they were last remembered. -/
def risingHere (lookup : Lookup) (path : Path) : Node → List InducedEvent
  | .form content => content.rising lookup path
  | .collection frame _ _ => frame.rising lookup path
  | .series frame _ _ => frame.rising lookup path

/-- The inducers at and beneath a node that have turned true since they were last remembered,
in the order of rendering. -/
def rising (lookup : Lookup) (path : Path) (node : Node) : List InducedEvent :=
  (node.nodes false path).flatMap fun (place, inner) => inner.risingHere lookup place

/-- Restores the values at mounting and forgets all messages. -/
def reset : Node → Node := mapForms Form.reset

/-- Forgets all messages. -/
def clearErrors : Node → Node := mapForms Form.clearErrors

/-! ## Validation and data -/

/-- The operable fields beneath a node that are invalid, with their messages. Closed dialogs and
pristine siblings take no part. -/
def failures (path : Path) (node : Node) : List (Path × List String) :=
  (node.forms true path).flatMap fun (place, content) =>
    if content.isClosedDialog then [] else content.failures place

/-- Records the outcome of the check on every operable field that takes part in validation. -/
def validate (path : Path) : Node → Node :=
  map true (fun place content => if content.isClosedDialog then content else content.validate place)
    (fun _ frame => frame) path

/-- Whether every form that takes part in validation is valid and shows no messages. -/
def isValid (node : Node) : Bool :=
  (node.forms true .root).all fun (_, content) => content.isClosedDialog || content.isValid

/-- The values of the operable fields outside pristine siblings. -/
def collected (path : Path) (node : Node) : List (Path × Value) :=
  (node.forms true path).flatMap fun (place, content) => content.collected place

/-- The values of the operable fields beneath some members at a path. -/
def collectedAll (path : Path) (members : List (String × Node)) : List (Path × Value) :=
  members.flatMap fun (name, node) => node.collected (path.join name)

/-- The values of a collection at a path; a form has none of this kind. -/
def siblingData (path : Path) : Node → Option SiblingData
  | .form _ => none
  | .collection _ _ members => some (.single (collectedAll path members))
  | .series _ _ siblings =>
    some (.siblings ((siblings.zipIdx.filter fun (sibling, _) => !sibling.isPristine).map
      fun (sibling, index) => collectedAll (path.join (indexText index)) sibling.members))

mutual
/-- The part of a payload for a node: the fields of a form, an object of members for a
collection, and a list with one object for each live sibling of a series. -/
def wire : Node → Json
  | .form content => content.wire
  | .collection _ _ members => .object (wireMembers members)
  | .series _ _ siblings => .list (wireSiblings siblings)

/-- The parts of a payload for named members. -/
def wireMembers : List (String × Node) → List (String × Json)
  | [] => []
  | (name, node) :: rest => (name, node.wire) :: wireMembers rest

/-- The parts of a payload for the live siblings. -/
def wireSiblings : List Sibling → List Json
  | [] => []
  | .mk pristine members :: rest =>
    if pristine then wireSiblings rest else .object (wireMembers members) :: wireSiblings rest
end

end Node

end Formwork
