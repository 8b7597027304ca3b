import Formwork.InitialData
import Formwork.Node

/-!
# Building nodes from plans

Building has two parts. `Node.build` reads all conditions, actions and patterns of a plan and
may fail; it does not see any initial data. `Node.fill` then puts the initial data in place
and cannot fail. So whether a description can be mounted does not depend on the data.

The members of a series are built once, as its template, at a path with `__prefix__` in the place of
an index. All siblings are copies of the template.
-/

set_option autoImplicit false

namespace Formwork

open Formwork.Text

/-- Where a node stands, as far as building is concerned. -/
structure Placement where
  /-- The node is a member of a stepper. -/
  isStep : Bool
  /-- The node is somewhere beneath a series. -/
  withinSeries : Bool
deriving DecidableEq, Repr

/-- The placement of the root of a tree. -/
def Placement.top : Placement := ⟨false, false⟩

/-- Checks the name of a member of the element at a path. -/
def checkName (parent : Path) (name : String) : Except MountError Unit :=
  if isMemberName name.toList then .ok () else .error (.invalidMemberName parent name)

/-! ## Forms -/

namespace Member

/-- Checks that a fieldset declares no inducer. -/
def checkFieldset (path : Path) (conditions : Conditions) : Except MountError Unit :=
  if conditions.openWhen.isSome then .error (.misplacedInducer path .opening)
  else if conditions.closeWhen.isSome then .error (.misplacedInducer path .closing)
  else if conditions.activateWhen.isSome then .error (.misplacedInducer path .activating)
  else .ok ()

mutual
/-- The member of a plan at a path, without initial data. -/
def build (path : Path) : MemberPlan → Except MountError Member
  | .field plan => do
    let built ← Field.build path plan
    return .field built
  | .fieldset plan members => do
    checkFieldset path plan.conditions
    let group ← Group.build path plan
    let members ← buildAll path members
    return .fieldset group members

/-- The members of a group at a path. -/
def buildAll (path : Path) : List (String × MemberPlan) → Except MountError (List (String × Member))
  | [] => .ok []
  | (name, plan) :: rest => do
    checkName path name
    let member ← build (path.join name) plan
    let others ← buildAll path rest
    return (name, member) :: others
end

mutual
/-- Puts the initial data of a member in place. -/
def fill (initial : Option Json) : Member → Member
  | .field entry => .field (entry.fill initial)
  | .fieldset group members => .fieldset group (fillAll initial members)

/-- Puts the initial data of the members of a group in place. -/
def fillAll (initial : Option Json) : List (String × Member) → List (String × Member)
  | [] => []
  | (name, member) :: rest =>
    (name, member.fill (initial.bind (Json.field? name))) :: fillAll initial rest
end

end Member

/-- The inducer of a form or collection, of which only a step may declare one that activates. -/
def compileActivation (path : Path) (placement : Placement) :
    Option String → Except MountError (Option Inducer)
  | none => .ok none
  | some source =>
    if placement.isStep then (Inducer.compile path .activates source).map some
    else .error (.misplacedInducer path .activating)

/-- Reads the condition of an inducer that may be absent. -/
def Inducer.compileOptional (path : Path) (induction : Induction) :
    Option String → Except MountError (Option Inducer)
  | none => .ok none
  | some source => (Inducer.compile path induction source).map some

namespace Form

/-- The form of a plan at a path, without initial data. A form that is opened or closed by an inducer
is the content of a dialog even if it declares none. -/
def build (path : Path) (placement : Placement) (plan : GroupPlan) (dialog : Option DialogPlan)
    (members : List (String × MemberPlan)) : Except MountError Form := do
  let conditions := plan.conditions
  let opening ← Inducer.compileOptional path .opens conditions.openWhen
  let closing ← Inducer.compileOptional path .closes conditions.closeWhen
  let activating ← compileActivation path placement conditions.activateWhen
  let group ← Group.build path plan
  let members ← Member.buildAll path members
  let isDialog := dialog.isSome || conditions.openWhen.isSome || conditions.closeWhen.isSome
  return {
    group, members
    inducers := opening.toList ++ closing.toList ++ activating.toList
    dialog := if isDialog then some ⟨dialog.getD .plain, false⟩ else none }

/-- Puts the initial data of a form in place. -/
def fill (initial : Option Json) (form : Form) : Form :=
  { form with members := Member.fillAll initial form.members }

end Form

/-! ## Siblings -/

namespace Frame

/-- The siblings of a series at the start: the given ones, blank ones up to the least number, and
pristine ones as long as there is room and as many as the plan offers. -/
def populate (frame : Frame) (template : List (String × Node)) (given : List Sibling) : List Sibling :=
  let live := given ++ List.replicate (frame.least - given.length) (.mk false template)
  let offered := frame.plan.extraSiblings.getD 0
  let room := match frame.plan.maxSiblings with
    | some greatest => min offered (greatest - live.length)
    | none => offered
  live ++ List.replicate room (.mk true template)

/-- The first of some entries, as many as a series can hold. -/
def admitted {α : Type} (frame : Frame) (entries : List α) : List α :=
  match frame.plan.maxSiblings with
  | some greatest => entries.take greatest
  | none => entries

end Frame

/-! ## Nodes -/

namespace Node

/-- The segment in the place of an index while the template of a series is built. -/
def templateSegment : String := "__prefix__"

/-- The frame of a collection at a path, whose bounds must not contradict each other. -/
def buildFrame (path : Path) (placement : Placement) (plan : CollectionPlan) : Except MountError Frame := do
  match plan.maxSiblings with
  | some greatest =>
    let least := plan.minSiblings.getD 0
    if greatest < least then throw (.siblingBounds path least greatest)
  | none => pure ()
  let inducer ← compileActivation path placement plan.activateWhen
  return { plan, inducer }

mutual
/-- The node of a plan at a path, without initial data. -/
def build (path : Path) (placement : Placement) : NodePlan → Except MountError Node
  | .form plan dialog members => do
    let content ← Form.build path placement plan dialog members
    return .form content
  | .collection plan members => do
    let frame ← buildFrame path placement plan
    if plan.isRepeatable then
      let template ← buildMembers (path.join templateSegment) ⟨false, true⟩ members
      return .series frame template (frame.populate template [])
    else
      let members ← buildMembers path ⟨false, placement.withinSeries⟩ members
      return .collection frame none members
  | .stepper plan members => do
    if plan.isRepeatable || placement.withinSeries then throw (.repeatableStepper path)
    if members.isEmpty then throw (.emptyStepper path)
    let frame ← buildFrame path placement plan
    let members ← buildMembers path ⟨true, placement.withinSeries⟩ members
    return .collection frame (some (.start members.length)) members

/-- The members of a collection at a path, without initial data. -/
def buildMembers (path : Path) (placement : Placement) :
    List (String × NodePlan) → Except MountError (List (String × Node))
  | [] => .ok []
  | (name, plan) :: rest => do
    checkName path name
    let node ← build (path.join name) placement plan
    let others ← buildMembers path placement rest
    return (name, node) :: others
end

mutual
/-- Puts the initial data of a node that was just built in place. -/
def fill (initial : Option Json) : Node → Node
  | .form content => .form (content.fill initial)
  | .collection frame progress members => .collection frame progress (fillMembers initial members)
  | .series frame template _ =>
    let entries := frame.admitted (InitialData.siblingEntries initial)
    .series frame template
      (frame.populate template (entries.map fun entry => .mk false (fillMembers (some entry) template)))

/-- Puts the initial data of the members of a collection in place. -/
def fillMembers (initial : Option Json) : List (String × Node) → List (String × Node)
  | [] => []
  | (name, node) :: rest =>
    (name, node.fill (initial.bind (Json.field? name))) :: fillMembers initial rest
end

/-! ## Visited steps -/

/-- The flags of some steps after each step was marked that comes behind a visited and valid one, up to the
first step that does not. -/
def prefilledFlags : List Bool → List (String × Node) → List Bool
  | visited :: next :: flags, (_, node) :: rest =>
    visited :: if visited && node.isValid then prefilledFlags (true :: flags) rest else next :: flags
  | flags, _ => flags

/-- The progress through steps that may have been filled in already: a step is visited if all steps
before it are valid. -/
def prefilledProgress (members : List (String × Node)) (progress : Progress) : Progress :=
  { progress with visited := prefilledFlags progress.visited members }

mutual
/-- Marks the steps of every stepper as visited that come after valid ones. No stepper lies beneath
a series. -/
def markPrefilled : Node → Node
  | .form content => .form content
  | .collection frame progress members =>
    .collection frame (progress.map (prefilledProgress members)) (markPrefilledAll members)
  | .series frame template siblings => .series frame template siblings

/-- `markPrefilled` for named members. -/
def markPrefilledAll : List (String × Node) → List (String × Node)
  | [] => []
  | (name, node) :: rest => (name, node.markPrefilled) :: markPrefilledAll rest
end

end Node

end Formwork
