import Formwork.Tree

/-!
# Conditions as markup

The conditions of a form, fieldset or field can be carried by the attributes of an element:
`df-show`, `df-hide`, `df-disable`, `df-require` and three for inducers. An attribute list is
read back into conditions (`Markup.ofAttributes`), and conditions are written as one text with
the values escaped (`Markup.render`).
-/

set_option autoImplicit false

namespace Formwork

/-- The conditions that the attributes of an element carry. -/
structure Markup where
  showWhile : Option String
  hideWhile : Option String
  disableWhile : Option String
  requireWhile : Option String
  openWhen : Option String
  closeWhen : Option String
  activateWhen : Option String
deriving DecidableEq, Repr

/-- Why a list of attributes carries no conditions. -/
inductive MarkupError where
  | unknown (name : String)
  | repeated (name : String)
deriving DecidableEq, Repr

def MarkupError.message : MarkupError → String
  | .unknown name => "unknown attribute '" ++ name ++ "'"
  | .repeated name => "attribute '" ++ name ++ "' given more than once"

namespace Markup

/-- No conditions. -/
def absent : Markup := ⟨none, none, none, none, none, none, none⟩

/-! ## Conversions -/

/-- The conditions of a form or fieldset. -/
def ofConditions (conditions : Conditions) : Markup where
  showWhile := conditions.showWhile
  hideWhile := conditions.hideWhile
  disableWhile := conditions.disableWhile
  requireWhile := none
  openWhen := conditions.openWhen
  closeWhen := conditions.closeWhen
  activateWhen := conditions.activateWhen

/-- The conditions for a form or fieldset, which cannot be required. -/
def toConditions (markup : Markup) : Conditions where
  showWhile := markup.showWhile
  hideWhile := markup.hideWhile
  disableWhile := markup.disableWhile
  activateWhen := markup.activateWhen
  openWhen := markup.openWhen
  closeWhen := markup.closeWhen

/-- The conditions of a field. -/
def ofField (plan : FieldPlan) : Markup where
  showWhile := plan.showWhile
  hideWhile := plan.hideWhile
  disableWhile := plan.disableWhile
  requireWhile := plan.requireWhile
  openWhen := none
  closeWhen := none
  activateWhen := none

/-- The condition of a collection. -/
def ofCollection (plan : CollectionPlan) : Markup := { absent with activateWhen := plan.activateWhen }

/-! ## Attributes -/

/-- The condition in a role. -/
def get (markup : Markup) : Role → Option String
  | .showing => markup.showWhile
  | .hiding => markup.hideWhile
  | .disabling => markup.disableWhile
  | .requiring => markup.requireWhile
  | .opening => markup.openWhen
  | .closing => markup.closeWhen
  | .activating => markup.activateWhen

/-- Sets the condition in a role. -/
def set (role : Role) (source : String) (markup : Markup) : Markup :=
  match role with
  | .showing => { markup with showWhile := some source }
  | .hiding => { markup with hideWhile := some source }
  | .disabling => { markup with disableWhile := some source }
  | .requiring => { markup with requireWhile := some source }
  | .opening => { markup with openWhen := some source }
  | .closing => { markup with closeWhen := some source }
  | .activating => { markup with activateWhen := some source }

/-- All roles, in the order in which their attributes are written. -/
def roles : List Role := [.showing, .hiding, .disabling, .requiring, .opening, .closing, .activating]

/-- The attribute of a role. -/
def attributeName : Role → String
  | .showing => "df-show"
  | .hiding => "df-hide"
  | .disabling => "df-disable"
  | .requiring => "df-require"
  | .opening => "df-induce-open"
  | .closing => "df-induce-close"
  | .activating => "df-induce-activate"

/-- The role of an attribute. -/
def roleOf? (name : String) : Option Role := roles.find? fun role => attributeName role == name

/-- Whether an attribute is one of those that carry conditions, known or not. -/
def isReserved (name : String) : Bool := "df-".toList.isPrefixOf name.toList

/-- Takes the conditions of attributes up, one after the other. -/
def takeAttributes : List (String × String) → Markup → Except MarkupError Markup
  | [], markup => .ok markup
  | (name, value) :: rest, markup =>
    if isReserved name then
      match roleOf? name with
      | none => .error (.unknown name)
      | some role =>
        if (markup.get role).isSome then .error (.repeated name)
        else takeAttributes rest (markup.set role value)
    else takeAttributes rest markup

/-- The conditions that a list of attributes carries. All other attributes are ignored. -/
def ofAttributes (attributes : List (String × String)) : Except MarkupError Markup :=
  takeAttributes attributes absent

/-- The attributes that carry the conditions, in their order. -/
def toAttributes (markup : Markup) : List (String × String) :=
  roles.filterMap fun role => (markup.get role).map (attributeName role, ·)

def isEmpty (markup : Markup) : Bool := markup.toAttributes.isEmpty

/-! ## Rendering -/

/-- A character as it stands in the value of an attribute. -/
def escapeCharacter : Char → List Char
  | '&' => "&amp;".toList
  | '\x22' => "&quot;".toList
  | '<' => "&lt;".toList
  | '>' => "&gt;".toList
  | other => [other]

/-- The value of an attribute as it stands between double quotes. -/
def escape (value : String) : String := String.ofList (value.toList.flatMap escapeCharacter)

/-- One attribute as it is written. -/
def renderAttribute (name value : String) : String := name ++ "=\"" ++ escape value ++ "\""

/-- All attributes as they are written in an element. -/
def render (markup : Markup) : String :=
  String.intercalate " " (markup.toAttributes.map fun (name, value) => renderAttribute name value)

/-! ## Checking -/

/-- Checks that every condition can be read and that an element is not both shown and hidden. -/
def check (path : Path) (markup : Markup) : Except MountError Unit := do
  let _ ← Visibility.compile path markup.showWhile markup.hideWhile
  let _ ← compileOptional path .disabling markup.disableWhile
  let _ ← compileOptional path .requiring markup.requireWhile
  let _ ← compileOptional path .opening markup.openWhen
  let _ ← compileOptional path .closing markup.closeWhen
  let _ ← compileOptional path .activating markup.activateWhen
  return ()

/-! ## The markup of a tree -/

/-- The markup of what stands at a position beneath a form. -/
def ofItem : Item → Markup
  | .field entry => ofField entry.plan
  | .fieldset group => ofConditions group.plan.conditions

/-- The markup of a node itself and, for a form, of everything in it. -/
def ofNode (path : Path) : Node → List (Path × Markup)
  | .form content =>
    (path, ofConditions content.group.plan.conditions) ::
      (Member.itemsAll path content.members).map fun (place, item) => (place, ofItem item)
  | .collection frame _ _ => [(path, ofCollection frame.plan)]
  | .series frame _ _ => [(path, ofCollection frame.plan)]

end Markup

/-- The markup of everything in a tree that has a condition, in the order of rendering. -/
def Tree.markup (tree : Tree) : List (Path × Markup) :=
  ((tree.root.nodes false tree.here).flatMap fun (place, node) => Markup.ofNode place node).filter
    fun (_, markup) => !markup.isEmpty

end Formwork
