import Formwork.Client.Exchange
import Formwork.Event.Script
import Formwork.Markup
import Formwork.Plan.Text
import Formwork.Redaction
import Formwork.Session

/-!
# Commands

Three commands work on the file of a description: `check` mounts it, `payload` prints what a tree that
was just mounted would submit, and `replay` carries out a script of events and prints a report for
each. A command is a function from the contents of files to the lines that it prints, or to the
message with which it fails.
-/

set_option autoImplicit false

namespace Formwork

/-- A command. -/
inductive Command where
  | check (file : String) (showsMarkup : Bool)
  | payload (file : String) (initial : Option String)
  | replay (file script : String) (initial : Option String) (submits : Bool)
deriving DecidableEq, Repr

/-- The contents of files by their names. -/
abbrev Files := String → Option String

namespace Command

/-! ## Reading arguments -/

/-- The options of the commands: their long name, their letter, and whether a value follows. -/
def options : List (String × Option Char × Bool) :=
  [("file", some 'f', true), ("script", some 's', true), ("initial", none, true), ("markup", none, false),
    ("submit", none, false)]

/-- The options that a command takes. -/
def optionNames : String → List String
  | "check" => ["file", "markup"]
  | "payload" => ["file", "initial"]
  | "replay" => ["file", "script", "initial", "submit"]
  | _ => []

/-- The option that an argument names, and the value that is part of the argument. -/
def optionOf? (argument : String) : Option ((String × Bool) × Option String) :=
  match argument.toList with
  | '-' :: '-' :: rest =>
    let name := rest.takeWhile (· != '=')
    let value := match rest.drop name.length with
      | [] => none
      | _ :: text => some (String.ofList text)
    (options.find? fun (long, _, _) => long == String.ofList name).map fun (long, _, takes) => ((long, takes), value)
  | '-' :: letter :: rest =>
    let value := match rest with
      | [] => none
      | '=' :: text => some (String.ofList text)
      | text => some (String.ofList text)
    (options.find? fun (_, short, _) => short == some letter).map fun (long, _, takes) => ((long, takes), value)
  | _ => none

/-- The options and values among arguments. -/
def gather? : List String → Option (List (String × String))
  | [] => some []
  | argument :: rest =>
    match optionOf? argument with
    | some ((name, true), some value) => (gather? rest).map fun found => (name, value) :: found
    | some ((name, true), none) =>
      match rest with
      | value :: others => (gather? others).map fun found => (name, value) :: found
      | [] => none
    | some ((name, false), none) => (gather? rest).map fun found => (name, "") :: found
    | _ => none

/-- The command that arguments ask for. No option may be repeated. -/
def parse? : List String → Option Command
  | [] => none
  | name :: arguments => do
    let found ← gather? arguments
    if found.any fun (option, _) => !(optionNames name).contains option then none
    if !Assoc.distinct (Assoc.keys found) then none
    let file ← Assoc.get? "file" found
    let initial := Assoc.get? "initial" found
    match name with
    | "check" => return .check file (Assoc.has "markup" found)
    | "payload" => return .payload file initial
    | "replay" => return .replay file (← Assoc.get? "script" found) initial (Assoc.has "submit" found)
    | _ => none

/-- The files that a command reads. -/
def filesOf : Command → List String
  | .check file _ => [file]
  | .payload file initial => file :: initial.toList
  | .replay file script initial _ => file :: script :: initial.toList

/-! ## Running -/

/-- The blueprint in a file. -/
def readBlueprint (files : Files) (file : String) : Except String Blueprint :=
  match files file with
  | none => .error ("Failed to read description file: " ++ file)
  | some text =>
    match Blueprint.ofText? text with
    | some blueprint => .ok blueprint
    | none => .error ("Invalid description in " ++ file)

/-- The JSON value that a file, written in YAML or JSON, means. -/
def readDocument (files : Files) (file : String) : Except String Json :=
  match files file with
  | none => .error ("Failed to read " ++ file)
  | some text =>
    match (Outline.read? text).bind (Event.valueJson? Outline.maximalDepth) with
    | some json => .ok json
    | none => .error ("Invalid document in " ++ file)

/-- The events in a file. -/
def readScript (files : Files) (file : String) : Except String (List Event) :=
  match files file with
  | none => .error ("Failed to read script " ++ file)
  | some text =>
    match Event.script? text with
    | some events => .ok events
    | none => .error ("Invalid event script in " ++ file)

/-- The tree of a description with the initial data of another file. -/
def mountFile (files : Files) (file : String) (initial : Option String) : Except String Tree := do
  let blueprint ← readBlueprint files file
  let data ← match initial with
    | none => pure none
    | some place => (readDocument files place).map some
  match Tree.mount blueprint data with
  | .ok tree => return tree
  | .error _ => throw ("Failed to mount " ++ file)

/-- The line that reports an event of a replay. -/
def reportLine (index : Nat) (event : Event) (key : String) (told : Json) : String :=
  (Json.object [("step", .natural index), ("event", event.toJson), (key, told)]).print

/-- Carries out the events of a replay from the given index on. An event that is refused changes
nothing. -/
def replayFrom (index : Nat) : List Event → Session → List String × Session
  | [], session => ([], session)
  | event :: rest, session =>
    let (line, after) := match session.dispatch event with
      | .ok (after, report) => (reportLine index event "report" report.toJson, after)
      | .error rejection => (reportLine index event "rejected" (.text rejection.message), session)
    let (lines, final) := replayFrom (index + 1) rest after
    (line :: lines, final)

/-- The lines that a command prints, or the message with which it fails. A replay that delivers to an
endpoint is refused here, because a command asks no server. -/
def run (files : Files) (settings : Settings) : Command → Except String (List String)
  | .check file showsMarkup => do
    let tree ← mountFile files file none
    let markup := if showsMarkup then tree.markup else []
    return (file ++ ": ok") :: markup.map fun (path, conditions) => path.text ++ ": " ++ conditions.render
  | .payload file initial => do
    let tree ← mountFile files file initial
    return [(wrapData tree.payload).printIndented]
  | .replay file script initial submits => do
    let tree ← mountFile files file initial
    let events ← readScript files script
    if submits then
      match settings.target with
      | .error problem => throw problem.message
      | .ok address => throw ("no delivery to " ++ redact address.text)
    let (lines, final) := replayFrom 0 events (.start tree [])
    return lines ++ [(Json.object [("payload", wrapData final.tree.payload)]).print]

end Command

end Formwork
