import Formwork.CommandLine

/-!
# The command line

Reads the files that a command names, runs it, and prints its lines, or its message on the error stream.
-/

set_option autoImplicit false

namespace Formwork

/-- The text of a file, if it can be read. -/
def readText? (place : String) : IO (Option String) := do
  try return some (← IO.FS.readFile place) catch _ => return none

/-- The variables that settings are read from. -/
def settingsVariables : List String :=
  ["FORMSET_CONFIG_PATH", "FORMSET_ENDPOINT", "FORMSET_CSRF_TOKEN", "FORMSET_TIMEOUT_SECS"]

/-- The settings of the user. -/
def userSettings : IO Settings := do
  let values ← settingsVariables.mapM fun name => return (name, ← IO.getEnv name)
  let environment : Environment := fun name => (Assoc.get? name values).join
  let home := (← IO.getEnv "HOME").getD ""
  let directory := (← IO.getEnv "XDG_CONFIG_HOME").getD (placeBelow home ".config")
  return Settings.load (← readText? (Settings.place home directory environment)) environment

end Formwork

open Formwork

def main (arguments : List String) : IO UInt32 := do
  match Command.parse? arguments with
  | none =>
    IO.eprintln "error: expected one of: check, payload, replay"
    return 2
  | some command =>
    let contents ← command.filesOf.mapM fun place => return (place, ← readText? place)
    match command.run (fun place => (Assoc.get? place contents).join) (← userSettings) with
    | .ok lines =>
      for line in lines do IO.println line
      return 0
    | .error message =>
      IO.eprintln ("Error: " ++ message)
      return 1
