import Formwork.Document
import Formwork.Json.Reader
import Formwork.Text.Numeral

/-!
# Settings of a client

Where requests are sent, with which token, and how long an answer may take. Settings are read from
a JSON file, and three environment variables take precedence over it. A file that cannot be understood
counts as an empty one.
-/

set_option autoImplicit false

namespace Formwork

open Formwork.Text

/-- The settings of a client. -/
structure Settings where
  endpoint : Option String
  token : Option String
  timeoutSeconds : Nat
deriving DecidableEq, Repr

/-- The value of an environment variable. -/
abbrev Environment := String → Option String

namespace Environment

/-- The trimmed value of a variable, if anything is left of it. -/
def value? (environment : Environment) (name : String) : Option String :=
  ((environment name).map trimmed).filter (!·.isEmpty)

end Environment

/-! ## Places of files -/

/-- The place of a file relative to a directory; an absolute place stays as it is. -/
def placeBelow (directory place : String) : String :=
  match place.toList with
  | '/' :: _ => place
  | _ => directory ++ "/" ++ place

/-- The place with a home directory for a tilde in front. -/
def expandHome (home place : String) : String :=
  match place.toList with
  | '~' :: '/' :: rest => placeBelow home (String.ofList rest)
  | _ => place

namespace Settings

/-- No endpoint and half a minute. -/
def standard : Settings := ⟨none, none, 30⟩

/-- The place of the settings: the one that a variable names, or else one in the directory for
settings of the user. -/
def place (home settingsDirectory : String) (environment : Environment) : String :=
  match environment.value? "FORMSET_CONFIG_PATH" with
  | some named => expandHome home named
  | none => placeBelow (placeBelow settingsDirectory "formset") "config.json"

/-- The settings of the text of a file, if it can be understood. -/
def parse? (text : String) : Option Settings := do
  let json ← Json.parseFields? text
  let found ← Document.record? ["endpoint", "csrf_token", "timeout_secs"] false (.ofJson json)
  let endpoint ← Document.entry found "endpoint" none Document.optionalText?
  let token ← Document.entry found "csrf_token" none Document.optionalText?
  let timeoutSeconds ← Document.entry found "timeout_secs" standard.timeoutSeconds Document.size?
  return ⟨endpoint, token, timeoutSeconds⟩

/-- The settings with those that the environment gives. A timeout that is no positive number is
ignored. -/
def override (environment : Environment) (settings : Settings) : Settings where
  endpoint := (environment.value? "FORMSET_ENDPOINT").orElse fun _ => settings.endpoint
  token := (environment.value? "FORMSET_CSRF_TOKEN").orElse fun _ => settings.token
  timeoutSeconds :=
    (((environment.value? "FORMSET_TIMEOUT_SECS").bind fun text => size? text.toList).filter (0 < ·)).getD
      settings.timeoutSeconds

/-- The settings of a file, which may be missing, and the environment. -/
def load (file : Option String) (environment : Environment) : Settings :=
  ((file.bind parse?).getD standard).override environment

end Settings

end Formwork
