import Npl.Session.Log
import Npl.Settings.Arguments
import Npl.Text.Upper

/-!
# Launching

The settings decide how the server is started: which records of its log are shown, and how it talks
to the editor.

## Main definitions

* `Launch` — how the server is started.
* `launch` — what the variables and the command line come to.
-/

namespace Npl

/-- The name of the program. -/
def programName : String := "npl-language-server"

/-- The version of the program. -/
def programVersion : String := "0.1.0"

/-- The names of log levels. -/
def Level.names : List (String × Nat) :=
  [("CRITICAL", 50), ("FATAL", 50), ("ERROR", error), ("WARN", warning), ("WARNING", warning),
    ("INFO", info), ("DEBUG", debug), ("TRACE", trace), ("NOTSET", 0)]

/-- Why the server cannot be started. -/
inductive LaunchError
  | settings (e : SettingsError)
  | arguments (e : ArgumentError)
  /-- There is no log level of this name. -/
  | unknownLevel (name : String)
  /-- The time for which edits are left to settle is beyond all doubles. -/
  | endlessQuiet
deriving DecidableEq, Repr

/-- The wording of the error about an unknown level. -/
def unknownLevelMessage (name : String) : String :=
  "Unknown level: " ++ Text.quote name

/-- The wording of the error about a time beyond all doubles. -/
def endlessQuietMessage : String :=
  "integer division result too large for a float"

/-- The least level of records to be shown, and how the server talks to the editor. -/
structure Launch where
  level : Nat
  settings : Settings
deriving DecidableEq, Repr

/-- The settings after variables and command line. The variables are looked at first. -/
def launchSettings (environment : Keyed String) (file : Settings.Layer) (arguments : List String) :
    Except LaunchError Settings := do
  let settings ← (Settings.read environment file).mapError LaunchError.settings
  let given ← (Arguments.read arguments).mapError LaunchError.arguments
  return settings.override given

/-- How the server is started. The log level is read in upper case. -/
def launch (environment : Keyed String) (file : Settings.Layer) (arguments : List String) :
    Except LaunchError Launch := do
  let settings ← launchSettings environment file arguments
  let name := Text.toUpper settings.logLevel
  match Level.names.lookup name with
  | some level => return ⟨level, settings⟩
  | none => throw (.unknownLevel name)

/-- The time in seconds for which the server lets edits settle. It is asked for after the level is
set. -/
def Launch.quietSeconds (l : Launch) : Except LaunchError Float :=
  match l.settings.quietSeconds? with
  | some seconds => .ok seconds
  | none => .error .endlessQuiet

/-- What is said at the start. -/
def Launch.records (l : Launch) : List LogRecord :=
  let s := l.settings
  let say (text : String) : LogRecord := .ofPart "lsp" Level.info text
  let start := say ("NPL Language Server v" ++ programVersion ++ " starting (mode=" ++
    s.transport.text ++ ")")
  match s.transport, s.quietSeconds?, s.port? with
  | .tcp, some _, some port => [start, say ("Listening on " ++ s.host ++ ":" ++ toString port)]
  | _, _, _ => [start]

end Npl
