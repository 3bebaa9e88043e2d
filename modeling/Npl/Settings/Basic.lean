import Npl.Json.Read
import Npl.Json.Violation
import Npl.Settings.Variables
import Npl.Text.Integer

/-!
# Settings

The server is set up by variables whose names start with `NPL_`, in upper or lower case. They come
from the environment or from a file of variables, and the environment wins. What is not set has a
default.

## Main definitions

* `Settings` — what can be set.
* `Settings.read` — the settings that variables give, or what is wrong with them.
-/

namespace Npl

/-- How the server talks to the editor. -/
inductive Transport
  | tcp
  | stdio
deriving DecidableEq, Repr, Inhabited

/-- How a transport is spelled. -/
def Transport.text : Transport → String
  | tcp => "tcp"
  | stdio => "stdio"

/-- What can be set. -/
structure Settings where
  logLevel : String := "INFO"
  transport : Transport := .tcp
  host : String := "127.0.0.1"
  /-- The port to listen on. Only the command line can take it away. -/
  port? : Option Int := some 5007
  /-- The time in milliseconds for which edits are left to settle. -/
  quiet : Int := 300
  libraries : List String := []
deriving DecidableEq, Repr

/-- Where variables come from. -/
inductive Origin
  | environment
  | file
deriving DecidableEq, Repr

/-- What is wrong with variables. -/
inductive SettingsError
  /-- The libraries are no JSON. -/
  | notJson (origin : Origin)
  | invalid (violations : List Violation)
deriving DecidableEq, Repr

/-- How an origin is named in messages. -/
def Origin.title : Origin → String
  | environment => "EnvSettingsSource"
  | file => "DotEnvSettingsSource"

/-- The wording of the error about libraries. -/
def Origin.message (o : Origin) : String :=
  "error parsing value for field \"contrib_libs\" from source \"" ++ o.title ++ "\""

namespace Settings

/-! ### Names -/

/-- What the names of all variables start with. -/
def namePrefix : String := "npl_"

/-- Variables by their names in lower case; the last one counts. -/
def byLowerName {α : Type} (given : Keyed α) : Keyed α :=
  .ofList (given.entries.map fun (name, a) => (name.toLower, a))

/-- The values of variables. -/
abbrev Layer : Type := Keyed (Option String)

/-- The value of the variable that sets a field. -/
def value? (layer : Layer) (field : String) : Option String :=
  (layer.get? (namePrefix ++ field)).join

/-! ### Values -/

/-- Whether a character can stand among the zeros that a number starts with. -/
def isFiller (c : Char) : Bool :=
  c = '0' || c = '_'

/-- A number without the zeros that it starts with, and the underscores among them. If no other digit
follows, the last one of them stays. -/
def skipZeros : List Char → List Char
  | '0' :: cs =>
    let rest := cs.dropWhile isFiller
    if rest.head?.any Char.isDigit then rest
    else (cs.takeWhile isFiller).getLast?.getD '0' :: rest
  | cs => cs

/-- A number without its fraction, if that consists of zeros, at least one. -/
def skipFraction (cs : List Char) : List Char :=
  match cs.dropWhile (· ≠ '.') with
  | '.' :: '0' :: zeros => if zeros.all (· = '0') then cs.takeWhile (· ≠ '.') else cs
  | _ => cs

/-- The integer that the value of a variable stands for, or what is wrong with it. Only the digits of
ASCII count. Zeros in front and a fraction of zeros are of no importance. -/
def integerOf (s : String) : Except Fault Int :=
  let (negative, cs) := Text.splitSign (Text.trimSpace s.toList)
  let cs := skipFraction (skipZeros cs)
  match if cs.all (·.toNat < 0x80) then Text.digitsOf? cs else none with
  | none => .error .notInteger
  | some ds =>
    if Text.digitLimit < ds.length then .error .tooManyDigits
    else .ok (Text.signed negative (Text.ofDigits ds))

/-- The libraries in the value of a variable; null is as good as nothing. -/
def librariesOf (origin : Origin) (layer : Layer) : Except SettingsError (Option Json) :=
  match value? layer "contrib_libs" with
  | none => .ok none
  | some s =>
    match Json.ofText? s with
    | none => .error (.notJson origin)
    | some .null => .ok none
    | some j => .ok (some j)

/-- Reads a field from a text if one is given, and takes the default otherwise. -/
def readField {α : Type} (field : String) (read : String → Except Fault α) (fallback : α) :
    Option String → Except (List Violation) α
  | none => .ok fallback
  | some s => (read s).mapError fun fault => [⟨[PlaceStep.field field], fault⟩]

/-- The transport with the given spelling, or what is wrong with it. -/
def transportOf (s : String) : Except Fault Transport :=
  match [Transport.tcp, Transport.stdio].find? (·.text = s) with
  | some t => .ok t
  | none => .error .notChoice

/-- The violations of a reading. -/
def violations {α : Type} : Except (List Violation) α → List Violation
  | .ok _ => []
  | .error vs => vs

/-! ### Reading -/

/-- Reads the settings from the values of fields. All violations are named, field by field. -/
def readValues (valueOf : String → Option String) (libraries? : Option Json) :
    Except (List Violation) Settings :=
  let default : Settings := {}
  let transport :=
    readField "server_mode" transportOf default.transport (valueOf "server_mode")
  let port := readField "tcp_port" (integerOf · |>.map some) default.port? (valueOf "tcp_port")
  let quiet := readField "debounce_ms" integerOf default.quiet (valueOf "debounce_ms")
  let libraries : Except (List Violation) (List String) :=
    match libraries? with
    | none => .ok default.libraries
    | some j => j.asList [PlaceStep.field "contrib_libs"] Json.asText
  match transport, port, quiet, libraries with
  | .ok transport, .ok port?, .ok quiet, .ok libraries =>
    .ok ⟨(valueOf "log_level").getD default.logLevel, transport,
      (valueOf "tcp_host").getD default.host, port?, quiet, libraries⟩
  | transport, port, quiet, libraries =>
    .error (violations transport ++ violations port ++ violations quiet ++ violations libraries)

/-- The settings that the variables of the environment and those of a file give. -/
def read (environment : Keyed String) (file : Layer) : Except SettingsError Settings := do
  let first : Layer := byLowerName ⟨environment.entries.map fun (name, s) => (name, some s)⟩
  let second := byLowerName file
  let libraries? ← librariesOf .environment first
  let otherLibraries? ← librariesOf .file second
  let valueOf (field : String) : Option String := (value? first field).or (value? second field)
  (readValues valueOf (libraries?.or otherLibraries?)).mapError SettingsError.invalid

/-- The time for which edits are left to settle, in seconds, if it is not beyond all doubles. -/
def quietSeconds? (s : Settings) : Option Float :=
  let seconds := Float.ofScientific s.quiet.natAbs true 3
  if seconds.isInf then none else some (if s.quiet < 0 then -seconds else seconds)

end Settings

end Npl
