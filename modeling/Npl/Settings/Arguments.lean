import Npl.Settings.Basic
import Npl.Text.Quoted

/-!
# Arguments

The command line overrides settings. A flag that takes a value has it behind an equals sign or as the
next argument. Long flags can be shortened as long as it is clear which one is meant. What is no flag
and no value is left over, and nothing may be left over.

First every argument is classified, up to a lone `--`, behind which there are no flags. Then flags are
followed from left to right. The first thing that is wrong ends all, and so does asking for help.

## Main definitions

* `Flag`, `Argument` — the flags, and what an argument can be.
* `Given` — what a flag is given for its value.
* `Arguments.read` — what a command line says.
* `Settings.override` — settings with the command line taken into account.
-/

namespace Npl

/-- What can be given on the command line. -/
inductive Flag
  | help
  | stdio
  | port
  | host
  | logLevel
deriving DecidableEq, Repr

namespace Flag

/-- All flags in order. -/
def all : List Flag :=
  [help, stdio, port, host, logLevel]

/-- The spelling of a flag. -/
def spelling : Flag → String
  | help => "--help"
  | stdio => "--stdio"
  | port => "--port"
  | host => "--host"
  | logLevel => "--log-level"

/-- How a flag is named in messages. The flag for help has a short spelling as well. -/
def title : Flag → String
  | help => "-h/--help"
  | f => f.spelling

/-- Whether a flag takes a value. -/
def takesValue : Flag → Bool
  | help | stdio => false
  | port | host | logLevel => true

end Flag

/-- What an argument can be. -/
inductive Argument
  /-- A value, or left over. -/
  | plain (text : String)
  /-- A flag, and the value attached to it, if there is one. -/
  | flag (f : Flag) (attached? : Option String)
  /-- The short flag for help, and what follows its letter. -/
  | shortHelp (tail : List Char)
  /-- Something that looks like a flag and is none. -/
  | unknown (text : String)
  /-- The lone `--`. -/
  | divider
deriving DecidableEq, Repr

/-- Why a command line is not followed. -/
inductive ArgumentError
  /-- Help was asked for. -/
  | help
  /-- An argument could be short for several flags. -/
  | ambiguous (text : String) (flags : List Flag)
  /-- A flag that takes no value has one attached. -/
  | needlessValue (f : Flag) (value : String)
  /-- A flag that takes a value has none. -/
  | missingValue (f : Flag)
  /-- A value is no integer. -/
  | notInteger (f : Flag) (value : String)
  /-- Arguments are left over. -/
  | leftOver (arguments : List String)
deriving DecidableEq, Repr

/-- The wording of an error. There is none for help. -/
def ArgumentError.message : ArgumentError → String
  | help => ""
  | ambiguous text flags =>
    "ambiguous option: " ++ text ++ " could match " ++ ", ".intercalate (flags.map Flag.spelling)
  | needlessValue f value =>
    "argument " ++ f.title ++ ": ignored explicit argument " ++ Text.quote value
  | missingValue f => "argument " ++ f.title ++ ": expected one argument"
  | notInteger f value =>
    "argument " ++ f.title ++ ": invalid int value: " ++ Text.quote value
  | leftOver arguments => "unrecognized arguments: " ++ " ".intercalate arguments

namespace Argument

/-! ### Classifying -/

/-- The part of a text before its first equals sign, and the part behind it, if there is one. -/
def splitEquals (cs : List Char) : List Char × Option String :=
  match cs.dropWhile (· ≠ '=') with
  | '=' :: value => (cs.takeWhile (· ≠ '='), some (String.ofList value))
  | _ => (cs, none)

/-- The flags whose spelling starts with a text. -/
def flagsFrom (name : List Char) : List Flag :=
  Flag.all.filter fun f => name.isPrefixOf f.spelling.toList

/-- Whether a text reads like a negative number: a dash and digits, perhaps with a point among
them that digits follow. A line feed at its end does not count. -/
def isNegative (cs : List Char) : Bool :=
  match (if cs.getLast? = some '\n' then cs.dropLast else cs) with
  | '-' :: rest =>
    match rest.dropWhile Text.isDigit with
    | [] => !rest.isEmpty
    | '.' :: ds => !ds.isEmpty && ds.all Text.isDigit
    | _ => false
  | _ => false

/-- Classifies an argument that starts with a dash and is no flag. -/
def classifyOther (cs : List Char) : Argument :=
  if isNegative cs || cs.contains ' ' then .plain (String.ofList cs)
  else .unknown (String.ofList cs)

/-- Classifies an argument. A dash alone is no flag, and neither is an argument without a dash. -/
def classify (text : String) : Except ArgumentError Argument :=
  match text.toList with
  | '-' :: '-' :: name =>
    let (name, value?) := splitEquals ('-' :: '-' :: name)
    match flagsFrom name with
    | [] => .ok (classifyOther text.toList)
    | [f] => .ok (.flag f value?)
    | flags => .error (.ambiguous text flags)
  | '-' :: 'h' :: tail => .ok (.shortHelp tail)
  | '-' :: c :: cs => .ok (classifyOther ('-' :: c :: cs))
  | _ => .ok (.plain text)

/-- Classifies the arguments of a command line. -/
def classifyAll : List String → Except ArgumentError (List Argument)
  | [] => .ok []
  | text :: texts =>
    if text = "--" then .ok (.divider :: texts.map .plain)
    else do return (← classify text) :: (← classifyAll texts)

end Argument

/-! ### Following -/

/-- What a flag is given for its value. -/
inductive Given (α : Type)
  | value (a : α)
  /-- All that is given is `--`, which stands for no value. -/
  | nothing
deriving DecidableEq, Repr

/-- The value, if one is given. -/
def Given.value? {α : Type} : Given α → Option α
  | value a => some a
  | nothing => none

/-- What a text gives a flag for its value. -/
def Given.ofText (s : String) : Given String :=
  if s = "--" then nothing else value s

/-- What a command line says. -/
structure Arguments where
  stdio : Bool := false
  port? : Option (Given Int) := none
  host? : Option (Given String) := none
  logLevel? : Option (Given String) := none
deriving DecidableEq, Repr

namespace Arguments

/-- Takes over the value of a flag. -/
def take (a : Arguments) (f : Flag) (text : String) : Except ArgumentError Arguments :=
  let given := Given.ofText text
  match f with
  | .help | .stdio => .ok a
  | .host => .ok { a with host? := some given }
  | .logLevel => .ok { a with logLevel? := some given }
  | .port =>
    match given with
    | .nothing => .ok { a with port? := some .nothing }
    | .value text =>
      match Text.integerOf? text.toList with
      | some n => .ok { a with port? := some (.value n) }
      | none => .error (.notInteger .port text)

/-- Follows a flag that takes no value. -/
def switch (a : Arguments) (f : Flag) : Option String → Except ArgumentError Arguments
  | some value => .error (.needlessValue f value)
  | none => if f = .help then .error .help else .ok { a with stdio := true }

/-- What becomes of the short flag for help if a text is attached to it. The letter may be repeated.
Other letters could only be short flags that there are not, so they are a value. -/
def attachedHelp (cs : List Char) : ArgumentError :=
  match cs.dropWhile (· = 'h') with
  | [] => .help
  | rest => .needlessValue .help (String.ofList rest)

/-- What becomes of the short flag for help, given what follows its letter. An equals sign right there
attaches a value, even if none follows. -/
def shortHelp : List Char → ArgumentError
  | ['='] => .needlessValue .help ""
  | '=' :: cs => attachedHelp cs
  | cs => attachedHelp cs

/-- Follows arguments from left to right. The answer includes what is left over. -/
def follow (a : Arguments) : List Argument → Except ArgumentError (Arguments × List String)
  | [] => .ok (a, [])
  | .plain text :: rest | .unknown text :: rest =>
    (a.follow rest).map fun (a, left) => (a, text :: left)
  | .divider :: rest => (a.follow rest).map fun (a, left) => (a, "--" :: left)
  | .shortHelp tail :: _ => .error (shortHelp tail)
  | .flag f attached? :: rest =>
    if f.takesValue then
      match attached?, rest with
      | some value, rest => do (← a.take f value).follow rest
      | none, .plain value :: rest => do (← a.take f value).follow rest
      | none, _ => .error (.missingValue f)
    else do (← a.switch f attached?).follow rest

/-- What a command line says. -/
def read (arguments : List String) : Except ArgumentError Arguments := do
  let (a, left) ← follow {} (← Argument.classifyAll arguments)
  if left.isEmpty then return a else throw (.leftOver left)

end Arguments

/-- Settings with the command line taken into account. Only a port can be taken away: other flags count
if they are given a text that is not empty. -/
def Settings.override (s : Settings) (a : Arguments) : Settings :=
  let orKeep (given? : Option (Given String)) (kept : String) : String :=
    ((given?.bind Given.value?).filter (· ≠ "")).getD kept
  { s with
    transport := if a.stdio then .stdio else s.transport
    port? := (a.port?.map Given.value?).getD s.port?
    host := orKeep a.host? s.host
    logLevel := orKeep a.logLevel? s.logLevel }

end Npl
