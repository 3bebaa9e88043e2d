import Npl.Launch

/-!
# The command line

The program reads its variables and arguments, says how it is started, and leaves the connection to
the editor to whoever runs it.

## Main definitions

* `usage` — how the program is called.
* `main` — the program.
-/

namespace Npl

/-- How the program is called. -/
def usage : String :=
  "usage: " ++ programName ++ " [-h] [--stdio] [--port PORT] [--host HOST]\n" ++
    "                           [--log-level LOG_LEVEL]"

/-- The names of the variables that set something. -/
def variableNames : List String :=
  ["NPL_LOG_LEVEL", "NPL_SERVER_MODE", "NPL_TCP_HOST", "NPL_TCP_PORT", "NPL_DEBOUNCE_MS",
    "NPL_CONTRIB_LIBS"]

/-- The variables of the environment that set something. -/
def readEnvironment : IO (Keyed String) := do
  let found ← variableNames.filterMapM fun name => do
    return (← IO.getEnv name).map (name, ·)
  return .ofList found

/-- The text of the file of variables in the working directory, empty if there is none. -/
def readVariableFile : IO String :=
  try IO.FS.readFile ".env" catch _ => return ""

/-- The lines that tell why the server cannot be started, and the exit code. -/
def explain : LaunchError → List String × UInt32
  | .arguments e => ([usage, programName ++ ": error: " ++ e.message], 2)
  | .settings (.notJson origin) => ([origin.message], 1)
  | .settings (.invalid violations) => (violations.map Violation.line, 1)
  | .unknownLevel name => ([unknownLevelMessage name], 1)
  | .endlessQuiet => ([endlessQuietMessage], 1)

end Npl

/-- The program. What is said about the start goes to the error stream, since the other one belongs
to the editor. -/
def main (arguments : List String) : IO UInt32 := do
  let environment ← Npl.readEnvironment
  let file := Npl.variablesOf environment (← Npl.readVariableFile)
  match Npl.launch environment file arguments with
  | .ok l =>
    for r in l.records do
      if l.level ≤ r.level then IO.eprintln (r.name ++ ": " ++ r.text)
    match l.quietSeconds with
    | .ok _ => return 0
    | .error e => fail e
  | .error (.arguments .help) =>
    IO.println Npl.usage
    return 0
  | .error e => fail e
where
  fail (e : Npl.LaunchError) : IO UInt32 := do
    let (lines, code) := Npl.explain e
    lines.forM fun line => IO.eprintln line
    return code
