import Npl.Message
import Npl.Syntax.Parse

/-!
# Sources and units

A source is a document with its text. A unit is a source that has been read. Library sources take
part in a program by what they declare, but nothing is reported about them except where they cannot
be read.

## Main definitions

* `Source`, `SourceUnit` — documents before and after reading.
* `SourceUnit.slice` — the text from one token to another.
* `Finding` — what a check can find, with its code, severity and wording.
* `SourceUnit.report` — a finding as a message about a stretch of the unit's text.
-/

namespace Npl

open Text (Position)

/-- A document: its URI, the path it lies at, its full text, and whether it belongs to a library. -/
structure Source where
  uri : String
  location : Path
  content : String
  library : Bool
deriving DecidableEq, Repr, Inhabited

/-- A source and the tree that was read from its text. -/
structure SourceUnit where
  source : Source
  tree : Tree
deriving Repr

/-! ### Findings -/

/-- What a check can find. -/
inductive Finding
  /-- The package already has a declaration of that name. -/
  | duplicate (name package : String)
  /-- No unit declares the used name. -/
  | unresolved (name : String)
  /-- The name of a type or function means nothing here. -/
  | unknown (name : String)
  /-- A block has to return a value and has no return statement. -/
  | missingReturn
  /-- A variable is declared and not mentioned again. -/
  | unused (name : String)
  /-- The return type of a function depends on itself. -/
  | circular (function : String)
deriving DecidableEq, Repr

namespace Finding

/-- The code of a finding. -/
def code : Finding → Code
  | duplicate .. => .duplicateDeclaration
  | unresolved _ => .unresolvedImport
  | unknown _ => .unknownName
  | missingReturn => .missingReturn
  | unused _ => .unusedVariable
  | circular _ => .cannotInferType

/-- An unused variable is worth a warning; all else is an error. -/
def severity : Finding → Severity
  | unused _ => .warning
  | _ => .error

/-- The wording of a finding. -/
def text : Finding → String
  | duplicate name package =>
    "Duplicate declaration of '" ++ name ++ "' in package '" ++ package ++ "'"
  | unresolved name => "Unresolved import '" ++ name ++ "'"
  | unknown name => "Unknown '" ++ name ++ "'"
  | missingReturn => "Missing return statement"
  | unused name => "Declared variable `" ++ name ++ "` unused"
  | circular function =>
    "The compiler cannot (currently) automatically resolve the type for '" ++ function ++
      "'. Please add explicit types."

end Finding

/-! ### Messages about sources -/

/-- A syntax error as a message about the file at `location`. -/
def SyntaxError.report (location : Path) (e : SyntaxError) : Message where
  code := .syntaxError
  severity := .error
  text := e.message
  location := location
  line := e.pos.line
  column := e.pos.column
  snippet := e.snippet

namespace SourceUnit

/-- The unit of a source, and the errors in its text. -/
def read (source : Source) : SourceUnit × List Message :=
  let (tree, errors) := parse source.content
  (⟨source, tree⟩, errors.map (SyntaxError.report source.location))

/-- The path of the source. -/
def location (u : SourceUnit) : Path :=
  u.source.location

/-- The name of the package that the unit belongs to. -/
def package (u : SourceUnit) : String :=
  u.tree.packageName

/-- The text from the start of one token to the end of another. -/
def slice (u : SourceUnit) (start stop : Token) : String :=
  String.ofList <|
    (u.source.content.toList.drop start.pos.offset).take (stop.stopOffset - start.pos.offset)

/-- A finding about the text from one token to another. -/
def report (u : SourceUnit) (finding : Finding) (start stop : Token) : Message where
  code := finding.code
  severity := finding.severity
  text := finding.text
  location := u.location
  line := start.pos.line
  column := start.pos.column
  snippet := u.slice start stop

end SourceUnit

end Npl
