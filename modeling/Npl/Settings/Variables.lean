import Npl.Keyed
import Npl.Text.Blank
import Npl.Text.Newline

/-!
# Files of variables

A file of variables gives one variable its value on each line: a name, an equals sign and a value.
The word `export` may stand before the name. Names and values may stand in quotes, and then values
may hold line ends and escapes. An unquoted value ends before a `#` with a blank in front of it. A
name without an equals sign has no value. Lines that cannot be read are passed over. The file may
start with a byte order mark.

A value may refer to variables, as in `${NAME}`, or `${NAME:-text}` with a text for a variable that
there is not.

## Main definitions

* `Assignment` — a name and its value.
* `assignmentsOf` — the assignments in a file.
* `variablesOf` — the variables that a file defines, their references replaced.
-/

namespace Npl

open Text (isBlank trim)

/-- A name, and the value given to it, if one was given. -/
structure Assignment where
  name : String
  value? : Option String
deriving DecidableEq, Repr

namespace Assignment

/-! ### Blanks, comments and ends of lines -/

/-- Whether a character is blank and does not end a line. -/
def isGap (c : Char) : Bool :=
  isBlank c && c ≠ '\n' && c ≠ '\r'

/-- A text without the blanks at its start, up to the end of the line at most. -/
def skipGap (cs : List Char) : List Char :=
  cs.dropWhile isGap

/-- A text from the end of its first line on. -/
def skipLine (cs : List Char) : List Char :=
  cs.dropWhile (· ≠ '\n')

/-- A text without the comment at its start, if there is one. -/
def skipComment (cs : List Char) : List Char :=
  match skipGap cs with
  | '#' :: rest => skipLine rest
  | _ => cs

/-- A text without the word `export` at its start, if blanks follow it. -/
def skipExport (cs : List Char) : List Char :=
  match "export".toList.isPrefixOf cs, cs.drop 6 with
  | true, c :: rest => if isGap c then skipGap rest else cs
  | _, _ => cs

/-! ### Quotes -/

/-- The text up to the quote `q` that closes it, and the rest. A backslash belongs together with the
character behind it, so that a quote there closes nothing. -/
def cutQuoted (q : Char) : List Char → Option (List Char × List Char)
  | [] => none
  | '\\' :: c :: cs => (cutQuoted q cs).map fun (text, rest) => ('\\' :: c :: text, rest)
  | c :: cs =>
    if c = q then some ([], cs)
    else (cutQuoted q cs).map fun (text, rest) => (c :: text, rest)

/-- The characters that can be escaped between the quotes `q`, and what they stand for. -/
def escapes (q : Char) : List (Char × Char) :=
  if q = '"' then
    [('\\', '\\'), ('\'', '\''), ('"', '"'), ('a', '\x07'), ('b', '\x08'), ('f', '\x0C'),
      ('n', '\n'), ('r', '\r'), ('t', '\t'), ('v', '\x0B')]
  else [('\\', '\\'), ('\'', '\'')]

/-- A text with its escapes replaced. Other backslashes stay. -/
def unescape (q : Char) : List Char → List Char
  | '\\' :: c :: cs =>
    match (escapes q).lookup c with
    | some d => d :: unescape q cs
    | none => '\\' :: unescape q (c :: cs)
  | c :: cs => c :: unescape q cs
  | [] => []

/-! ### Names and values -/

/-- Whether a character may stand in a name without quotes. -/
def inName (c : Char) : Bool :=
  c ≠ '=' && c ≠ '#' && !isBlank c

/-- What a reader gives: what it read and the rest, or the rest where it failed. -/
abbrev Reading (α : Type) : Type := Except (List Char) α

/-- The name at the start of a text, and the rest. A comment has no name. -/
def readName (cs : List Char) : Reading (Option String × List Char) :=
  match cs with
  | '#' :: _ => .ok (none, cs)
  | '\'' :: rest =>
    match rest.takeWhile (· ≠ '\''), rest.dropWhile (· ≠ '\'') with
    | c :: name, '\'' :: rest => .ok (some (String.ofList (c :: name)), rest)
    | _, _ => .error cs
  | _ =>
    match cs.takeWhile inName with
    | [] => .error cs
    | name => .ok (some (String.ofList name), cs.dropWhile inName)

/-- An unquoted value without its comment: all of it up to a `#` behind a blank. -/
def beforeComment : List Char → List Char
  | [] => []
  | [c] => [c]
  | c :: d :: cs => if isBlank c && d = '#' then [] else c :: beforeComment (d :: cs)

/-- A value without quotes: the line without its comment and the blanks at its ends. -/
def readBare (cs : List Char) : String × List Char :=
  (String.ofList (trim (beforeComment (cs.takeWhile (· ≠ '\n')))), skipLine cs)

/-- The value behind an equals sign, and the rest. The blanks in front of a value do not count, but a
comment can follow them in its place. -/
def readValue (cs : List Char) : Reading (String × List Char) :=
  match skipGap cs with
  | c :: rest =>
    if c = '\'' ∨ c = '"' then
      match cutQuoted c rest with
      | some (text, rest) => .ok (String.ofList (unescape c text), rest)
      | none => .error (c :: rest)
    else .ok (readBare cs)
  | [] => .ok ("", [])

/-- The rest behind the end of a line. -/
def readLineEnd (cs : List Char) : Reading (List Char) :=
  match skipGap cs with
  | [] => .ok []
  | '\n' :: rest => .ok rest
  | _ => .error cs

/-! ### Assignments -/

/-- The assignment at the start of a text, nothing for a comment, and the rest. -/
def read (cs : List Char) : Reading (Option Assignment × List Char) :=
  match readName (skipExport cs) with
  | .error e => .error e
  | .ok (name?, rest) =>
    let value : Reading (Option String × List Char) :=
      match skipGap rest with
      | '=' :: rest => (readValue rest).map fun (value, rest) => (some value, rest)
      | rest => .ok (none, rest)
    match value with
    | .error e => .error e
    | .ok (value?, rest) =>
      (readLineEnd (skipComment rest)).map fun rest => (name?.map fun name => ⟨name, value?⟩, rest)

/-- The assignment at the start of a text, if there is one, and the rest. What cannot be read is
passed over to the end of the line. -/
def readLine (cs : List Char) : Option Assignment × List Char :=
  match read cs with
  | .ok reading => reading
  | .error rest => (none, (skipLine rest).drop 1)

end Assignment

/-- The assignments in a text whose lines end in line feeds. -/
def assignmentsFrom (cs : List Char) : List Assignment :=
  match cs.dropWhile isBlank with
  | [] => []
  | c :: rest =>
    let (found?, left) := Assignment.readLine (c :: rest)
    if left.length < cs.length then found?.toList ++ assignmentsFrom left else found?.toList
termination_by cs.length

/-- A text without the byte order mark at its start, if there is one. -/
def skipByteOrderMark : List Char → List Char
  | '\uFEFF' :: cs => cs
  | cs => cs

/-- The assignments in a file. -/
def assignmentsOf (file : String) : List Assignment :=
  assignmentsFrom (Text.unifyNewlines (skipByteOrderMark file.toList))

/-! ### References -/

/-- The name and the substitute in a reference, and the rest behind it. The text starts behind the
opening brace. -/
def readReference (cs : List Char) : Option ((String × Option String) × List Char) :=
  let inName (c : Char) : Bool := c ≠ '\x7d' && c ≠ ':'
  let name := String.ofList (cs.takeWhile inName)
  match cs.dropWhile inName with
  | '\x7d' :: rest => some ((name, none), rest)
  | ':' :: '-' :: rest =>
    match rest.dropWhile (· ≠ '\x7d') with
    | '\x7d' :: rest' => some ((name, some (String.ofList (rest.takeWhile (· ≠ '\x7d')))), rest')
    | _ => none
  | _ => none

/-- A text with its references replaced. -/
def expand (valueOf : String → Option String) (cs : List Char) : List Char :=
  match cs with
  | [] => []
  | c :: cs =>
    match c, cs with
    | '$', '\x7b' :: rest =>
      match readReference rest with
      | some ((name, substitute?), rest') =>
        let value := ((valueOf name).or substitute?).getD ""
        if rest'.length ≤ rest.length then value.toList ++ expand valueOf rest' else value.toList
      | none => '$' :: '\x7b' :: expand valueOf rest
    | c, cs => c :: expand valueOf cs
termination_by cs.length

/-- The variables that assignments define one after the other. A reference means the variable as it
is defined so far, or else that of the environment. -/
def variablesFrom (environment : Keyed String) (assignments : List Assignment) :
    Keyed (Option String) :=
  assignments.foldl (fun known a =>
    let valueOf (name : String) : Option String :=
      match known.get? name with
      | some value? => some (value?.getD "")
      | none => environment.get? name
    known.set a.name (a.value?.map fun s => String.ofList (expand valueOf s.toList))) .empty

/-- The variables that a file defines. A name without a value is among them. -/
def variablesOf (environment : Keyed String) (file : String) : Keyed (Option String) :=
  variablesFrom environment (assignmentsOf file)

end Npl
