import Npl.Json.Basic
import Npl.Text.Integer
import Npl.Text.Percent

/-!
# Reading JSON

JSON text is read by rules that follow the grammar: a reader takes what it understands from the start
of a text and leaves the rest. Three names beyond the grammar are read as numbers: `NaN`, `Infinity`
and `-Infinity`. White space is the space, the tab and the two line ends.

The readers of nested values call each other at most as deep as the text is long.

## Main definitions

* `Json.readText`, `Json.readNumber`, `Json.readValue` — readers.
* `Json.ofText?` — the value that a whole text stands for.
-/

namespace Npl.Json

/-! ### White space and names -/

/-- Whether a character is white space. -/
def isSpace (c : Char) : Bool :=
  c = ' ' || c = '\t' || c = '\n' || c = '\r'

/-- A text without the white space at its start. -/
def skipSpace (cs : List Char) : List Char :=
  cs.dropWhile isSpace

/-- The rest behind a name. -/
def readName (name : String) (cs : List Char) : Option (List Char) :=
  if name.toList.isPrefixOf cs then some (cs.drop name.length) else none

/-! ### Texts -/

/-- The number that four hexadecimal digits stand for. -/
def readUnit : List Char → Option (Nat × List Char)
  | a :: b :: c :: d :: cs => do
    let digits ← [a, b, c, d].mapM Text.Percent.hexValue?
    return (digits.foldl (fun n digit => 16 * n + digit) 0, cs)
  | _ => none

/-- The character that follows `\u`: four digits, or eight if they are a surrogate pair. A surrogate
alone is no character, and is replaced. -/
def readEscapedUnit (cs : List Char) : Option (Char × List Char) := do
  let (high, rest) ← readUnit cs
  if 0xD800 ≤ high && high < 0xDC00 then
    match rest with
    | '\\' :: 'u' :: more =>
      let (low, rest') ← readUnit more
      if 0xDC00 ≤ low && low < 0xE000 then
        return (.ofNat (0x10000 + (high - 0xD800) * 0x400 + (low - 0xDC00)), rest')
      else return ('\uFFFD', rest)
    | _ => return ('\uFFFD', rest)
  else if 0xDC00 ≤ high && high < 0xE000 then return ('\uFFFD', rest)
  else return (.ofNat high, rest)

/-- The character that an escape stands for, its backslash left out. -/
def readEscape : List Char → Option (Char × List Char)
  | '"' :: cs => some ('"', cs)
  | '\\' :: cs => some ('\\', cs)
  | '/' :: cs => some ('/', cs)
  | 'b' :: cs => some ('\x08', cs)
  | 'f' :: cs => some ('\x0C', cs)
  | 'n' :: cs => some ('\n', cs)
  | 'r' :: cs => some ('\r', cs)
  | 't' :: cs => some ('\t', cs)
  | 'u' :: cs => readEscapedUnit cs
  | _ => none

/-- The characters up to the closing quote. Control characters must be escaped. -/
def readCharacters : Nat → List Char → Option (List Char × List Char)
  | 0, _ => none
  | _ + 1, [] => none
  | depth + 1, c :: cs =>
    if c = '"' then some ([], cs)
    else if c = '\\' then do
      let (c, rest) ← readEscape cs
      let (text, rest) ← readCharacters depth rest
      return (c :: text, rest)
    else if c.toNat < 0x20 then none
    else do
      let (text, rest) ← readCharacters depth cs
      return (c :: text, rest)

/-- A text, its opening quote left out. -/
def readText (cs : List Char) : Option (String × List Char) :=
  (readCharacters (cs.length + 1) cs).map fun (text, rest) => (String.ofList text, rest)

/-! ### Numbers -/

/-- The digits at the start of a text, and the rest. -/
def spanDigits (cs : List Char) : List Char × List Char :=
  (cs.takeWhile Char.isDigit, cs.dropWhile Char.isDigit)

/-- The whole part of a number: a zero, or digits that do not start with one. -/
def readWhole : List Char → Option (List Char × List Char)
  | '0' :: cs => some (['0'], cs)
  | cs =>
    match spanDigits cs with
    | ([], _) => none
    | reading => some reading

/-- The fraction of a number, empty if there is none. -/
def spanFraction : List Char → List Char × List Char
  | '.' :: cs =>
    match spanDigits cs with
    | ([], _) => ([], '.' :: cs)
    | (ds, rest) => ('.' :: ds, rest)
  | cs => ([], cs)

/-- The exponent of a number, empty if there is none. -/
def spanExponent : List Char → List Char × List Char
  | [] => ([], [])
  | e :: cs =>
    if e = 'e' || e = 'E' then
      let (sign, digits) :=
        match cs with
        | '+' :: rest => (['+'], rest)
        | '-' :: rest => (['-'], rest)
        | rest => ([], rest)
      match spanDigits digits with
      | ([], _) => ([], e :: cs)
      | (ds, rest) => (e :: sign ++ ds, rest)
    else ([], e :: cs)

/-- The number at the start of a text, as it is written. One with neither fraction nor exponent is an
integer, which may not have too many digits. -/
def readNumber (cs : List Char) : Option (String × List Char) := do
  let (sign, cs) :=
    match cs with
    | '-' :: rest => (['-'], rest)
    | rest => ([], rest)
  let (whole, cs) ← readWhole cs
  let (fraction, cs) := spanFraction cs
  let (exponent, cs) := spanExponent cs
  if fraction.isEmpty && exponent.isEmpty && Text.digitLimit < whole.length then none
  else return (String.ofList (sign ++ whole ++ fraction ++ exponent), cs)

/-! ### Values -/

/-- The names and what they stand for. -/
def names : List (String × Json) :=
  [("null", .null), ("true", .bool true), ("false", .bool false), ("NaN", .number "NaN"),
    ("Infinity", .number "Infinity"), ("-Infinity", .number "-Infinity")]

/-- A value that holds no others and is no text. -/
def readPlain (cs : List Char) : Option (Json × List Char) :=
  match names.findSome? fun (name, j) => (readName name cs).map (j, ·) with
  | some reading => some reading
  | none => (readNumber cs).map fun (literal, rest) => (.number literal, rest)

mutual

/-- A value at the start of a text. -/
def readValue : Nat → List Char → Option (Json × List Char)
  | 0, _ => none
  | depth + 1, cs =>
    match cs with
    | '"' :: rest => (readText rest).map fun (s, rest) => (.string s, rest)
    | '[' :: rest =>
      match skipSpace rest with
      | ']' :: rest => some (.array [], rest)
      | rest => (readItems depth rest).map fun (items, rest) => (.array items, rest)
    | '\x7b' :: rest =>
      match skipSpace rest with
      | '\x7d' :: rest => some (.object [], rest)
      | rest => (readFields depth rest).map fun (fields, rest) => (.object fields, rest)
    | cs => readPlain cs

/-- The items of a list that is not empty, up to its closing bracket. -/
def readItems : Nat → List Char → Option (List Json × List Char)
  | 0, _ => none
  | depth + 1, cs => do
    let (item, rest) ← readValue depth cs
    match skipSpace rest with
    | ']' :: rest => return ([item], rest)
    | ',' :: rest =>
      let (items, rest) ← readItems depth (skipSpace rest)
      return (item :: items, rest)
    | _ => none

/-- The fields of an object that is not empty, up to its closing brace. -/
def readFields : Nat → List Char → Option (List (String × Json) × List Char)
  | depth + 1, '"' :: cs => do
    let (name, rest) ← readText cs
    match skipSpace rest with
    | ':' :: rest =>
      let (value, rest) ← readValue depth (skipSpace rest)
      match skipSpace rest with
      | '\x7d' :: rest => return ([(name, value)], rest)
      | ',' :: rest =>
        let (fields, rest) ← readFields depth (skipSpace rest)
        return ((name, value) :: fields, rest)
      | _ => none
    | _ => none
  | _, _ => none

end

/-- The value that a text stands for, if it is one value with nothing but white space around it. -/
def ofText? (s : String) : Option Json := do
  let cs := skipSpace s.toList
  let (value, rest) ← readValue (cs.length + 1) cs
  if (skipSpace rest).isEmpty then return value else none

end Npl.Json
