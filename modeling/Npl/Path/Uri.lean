import Npl.Path.Basic
import Npl.Path.Host
import Npl.Text.Percent

/-!
# File URIs

A document is named by a URI, and the server works on the path it means. Several spellings mean one
path: `file:/x`, `file:///x`, `file://localhost/x`, and every choice of what is escaped. Writing
the path back gives the canonical spelling.

A text without a scheme is taken as a path as it stands. An authority other than `localhost` becomes
the first component of a path with two slashes. Other schemes name no file.

## Main definitions

* `Uri.parse` — the scheme, authority and path of a text.
* `Path.ofUri`, `Path.toUri` — the path that a URI means, and the canonical URI of a path.
* `canonicalUri` — the canonical spelling of a file URI; other texts stay as they are.
-/

namespace Npl

/-- Why a text means no path. -/
inductive UriError
  /-- Its scheme is not that of files. -/
  | notFile (uri : String)
  /-- Its authority has an opening or closing square bracket without the other. -/
  | bracket
  /-- What its authority has in square brackets is no host. -/
  | host (e : HostError)
  /-- Its authority would gain a delimiter when its characters are normalized. -/
  | authority (authority : String)
deriving DecidableEq, Repr

/-- The wording of an error. -/
def UriError.message : UriError → String
  | notFile uri => "Not a file URI: '" ++ uri ++ "'"
  | bracket => "Invalid IPv6 URL"
  | host e => e.message
  | authority a =>
    "netloc '" ++ a ++ "' contains invalid characters under NFKC normalization"

/-- The parts of a URI that matter for a file; query and fragment are left out. -/
structure Uri where
  scheme : String
  authority : String
  path : List Char
deriving DecidableEq, Repr

namespace Uri

/-! ### Parsing -/

/-- The text without the control characters and spaces at its start, and without any tab, carriage
return or line feed. -/
def clean (cs : List Char) : List Char :=
  (cs.dropWhile (·.toNat ≤ 0x20)).filter fun c => c ≠ '\t' ∧ c ≠ '\r' ∧ c ≠ '\n'

/-- Whether a character may stand in a scheme. -/
def inScheme (c : Char) : Bool :=
  c.isAlphanum || c = '+' || c = '-' || c = '.'

/-- The scheme in lower case, and what follows its colon. A text without a well-formed scheme has
the empty one. -/
def splitScheme (cs : List Char) : String × List Char :=
  match cs.takeWhile (· ≠ ':'), cs.dropWhile (· ≠ ':') with
  | c :: scheme, ':' :: rest =>
    if c.isAlpha ∧ scheme.all inScheme then
      (String.ofList ((c :: scheme).map Char.toLower), rest)
    else ("", cs)
  | _, _ => ("", cs)

/-- Whether a character ends an authority. -/
def endsAuthority (c : Char) : Bool :=
  c = '/' || c = '?' || c = '#'

/-- The authority behind two slashes, and the rest. -/
def splitAuthority : List Char → List Char × List Char
  | '/' :: '/' :: cs => (cs.takeWhile (!endsAuthority ·), cs.dropWhile (!endsAuthority ·))
  | cs => ([], cs)

/-- The characters beyond ASCII whose compatibility form contains one of `/?#@:`. -/
def delimiterLike : List Char :=
  ['\u2047', '\u2048', '\u2049', '\u2100', '\u2101', '\u2105', '\u2106', '\u2A74', '\uFE13',
    '\uFE16', '\uFE55', '\uFE56', '\uFE5F', '\uFE6B', '\uFF03', '\uFF0F', '\uFF1A', '\uFF1F',
    '\uFF20']

/-- Refuses an authority that has one of the two square brackets without the other, and one with
something else than a host between them. -/
def checkBrackets (authority : List Char) : Except UriError Unit :=
  if authority.contains '[' ≠ authority.contains ']' then .error .bracket
  else if authority.contains '[' then (Host.check (Host.bracketed authority)).mapError .host
  else .ok ()

/-- Refuses an authority that would gain a delimiter when its characters are normalized. -/
def checkDelimiters (authority : List Char) : Except UriError Unit :=
  if authority.any delimiterLike.contains then .error (.authority (String.ofList authority))
  else .ok ()

/-- The parts of a URI. The fragment starts at the first `#` and the query at the first `?` before
it; both are cut off. -/
def parse (uri : String) : Except UriError Uri := do
  let (scheme, rest) := splitScheme (clean uri.toList)
  let (authority, rest) := splitAuthority rest
  checkBrackets authority
  checkDelimiters authority
  return ⟨scheme, String.ofList authority, rest.takeWhile fun c => c ≠ '#' ∧ c ≠ '?'⟩

end Uri

/-! ### Paths -/

namespace Path

/-- The path that a URI means. -/
def ofUri (uri : String) : Except UriError Path := do
  let parsed ← Uri.parse uri
  if parsed.scheme = "" then return ofText uri
  if parsed.scheme ≠ "file" then throw (.notFile uri)
  let path := String.ofList (Text.Percent.decode parsed.path)
  if parsed.authority = "" ∨ parsed.authority = "localhost" then return ofText path
  return ofText ("//" ++ parsed.authority ++ path)

/-- The canonical URI of a path; a relative path starts at the working directory. -/
def toUri (p workingDirectory : Path) : String :=
  "file://" ++ String.ofList (Text.Percent.encode (workingDirectory.join p).text.toList)

end Path

/-- The canonical spelling of a file URI. A text of any other scheme, or without one, is its own. -/
def canonicalUri (workingDirectory : Path) (uri : String) : Except UriError String := do
  let parsed ← Uri.parse uri
  if parsed.scheme = "file" then return (← Path.ofUri uri).toUri workingDirectory
  return uri

end Npl
