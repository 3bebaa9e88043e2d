import Npl.Text.Pieces
import Npl.Text.Quoted

/-!
# Hosts in square brackets

A URI can name its host by an address of version 6, or of a version to come, in square brackets.
An address of version 6 is eight words between colons, and two colons stand for a row of words that
are zero, once. The last two words can be written like an address of version 4. Behind a percent sign
comes the zone of the address.

## Main definitions

* `Host.bracketed` — what stands in the square brackets of an authority.
* `Host.check` — refuses what is no such host.
-/

namespace Npl

/-- Why a text in square brackets is no host. -/
inductive HostError
  /-- It starts like an address of a version to come, and is none. -/
  | future
  /-- It is an address of version 4, which needs no brackets. -/
  | version4
  /-- It is no address. -/
  | notAddress (host : String)
deriving DecidableEq, Repr

/-- The wording of an error. -/
def HostError.message : HostError → String
  | future => "IPvFuture address is invalid"
  | version4 => "An IPv4 address cannot be in brackets"
  | notAddress host => Text.quote host ++ " does not appear to be an IPv4 or IPv6 address"

namespace Host

open Text (pieces)

/-! ### Addresses of version 4 -/

/-- Whether a text is a number up to 255 in decimal digits, without a superfluous zero in front. -/
def isOctet (cs : List Char) : Bool :=
  (List.range 256).any fun n => Nat.toDigits 10 n = cs

/-- Whether a text is an address of version 4: four numbers with dots between them. -/
def isVersion4 (cs : List Char) : Bool :=
  let octets := pieces '.' cs
  octets.length = 4 && octets.all isOctet

/-! ### Addresses of version 6 -/

/-- Whether a character is a hexadecimal digit. -/
def isHexDigit (c : Char) : Bool :=
  c.isDigit || ('a' ≤ c && c ≤ 'f') || ('A' ≤ c && c ≤ 'F')

/-- Whether a text is a word of an address: up to four hexadecimal digits. -/
def isWord (cs : List Char) : Bool :=
  cs ≠ [] && cs.all isHexDigit && cs.length ≤ 4

/-- The number of words that the parts between colons stand for, if they do. The last part can stand
for two words, like an address of version 4, where an address ends. -/
def wordCount? (ending : Bool) : List (List Char) → Option Nat
  | [] => none
  | [part] => if isWord part then some 1 else if ending && isVersion4 part then some 2 else none
  | part :: parts => if isWord part then (wordCount? ending parts).map (· + 1) else none

/-- The number of words in a part of an address on one side of two colons. -/
def sideCount? (ending : Bool) (cs : List Char) : Option Nat :=
  if cs = [] then some 0 else wordCount? ending (pieces ':' cs)

/-- What stands on the two sides of the first two colons in a row. -/
def sides? : List Char → Option (List Char × List Char)
  | [] => none
  | ':' :: ':' :: cs => some ([], cs)
  | c :: cs => (sides? cs).map fun (front, back) => (c :: front, back)

/-- Whether a text is an address of version 6 without a zone. -/
def isWords (cs : List Char) : Bool :=
  match sides? cs with
  | none => wordCount? true (pieces ':' cs) = some 8
  | some (front, back) =>
    match sideCount? false front, sideCount? true back with
    | some m, some n => m + n < 8
    | _, _ => false

/-- Whether a text is an address of version 6. -/
def isVersion6 (cs : List Char) : Bool :=
  match cs.dropWhile (· ≠ '%') with
  | [] => isWords cs
  | _ :: zone => zone ≠ [] && !zone.contains '%' && isWords (cs.takeWhile (· ≠ '%'))

/-! ### Hosts -/

/-- Whether a text is an address of a version to come: the letter `v`, the version in hexadecimal
digits, a dot and anything else. -/
def isFuture : List Char → Bool
  | 'v' :: cs =>
    match cs.takeWhile isHexDigit, cs.dropWhile isHexDigit with
    | _ :: _, '.' :: _ :: _ => true
    | _, _ => false
  | _ => false

/-- Refuses a text that is no host that can stand in square brackets. -/
def check (cs : List Char) : Except HostError Unit :=
  if cs.head? = some 'v' then if isFuture cs then .ok () else .error .future
  else if isVersion4 cs then .error .version4
  else if isVersion6 cs then .ok ()
  else .error (.notAddress (String.ofList cs))

/-- What stands behind the first opening square bracket of an authority, up to the next closing one. -/
def bracketed (authority : List Char) : List Char :=
  ((authority.dropWhile (· ≠ '[')).drop 1).takeWhile (· ≠ ']')

end Host

end Npl
