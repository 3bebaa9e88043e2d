import Npl.Keyed
import Npl.Session.Trace

/-!
# Logs

Each part of the server writes records under a name. Names form a tree: `a.b` lies below `a`, and
everything lies below the nameless top. A record passes if its level is at least the effective level
of its name, which is the name's own level or else that of the nearest name above with a level.

## Main definitions

* `LogRecord` — what a part of the server has to say.
* `LogLevels` — the levels that names have of their own.
* `LogLevels.passes` — does a record pass?
-/

namespace Npl

/-! ### Records -/

namespace Level

/-- The level of what is of interest only in the most detailed trace. -/
def trace : Nat := 5

/-- The level of what helps to follow the server's decisions. -/
def debug : Nat := 10

/-- The level of ordinary news. -/
def info : Nat := 20

/-- The level of what may be wrong. -/
def warning : Nat := 30

/-- The level of what is wrong. -/
def error : Nat := 40

end Level

/-- A record: the name it is written under, its level and text, and the failure it tells of. -/
structure LogRecord where
  name : String
  level : Nat
  text : String
  cause? : Option Cause
deriving DecidableEq, Repr

/-- The name that all records of the server are written below. -/
def serverName : String := "nplserver"

namespace LogRecord

/-- A record of one of the server's parts, without a failure. -/
def ofPart (part : String) (level : Nat) (text : String) : LogRecord :=
  ⟨serverName ++ "." ++ part, level, text, none⟩

/-- A record about a failure in one of the server's parts. -/
def ofFailure (part text : String) (cause : Cause) : LogRecord :=
  ⟨serverName ++ "." ++ part, Level.error, text, some cause⟩

end LogRecord

/-! ### Names -/

/-- The part of a name before its last dot, if that part is not empty. -/
def beforeLastDot? (cs : List Char) : Option (List Char) :=
  match (cs.reverse.dropWhile (· ≠ '.')).drop 1 with
  | [] => none
  | rest => some rest.reverse

theorem length_beforeLastDot?_lt {cs p : List Char} (h : beforeLastDot? cs = some p) :
    p.length < cs.length := by
  have hle := (List.dropWhile_sublist (fun c => decide (c ≠ '.')) (l := cs.reverse)).length_le
  rw [List.length_reverse] at hle
  unfold beforeLastDot? at h
  cases hrest : (cs.reverse.dropWhile (· ≠ '.')).drop 1 with
  | nil => simp only [hrest, reduceCtorEq] at h
  | cons c rest =>
    simp only [hrest, Option.some.injEq] at h
    have hlen := congrArg List.length hrest
    simp only [List.length_drop, List.length_cons] at hlen
    simp only [← h, List.length_reverse, List.length_cons]
    omega

/-- The names above a name, the nearest one first. -/
def namesAbove (cs : List Char) : List String :=
  match _h : beforeLastDot? cs with
  | none => []
  | some p => String.ofList p :: namesAbove p.dropLast
termination_by cs.length
decreasing_by
  have := length_beforeLastDot?_lt _h
  simp only [List.length_dropLast]
  omega

/-- Whether a name is that of the top. -/
def isTopName (name : String) : Bool :=
  name = "" || name = "root"

/-- A name and the names above it, the nearest one first, without the top. -/
def namesFrom (name : String) : List String :=
  if isTopName name then [] else name :: namesAbove name.toList

/-! ### Levels -/

/-- The levels of names and that of the top. Level zero is as good as none. -/
structure LogLevels where
  own : Keyed Nat
  top : Nat
deriving DecidableEq, Repr

namespace LogLevels

/-- The own level of a name. -/
def get (l : LogLevels) (name : String) : Nat :=
  if isTopName name then l.top else (l.own.get? name).getD 0

/-- Gives a name a level of its own. -/
def set (l : LogLevels) (name : String) (level : Nat) : LogLevels :=
  if isTopName name then { l with top := level } else { l with own := l.own.set name level }

/-- The level that decides for a name. -/
def effective (l : LogLevels) (name : String) : Nat :=
  ((namesFrom name).findSome? fun n => (l.own.get? n).filter (0 < ·)).getD l.top

/-- Whether a record passes. Records of level zero never do. -/
def passes (l : LogLevels) (r : LogRecord) : Bool :=
  0 < r.level && l.effective r.name ≤ r.level

end LogLevels

/-- The level that the server's name is given while the editor asks for traces. Without traces the
name has no level of its own. -/
def Trace.logLevel : Trace → Nat
  | off => 0
  | messages => Level.debug
  | verbose => Level.trace

end Npl
