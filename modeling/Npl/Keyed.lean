/-!
# Keyed lists

A keyed list holds one value for each of its keys, in the order in which the keys came. Setting the
value of a key that is there leaves the key where it is; a key that was erased and is set again
comes last.

## Main definitions

* `Keyed.get?`, `Keyed.set`, `Keyed.erase` — looking up, setting and erasing a key.
* `Keyed.keys`, `Keyed.values` — the keys and values in order.

## Main results

* `Keyed.get?_set`, `Keyed.get?_erase` — what is found afterwards.
* `Keyed.keys_set` — where a key stands after it was set.
-/

namespace Npl

/-- Values under text keys, in the order in which the keys came. -/
structure Keyed (α : Type) where
  entries : List (String × α)
deriving DecidableEq, Repr, Inhabited

namespace Keyed

variable {α : Type}

/-- The keyed list without entries. -/
def empty : Keyed α := ⟨[]⟩

/-- The keys in order. -/
def keys (m : Keyed α) : List String :=
  m.entries.map Prod.fst

/-- The values in the order of their keys. -/
def values (m : Keyed α) : List α :=
  m.entries.map Prod.snd

/-- The value of the first entry with the key. -/
def lookup (key : String) : List (String × α) → Option α
  | [] => none
  | (k, a) :: es => if k = key then some a else lookup key es

/-- The value of a key. -/
def get? (m : Keyed α) (key : String) : Option α :=
  lookup key m.entries

/-- Whether there is a value for the key. -/
def contains (m : Keyed α) (key : String) : Bool :=
  (m.get? key).isSome

/-- The entries with the value of the key replaced, or with a new entry at the end. -/
def put (key : String) (a : α) : List (String × α) → List (String × α)
  | [] => [(key, a)]
  | (k, b) :: es => if k = key then (key, a) :: es else (k, b) :: put key a es

/-- Gives the key a value. -/
def set (m : Keyed α) (key : String) (a : α) : Keyed α :=
  ⟨put key a m.entries⟩

/-- Takes the key out. -/
def erase (m : Keyed α) (key : String) : Keyed α :=
  ⟨m.entries.filter (·.1 ≠ key)⟩

/-- Gives several keys their values, one after the other. -/
def ofList (es : List (String × α)) : Keyed α :=
  es.foldl (fun m e => m.set e.1 e.2) empty

/-! ### What is found -/

@[simp] theorem get?_empty (key : String) : (empty : Keyed α).get? key = none := rfl

/-- After a key was set it has the new value, and all other keys have theirs. -/
theorem get?_set (m : Keyed α) (key : String) (a : α) (other : String) :
    (m.set key a).get? other = if key = other then some a else m.get? other := by
  obtain ⟨es⟩ := m
  simp only [get?, set]
  induction es with
  | nil => simp [put, lookup]
  | cons e es ih => grind [put, lookup]

/-- After a key was erased it has no value, and all other keys have theirs. -/
theorem get?_erase (m : Keyed α) (key other : String) :
    (m.erase key).get? other = if key = other then none else m.get? other := by
  obtain ⟨es⟩ := m
  simp only [get?, erase]
  induction es with
  | nil => simp [lookup]
  | cons e es ih => grind [lookup]

/-- Setting a key leaves the keys as they are, or adds it at the end if it is new. -/
theorem keys_set (m : Keyed α) (key : String) (a : α) :
    (m.set key a).keys = if key ∈ m.keys then m.keys else m.keys ++ [key] := by
  obtain ⟨es⟩ := m
  simp only [keys, set]
  induction es with
  | nil => simp [put]
  | cons e es ih => grind [put]

end Keyed

end Npl
