/-!
# Pieces of a text

A text is cut at every occurrence of a separating character. There is one piece more than there are
separators, so pieces can be empty, and the pieces with the separators between them are the text.

## Main definitions

* `pieces` — the pieces of a text between separators.

## Main results

* `intercalate_pieces` — the pieces, joined by the separator, give the text back.
-/

namespace Npl.Text

/-- The pieces of a text between the occurrences of `separator`. -/
def pieces (separator : Char) : List Char → List (List Char)
  | [] => [[]]
  | c :: cs =>
    if c = separator then [] :: pieces separator cs
    else
      match pieces separator cs with
      | [] => [[c]]
      | w :: ws => (c :: w) :: ws

/-- There is always a piece. -/
theorem pieces_ne_nil (separator : Char) (cs : List Char) : pieces separator cs ≠ [] := by
  cases cs with
  | nil => simp [pieces]
  | cons c cs =>
    rw [pieces]
    split
    · simp
    · split <;> simp

/-- Cutting loses nothing but the separators. -/
theorem intercalate_pieces (separator : Char) (cs : List Char) :
    List.intercalate [separator] (pieces separator cs) = cs := by
  induction cs with
  | nil => rfl
  | cons c cs ih =>
    rw [pieces]
    split
    · next h =>
      obtain ⟨w, ws, hw⟩ := List.exists_cons_of_ne_nil (pieces_ne_nil separator cs)
      rw [hw] at ih ⊢
      simp [List.intercalate, h, ← ih]
    · split
      · next h => exact absurd h (pieces_ne_nil separator cs)
      · next w ws hw =>
        rw [hw] at ih
        cases ws with
        | nil => simpa [List.intercalate] using ih
        | cons v vs =>
          simp only [List.intercalate, List.intersperse_cons_cons, List.flatten_cons] at ih ⊢
          simp [← ih]

end Npl.Text
