import Npl.Text.Pieces

/-!
# Pieces without separators

Cutting and joining are inverse to each other where the pieces hold no separator, and the pieces of
any text hold none.

## Main results

* `not_mem_of_mem_pieces` — the separator is in no piece.
* `pieces_intercalate` — joined pieces are cut where they were joined.
-/

namespace Npl.Text

/-- The separator is in no piece. -/
theorem not_mem_of_mem_pieces {separator : Char} {cs w : List Char}
    (h : w ∈ pieces separator cs) : separator ∉ w := by
  induction cs generalizing w with
  | nil =>
      obtain rfl := List.mem_singleton.1 h
      simp
  | cons c cs ih =>
      rw [pieces] at h
      split at h
      · rcases List.mem_cons.1 h with rfl | htail
        · simp
        · exact ih htail
      · next hc =>
          split at h
          · next hnil => exact absurd hnil (pieces_ne_nil separator cs)
          · next v vs hvs =>
              rcases List.mem_cons.1 h with rfl | htail
              · have hv : separator ∉ v := ih (by rw [hvs]; exact List.mem_cons_self)
                simp only [List.mem_cons, not_or]
                exact ⟨fun heq => hc heq.symm, hv⟩
              · exact ih (by rw [hvs]; exact List.mem_cons_of_mem _ htail)

/-- A text without the separator is one piece. -/
theorem pieces_of_not_mem {separator : Char} {w : List Char} (h : separator ∉ w) :
    pieces separator w = [w] := by
  induction w with
  | nil => rfl
  | cons c w ih =>
      simp only [List.mem_cons, not_or] at h
      rw [pieces, if_neg (fun heq => h.1 heq.symm), ih h.2]

/-- A text without the separator is the first piece of what goes on with the separator. -/
theorem pieces_append_cons {separator : Char} {w : List Char} (h : separator ∉ w)
    (cs : List Char) : pieces separator (w ++ separator :: cs) = w :: pieces separator cs := by
  induction w with
  | nil => rw [List.nil_append, pieces, if_pos rfl]
  | cons c w ih =>
      simp only [List.mem_cons, not_or] at h
      rw [List.cons_append, pieces, if_neg (fun heq => h.1 heq.symm), ih h.2]

/-- Joined pieces are cut where they were joined. -/
theorem pieces_intercalate {separator : Char} {ws : List (List Char)}
    (h : ∀ w ∈ ws, separator ∉ w) (hne : ws ≠ []) :
    pieces separator (List.intercalate [separator] ws) = ws := by
  induction ws with
  | nil => exact absurd rfl hne
  | cons w ws ih =>
      have hw := h w List.mem_cons_self
      cases ws with
      | nil => rw [List.intercalate_singleton, pieces_of_not_mem hw]
      | cons v vs =>
          rw [List.intercalate_cons_cons, List.append_assoc, List.singleton_append,
            pieces_append_cons hw, ih (fun u hu => h u (List.mem_cons_of_mem _ hu)) (by simp)]

end Npl.Text
