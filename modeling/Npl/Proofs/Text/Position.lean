import Mathlib.Data.List.DropRight
import Npl.Text.Position

/-!
# Offsets, lines and columns

The position behind some characters of a text is determined by them: the line feeds among them give
the line, and those behind the last line feed give the column. Conversely a line and a column belong
to at most one offset, which is found by going through the text.

## Main definitions

* `Position.Before` — the order of places by line and column.
* `Position.In` — a position is a place of a text.
* `Stands` — a piece stands in a text at a place.
* `offsetAt?` — the offset of a line and a character, both counted from zero.

## Main results

* `Position.line_advance`, `Position.column_advance` — line and column of a place.
* `offsetAt?_eq_some_iff` — the offset of a line and a character is the one of the place there.
-/

namespace Npl.Text

namespace Position

variable {p : Position} {cs : List Char}

/-! ### Advancing -/

theorem offset_step (p : Position) (c : Char) : (p.step c).offset = p.offset + 1 := by
  unfold step
  split <;> rfl

/-- Every character counts for the offset. -/
theorem offset_advance (p : Position) (cs : List Char) :
    (p.advance cs).offset = p.offset + cs.length := by
  induction cs generalizing p with
  | nil => rfl
  | cons c cs ih =>
      rw [advance_cons, ih, offset_step, List.length_cons]
      omega

/-- Every line feed counts for the line. -/
theorem line_advance (p : Position) (cs : List Char) :
    (p.advance cs).line = p.line + cs.count '\n' := by
  induction cs generalizing p with
  | nil => rfl
  | cons c cs ih =>
      rw [advance_cons, ih]
      by_cases hc : c = '\n'
      · subst hc
        simp only [step, if_true, List.count_cons_self]
        omega
      · simp [step, hc]

/-- The characters behind the last line feed count for the column. -/
theorem column_advance (cs : List Char) :
    (start.advance cs).column = 1 + (cs.rtakeWhile (· ≠ '\n')).length := by
  induction cs using List.reverseRecOn with
  | nil => rfl
  | append_singleton cs c ih =>
      rw [advance_append, advance_cons, advance_nil]
      by_cases hc : c = '\n'
      · subst hc
        rw [List.rtakeWhile_concat_neg _ _ _ (by simp)]
        rfl
      · rw [List.rtakeWhile_concat_pos _ _ _ (by simp [hc])]
        simp only [step, if_neg hc, ih, List.length_append, List.length_singleton]
        omega

/-- On the same line, every character counts for the column. -/
theorem column_of_line_eq (p : Position) (cs : List Char) (h : (p.advance cs).line = p.line) :
    (p.advance cs).column = p.column + cs.length := by
  induction cs generalizing p with
  | nil => rfl
  | cons c cs ih =>
      have hline := line_advance p (c :: cs)
      have hc : c ≠ '\n' := by
        rintro rfl
        rw [List.count_cons_self] at hline
        omega
      have hstep : p.step c = ⟨p.line, p.column + 1, p.offset + 1⟩ := if_neg hc
      rw [advance_cons, hstep] at h ⊢
      have hcolumn : (Position.advance ⟨p.line, p.column + 1, p.offset + 1⟩ cs).column =
          p.column + 1 + cs.length := ih _ h
      rw [hcolumn, List.length_cons]
      omega

/-- The place `p` comes before `q`: on an earlier line, or further left on the same line. -/
def Before (p q : Position) : Prop :=
  p.line < q.line ∨ p.line = q.line ∧ p.column < q.column

/-- Every stretch of characters leads on. -/
theorem before_advance (p : Position) {cs : List Char} (hcs : cs ≠ []) :
    p.Before (p.advance cs) := by
  have hline := line_advance p cs
  have hlength := List.length_pos_iff.2 hcs
  by_cases hsame : (p.advance cs).line = p.line
  · have hcolumn := column_of_line_eq p cs hsame
    exact .inr ⟨hsame.symm, by omega⟩
  · exact .inl (by omega)

/-! ### Places of a text -/

/-- The position is a place of the text: it lies behind the characters before its offset. -/
structure In (p : Position) (cs : List Char) : Prop where
  le : p.offset ≤ cs.length
  eq : p = start.advance (cs.take p.offset)

/-- Behind the first part of a text there is a place. -/
theorem in_append (pre post : List Char) : (start.advance pre).In (pre ++ post) := by
  have hoffset : (start.advance pre).offset = pre.length := by
    rw [offset_advance]
    exact Nat.zero_add _
  refine ⟨?_, ?_⟩
  · rw [hoffset, List.length_append]
    exact Nat.le_add_right _ _
  · rw [hoffset, List.take_left]

namespace In

theorem line (h : p.In cs) : p.line = 1 + (cs.take p.offset).count '\n' := by
  have hline := line_advance start (cs.take p.offset)
  rw [← h.eq] at hline
  exact hline

theorem column (h : p.In cs) :
    p.column = 1 + ((cs.take p.offset).rtakeWhile (· ≠ '\n')).length := by
  have hcolumn := column_advance (cs.take p.offset)
  rw [← h.eq] at hcolumn
  exact hcolumn

/-- Lines and columns count from one, and are no more than the places of the text. -/
theorem bounds (h : p.In cs) :
    (1 ≤ p.line ∧ p.line ≤ cs.length + 1) ∧ 1 ≤ p.column ∧ p.column ≤ cs.length + 1 := by
  have hfeeds : (cs.take p.offset).count '\n' ≤ (cs.take p.offset).length := List.count_le_length
  have hrest : ((cs.take p.offset).rtakeWhile (· ≠ '\n')).length ≤ (cs.take p.offset).length :=
    (List.rtakeWhile_suffix _ _).length_le
  have hprefix : (cs.take p.offset).length ≤ cs.length := List.length_take_le' _ _
  have hline := h.line
  have hcolumn := h.column
  omega

/-- Of two places of a text, the one with the smaller offset comes before the other one. -/
theorem before {q : Position} (hp : p.In cs) (hq : q.In cs) (h : p.offset < q.offset) :
    p.Before q := by
  have hq' := hq.eq
  rw [← Nat.add_sub_cancel' h.le, List.take_add, advance_append, ← hp.eq] at hq'
  rw [hq']
  refine before_advance p (List.ne_nil_of_length_pos ?_)
  rw [List.length_take, List.length_drop]
  have := hq.le
  omega

/-- The place behind a stretch that starts at a place of the text. -/
theorem advance (h : p.In cs) (n : Nat) :
    (p.advance ((cs.drop p.offset).take n)).In cs := by
  have hsplit : cs = (cs.take p.offset ++ (cs.drop p.offset).take n) ++
      (cs.drop p.offset).drop n := by
    rw [List.append_assoc, List.take_append_drop, List.take_append_drop]
  have hplace : p.advance ((cs.drop p.offset).take n) =
      start.advance (cs.take p.offset ++ (cs.drop p.offset).take n) := by
    rw [advance_append, ← h.eq]
  rw [hplace]
  nth_rewrite 3 [hsplit]
  exact in_append _ _

end In

end Position

/-! ### Pieces of a text -/

/-- The piece stands in the text at a place. -/
structure Stands (cs : List Char) (p : Position) (piece : List Char) : Prop where
  place : p.In cs
  text : (cs.drop p.offset).take piece.length = piece

namespace Stands

variable {cs piece : List Char} {p : Position}

/-- What follows a first part stands behind it. -/
theorem append (pre piece post : List Char) :
    Stands (pre ++ (piece ++ post)) (Position.start.advance pre) piece := by
  have hoffset : (Position.start.advance pre).offset = pre.length := by
    rw [Position.offset_advance]
    exact Nat.zero_add _
  refine ⟨Position.in_append pre _, ?_⟩
  rw [hoffset, List.drop_left, List.take_left]

/-- At each place there stands what can be cut out there. -/
theorem cut (h : p.In cs) (n : Nat) : Stands cs p ((cs.drop p.offset).take n) := by
  refine ⟨h, ?_⟩
  rw [List.length_take, List.take_eq_take_iff, List.length_drop]
  omega

/-- Nothing stands at each place. -/
theorem nil (h : p.In cs) : Stands cs p [] :=
  ⟨h, rfl⟩

/-- The piece ends at a place of the text. -/
theorem stop (h : Stands cs p piece) : (p.advance piece).In cs := by
  have hstop := h.place.advance piece.length
  rw [h.text] at hstop
  exact hstop

end Stands

/-! ### Finding an offset -/

/-- The offset of the given line and character, both counted from zero. A line has a place before
each of its characters, and one at its end. -/
def offsetAt? : List Char → Nat → Nat → Option Nat
  | _, 0, 0 => some 0
  | c :: cs, 0, n + 1 => if c = '\n' then none else (offsetAt? cs 0 n).map (· + 1)
  | c :: cs, l + 1, n => (offsetAt? cs (if c = '\n' then l else l + 1) n).map (· + 1)
  | [], _, _ => none

/-- Going through a text that starts at the position `p` finds the place with a line and a character
that count from there. -/
theorem offsetAt?_eq_some_iff_advance (p : Position) {cs : List Char} {l n o : Nat} :
    offsetAt? cs l n = some o ↔ o ≤ cs.length ∧ (p.advance (cs.take o)).line = p.line + l ∧
      (p.advance (cs.take o)).column = if l = 0 then p.column + n else n + 1 := by
  induction cs generalizing p l n o with
  | nil => cases l <;> cases n <;> cases o <;> simp [offsetAt?]
  | cons c cs ih =>
      cases o with
      | zero => cases l <;> cases n <;> simp [offsetAt?]
      | succ o =>
          have hmap : ∀ x : Option Nat, x.map (· + 1) = some (o + 1) ↔ x = some o := by simp
          rw [List.take_succ_cons, Position.advance_cons, List.length_cons, Nat.succ_le_succ_iff]
          have hfeeds := Position.line_advance (p.step c) (cs.take o)
          by_cases hc : c = '\n'
          · have hline : (p.step c).line = p.line + 1 := by simp [Position.step, hc]
            have hcolumn : (p.step c).column = 1 := by simp [Position.step, hc]
            cases l with
            | zero =>
                -- The line feed has left the line behind.
                have hnone : offsetAt? (c :: cs) 0 n ≠ some (o + 1) := by
                  cases n <;> simp [offsetAt?, hc]
                simp only [hnone, false_iff, not_and]
                omega
            | succ l =>
                rw [offsetAt?, if_pos hc, hmap, ih (p.step c), hline, hcolumn]
                have hfirst : (if l = 0 then 1 + n else n + 1) = n + 1 := by
                  split <;> omega
                simp [hfirst, Nat.add_right_comm, Nat.add_assoc]
          · have hline : (p.step c).line = p.line := by simp [Position.step, hc]
            have hcolumn : (p.step c).column = p.column + 1 := by simp [Position.step, hc]
            cases l with
            | zero =>
                cases n with
                | zero =>
                    -- The character has left the place at the start behind.
                    have hnone : offsetAt? (c :: cs) 0 0 ≠ some (o + 1) := by simp [offsetAt?]
                    have hlater := Position.column_of_line_eq (p.step c) (cs.take o)
                    simp only [hnone, false_iff, not_and, if_true]
                    omega
                | succ n =>
                    rw [offsetAt?, if_neg hc, hmap, ih (p.step c), hline, hcolumn]
                    simp [Nat.add_right_comm, Nat.add_assoc]
            | succ l =>
                rw [offsetAt?, if_neg hc, hmap, ih (p.step c), hline]
                simp

/-- The offset that is found is the one of the place with that line and character. -/
theorem offsetAt?_eq_some_iff {cs : List Char} {l n o : Nat} :
    offsetAt? cs l n = some o ↔ o ≤ cs.length ∧
      (Position.start.advance (cs.take o)).line = l + 1 ∧
      (Position.start.advance (cs.take o)).column = n + 1 := by
  have hcolumn : (if l = 0 then 1 + n else n + 1) = n + 1 := by
    split <;> omega
  rw [offsetAt?_eq_some_iff_advance .start]
  simp only [Position.start, hcolumn, Nat.add_comm 1 l]

end Npl.Text
