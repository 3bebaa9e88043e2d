import Mathlib.Algebra.Group.Int.Defs
import Mathlib.Algebra.Group.Nat.Defs
import Npl.Diagnostic
import Npl.Proofs.Except
import Npl.Proofs.Text.Position

/-!
# Ranges of messages

A message whose snippet stands in a text, at the line and column that it names, has a range that
covers exactly the snippet, on however many lines it runs. Only in a text with more characters than
the protocol has positions can a message be without a range.

## Main definitions

* `Message.StandsAt`, `Message.PointsAt` — a message stands in a text, and points at its snippet.
* `Place.offset?` — the offset that a place has in a text.

## Main results

* `Message.StandsAt.exists_diagnostic` — the range of the diagnostic covers the snippet.
-/

namespace Npl

open Text (Position Stands)

/-! ### Places -/

/-- The offset of a place in a text, if there is one. -/
def Place.offset? (cs : List Char) (p : Place) : Option Nat :=
  match p.line, p.character with
  | .ofNat line, .ofNat character => Text.offsetAt? cs line character
  | _, _ => none

/-- A position as the editor counts it. -/
def Text.Position.toPlace (p : Position) : Place :=
  ⟨p.line - 1, p.column - 1⟩

section

variable {cs : List Char} {p : Position}

/-- The editor finds a place of a text at its offset. -/
theorem offset?_toPlace (h : p.In cs) : p.toPlace.offset? cs = some p.offset := by
  have hline := h.line
  have hcolumn := h.column
  have hplace : p.toPlace = ⟨.ofNat (p.line - 1), .ofNat (p.column - 1)⟩ := by
    simp only [Position.toPlace, Place.mk.injEq, Int.ofNat_eq_natCast]
    omega
  rw [hplace]
  refine Text.offsetAt?_eq_some_iff.2 ⟨h.le, ?_, ?_⟩
  · rw [← h.eq]
    omega
  · rw [← h.eq]
    omega

/-- In a text that is not too long, the protocol admits every place. -/
theorem make_toPlace (h : p.In cs) (hlength : cs.length < 2 ^ 31) :
    Place.make (p.line - 1) (p.column - 1) = .ok p.toPlace := by
  have hlimit : placeLimit = 2 ^ 31 - 1 := rfl
  have hbounds := h.bounds
  rw [Place.make, if_neg (by omega), if_neg (by omega), Position.toPlace]

/-- The place behind some characters, from the lengths of their lines. -/
theorem advance_eq_of_lineLengths (p : Position) (cs : List Char) :
    (p.advance cs).line = p.line + (lineLengths cs).2.length ∧
      (p.advance cs).column = match (lineLengths cs).2.getLast? with
        | none => p.column + (lineLengths cs).1
        | some last => last + 1 := by
  induction cs generalizing p with
  | nil => exact ⟨rfl, rfl⟩
  | cons c cs ih =>
      obtain ⟨hline, hcolumn⟩ := ih (p.step c)
      rw [Position.advance_cons, hline, hcolumn]
      by_cases hc : c = '\n'
      · have hlengths : lineLengths (c :: cs) = (0, (lineLengths cs).1 :: (lineLengths cs).2) := by
          simp [lineLengths, hc]
        have hstep : p.step c = ⟨p.line + 1, 1, p.offset + 1⟩ := if_pos hc
        rw [hlengths, hstep]
        refine ⟨by simp only [List.length_cons]; omega, ?_⟩
        cases hlast : (lineLengths cs).2.getLast? with
        | none =>
            rw [List.getLast?_eq_none_iff.1 hlast]
            simp [Nat.add_comm]
        | some last => simp [List.getLast?_cons, hlast]
      · have hlengths : lineLengths (c :: cs) = ((lineLengths cs).1 + 1, (lineLengths cs).2) := by
          simp [lineLengths, hc]
        have hstep : p.step c = ⟨p.line, p.column + 1, p.offset + 1⟩ := if_neg hc
        rw [hlengths, hstep]
        refine ⟨rfl, ?_⟩
        cases (lineLengths cs).2.getLast? with
        | none => simp only; omega
        | some last => rfl

end

/-! ### Messages -/

/-- The message stands in the text: at the line and column that it names there is its snippet. -/
structure Message.StandsAt (m : Message) (cs : List Char) (p : Position) : Prop where
  stands : Stands cs p m.snippet.toList
  line : m.line = p.line
  column : m.column = p.column

/-- The message points at its snippet: at some offset of the text there is the snippet, and the line
and column are those of that offset, both counted from one. -/
structure Message.PointsAt (m : Message) (cs : List Char) (o : Nat) : Prop where
  le : o ≤ cs.length
  line : m.line = 1 + (cs.take o).count '\n'
  column : m.column = 1 + ((cs.take o).rtakeWhile (· ≠ '\n')).length
  snippet : (cs.drop o).take m.snippet.length = m.snippet.toList

namespace Message.StandsAt

variable {m : Message} {cs : List Char} {p : Position}

/-- A message that stands in a text points at its snippet. -/
theorem pointsAt (h : m.StandsAt cs p) : m.PointsAt cs p.offset := by
  have hline := h.stands.place.line
  have hcolumn := h.stands.place.column
  refine ⟨h.stands.place.le, ?_, ?_, ?_⟩
  · rw [h.line]
    omega
  · rw [h.column]
    omega
  · rw [← String.length_toList]
    exact h.stands.text

/-- The message covers the text from its place to the end of its snippet. -/
theorem range_eq (h : m.StandsAt cs p) (hlength : cs.length < 2 ^ 31) :
    m.range = .ok ⟨p.toPlace, (p.advance m.snippet.toList).toPlace⟩ := by
  have hbounds := h.stands.place.bounds
  have hstart : Place.make (max (m.line - 1) 0) (max (m.column - 1) 0) = .ok p.toPlace := by
    rw [← make_toPlace h.stands.place hlength, h.line, h.column]
    congr 1 <;> omega
  have hstop := make_toPlace h.stands.stop hlength
  obtain ⟨hline, hcolumn⟩ := advance_eq_of_lineLengths p m.snippet.toList
  have hbetween : Place.make p.toPlace.line
      (p.toPlace.character + (lineLengths m.snippet.toList).1) =
      Place.make (p.line - 1) ((p.column + (lineLengths m.snippet.toList).1 : Nat) - 1) := by
    simp only [Position.toPlace]
    congr 1
    omega
  refine bind_eq_ok_iff.2 ⟨_, hstart, ?_⟩
  rw [hline, hcolumn] at hstop
  generalize lineLengths m.snippet.toList = lengths at hstop hbetween ⊢
  obtain ⟨first, others⟩ := lengths
  cases hlast : others.getLast? with
  | none =>
      obtain rfl := List.getLast?_eq_none_iff.1 hlast
      have hend := hbetween.trans hstop
      simp only [hlast]
      exact bind_eq_ok_iff.2 ⟨_, hend, rfl⟩
  | some last =>
      rw [hlast] at hstop
      have hend : Place.make (p.toPlace.line + others.length) last =
          .ok (p.advance m.snippet.toList).toPlace := by
        rw [← hstop, Position.toPlace]
        simp only
        congr 1 <;> omega
      simp only [hlast]
      exact bind_eq_ok_iff.2 ⟨_, hend, rfl⟩

/-- The range of the diagnostic covers the snippet. -/
theorem exists_diagnostic (h : m.StandsAt cs p) (hlength : cs.length < 2 ^ 31) :
    ∃ d, m.toDiagnostic = .ok d ∧ d.range.start.offset? cs = some p.offset ∧
      d.range.stop.offset? cs = some (p.offset + m.snippet.length) := by
  refine ⟨_, bind_eq_ok_iff.2 ⟨_, h.range_eq hlength, rfl⟩, offset?_toPlace h.stands.place, ?_⟩
  rw [offset?_toPlace h.stands.stop, Position.offset_advance, String.length_toList]

end Message.StandsAt

end Npl
