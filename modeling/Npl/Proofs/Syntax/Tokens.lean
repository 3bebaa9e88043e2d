import Npl.Proofs.Text.Position
import Npl.Syntax.Tokenize

/-!
# Where tokens stand

Lexemes are laid out one behind the other, so each of them stands in the text at its place. The same
goes for the tokens and for the errors that lexemes become.

## Main results

* `stands_of_mem_placedLexemes` — a lexeme stands in the text at its place.
* `Token.stands_of_mem_ofText` — a token of a text stands in it.
* `SyntaxError.stands_of_mem_strayErrors` — a stray character stands in the text.
-/

namespace Npl

open Text (Position Stands)

variable {text : String}

/-- Lexemes that are laid out behind the first part of a text stand where they are laid. -/
theorem Lexeme.stands_of_mem_layOut (pre : List Char) {lexemes : List Lexeme} {p : Position}
    {l : Lexeme} (h : (p, l) ∈ layOut (Position.start.advance pre) lexemes) :
    Stands (pre ++ lexemes.flatMap Lexeme.text) p l.text := by
  induction lexemes generalizing pre with
  | nil => simp [layOut] at h
  | cons first others ih =>
      rw [List.flatMap_cons]
      rcases List.mem_cons.1 h with heq | hlater
      · obtain ⟨rfl, rfl⟩ := Prod.mk.inj heq
        exact Stands.append _ _ _
      · rw [← Position.advance_append] at hlater
        rw [← List.append_assoc]
        exact ih _ hlater

/-- Laid out are the given lexemes. -/
theorem Lexeme.mem_of_mem_layOut {p q : Position} {l : Lexeme} {ls : List Lexeme}
    (h : (q, l) ∈ layOut p ls) : l ∈ ls := by
  induction ls generalizing p with
  | nil => simp [layOut] at h
  | cons first ls ih =>
      rcases List.mem_cons.1 h with heq | h
      · exact List.mem_cons.2 (.inl (Prod.mk.inj heq).2)
      · exact List.mem_cons_of_mem _ (ih h)

/-- A lexeme of a text stands in it at its place. -/
theorem stands_of_mem_placedLexemes {p : Position} {l : Lexeme} (h : (p, l) ∈ placedLexemes text) :
    Stands text.toList p l.text := by
  have hstands := Lexeme.stands_of_mem_layOut [] h
  rw [Lexeme.flatten_split] at hstands
  exact hstands

/-- The token stands in the text at its place. -/
def Token.Stands (text : String) (t : Token) : Prop :=
  Text.Stands text.toList t.pos t.text.toList

/-- A token of a text stands in it. -/
theorem Token.stands_of_mem_ofText {t : Token} (h : t ∈ (TokenList.ofText text).tokens) :
    t.Stands text := by
  obtain ⟨⟨p, l⟩, hplaced, htoken⟩ := List.mem_filterMap.1 h
  obtain ⟨kind, -, rfl⟩ := Option.map_eq_some_iff.1 htoken
  have hstands := stands_of_mem_placedLexemes hplaced
  rw [Token.Stands, String.toList_ofList]
  exact hstands

/-- A token of a text has at least one character. -/
theorem Token.lt_stopOffset_of_mem_ofText {t : Token} (h : t ∈ (TokenList.ofText text).tokens) :
    t.pos.offset < t.stopOffset := by
  obtain ⟨⟨p, l⟩, hplaced, htoken⟩ := List.mem_filterMap.1 h
  obtain ⟨kind, -, rfl⟩ := Option.map_eq_some_iff.1 htoken
  have hne : l.text ≠ [] := Lexeme.split_ne_nil _ l (Lexeme.mem_of_mem_layOut hplaced)
  rw [Token.stopOffset, String.length_ofList]
  exact Nat.lt_add_of_pos_right (List.length_pos_iff.2 hne)

/-- The error stands in the text: what was found is there, or nothing is. -/
def SyntaxError.Stands (text : String) (e : SyntaxError) : Prop :=
  Text.Stands text.toList e.pos e.snippet.toList

/-- A stray character stands in the text. -/
theorem SyntaxError.stands_of_mem_strayErrors {e : SyntaxError} (h : e ∈ strayErrors text) :
    e.Stands text := by
  obtain ⟨⟨p, l⟩, hplaced, herror⟩ := List.mem_filterMap.1 h
  have hstands := stands_of_mem_placedLexemes hplaced
  simp only [Lexeme.error?, Option.ite_none_right_eq_some, Option.some.injEq] at herror
  obtain ⟨-, rfl⟩ := herror
  rw [SyntaxError.Stands, SyntaxError.snippet, Option.getD_some, String.toList_ofList]
  exact hstands

/-- The end of a text has all its characters before it. -/
theorem TokenList.offset_stop (text : String) :
    (TokenList.ofText text).stop.offset = text.toList.length := by
  rw [TokenList.ofText, Position.offset_advance]
  exact Nat.zero_add _

/-- The end of a text is a place of it. -/
theorem TokenList.stop_in_ofText : (TokenList.ofText text).stop.In text.toList := by
  have hend := Position.in_append text.toList []
  rw [List.append_nil] at hend
  exact hend

end Npl
