import Npl.Program.Unit
import Npl.Proofs.Syntax.Completeness
import Npl.Proofs.Syntax.Soundness

/-!
# The files that are accepted

A text is read without errors exactly if all its characters belong to tokens and comments and the
tokens follow the grammar. Reading is total, so the other half matters as much: every way to recover
from an error leaves an error behind.

## Main results

* `readTree_complaints_iff` — tokens are read without complaint exactly if they have a derivation.
* `SourceUnit.read_errors_iff_derivable` — the same for texts, with the tree that is read.
-/

namespace Npl

/-- The tokens of a derivation are read as its tree, without complaint. -/
theorem readTree_tokens (f : Grammar.File) : readTree f.tokens = (f.tree, []) := by
  have h : Reader.tree f.tokens = ⟨f.tree, [], []⟩ := Grammar.takes_file f
  simp only [readTree, h]

/-- Tokens are read without complaint exactly if they have a derivation. -/
theorem readTree_complaints_iff (ts : List Token) :
    (readTree ts).2 = [] ↔ ∃ f : Grammar.File, f.tokens = ts := by
  constructor
  · intro h
    have htakes : Reader.Takes Reader.tree ts (Reader.tree ts).value (Reader.tree ts).rest := by
      have hcomplaints : (Reader.tree ts).complaints = [] := h
      rw [Reader.Takes, ← hcomplaints]
    obtain ⟨f, -, hts, -⟩ := Grammar.exists_file_of_takes htakes
    exact ⟨f, hts.symm⟩
  · rintro ⟨f, rfl⟩
    rw [readTree_tokens]

/-- The errors in a text are its stray characters and the complaints about its tokens. -/
theorem parse_errors_iff (text : String) :
    (parse text).2 = [] ↔
      strayErrors text = [] ∧ (readTree (TokenList.ofText text).tokens).2 = [] := by
  simp [parse]

/-- **Acceptance.** A source is read without errors exactly if no character of its text is stray and
its tokens have a derivation. The derivation is then the only one, and the unit is its tree. -/
theorem SourceUnit.read_errors_iff_derivable (source : Source) :
    ((read source).2 = [] ↔
      strayErrors source.content = [] ∧
        ∃ f : Grammar.File, f.tokens = (TokenList.ofText source.content).tokens) ∧
    ∀ f : Grammar.File, f.tokens = (TokenList.ofText source.content).tokens →
      (read source).1 = ⟨source, f.tree⟩ ∧
        ∀ g : Grammar.File, g.tokens = (TokenList.ofText source.content).tokens → g = f := by
  refine ⟨?_, ?_⟩
  · rw [← readTree_complaints_iff, ← parse_errors_iff]
    simp [read]
  · intro f hf
    refine ⟨?_, fun g hg => Grammar.File.eq_of_tokens_eq (hg.trans hf.symm)⟩
    simp only [read, parse, ← hf, readTree_tokens]

end Npl
