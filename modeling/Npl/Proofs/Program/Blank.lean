import Mathlib.Algebra.Group.Nat.Defs
import Mathlib.Data.List.TakeDrop
import Npl.Compiler
import Npl.Proofs.Syntax.LineEnds
import Npl.Proofs.Text.Position
import Npl.Text.Newline

/-!
# Blank documents

A document of blanks has no tokens. All that is wrong with it is that the package clause is missing,
and that is found at its end. So a document may be as simple as that and come to a message that the
protocol has no position for: it only takes enough line feeds.

## Main definitions

* `missingPackage` — what is found in a document of blanks.
* `lineFeeds` — a document of line feeds.

## Main results

* `compile_of_blank` — a document of blanks compiles to this message.
* `toDiagnostic_missingPackage` — it has no diagnostic if there are too many line feeds.
-/

namespace Npl

open Text (Position)

/-! ### Texts of blanks -/

theorem Lexeme.split_of_blank {cs : List Char} (hne : cs ≠ [])
    (h : ∀ c ∈ cs, isBlank c = true) : split cs = [⟨.blank, cs⟩] := by
  have hreach : Kind.blank.reach cs = cs.length := by
    rw [Kind.reach, runLength, List.takeWhile_eq_self_iff.2 h]
  have hat : Kind.at cs = .blank := by
    obtain ⟨c, cs, rfl⟩ := List.exists_cons_of_ne_nil hne
    exact Kind.at_of_blank (h c List.mem_cons_self) cs
  rw [split, dif_neg hne]
  simp only [hat, hreach, List.take_length, List.drop_length]
  rw [split, dif_pos rfl]

variable {text : String} (h : ∀ c ∈ text.toList, Lexeme.isBlank c = true)

include h

theorem placedLexemes_of_blank : ∀ placed ∈ placedLexemes text, placed.2.kind = .blank := by
  intro placed hmem
  by_cases hne : text.toList = []
  · simp [placedLexemes, hne, Lexeme.split, Lexeme.layOut] at hmem
  · rw [placedLexemes, Lexeme.split_of_blank hne h] at hmem
    obtain rfl := List.mem_singleton.1 hmem
    rfl

/-- What is missing in a text of blanks is a package clause, at its end. -/
theorem parse_of_blank : parse text =
    (⟨none, [], []⟩, [⟨.missing "package", none, Position.start.advance text.toList⟩]) := by
  have hblank := placedLexemes_of_blank h
  have htokens : (TokenList.ofText text).tokens = [] := by
    refine List.filterMap_eq_nil_iff.2 fun placed hmem => ?_
    simp [Lexeme.token?, Lexeme.tokenKind?, hblank placed hmem]
  have hstrays : strayErrors text = [] := by
    refine List.filterMap_eq_nil_iff.2 fun placed hmem => ?_
    simp [Lexeme.error?, hblank placed hmem]
  have hitems : Reader.items Reader.item [] = ⟨[], [], []⟩ := by
    rw [Reader.items, dif_neg (by simp)]
    rfl
  have hread : readTree [] = (⟨none, [], []⟩, [⟨.missing "package", none⟩]) := by
    change ((⟨none, (Reader.items Reader.item []).value.filterMap Sum.getLeft?,
      (Reader.items Reader.item []).value.filterMap Sum.getRight?⟩ : Tree),
      ⟨.missing "package", none⟩ :: ((Reader.items Reader.item []).complaints ++ [])) = _
    rw [hitems]
    rfl
  rw [parse, htokens, hstrays, hread]
  rfl

omit h

/-! ### Compiling -/

/-- What the compiler finds in a document of blanks. -/
def missingPackage (s : Source) : Message :=
  ⟨.syntaxError, .error, "Syntax error: missing 'package' at '<EOF>'", s.location,
    (Position.start.advance s.content.toList).line,
    (Position.start.advance s.content.toList).column, ""⟩

/-- A document of blanks compiles to one error. -/
theorem compile_of_blank {s : Source} (h : ∀ c ∈ s.content.toList, Lexeme.isBlank c = true) :
    compile [s] = .finished (.failure [missingPackage s] []) := by
  have hread : SourceUnit.read s = (⟨s, ⟨none, [], []⟩⟩, [missingPackage s]) := by
    rw [SourceUnit.read, parse_of_blank h]
    rfl
  have hnone : findCircular Graph.findCycle? [] = none := rfl
  simp [compile, readAll, brokenLocations, hread, check, SourceUnit.isChecked, SourceUnit.location,
    hnone, Report.ofFindings]

/-! ### Too many line feeds -/

/-- Behind too many line feeds there is no position for a message. -/
theorem toDiagnostic_missingPackage {s : Source} (h : 2 ^ 31 ≤ s.content.toList.count '\n') :
    ∃ f, (missingPackage s).toDiagnostic = .error f := by
  have hlimit : placeLimit = 2 ^ 31 - 1 := rfl
  have hline := Position.line_advance .start s.content.toList
  have hstart : Position.start.line = 1 := rfl
  have hplace : Place.make (max ((missingPackage s).line - 1) 0)
      (max ((missingPackage s).column - 1) 0) =
        .error ⟨.line, max ((missingPackage s).line - 1) 0⟩ := by
    refine if_pos (.inr ?_)
    change placeLimit < max (((Position.start.advance s.content.toList).line : Int) - 1) 0
    omega
  refine ⟨⟨.line, max ((missingPackage s).line - 1) 0⟩, ?_⟩
  rw [Message.toDiagnostic, Message.range, hplace]
  rfl

/-- A document of line feeds. -/
def lineFeeds (n : Nat) : String :=
  String.ofList (List.replicate n '\n')

theorem isBlank_of_mem_lineFeeds {n : Nat} :
    ∀ c ∈ (lineFeeds n).toList, Lexeme.isBlank c = true := by
  intro c hc
  rw [lineFeeds, String.toList_ofList] at hc
  obtain rfl := List.eq_of_mem_replicate hc
  rfl

theorem count_lineFeeds (n : Nat) : (lineFeeds n).toList.count '\n' = n := by
  rw [lineFeeds, String.toList_ofList, List.count_replicate_self]

theorem unifyNewlines_lineFeeds (n : Nat) :
    Text.unifyNewlines (lineFeeds n).toList = (lineFeeds n).toList := by
  rw [lineFeeds, String.toList_ofList]
  induction n with
  | zero => rfl
  | succ n ih => rw [List.replicate_succ, Text.unifyNewlines, ih] <;> simp

end Npl
