import Npl.Proofs.Syntax.Tokens

/-!
# How tokens tile a text

A text is its tokens and its stray characters, one behind the other, and between them there is
nothing but filler: blanks, line comments and closed block comments. So every character belongs to
exactly one token, stray character or stretch of filler, and where each of them stands is known by
its offset, its line and its column.

## Main definitions

* `Filler` — stretches of blanks and comments.
* `Tiles` — characters are spans with filler between them.
* `Tiling` — the same by offsets: what the spans cover, and the gaps that they leave.

## Main results

* `Lexeme.tiles_layOut` — the lexemes of a text tile it.
* `Tiles.tiling` — spans with filler between them, by their offsets.
* `TokenList.pairwise_ofText` — the tokens of a text stand in order.
* `TokenList.tiling_ofText` — the tokens and the stray characters tile the text.
-/

namespace Npl

open Text (Position Stands)

/-! ### Filler -/

/-- A stretch of blanks and comments in front of the characters `after`. A line comment goes to the
end of its line, and a block comment to the first `*/` in it. -/
inductive Filler (after : List Char) : List Char → Prop
  | nil : Filler after []
  | blank {c : Char} {cs : List Char} (hc : c ∈ [' ', '\t', '\r', '\n']) (hcs : Filler after cs) :
      Filler after (c :: cs)
  | line {body cs : List Char} (hbody : '\n' ∉ body) (hend : ∀ c ∈ (cs ++ after).head?, c = '\n')
      (hcs : Filler after cs) : Filler after ('/' :: '/' :: body ++ cs)
  | block {body cs : List Char} (hbody : ¬ ['*', '/'] <:+: body) (hcs : Filler after cs) :
      Filler after ('/' :: '*' :: body ++ '*' :: '/' :: cs)

theorem Filler.blanks {after bs cs : List Char} (hbs : ∀ c ∈ bs, Lexeme.isBlank c = true)
    (hcs : Filler after cs) : Filler after (bs ++ cs) := by
  induction bs with
  | nil => exact hcs
  | cons b bs ih =>
      rw [List.forall_mem_cons] at hbs
      refine .blank ?_ (ih hbs.2)
      simpa [Lexeme.isBlank, or_assoc] using hbs.1

namespace Lexeme

/-- What is found as the end of a block comment is the first one. -/
theorem exists_of_blockEnd? {cs : List Char} {n : Nat} (h : blockEnd? cs = some n) :
    ∃ body rest, cs = body ++ '*' :: '/' :: rest ∧ n = body.length + 2 ∧
      ¬ ['*', '/'] <:+: body := by
  fun_induction blockEnd? cs generalizing n with
  | case1 rest =>
      obtain rfl := Option.some.inj h
      exact ⟨[], rest, rfl, rfl, by simp⟩
  | case2 c cs hopen ih =>
      obtain ⟨m, hm, rfl⟩ := Option.map_eq_some_iff.1 h
      obtain ⟨body, rest, rfl, rfl, hbody⟩ := ih hm
      refine ⟨c :: body, rest, rfl, rfl, ?_⟩
      rw [List.infix_cons_iff, not_or]
      refine ⟨?_, hbody⟩
      rintro ⟨tail, htail⟩
      obtain ⟨rfl, hslash⟩ := List.cons.inj htail
      cases body with
      | nil => simp at hslash
      | cons d body =>
          obtain rfl := (List.cons.inj hslash).1
          exact hopen _ rfl rfl
  | case3 => simp at h

/-- A run takes what has the property, and behind it there is nothing, or something without it. -/
theorem exists_run (p : Char → Bool) (cs : List Char) :
    ∃ run rest, cs = run ++ rest ∧ runLength p cs = run.length ∧ (∀ c ∈ run, p c = true) ∧
      ∀ c ∈ rest.head?, p c = false := by
  refine ⟨cs.takeWhile p, cs.dropWhile p, List.takeWhile_append_dropWhile.symm, rfl,
    fun c hc => List.mem_takeWhile_imp hc, fun c hc => ?_⟩
  have hstop := List.head?_dropWhile_not p cs
  rw [Option.mem_def.1 hc] at hstop
  exact hstop

/-- What a comment takes, and what stands behind it. -/
theorem exists_of_commentReach {cs : List Char} (h : 0 < commentReach cs) :
    (∃ body rest, cs = '/' :: '/' :: body ++ rest ∧ commentReach cs = body.length + 2 ∧
        '\n' ∉ body ∧ ∀ c ∈ rest.head?, c = '\n') ∨
      ∃ body rest, cs = '/' :: '*' :: body ++ '*' :: '/' :: rest ∧
        commentReach cs = body.length + 4 ∧ ¬ ['*', '/'] <:+: body := by
  fun_cases commentReach cs with
  | case1 cs =>
      obtain ⟨body, rest, rfl, hlength, hbody, hrest⟩ := exists_run (· ≠ '\n') cs
      refine .inl ⟨body, rest, rfl, ?_, fun hmem => by simpa using hbody _ hmem,
        fun c hc => by simpa using hrest c hc⟩
      rw [hlength, Nat.add_comm]
  | case2 cs n hend =>
      obtain ⟨body, rest, rfl, rfl, hbody⟩ := exists_of_blockEnd? hend
      exact .inr ⟨body, rest, rfl, by omega, hbody⟩
  | case3 cs hend => simp [commentReach, hend] at h
  | case4 cs hline hblock => simp [commentReach] at h

/-- A blank or a comment makes filler longer. -/
theorem filler_take {cs gap after : List Char}
    (hkind : Kind.at cs = .blank ∨ Kind.at cs = .comment) (hne : cs ≠ [])
    (hrest : cs.drop ((Kind.at cs).reach cs) = gap ++ after) (hgap : Filler after gap) :
    Filler after (cs.take ((Kind.at cs).reach cs) ++ gap) := by
  have hpos := Kind.reach_at_pos hne
  rcases hkind with hkind | hkind
  · rw [hkind, Kind.reach] at hrest ⊢
    obtain ⟨run, rest, rfl, hlength, hrun, -⟩ := exists_run isBlank cs
    rw [hlength, List.take_left]
    exact hgap.blanks hrun
  · rw [hkind, Kind.reach] at hpos hrest ⊢
    rcases exists_of_commentReach hpos with
      ⟨body, rest, rfl, hlength, hbody, hend⟩ | ⟨body, rest, rfl, hlength, hbody⟩
    · rw [hlength] at hrest ⊢
      simp only [List.cons_append, List.drop_succ_cons, List.drop_left, List.take_succ_cons,
        List.take_left] at hrest ⊢
      exact .line hbody (hrest ▸ hend) hgap
    · rw [hlength] at hrest ⊢
      have hpiece : '/' :: '*' :: body ++ '*' :: '/' :: rest =
          ('/' :: '*' :: body ++ ['*', '/']) ++ rest := by simp
      have hcount : body.length + 4 = ('/' :: '*' :: body ++ ['*', '/']).length := by simp
      rw [hpiece, hcount, List.take_left]
      simpa using Filler.block hbody hgap

end Lexeme

/-! ### Spans -/

/-- A stretch of a text, and the place where it starts. -/
structure Span where
  pos : Position
  text : List Char

/-- The offset just behind the stretch. -/
def Span.stop (s : Span) : Nat :=
  s.pos.offset + s.text.length

/-- The stretch that a token or an error is about. -/
def spanOf : Token ⊕ SyntaxError → Span
  | .inl t => ⟨t.pos, t.text.toList⟩
  | .inr e => ⟨e.pos, e.snippet.toList⟩

/-- The characters, of which the first one stands at the place, are the spans with filler before,
between and behind them. -/
inductive Tiles : Position → List Char → List Span → Prop
  | last {p : Position} {gap : List Char} (hgap : Filler [] gap) : Tiles p gap []
  | cons {p : Position} {gap piece rest : List Char} {spans : List Span}
      (hgap : Filler (piece ++ rest) gap) (hpiece : piece ≠ [])
      (hrest : Tiles (p.advance (gap ++ piece)) rest spans) :
      Tiles p (gap ++ (piece ++ rest)) (⟨p.advance gap, piece⟩ :: spans)

/-- Filler may stand before. -/
theorem Tiles.fill {p : Position} {piece cs : List Char} {spans : List Span}
    (h : Tiles (p.advance piece) cs spans)
    (hpiece : ∀ gap after, cs = gap ++ after → Filler after gap → Filler after (piece ++ gap)) :
    Tiles p (piece ++ cs) spans := by
  cases h with
  | last hgap => exact .last (hpiece _ _ (List.append_nil _).symm hgap)
  | cons hgap hne hrest =>
      rw [← List.append_assoc, ← Position.advance_append]
      refine .cons (hpiece _ _ rfl hgap) hne ?_
      rw [List.append_assoc, Position.advance_append]
      exact hrest

namespace Lexeme

/-- The token or the error that a placed lexeme is, if it is one. -/
def mark? (placed : Position × Lexeme) : Option (Token ⊕ SyntaxError) :=
  ((placed.2.token? placed.1).map .inl).or ((placed.2.error? placed.1).map .inr)

/-- A lexeme is filler, or a token or an error about its own text. -/
theorem mark?_cases (p : Position) (l : Lexeme) :
    (mark? (p, l) = none ∧ (l.kind = .blank ∨ l.kind = .comment)) ∨
      ∃ m, mark? (p, l) = some m ∧ spanOf m = ⟨p, l.text⟩ := by
  obtain ⟨kind, text⟩ := l
  cases kind <;> simp [mark?, token?, error?, tokenKind?, spanOf, SyntaxError.snippet]

/-- The lexemes of a text tile it. -/
theorem tiles_layOut (p : Position) (cs : List Char) :
    Tiles p cs (((layOut p (split cs)).filterMap mark?).map spanOf) := by
  fun_induction split cs generalizing p with
  | case1 => exact .last .nil
  | case2 cs hne kind ih =>
      have hpos : 0 < kind.reach cs := Kind.reach_at_pos hne
      have hpiece : cs.take (kind.reach cs) ≠ [] := by simp [hne]; omega
      have hrest := ih (p.advance (cs.take (kind.reach cs)))
      rw [layOut, List.filterMap_cons]
      rcases mark?_cases p ⟨kind, cs.take (kind.reach cs)⟩ with ⟨hnone, hkind⟩ | ⟨m, hsome, hspan⟩
      · rw [hnone]
        have hfill := hrest.fill fun gap after => filler_take hkind hne
        rw [List.take_append_drop] at hfill
        exact hfill
      · rw [hsome]
        have hcons := Tiles.cons (p := p) .nil hpiece hrest
        rw [List.nil_append, List.take_append_drop, Position.advance_nil] at hcons
        simpa only [List.map_cons, hspan] using hcons

end Lexeme

/-! ### Gaps -/

/-- The stretches of a text from an offset on that the spans leave free, each with the text behind
it: one before each span, and one behind the last. -/
def gaps (cs : List Char) (start : Nat) : List Span → List (List Char × List Char)
  | [] => [(cs.drop start, [])]
  | s :: spans =>
    ((cs.drop start).take (s.pos.offset - start), cs.drop s.pos.offset) :: gaps cs s.stop spans

/-- The spans tile the text: each of them stands in it where its position says, one behind the
other, there is nothing but filler in the gaps between them, and spans and gaps are the whole
text. -/
structure Tiling (cs : List Char) (spans : List Span) : Prop where
  text : ∀ s ∈ spans, s.text ≠ [] ∧ (cs.drop s.pos.offset).take s.text.length = s.text
  line : ∀ s ∈ spans, s.pos.line = 1 + (cs.take s.pos.offset).count '\n'
  column : ∀ s ∈ spans,
    s.pos.column = 1 + ((cs.take s.pos.offset).rtakeWhile (· ≠ '\n')).length
  apart : spans.Pairwise fun s t => s.stop ≤ t.pos.offset
  filler : ∀ gap ∈ gaps cs 0 spans, Filler gap.2 gap.1
  whole : (List.zipWith (·.1 ++ ·) (gaps cs 0 spans) (spans.map Span.text ++ [[]])).flatten = cs

namespace Tiles

variable {p : Position} {cs : List Char} {spans : List Span}

theorem ne_nil (h : Tiles p cs spans) : ∀ s ∈ spans, s.text ≠ [] := by
  induction h with
  | last => simp
  | cons hgap hne hrest ih => exact List.forall_mem_cons.2 ⟨hne, ih⟩

/-- The spans stand in the text. -/
theorem stands (pre : List Char) (h : Tiles (Position.start.advance pre) cs spans) :
    ∀ s ∈ spans, Stands (pre ++ cs) s.pos s.text := by
  generalize hp : Position.start.advance pre = p at h
  induction h generalizing pre with
  | last => simp
  | @cons p gap piece rest spans hgap hne hrest ih =>
      subst hp
      rw [List.forall_mem_cons]
      constructor
      · rw [← List.append_assoc, ← Position.advance_append]
        exact Stands.append _ _ _
      · have hlater := @ih (pre ++ (gap ++ piece)) (Position.advance_append _ _ _)
        simpa only [List.append_assoc] using hlater

/-- No span starts before the first place. -/
theorem le_offset (h : Tiles p cs spans) : ∀ s ∈ spans, p.offset ≤ s.pos.offset := by
  induction h with
  | last => simp
  | cons hgap hne hrest ih =>
      refine List.forall_mem_cons.2 ⟨?_, fun s hs => le_trans ?_ (ih s hs)⟩
      · rw [Position.offset_advance]
        exact Nat.le_add_right _ _
      · rw [Position.offset_advance]
        exact Nat.le_add_right _ _

/-- One span ends before the next one starts. -/
theorem apart (h : Tiles p cs spans) : spans.Pairwise fun s t => s.stop ≤ t.pos.offset := by
  induction h with
  | last => exact .nil
  | cons hgap hne hrest ih =>
      refine List.pairwise_cons.2 ⟨fun s hs => ?_, ih⟩
      have hle := hrest.le_offset s hs
      rw [Position.advance_append, Position.offset_advance] at hle
      exact hle

/-- The gaps are filler, and nothing is lost between gaps and spans. -/
theorem gaps (pre : List Char) (h : Tiles (Position.start.advance pre) cs spans) :
    (∀ gap ∈ gaps (pre ++ cs) pre.length spans, Filler gap.2 gap.1) ∧
      (List.zipWith (·.1 ++ ·) (Npl.gaps (pre ++ cs) pre.length spans)
        (spans.map Span.text ++ [[]])).flatten = cs := by
  generalize hp : Position.start.advance pre = p at h
  induction h generalizing pre with
  | last hgap => simpa [Npl.gaps] using hgap
  | @cons p gap piece rest spans hgap hne hrest ih =>
      subst hp
      have hoffset : ((Position.start.advance pre).advance gap).offset =
          pre.length + gap.length := by
        rw [Position.offset_advance, Position.offset_advance]
        simp [Position.start]
      have hlater := @ih (pre ++ (gap ++ piece)) (Position.advance_append _ _ _)
      simp only [List.append_assoc, List.length_append, ← Nat.add_assoc] at hlater
      have hfirst : (pre ++ (gap ++ (piece ++ rest))).drop (pre.length + gap.length) =
          piece ++ rest := by
        rw [← List.append_assoc, ← List.length_append, List.drop_left]
      simp only [Npl.gaps, Span.stop, hoffset, List.drop_left, Nat.add_sub_cancel_left,
        List.take_left, hfirst, List.forall_mem_cons, List.map_cons, List.cons_append,
        List.zipWith_cons_cons, List.flatten_cons, hlater.2, List.append_assoc, and_true]
      exact ⟨hgap, hlater.1⟩

/-- Spans with filler between them tile the text. -/
theorem tiling (h : Tiles Position.start cs spans) : Tiling cs spans := by
  have hstands := stands [] h
  have hgaps := gaps [] h
  exact ⟨fun s hs => ⟨h.ne_nil s hs, (hstands s hs).text⟩, fun s hs => (hstands s hs).place.line,
    fun s hs => (hstands s hs).place.column, h.apart, hgaps.1, hgaps.2⟩

end Tiles

/-! ### Tokens and stray characters -/

/-- The tokens of a text and the characters that are none, in order. -/
def marks (text : String) : List (Token ⊕ SyntaxError) :=
  (placedLexemes text).filterMap Lexeme.mark?

theorem tiles_marks (text : String) :
    Tiles Position.start text.toList ((marks text).map spanOf) :=
  Lexeme.tiles_layOut _ _

theorem tokens_of_marks (text : String) :
    (marks text).filterMap Sum.getLeft? = (TokenList.ofText text).tokens := by
  rw [marks, List.filterMap_filterMap]
  refine List.filterMap_congr fun ⟨p, kind, piece⟩ _ => ?_
  cases kind <;> simp [Lexeme.mark?, Lexeme.token?, Lexeme.error?, Lexeme.tokenKind?]

theorem strayErrors_of_marks (text : String) :
    (marks text).filterMap Sum.getRight? = strayErrors text := by
  rw [marks, List.filterMap_filterMap]
  refine List.filterMap_congr fun ⟨p, kind, piece⟩ _ => ?_
  cases kind <;> simp [Lexeme.mark?, Lexeme.token?, Lexeme.error?, Lexeme.tokenKind?]

/-- The tokens of a text stand in order, one behind the other. -/
theorem TokenList.pairwise_ofText (text : String) :
    (TokenList.ofText text).tokens.Pairwise fun t u => t.stopOffset ≤ u.pos.offset := by
  rw [← tokens_of_marks]
  refine List.Pairwise.filterMap _ (fun m m' hle t ht u hu => ?_)
    (List.pairwise_map.1 (tiles_marks text).apart)
  obtain rfl := Sum.getLeft?_eq_some_iff.1 ht
  obtain rfl := Sum.getLeft?_eq_some_iff.1 hu
  rwa [Span.stop, spanOf, String.length_toList] at hle

/-- A lexeme that fits no class is a single character. -/
theorem Lexeme.exists_of_stray {cs : List Char} {l : Lexeme} (h : l ∈ split cs)
    (hkind : l.kind = .stray) : ∃ c, l.text = [c] := by
  fun_induction split cs with
  | case1 => simp at h
  | case2 cs hne kind ih =>
      rcases List.mem_cons.1 h with rfl | h
      · obtain ⟨c, rest, rfl⟩ := List.exists_cons_of_ne_nil hne
        have hstray : kind = .stray := hkind
        exact ⟨c, by simp [hstray, Kind.reach]⟩
      · exact ih h

/-- An error about a text is about a single character of it. -/
theorem exists_of_mem_strayErrors {text : String} {e : SyntaxError} (h : e ∈ strayErrors text) :
    e.fault = .unrecognized ∧ ∃ c, e.found = some (String.singleton c) := by
  obtain ⟨⟨p, l⟩, hplaced, herror⟩ := List.mem_filterMap.1 h
  simp only [Lexeme.error?, Option.ite_none_right_eq_some, Option.some.injEq] at herror
  obtain ⟨hkind, rfl⟩ := herror
  obtain ⟨c, hc⟩ := Lexeme.exists_of_stray (Lexeme.mem_of_mem_layOut hplaced) hkind
  exact ⟨rfl, c, by rw [hc, String.singleton_eq_ofList]⟩

/-- **Tokens and stray characters tile the text.** They stand in it in order, each with the text at
its place, and none reaches into the next one. Before, between and behind them there is nothing but
filler. Each has the line and the column of its place, and so has the end of the text. -/
theorem TokenList.tiling_ofText (text : String) :
    ∃ marks : List (Token ⊕ SyntaxError),
      marks.filterMap Sum.getLeft? = (TokenList.ofText text).tokens ∧
      marks.filterMap Sum.getRight? = strayErrors text ∧
      (∀ e ∈ strayErrors text,
        e.fault = .unrecognized ∧ ∃ c, e.found = some (String.singleton c)) ∧
      Tiling text.toList (marks.map spanOf) ∧
      (TokenList.ofText text).stop.offset = text.length ∧
      (TokenList.ofText text).stop.line = 1 + text.toList.count '\n' ∧
      (TokenList.ofText text).stop.column = 1 + (text.toList.rtakeWhile (· ≠ '\n')).length := by
  exact ⟨marks text, tokens_of_marks text, strayErrors_of_marks text,
    fun _ => exists_of_mem_strayErrors, (tiles_marks text).tiling,
    (TokenList.offset_stop text).trans String.length_toList, Position.line_advance _ _,
    Position.column_advance _⟩

end Npl
