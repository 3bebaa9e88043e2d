import Npl.Proofs.Syntax.Provenance
import Npl.Proofs.Syntax.Relocation
import Npl.Proofs.Syntax.Tiling
import Npl.Proofs.Text.Newline

/-!
# Reading texts with unified line ends

Blanks and comments may hold carriage returns, and a line comment may even end between the two
characters of a line end. All other lexemes have none. So if a text loses its carriage returns, it
falls into the same lexemes, and the same tokens come to the parser, at places with the same lines
and columns.

This goes for tame texts. A carriage return on its own is a blank like any other, but a line feed in
its place would end a comment, and behind a backslash it belongs to a string.

## Main definitions

* `Lexeme.Kind.Agrees`, `Lexeme.Kind.Clear` — what a class takes without the carriage returns.
* `Token.Settled` — a token that neither starts nor ends within a line end.

## Main results

* `Lexeme.split_bare` — the lexemes of a text without its carriage returns.
* `parse_bareText` — the tree and the errors of a text without its carriage returns.
* `Token.settled_of_mem_ofText`, `SyntaxError.aligned_of_mem_parse` — lines and columns stay.
-/

namespace Npl

open Text (isDigit Position Tame bare bareOffset barePlace)

/-- The error at another place. -/
def SyntaxError.relocate (g : Position → Position) (e : SyntaxError) : SyntaxError :=
  { e with pos := g e.pos }

namespace Lexeme

variable {cs : List Char}

/-! ### How far each class reaches -/

/-- Without the carriage returns, the class takes the same at the start of the text, less the
carriage returns. -/
def Kind.Agrees (k : Kind) (cs : List Char) : Prop :=
  k.reach (bare cs) = bareOffset cs (k.reach cs)

/-- The class takes no carriage return at the start of the text, and the same without them. -/
structure Kind.Clear (k : Kind) (cs : List Char) : Prop where
  same : k.reach (bare cs) = k.reach cs
  le : k.reach cs ≤ cs.length
  no : '\r' ∉ cs.take (k.reach cs)

theorem Kind.Clear.agrees {k : Kind} (h : k.Clear cs) : k.Agrees cs := by
  rw [Agrees, h.same, Text.bareOffset_of_not_mem h.le h.no]

/-- A class that takes nothing either way. -/
theorem Kind.Clear.of_zero {k : Kind} (h : k.reach cs = 0) (hbare : k.reach (bare cs) = 0) :
    k.Clear cs :=
  ⟨hbare.trans h.symm, h ▸ Nat.zero_le _, by simp [h]⟩

theorem Kind.Clear.of_cons {k : Kind} {c : Char} (hc : c ≠ '\r') :
    k.Clear (c :: cs) ↔ k.reach (c :: bare cs) = k.reach (c :: cs) ∧
      k.reach (c :: cs) ≤ (c :: cs).length ∧ '\r' ∉ (c :: cs).take (k.reach (c :: cs)) := by
  rw [← Text.bare_cons hc]
  exact ⟨fun h => ⟨h.same, h.le, h.no⟩, fun h => ⟨h.1, h.2.1, h.2.2⟩⟩

theorem take_runLength (p : Char → Bool) (cs : List Char) :
    cs.take (runLength p cs) = cs.takeWhile p :=
  (List.prefix_iff_eq_take.1 (List.takeWhile_prefix p)).symm

theorem runLength_le (p : Char → Bool) (cs : List Char) : runLength p cs ≤ cs.length :=
  (List.takeWhile_prefix p).length_le

/-- A run that carriage returns do not end. -/
theorem runLength_bare {p : Char → Bool} (hreturn : p '\r' = true) (cs : List Char) :
    runLength p (bare cs) = bareOffset cs (runLength p cs) := by
  rw [runLength, Text.takeWhile_bare hreturn, bareOffset, take_runLength]

/-- A run that line ends do end. -/
theorem runLength_bare_of_not {p : Char → Bool} (hreturn : ¬ p '\r' = true)
    (hfeed : ¬ p '\n' = true) (h : Tame cs) : runLength p (bare cs) = runLength p cs := by
  rw [runLength, Text.takeWhile_bare_of_not hreturn hfeed h, runLength]

theorem not_mem_take_runLength {p : Char → Bool} (hreturn : ¬ p '\r' = true) (cs : List Char) :
    '\r' ∉ cs.take (runLength p cs) := by
  rw [take_runLength]
  exact Text.not_mem_takeWhile hreturn cs

theorem Kind.agrees_blank (cs : List Char) : Kind.blank.Agrees cs :=
  runLength_bare rfl cs

/-! #### Comments -/

theorem blockEnd?_bare (h : Tame cs) :
    blockEnd? (bare cs) = (blockEnd? cs).map (bareOffset cs) := by
  fun_induction blockEnd? cs with
  | case1 cs => rfl
  | case2 c cs hopen ih =>
      have hrest := h.tail
      by_cases hc : c = '\r'
      · subst hc
        rw [Text.bare_cons_return, ih hrest, Option.map_map]
        rfl
      · have hclose : ∀ ds, c = '*' → bare cs = '/' :: ds → False := by
          intro ds hstar hslash
          obtain ⟨rest, hcs, -⟩ := Text.exists_of_bare_eq_cons hrest (by decide) hslash
          exact hopen rest hstar hcs
        rw [Text.bare_cons hc, blockEnd?, ih hrest, Option.map_map, Option.map_map]
        · congr 1
          funext n
          exact (Text.bareOffset_cons hc cs n).symm
        · exact hclose
  | case3 => rfl

theorem Kind.agrees_comment (h : Tame cs) : Kind.comment.Agrees cs := by
  change commentReach (bare cs) = bareOffset cs (commentReach cs)
  fun_cases commentReach cs with
  | case1 rest =>
      rw [Text.bare_cons (by decide), Text.bare_cons (by decide), commentReach, runLength_bare rfl,
        Nat.add_comm 2, Nat.add_comm 2, Text.bareOffset_cons (by decide),
        Text.bareOffset_cons (by decide)]
  | case2 rest n hend =>
      rw [Text.bare_cons (by decide), Text.bare_cons (by decide), commentReach,
        blockEnd?_bare h.tail.tail, hend, Nat.add_comm 2 n, Text.bareOffset_cons (by decide),
        Text.bareOffset_cons (by decide)]
      exact Nat.add_comm 2 _
  | case3 rest hend =>
      rw [Text.bare_cons (by decide), Text.bare_cons (by decide), commentReach,
        blockEnd?_bare h.tail.tail, hend]
      rfl
  | case4 cs hline hblock =>
      have hopen : ∀ d ds, d ≠ '\n' → bare cs = '/' :: d :: ds → ∃ rest, cs = '/' :: d :: rest := by
        intro d ds hd hbare
        obtain ⟨rest, rfl, hrest⟩ := Text.exists_of_bare_eq_cons h (by decide) hbare
        obtain ⟨others, rfl, -⟩ := Text.exists_of_bare_eq_cons (h.tail) hd hrest
        exact ⟨others, rfl⟩
      rw [commentReach]
      · rfl
      · intro ds hbare
        obtain ⟨rest, hcs⟩ := hopen '/' ds (by decide) hbare
        exact hline rest hcs
      · intro ds hbare
        obtain ⟨rest, hcs⟩ := hopen '*' ds (by decide) hbare
        exact hblock rest hcs

/-! #### Numbers and words -/

theorem numberReach_of_point {n m : Nat} {rest : List Char} (hwhole : runLength isDigit cs = n + 1)
    (hpoint : cs.drop (n + 1) = '.' :: rest) (hpart : runLength isDigit rest = m + 1) :
    numberReach cs = n + 1 + 1 + (m + 1) := by
  simp [numberReach, hwhole, hpoint, hpart]

theorem numberReach_of_no_point {n : Nat} (hwhole : runLength isDigit cs = n + 1)
    (hpoint : ∀ rest, cs.drop (n + 1) = '.' :: rest → runLength isDigit rest = 0) :
    numberReach cs = n + 1 := by
  cases hrest : cs.drop (n + 1) with
  | nil => simp [numberReach, hwhole, hrest]
  | cons c rest =>
      by_cases hc : c = '.'
      · subst hc
        simp [numberReach, hwhole, hrest, hpoint rest hrest]
      · simp [numberReach, hwhole, hrest, hc]

theorem Kind.clear_number (h : Tame cs) : Kind.number.Clear cs := by
  have hsame : ∀ {ds : List Char}, Tame ds → runLength isDigit (bare ds) = runLength isDigit ds :=
    fun hds => runLength_bare_of_not (by decide) (by decide) hds
  have hno : ∀ ds : List Char, '\r' ∉ ds.take (runLength isDigit ds) :=
    not_mem_take_runLength (by decide)
  have hle := runLength_le isDigit cs
  cases hwhole : runLength isDigit cs with
  | zero =>
      refine .of_zero ?_ ?_
      · simp [reach, numberReach, hwhole]
      · simp [reach, numberReach, hsame h, hwhole]
  | succ n =>
      have hwholeBare := (hsame h).trans hwhole
      have hfirst := hno cs
      rw [hwhole] at hle hfirst
      have hdrop := Text.drop_bare hle hfirst
      have hbehind := h.drop (n + 1)
      by_cases hpoint : ∀ rest, cs.drop (n + 1) = '.' :: rest → runLength isDigit rest = 0
      · have hreach : numberReach cs = n + 1 := numberReach_of_no_point hwhole hpoint
        have hpointBare : ∀ rest, (bare cs).drop (n + 1) = '.' :: rest →
            runLength isDigit rest = 0 := by
          intro rest hrest
          rw [hdrop] at hrest
          obtain ⟨rest', hrest', rfl⟩ := Text.exists_of_bare_eq_cons hbehind (by decide) hrest
          rw [hrest'] at hbehind
          rw [hsame hbehind.tail]
          exact hpoint rest' hrest'
        exact ⟨(numberReach_of_no_point hwholeBare hpointBare).trans hreach.symm,
          hreach.trans_le hle, (congrArg cs.take hreach) ▸ hfirst⟩
      · obtain ⟨rest, hrest, hpart⟩ : ∃ rest, cs.drop (n + 1) = '.' :: rest ∧
            runLength isDigit rest ≠ 0 := by simpa using hpoint
        obtain ⟨m, hpart⟩ := Nat.exists_eq_succ_of_ne_zero hpart
        have hreach : numberReach cs = n + 1 + 1 + (m + 1) :=
          numberReach_of_point hwhole hrest hpart
        rw [hrest] at hbehind hdrop
        rw [Text.bare_cons (by decide)] at hdrop
        have hpartBare := (hsame hbehind.tail).trans hpart
        have hlength : rest.length + 1 = cs.length - (n + 1) := by
          rw [← List.length_drop, hrest, List.length_cons]
        have hsecond := hno rest
        have hpartLe := runLength_le isDigit rest
        rw [hpart] at hsecond hpartLe
        refine ⟨(numberReach_of_point hwholeBare hdrop hpartBare).trans hreach.symm, ?_, ?_⟩
        · change numberReach cs ≤ _
          omega
        · change '\r' ∉ cs.take (numberReach cs)
          rw [hreach, Nat.add_assoc (n + 1), List.take_add, hrest, Nat.add_comm 1,
            List.take_succ_cons]
          simp only [List.mem_append, List.mem_cons, not_or]
          exact ⟨hfirst, by decide, hsecond⟩

theorem Kind.clear_word (h : Tame cs) : Kind.word.Clear cs := by
  induction h using Tame.induction with
  | nil => exact .of_zero rfl rfl
  | lineEnd cs h _ => exact .of_zero rfl rfl
  | cons c cs h hc _ =>
      have hrest := h.tail
      have hsame : wordReach (bare (c :: cs)) = wordReach (c :: cs) := by
        rw [Text.bare_cons hc, wordReach, wordReach,
          runLength_bare_of_not (by decide) (by decide) hrest]
      cases hstart : startsWord c with
      | false =>
          have hzero : wordReach (c :: cs) = 0 := by simp [wordReach, hstart]
          exact .of_zero hzero (hsame.trans hzero)
      | true =>
          have hreach : wordReach (c :: cs) = runLength continuesWord cs + 1 := by
            simp [wordReach, hstart, Nat.add_comm]
          refine ⟨hsame, ?_, ?_⟩
          · change wordReach (c :: cs) ≤ _
            rw [hreach]
            exact Nat.succ_le_succ (runLength_le _ _)
          · change '\r' ∉ (c :: cs).take (wordReach (c :: cs))
            rw [hreach, List.take_succ_cons, List.mem_cons, not_or]
            exact ⟨fun hreturn => hc hreturn.symm, not_mem_take_runLength (by decide) cs⟩

/-! #### Strings and symbols -/

/-- A backslash that nothing follows is still the last character without the carriage returns. -/
theorem last_bare {c : Char} (hlast : ∀ d ds, c = '\\' → cs = d :: ds → False) :
    ∀ d ds, c = '\\' → bare cs = d :: ds → False := by
  intro d ds hc hbare
  cases cs with
  | nil => simp at hbare
  | cons x xs => exact hlast x xs hc rfl

/-- A string that is closed has no carriage return. -/
theorem quoteEnd?_bare {q : Char} (hreturn : q ≠ '\r') (hfeed : q ≠ '\n') (h : Tame cs) :
    quoteEnd? q (bare cs) = quoteEnd? q cs ∧
      ∀ n, quoteEnd? q cs = some n → n ≤ cs.length ∧ '\r' ∉ cs.take n := by
  fun_induction quoteEnd? q cs with
  | case1 d cs ih =>
      have hd : d ≠ '\r' := fun hd => (Text.tame_cons.1 h).2.1 rfl (congrArg some hd)
      obtain ⟨hsame, hclear⟩ := ih h.tail.tail
      rw [Text.bare_cons (by decide), Text.bare_cons hd, quoteEnd?, hsame]
      refine ⟨rfl, fun n hn => ?_⟩
      obtain ⟨m, hm, rfl⟩ := Option.map_eq_some_iff.1 hn
      obtain ⟨hle, hno⟩ := hclear m hm
      refine ⟨Nat.add_le_add_right hle 2, ?_⟩
      simp only [List.take_succ_cons, List.mem_cons, not_or]
      exact ⟨by decide, hd.symm, hno⟩
  | case2 cs hescape =>
      have hsame : quoteEnd? q (bare (q :: cs)) = some 1 := by
        rw [Text.bare_cons hreturn, quoteEnd?]
        · exact if_pos rfl
        · exact last_bare hescape
      refine ⟨hsame, fun n hn => ?_⟩
      obtain rfl := Option.some.inj hn
      simpa using hreturn.symm
  | case3 c cs hescape hc hends =>
      have hreturn : c ≠ '\r' := by
        rintro rfl
        simp at hends
      rw [Text.bare_cons hreturn, quoteEnd?, if_neg hc, if_pos hends]
      · exact ⟨rfl, by simp⟩
      · exact last_bare hescape
  | case4 c cs hescape hc hends ih =>
      obtain ⟨hsame, hclear⟩ := ih h.tail
      by_cases hreturn : c = '\r'
      · -- The line feed behind it ends the attempt.
        obtain ⟨rest, rfl⟩ := List.head?_eq_some_iff.1 ((Text.tame_cons.1 h).1 hreturn)
        have hnone : quoteEnd? q ('\n' :: rest) = none := by
          rw [quoteEnd?, if_neg hfeed.symm]
          · rfl
          · simp
        rw [hreturn, Text.bare_cons_return, hsame, hnone]
        exact ⟨rfl, by simp⟩
      · rw [Text.bare_cons hreturn, quoteEnd?, if_neg hc, if_neg hends, hsame]
        · refine ⟨rfl, fun n hn => ?_⟩
          obtain ⟨m, hm, rfl⟩ := Option.map_eq_some_iff.1 hn
          obtain ⟨hle, hno⟩ := hclear m hm
          refine ⟨Nat.add_le_add_right hle 1, ?_⟩
          rw [List.take_succ_cons, List.mem_cons, not_or]
          exact ⟨fun heq => hreturn heq.symm, hno⟩
        · exact last_bare hescape
  | case5 => exact ⟨rfl, by simp⟩

theorem quotedReach_of_closed {q : Char} {n : Nat} (hq : q = '"' ∨ q = '\'')
    (hend : quoteEnd? q cs = some n) : quotedReach (q :: cs) = n + 1 := by
  rw [quotedReach, if_pos (by simpa using hq), hend]
  exact Nat.add_comm 1 n

theorem quotedReach_of_open {q : Char} (hend : quoteEnd? q cs = none) :
    quotedReach (q :: cs) = 0 := by
  rw [quotedReach, hend]
  exact ite_self _

theorem quotedReach_of_not {q : Char} (hq : ¬ (q = '"' ∨ q = '\'')) (cs : List Char) :
    quotedReach (q :: cs) = 0 :=
  if_neg (by simpa using hq)

theorem Kind.clear_quoted (h : Tame cs) : Kind.quoted.Clear cs := by
  induction h using Tame.induction with
  | nil => exact .of_zero rfl rfl
  | lineEnd cs h _ => exact .of_zero rfl rfl
  | cons q cs h hreturn _ =>
      rw [Clear.of_cons hreturn]
      simp only [reach]
      by_cases hq : q = '"' ∨ q = '\''
      · have hfeed : q ≠ '\n' := by rcases hq with rfl | rfl <;> decide
        obtain ⟨hsame, hclear⟩ := quoteEnd?_bare hreturn hfeed h.tail
        cases hend : quoteEnd? q cs with
        | none => simp [quotedReach_of_open hend, quotedReach_of_open (hsame.trans hend)]
        | some n =>
            obtain ⟨hle, hno⟩ := hclear n hend
            rw [quotedReach_of_closed hq hend, quotedReach_of_closed hq (hsame.trans hend),
              List.take_succ_cons, List.mem_cons, not_or]
            exact ⟨rfl, Nat.succ_le_succ hle, hreturn.symm, hno⟩
      · simp [quotedReach_of_not hq]

/-- A symbol takes two characters if the second one goes with the first. -/
theorem symbolReach_cons (c : Char) (cs : List Char) :
    symbolReach (c :: cs) = if cs.head?.any fun d => pairs.contains (c, d) then 2
      else if singles.contains c then 1 else 0 := by
  cases cs <;> rfl

/-- No character goes with an end of a line. -/
theorem any_head?_bare (h : Tame cs) (c : Char) :
    ((bare cs).head?.any fun d => pairs.contains (c, d)) =
      cs.head?.any fun d => pairs.contains (c, d) := by
  rw [Text.head?_bare h]
  cases cs.head? with
  | none => rfl
  | some d =>
      by_cases hd : d = '\r'
      · simp [hd, pairs]
      · simp [hd]

theorem Kind.clear_symbol (h : Tame cs) : Kind.symbol.Clear cs := by
  induction h using Tame.induction with
  | nil => exact .of_zero rfl rfl
  | lineEnd cs h _ =>
      refine .of_zero rfl ?_
      rw [Text.bare_cons_lineEnd, reach, symbolReach_cons]
      cases (bare cs).head? <;> simp [pairs, singles]
  | cons c cs h hc _ =>
      rw [Clear.of_cons hc]
      simp only [reach, symbolReach_cons, any_head?_bare h.tail, true_and]
      split
      · next hpair =>
          obtain ⟨d, hd, hmem⟩ := (Option.any_eq_true _ _).1 hpair
          obtain ⟨rest, rfl⟩ := List.head?_eq_some_iff.1 hd
          have hreturn : d ≠ '\r' := by
            rintro rfl
            simp [pairs] at hmem
          simpa using ⟨hc.symm, hreturn.symm⟩
      · split
        · simpa using hc.symm
        · simp

/-! ### Cutting a text -/

theorem Kind.clear_stray (h : Tame cs) (hreturn : cs.head? ≠ some '\r') : Kind.stray.Clear cs := by
  induction h using Tame.induction with
  | nil => exact .of_zero rfl rfl
  | lineEnd cs h _ => exact absurd rfl hreturn
  | cons c cs h hc _ =>
      rw [Clear.of_cons hc]
      simpa [reach] using hc.symm

/-- A class that may take a carriage return takes blanks or a comment. -/
theorem Kind.clear (h : Tame cs) (hreturn : cs.head? ≠ some '\r') {k : Kind} (hblank : k ≠ .blank)
    (hcomment : k ≠ .comment) : k.Clear cs := by
  cases k with
  | blank => exact absurd rfl hblank
  | comment => exact absurd rfl hcomment
  | number => exact clear_number h
  | word => exact clear_word h
  | quoted => exact clear_quoted h
  | symbol => exact clear_symbol h
  | stray => exact clear_stray h hreturn

theorem Kind.agrees (h : Tame cs) (hreturn : cs.head? ≠ some '\r') (k : Kind) : k.Agrees cs := by
  by_cases hblank : k = .blank
  · exact hblank ▸ agrees_blank cs
  · by_cases hcomment : k = .comment
    · exact hcomment ▸ agrees_comment h
    · exact (clear h hreturn hblank hcomment).agrees

/-- Blanks are tried first. -/
theorem Kind.at_of_blank {c : Char} (hc : isBlank c = true) (cs : List Char) :
    Kind.at (c :: cs) = .blank := by
  have hreach : 0 < Kind.blank.reach (c :: cs) := by simp [reach, runLength, hc]
  simp [Kind.at, order, hreach]

theorem Kind.agrees_at (h : Tame cs) : (Kind.at cs).Agrees cs := by
  by_cases hreturn : cs.head? = some '\r'
  · obtain ⟨rest, rfl⟩ := List.head?_eq_some_iff.1 hreturn
    rw [at_of_blank rfl]
    exact agrees_blank _
  · exact agrees h hreturn _

/-- The same class fits without the carriage returns. -/
theorem Kind.at_bare (h : Tame cs) : Kind.at (bare cs) = Kind.at cs := by
  cases cs with
  | nil => rfl
  | cons c cs =>
      by_cases hc : c = '\r'
      · obtain ⟨rest, rfl⟩ := List.head?_eq_some_iff.1 ((Text.tame_cons.1 h).1 hc)
        rw [hc, Text.bare_cons_lineEnd, at_of_blank rfl, at_of_blank rfl]
      · have hpos : ∀ k : Kind, 0 < k.reach (bare (c :: cs)) ↔ 0 < k.reach (c :: cs) := by
          intro k
          rw [agrees h (by simpa using hc) k]
          cases k.reach (c :: cs) with
          | zero => simp
          | succ n => simp [Text.bareOffset_cons hc]
        simp only [Kind.at, hpos]

/-- The lexeme without its carriage returns. -/
def bare (l : Lexeme) : Lexeme :=
  ⟨l.kind, Text.bare l.text⟩

/-- Without the carriage returns, a text falls into the same lexemes, less their carriage returns.
-/
theorem split_bare (h : Tame cs) : split (Text.bare cs) = (split cs).map bare := by
  fun_induction split cs with
  | case1 => rw [Text.bare_nil, split, dif_pos rfl, List.map_nil]
  | case2 cs hne kind ih =>
      have hreach : kind.reach (Text.bare cs) = (Text.bare (cs.take (kind.reach cs))).length :=
        Kind.agrees_at h
      have hcut : Text.bare cs =
          Text.bare (cs.take (kind.reach cs)) ++ Text.bare (cs.drop (kind.reach cs)) := by
        rw [← Text.bare_append, List.take_append_drop]
      have htake : (Text.bare cs).take (kind.reach (Text.bare cs)) =
          Text.bare (cs.take (kind.reach cs)) := by
        rw [hreach, hcut, List.take_left]
      have hdrop : (Text.bare cs).drop (kind.reach (Text.bare cs)) =
          Text.bare (cs.drop (kind.reach cs)) := by
        rw [hreach, hcut, List.drop_left]
      rw [split, dif_neg (Text.bare_ne_nil h hne), Kind.at_bare h]
      change (⟨kind, (Text.bare cs).take (kind.reach (Text.bare cs))⟩ ::
        split ((Text.bare cs).drop (kind.reach (Text.bare cs))) : List Lexeme) = _
      rw [htake, hdrop, ih (h.drop _)]
      rfl

/-- A lexeme that is neither a blank nor a comment has no carriage return, and starts with no line
feed. -/
structure Solid (l : Lexeme) : Prop where
  no : '\r' ∉ l.text
  head : l.text.head? ≠ some '\n'

/-- The lexemes of a text are solid, except for blanks and comments. -/
theorem solid_of_mem_split (h : Tame cs) : ∀ l ∈ split cs, l.kind ≠ .blank → l.kind ≠ .comment →
    l.Solid := by
  fun_induction split cs with
  | case1 => simp
  | case2 cs hne kind ih =>
      intro l hl hblank hcomment
      rcases List.mem_cons.1 hl with rfl | hl
      · obtain ⟨c, rest, rfl⟩ := List.exists_cons_of_ne_nil hne
        have hc : ¬ isBlank c = true := fun hc => hblank (Kind.at_of_blank hc rest)
        have hreturn : c ≠ '\r' := by
          rintro rfl
          exact hc rfl
        refine ⟨(Kind.clear h (by simpa using hreturn) hblank hcomment).no, fun hhead => hc ?_⟩
        rw [List.head?_take] at hhead
        split at hhead
        · simp at hhead
        · obtain rfl := Option.some.inj hhead
          rfl
      · exact ih (h.drop _) l hl hblank hcomment

/-! ### Laying out -/

/-- Lexemes are laid out at the places that their own ones become. -/
theorem layOut_bare (pre : List Char) (ls : List Lexeme) :
    layOut (Position.start.advance (Text.bare pre)) (ls.map bare) =
      (layOut (Position.start.advance pre) ls).map fun placed =>
        (barePlace (pre ++ ls.flatMap Lexeme.text) placed.1, placed.2.bare) := by
  induction ls generalizing pre with
  | nil => rfl
  | cons l ls ih =>
      have hoffset : (Position.start.advance pre).offset = pre.length := by
        rw [Position.offset_advance]
        exact Nat.zero_add _
      have hplace : barePlace (pre ++ (l :: ls).flatMap Lexeme.text) (Position.start.advance pre) =
          Position.start.advance (Text.bare pre) := by
        rw [barePlace, hoffset, List.take_left]
      have hrest := ih (pre ++ l.text)
      rw [Text.bare_append, Position.advance_append, Position.advance_append,
        List.append_assoc] at hrest
      rw [List.map_cons, layOut, layOut, List.map_cons, hplace]
      exact congrArg _ hrest

/-- Without its carriage returns, a lexeme is the same token. -/
theorem token?_bare {l : Lexeme} (hl : l.kind ≠ .blank → l.kind ≠ .comment → l.Solid)
    (g : Position → Position) (p : Position) :
    l.bare.token? (g p) = (l.token? p).map (Token.relocate g) := by
  obtain ⟨kind, cs⟩ := l
  cases kind with
  | blank | comment | stray => rfl
  | number | word | quoted | symbol =>
      have hbare : Text.bare cs = cs := Text.bare_eq_self (hl (by simp) (by simp)).no
      simp only [bare, hbare]
      rfl

/-- Without its carriage returns, a lexeme is the same error. -/
theorem error?_bare {l : Lexeme} (hl : l.kind ≠ .blank → l.kind ≠ .comment → l.Solid)
    (g : Position → Position) (p : Position) :
    l.bare.error? (g p) = (l.error? p).map (SyntaxError.relocate g) := by
  obtain ⟨kind, cs⟩ := l
  cases kind with
  | blank | comment | number | word | quoted | symbol => rfl
  | stray =>
      have hbare : Text.bare cs = cs := Text.bare_eq_self (hl (by simp) (by simp)).no
      simp only [bare, hbare]
      rfl

end Lexeme

/-! ### Tokens -/

/-- The text without its carriage returns. -/
def bareText (text : String) : String :=
  String.ofList (bare text.toList)

section

variable {text : String}

theorem placedLexemes_bareText (h : Tame text.toList) :
    placedLexemes (bareText text) = (placedLexemes text).map fun placed =>
      (barePlace text.toList placed.1, placed.2.bare) := by
  have hlaid := Lexeme.layOut_bare [] (Lexeme.split text.toList)
  rw [Lexeme.flatten_split] at hlaid
  rw [placedLexemes, bareText, String.toList_ofList, Lexeme.split_bare h]
  exact hlaid

/-- A lexeme of a text is solid, unless it is a blank or a comment. -/
theorem solid_of_mem_placedLexemes (h : Tame text.toList) {p : Position} {l : Lexeme}
    (hl : (p, l) ∈ placedLexemes text) (hblank : l.kind ≠ .blank) (hcomment : l.kind ≠ .comment) :
    l.Solid :=
  Lexeme.solid_of_mem_split h l (Lexeme.mem_of_mem_layOut hl) hblank hcomment

/-- The tokens are the same without the carriage returns, but for their places. -/
theorem tokens_bareText (h : Tame text.toList) : (TokenList.ofText (bareText text)).tokens =
    (TokenList.ofText text).tokens.map (Token.relocate (barePlace text.toList)) := by
  simp only [TokenList.ofText, placedLexemes_bareText h, List.filterMap_map, List.map_filterMap]
  exact List.filterMap_congr fun placed hplaced =>
    Lexeme.token?_bare (solid_of_mem_placedLexemes h hplaced) (barePlace text.toList) placed.1

/-- The stray characters are the same without the carriage returns, but for their places. -/
theorem strayErrors_bareText (h : Tame text.toList) : strayErrors (bareText text) =
    (strayErrors text).map (SyntaxError.relocate (barePlace text.toList)) := by
  simp only [strayErrors, placedLexemes_bareText h, List.filterMap_map, List.map_filterMap]
  exact List.filterMap_congr fun placed hplaced =>
    Lexeme.error?_bare (solid_of_mem_placedLexemes h hplaced) (barePlace text.toList) placed.1

theorem stop_bareText : (TokenList.ofText (bareText text)).stop =
    barePlace text.toList (TokenList.ofText text).stop := by
  rw [barePlace, TokenList.offset_stop, List.take_length, bareText, TokenList.ofText,
    String.toList_ofList]

theorem Complaint.toError_relocate (g : Position → Position) (stop : Position) (c : Complaint) :
    (c.relocate g).toError (g stop) = (c.toError stop).relocate g := by
  obtain ⟨fault, _ | t⟩ := c
  · rfl
  · rfl

/-- The same is read from a text without its carriage returns, but for the places. -/
theorem parse_bareText (h : Tame text.toList) : parse (bareText text) =
    ((parse text).1.relocate (barePlace text.toList),
      (parse text).2.map (SyntaxError.relocate (barePlace text.toList))) := by
  simp only [parse, tokens_bareText h, strayErrors_bareText h, stop_bareText, readTree_relocate,
    List.map_append, List.map_map]
  congr 2
  exact List.map_congr_left fun c _ => Complaint.toError_relocate _ _ c

/-! ### Places -/

/-- The token stands in the text, has no carriage return, and neither starts nor ends within a line
end. -/
structure Token.Settled (text : String) (t : Token) : Prop where
  stands : t.Stands text
  no : '\r' ∉ t.text.toList
  start : Tame (text.toList.take t.pos.offset)
  stop : Tame (text.toList.take t.stopOffset)

/-- Without the carriage returns, a settled token ends where its end becomes. -/
theorem Token.Settled.stopOffset_relocate {t : Token} (ht : t.Settled text) :
    (t.relocate (barePlace text.toList)).stopOffset = bareOffset text.toList t.stopOffset := by
  have hoffset : (t.relocate (barePlace text.toList)).pos.offset =
      bareOffset text.toList t.pos.offset := Text.offset_barePlace _ _
  have hpiece : bare ((text.toList.drop t.pos.offset).take t.text.length) = t.text.toList := by
    rw [← String.length_toList, ht.stands.text, Text.bare_eq_self ht.no]
  rw [stopOffset, hoffset, stopOffset, Text.bareOffset_add, hpiece, String.length_toList]
  rfl

/-- Where a solid lexeme starts and where it ends, no line end is cut in two. -/
theorem Lexeme.tame_take (h : Tame text.toList) {p : Position} {l : Lexeme}
    (hl : (p, l) ∈ placedLexemes text) (hsolid : l.Solid) :
    Tame (text.toList.take p.offset) ∧ Tame (text.toList.take (p.offset + l.text.length)) := by
  have hstands := stands_of_mem_placedLexemes hl
  have hne : l.text ≠ [] := split_ne_nil _ l (mem_of_mem_layOut hl)
  constructor
  · refine h.take fun hfeed => hsolid.head ?_
    rw [← hstands.text, List.head?_take, if_neg (by simpa using hne)]
    exact hfeed
  · refine ⟨h.follows.take _, fun hlast => hsolid.no ?_⟩
    rw [List.take_add, hstands.text, List.getLast?_append_of_ne_nil _ hne] at hlast
    exact List.mem_of_getLast? hlast

/-- The tokens of a tame text are settled. -/
theorem Token.settled_of_mem_ofText (h : Tame text.toList) {t : Token}
    (ht : t ∈ (TokenList.ofText text).tokens) : t.Settled text := by
  have hstands := Token.stands_of_mem_ofText ht
  obtain ⟨⟨p, l⟩, hplaced, htoken⟩ := List.mem_filterMap.1 ht
  obtain ⟨kind, hkind, rfl⟩ := Option.map_eq_some_iff.1 htoken
  have hsolid : l.Solid := by
    refine solid_of_mem_placedLexemes h hplaced ?_ ?_
    · intro hblank
      simp [Lexeme.tokenKind?, hblank] at hkind
    · intro hcomment
      simp [Lexeme.tokenKind?, hcomment] at hkind
  obtain ⟨hstart, hstop⟩ := Lexeme.tame_take h hplaced hsolid
  refine ⟨hstands, ?_, hstart, ?_⟩
  · rw [String.toList_ofList]
    exact hsolid.no
  · rw [Token.stopOffset, String.length_ofList]
    exact hstop

/-- Errors keep their lines and their columns. -/
theorem SyntaxError.aligned_of_mem_parse (h : Tame text.toList) {e : SyntaxError}
    (he : e ∈ (parse text).2) : e.pos.Aligned (barePlace text.toList e.pos) := by
  rcases List.mem_append.1 he with hstray | hcomplaint
  · obtain ⟨⟨p, l⟩, hplaced, herror⟩ := List.mem_filterMap.1 hstray
    simp only [Lexeme.error?, Option.ite_none_right_eq_some, Option.some.injEq] at herror
    obtain ⟨hkind, rfl⟩ := herror
    have hsolid : l.Solid :=
      solid_of_mem_placedLexemes h hplaced (by simp [hkind]) (by simp [hkind])
    exact Text.aligned_barePlace (stands_of_mem_placedLexemes hplaced).place
      (Lexeme.tame_take h hplaced hsolid).1
  · obtain ⟨c, hc, rfl⟩ := List.mem_map.1 hcomplaint
    have hreading : (Reader.tree (TokenList.ofText text).tokens).Within (Token.Settled text) _ :=
      Reader.keeps_tree _ fun _ => Token.settled_of_mem_ofText h
    cases htoken : c.token? with
    | some t =>
        have hsettled := hreading.complaints c hc t htoken
        rw [Complaint.toError, htoken]
        exact Text.aligned_barePlace hsettled.stands.place hsettled.start
    | none =>
        rw [Complaint.toError, htoken]
        refine Text.aligned_barePlace TokenList.stop_in_ofText ?_
        rw [TokenList.offset_stop, List.take_length]
        exact h

end

end Npl
