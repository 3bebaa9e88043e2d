import Npl.Proofs.Syntax.LineEnds
import Npl.Proofs.Syntax.Tiling

/-!
# Spelling tokens out

The tokens of a text, written one behind the other with single spaces between them, are a text that
falls into the same tokens. A space never goes on what stands before it and never belongs to what
stands behind it: behind a whole number it is no point, behind a slash it opens no comment, it makes
no longer symbol or word, and a string is closed before it.

## Main definitions

* `TokenList.spelled` — the texts of tokens with single spaces between them.
* `Lexeme.Firm` — a lexeme that is found again wherever its text stands in front of a space.

## Main results

* `Lexeme.firm_of_mem_split` — the lexemes of a text that are tokens are firm.
* `Lexeme.split_spelled` — firm lexemes with single spaces between them are found again.
* `TokenList.words_spelled` — spelling tokens out and cutting the text again changes nothing.
-/

namespace Npl

open Text (isDigit Position)

namespace Lexeme

variable {cs post : List Char}

/-- Nothing follows, or a space. -/
def Spaced (post : List Char) : Prop :=
  ∀ c ∈ post.head?, c = ' '

/-! ### What a class takes in front of a space -/

/-- A run ends where the property does. -/
theorem runLength_append {p : Char → Bool} {run : List Char} (hrun : ∀ c ∈ run, p c = true)
    (hpost : ∀ c ∈ post.head?, p c = false) : runLength p (run ++ post) = run.length := by
  rw [runLength, List.takeWhile_append_of_pos hrun]
  cases post with
  | nil => simp
  | cons c post =>
      have hc : p c = false := hpost c rfl
      simp [hc]

theorem Spaced.ends {p : Char → Bool} (h : Spaced post) (hp : p ' ' = false) :
    ∀ c ∈ post.head?, p c = false :=
  fun c hc => h c hc ▸ hp

/-- A whole number takes its digits. -/
theorem numberReach_whole {whole : List Char} (hne : whole ≠ [])
    (hwhole : ∀ c ∈ whole, isDigit c = true) (hpost : Spaced post) :
    numberReach (whole ++ post) = whole.length := by
  obtain ⟨n, hn⟩ := Nat.exists_eq_succ_of_ne_zero (mt List.length_eq_zero_iff.1 hne)
  have hlength := runLength_append hwhole (hpost.ends (by decide))
  rw [hn]
  refine numberReach_of_no_point (hlength.trans hn) fun rest hrest => ?_
  rw [← Nat.succ_eq_add_one, ← hn, List.drop_left] at hrest
  exact absurd (hpost '.' (by rw [hrest]; rfl)) (by decide)

/-- A number with a point takes the digits on both sides of it. -/
theorem numberReach_point {whole part rest : List Char} (hne : whole ≠ [])
    (hwhole : ∀ c ∈ whole, isDigit c = true) (hpart : part ≠ [])
    (hdigits : ∀ c ∈ part, isDigit c = true) (hrest : ∀ c ∈ rest.head?, isDigit c = false) :
    numberReach (whole ++ '.' :: (part ++ rest)) = whole.length + 1 + part.length := by
  obtain ⟨n, hn⟩ := Nat.exists_eq_succ_of_ne_zero (mt List.length_eq_zero_iff.1 hne)
  obtain ⟨m, hm⟩ := Nat.exists_eq_succ_of_ne_zero (mt List.length_eq_zero_iff.1 hpart)
  have hlength : runLength isDigit (whole ++ '.' :: (part ++ rest)) = whole.length :=
    runLength_append hwhole (by simpa using (by decide : isDigit '.' = false))
  rw [hn, hm]
  have hdrop : (whole ++ '.' :: (part ++ rest)).drop (n + 1) = '.' :: (part ++ rest) := by
    rw [← Nat.succ_eq_add_one, ← hn, List.drop_left]
  exact numberReach_of_point (hlength.trans hn) hdrop ((runLength_append hdigits hrest).trans hm)

/-- A number is digits, or digits with a point between them. -/
theorem exists_of_numberReach (h : 0 < numberReach cs) :
    ∃ whole, whole ≠ [] ∧ (∀ c ∈ whole, isDigit c = true) ∧
      (cs.take (numberReach cs) = whole ∨ ∃ part, part ≠ [] ∧ (∀ c ∈ part, isDigit c = true) ∧
        cs.take (numberReach cs) = whole ++ '.' :: part) := by
  obtain ⟨whole, rest, rfl, hlength, hwhole, -⟩ := exists_run isDigit cs
  have hne : whole ≠ [] := by
    rintro rfl
    rw [List.nil_append] at hlength h
    simp [numberReach, hlength] at h
  obtain ⟨n, hn⟩ := Nat.exists_eq_succ_of_ne_zero (mt List.length_eq_zero_iff.1 hne)
  have hdrop : (whole ++ rest).drop (n + 1) = rest := by
    rw [← Nat.succ_eq_add_one, ← hn, List.drop_left]
  refine ⟨whole, hne, hwhole, ?_⟩
  by_cases hpoint : ∀ behind, (whole ++ rest).drop (n + 1) = '.' :: behind →
      runLength isDigit behind = 0
  · left
    rw [numberReach_of_no_point (hlength.trans hn) hpoint, ← Nat.succ_eq_add_one, ← hn,
      List.take_left]
  · right
    obtain ⟨behind, hbehind, hpart⟩ : ∃ behind, (whole ++ rest).drop (n + 1) = '.' :: behind ∧
        runLength isDigit behind ≠ 0 := by simpa using hpoint
    obtain ⟨part, others, rfl, hpartLength, hdigits, hothers⟩ := exists_run isDigit behind
    rw [hdrop] at hbehind
    subst hbehind
    have hpartNe : part ≠ [] := by
      rintro rfl
      exact hpart hpartLength
    refine ⟨part, hpartNe, hdigits, ?_⟩
    rw [numberReach_point hne hwhole hpartNe hdigits hothers]
    have hcount : whole.length + 1 + part.length = (whole ++ '.' :: part).length := by
      simp only [List.length_append, List.length_cons]
      omega
    have hpiece : whole ++ '.' :: (part ++ others) = (whole ++ '.' :: part) ++ others := by simp
    rw [hcount, hpiece, List.take_left]

/-- The end of a string does not depend on what follows it. -/
theorem quoteEnd?_take {q : Char} (hq : q ≠ '\\') {n : Nat} (h : quoteEnd? q cs = some n)
    (post : List Char) : quoteEnd? q (cs.take n ++ post) = some n := by
  fun_induction quoteEnd? q cs generalizing n with
  | case1 c cs ih =>
      obtain ⟨m, hm, rfl⟩ := Option.map_eq_some_iff.1 h
      simp only [List.take_succ_cons, List.cons_append, quoteEnd?, ih hm, Option.map_some]
  | case2 cs hescape =>
      obtain rfl := Option.some.inj h
      rw [List.take_succ_cons, List.cons_append, quoteEnd?, if_pos rfl]
      exact fun _ _ heq => absurd heq hq
  | case3 c cs hescape hc hends => simp at h
  | case4 c cs hescape hc hends ih =>
      obtain ⟨m, hm, rfl⟩ := Option.map_eq_some_iff.1 h
      have hslash : c ≠ '\\' := fun heq => hends (by simp [heq])
      rw [List.take_succ_cons, List.cons_append, quoteEnd?, if_neg hc, if_neg hends, ih hm]
      · rfl
      · exact fun _ _ heq => absurd heq hslash
  | case5 => simp at h

theorem quoteEnd?_le {q : Char} {n : Nat} (h : quoteEnd? q cs = some n) : n ≤ cs.length := by
  fun_induction quoteEnd? q cs generalizing n with
  | case1 c cs ih | case4 c cs hescape hc hends ih =>
      obtain ⟨m, hm, rfl⟩ := Option.map_eq_some_iff.1 h
      simpa using ih hm
  | case2 cs hescape =>
      obtain rfl := Option.some.inj h
      simp
  | case3 | case5 => simp at h

/-! ### The class in front of a space -/

theorem commentReach_of_ne {c : Char} (hc : c ≠ '/') (cs : List Char) :
    commentReach (c :: cs) = 0 := by
  rw [commentReach]
  · exact fun _ heq => absurd (List.cons.inj heq).1 hc
  · exact fun _ heq => absurd (List.cons.inj heq).1 hc

/-- A slash in front of a space opens no comment. -/
theorem commentReach_slash (hpost : Spaced post) : commentReach ('/' :: post) = 0 := by
  cases post with
  | nil => rfl
  | cons c post =>
      obtain rfl := hpost c rfl
      rfl

/-- The class of a text by what stands at its start: the first one that takes something. -/
theorem Kind.at_eq_of_reach {k : Kind} {before after : List Kind}
    (horder : order = before ++ k :: after)
    (hpos : 0 < k.reach cs) (hbefore : ∀ j ∈ before, j.reach cs = 0) : Kind.at cs = k := by
  have hfound : order.find? (fun k => 0 < k.reach cs) = some k := by
    rw [List.find?_eq_some_iff_append]
    refine ⟨by simpa using hpos, before, after, horder, fun j hj => ?_⟩
    simp [hbefore j hj]
  rw [Kind.at, hfound, Option.getD_some]

/-- A word starts with no digit. -/
theorem isDigit_of_startsWord {c : Char} (h : startsWord c = true) : isDigit c = false := by
  have hbounds : 58 ≤ c.toNat ∧ c.toNat < 128 := by
    have hcases : (65 ≤ c.toNat ∧ c.toNat ≤ 90) ∨ (97 ≤ c.toNat ∧ c.toNat ≤ 122) ∨ c = '_' := by
      have hrange : (decide (65 ≤ c.val ∧ c.val ≤ 90) ||
          (decide (97 ≤ c.val) && decide (c.val ≤ 122)) || decide (c = '_')) = true := h
      simp only [Bool.or_eq_true, Bool.and_eq_true, decide_eq_true_eq, UInt32.le_iff_toNat_le,
        or_assoc] at hrange
      exact hrange
    rcases hcases with h | h | rfl
    · omega
    · omega
    · decide
  have hzeros : ∀ z ∈ Text.digitZeros, z = 48 ∨ 128 ≤ z := by decide
  rw [isDigit, List.any_eq_false]
  intro z hz
  have hzero := hzeros z hz
  simp only [Bool.and_eq_true, decide_eq_true_eq]
  omega

theorem runLength_of_not {p : Char → Bool} {c : Char} (hc : p c = false) (cs : List Char) :
    runLength p (c :: cs) = 0 := by
  simp [runLength, hc]

theorem numberReach_of_not {c : Char} (hc : isDigit c = false) (cs : List Char) :
    numberReach (c :: cs) = 0 := by
  simp [numberReach, runLength_of_not hc]

theorem wordReach_of_not {c : Char} (hc : startsWord c = false) (cs : List Char) :
    wordReach (c :: cs) = 0 := by
  simp [wordReach, hc]

/-- A character with a property that no blank has is none. -/
theorem isBlank_of_property {p : Char → Bool}
    (hp : [' ', '\t', '\r', '\n'].all (fun b => !p b) = true) {c : Char} (hc : p c = true) :
    isBlank c = false := by
  rw [Bool.eq_false_iff]
  intro hblank
  have hmem : c ∈ [' ', '\t', '\r', '\n'] := by simpa [isBlank, or_assoc] using hblank
  have hnot := List.all_eq_true.1 hp c hmem
  rw [hc] at hnot
  exact Bool.noConfusion hnot

theorem isBlank_of_isDigit {c : Char} (h : isDigit c = true) : isBlank c = false :=
  isBlank_of_property (by decide) h

theorem isBlank_of_startsWord {c : Char} (h : startsWord c = true) : isBlank c = false :=
  isBlank_of_property (by decide) h

/-! ### Firm lexemes -/

/-- Wherever the text of the lexeme stands in front of a space or at the end, the lexeme is found,
and a blank before it does not take anything of it. -/
structure Firm (l : Lexeme) : Prop where
  head : ∃ c cs, l.text = c :: cs ∧ isBlank c = false
  found : ∀ post, Spaced post → Kind.at (l.text ++ post) = l.kind
  reach : ∀ post, Spaced post → l.kind.reach (l.text ++ post) = l.text.length

/-- A lexeme is found again if it takes its own text in front of a space, and the classes that are
tried before its own one take nothing there. -/
theorem Firm.of_reach {l : Lexeme} {c : Char} {cs : List Char} (before after : List Kind)
    (htext : l.text = c :: cs) (hblank : isBlank c = false)
    (horder : Kind.order = before ++ l.kind :: after)
    (hreach : ∀ post, Spaced post → l.kind.reach (l.text ++ post) = l.text.length)
    (hbefore : ∀ post, Spaced post → ∀ j ∈ before, j.reach (l.text ++ post) = 0) : l.Firm := by
  refine ⟨⟨c, cs, htext, hblank⟩, fun post hpost => ?_, hreach⟩
  refine Kind.at_eq_of_reach horder ?_ (hbefore post hpost)
  rw [hreach post hpost, htext]
  exact Nat.succ_pos _

theorem firm_number {text : List Char} (h : 0 < numberReach cs)
    (htext : text = cs.take (numberReach cs)) : Firm ⟨.number, text⟩ := by
  obtain ⟨whole, hne, hwhole, hshape⟩ := exists_of_numberReach h
  obtain ⟨c, tail, rfl⟩ := List.exists_cons_of_ne_nil hne
  have hc : isDigit c = true := hwhole c List.mem_cons_self
  have hslash : c ≠ '/' := by
    rintro rfl
    exact absurd hc (by decide)
  have hhead : ∃ behind, text = c :: behind := by
    rw [htext]
    rcases hshape with hshape | ⟨part, -, -, hshape⟩ <;> exact ⟨_, hshape⟩
  obtain ⟨behind, hbehind⟩ := hhead
  refine .of_reach [.blank, .comment] [.word, .quoted, .symbol, .stray] hbehind
    (isBlank_of_isDigit hc) rfl (fun post hpost => ?_) fun post _ => ?_
  · rw [Kind.reach, htext]
    rcases hshape with hshape | ⟨part, hpart, hdigits, hshape⟩
    · rw [hshape, numberReach_whole hne hwhole hpost]
    · have hsplit : (c :: tail ++ '.' :: part) ++ post = c :: tail ++ '.' :: (part ++ post) := by
        simp
      rw [hshape, hsplit, numberReach_point hne hwhole hpart hdigits (hpost.ends (by decide))]
      simp only [List.length_append, List.length_cons]
      omega
  · simp only [hbehind, List.cons_append, List.forall_mem_cons, Kind.reach]
    exact ⟨runLength_of_not (isBlank_of_isDigit hc) _, commentReach_of_ne hslash _, by simp⟩

theorem firm_word {text : List Char} (h : 0 < wordReach cs)
    (htext : text = cs.take (wordReach cs)) : Firm ⟨.word, text⟩ := by
  cases cs with
  | nil => simp [wordReach] at h
  | cons c cs =>
      cases hc : startsWord c with
      | false => simp [wordReach, hc] at h
      | true =>
          obtain ⟨run, rest, rfl, hlength, hrun, -⟩ := exists_run continuesWord cs
          have hslash : c ≠ '/' := by
            rintro rfl
            exact absurd hc (by decide)
          have hword : text = c :: run := by
            rw [htext, wordReach, if_pos hc, hlength, Nat.add_comm, List.take_succ_cons,
              List.take_left]
          refine .of_reach [.blank, .comment, .number] [.quoted, .symbol, .stray] hword
            (isBlank_of_startsWord hc) rfl (fun post hpost => ?_) fun post _ => ?_
          · simp only [Kind.reach, hword, List.cons_append, wordReach, if_pos hc,
              runLength_append hrun (hpost.ends (by decide)), List.length_cons, Nat.add_comm]
          · simp only [hword, List.cons_append, List.forall_mem_cons, Kind.reach]
            exact ⟨runLength_of_not (isBlank_of_startsWord hc) _, commentReach_of_ne hslash _,
              numberReach_of_not (isDigit_of_startsWord hc) _, by simp⟩

theorem firm_quoted {text : List Char} (h : 0 < quotedReach cs)
    (htext : text = cs.take (quotedReach cs)) : Firm ⟨.quoted, text⟩ := by
  cases cs with
  | nil => simp [quotedReach] at h
  | cons q cs =>
      by_cases hq : q = '"' ∨ q = '\''
      · cases hend : quoteEnd? q cs with
        | none => simp [quotedReach_of_open hend] at h
        | some n =>
            have hstring : text = q :: cs.take n := by
              rw [htext, quotedReach_of_closed hq hend, List.take_succ_cons]
            have hclass : isBlank q = false ∧ q ≠ '/' ∧ q ≠ '\\' ∧ isDigit q = false ∧
                startsWord q = false := by
              rcases hq with rfl | rfl <;> decide
            obtain ⟨hblank, hslash, hback, hdigit, hword⟩ := hclass
            refine .of_reach [.blank, .comment, .number, .word] [.symbol, .stray] hstring hblank rfl
              (fun post hpost => ?_) fun post _ => ?_
            · have hlength : (cs.take n).length = n := List.length_take_of_le (quoteEnd?_le hend)
              simp only [Kind.reach, hstring, List.cons_append]
              rw [quotedReach_of_closed hq (quoteEnd?_take hback hend post), List.length_cons,
                hlength]
            · simp only [hstring, List.cons_append, List.forall_mem_cons, Kind.reach]
              exact ⟨runLength_of_not hblank _, commentReach_of_ne hslash _,
                numberReach_of_not hdigit _, wordReach_of_not hword _, by simp⟩
      · simp [quotedReach_of_not hq] at h

/-- A symbol is a single character, or two that go together, and takes as much in front of a
space. -/
theorem exists_of_symbolReach (h : 0 < symbolReach cs) :
    ∃ c tail, cs.take (symbolReach cs) = c :: tail ∧ c ∈ singles ∧ (c = '/' → tail = []) ∧
      ∀ post, Spaced post → symbolReach (c :: (tail ++ post)) = tail.length + 1 := by
  cases cs with
  | nil => simp [symbolReach] at h
  | cons c cs =>
      rw [symbolReach_cons] at h ⊢
      by_cases hpair : (cs.head?.any fun d => pairs.contains (c, d)) = true
      · have hfirst : ∀ pair ∈ pairs, pair.1 ∈ singles ∧ pair.1 ≠ '/' := by decide
        obtain ⟨d, hd, hmem⟩ := (Option.any_eq_true _ _).1 hpair
        obtain ⟨rest, rfl⟩ := List.head?_eq_some_iff.1 hd
        obtain ⟨hsingle, hslash⟩ := hfirst (c, d) (List.contains_iff_mem.1 hmem)
        refine ⟨c, [d], by rw [if_pos hpair]; rfl, hsingle, fun heq => absurd heq hslash,
          fun post _ => ?_⟩
        rw [symbolReach_cons]
        exact if_pos hpair
      · have hspace : singles.all (fun c => !pairs.contains (c, ' ')) = true := by decide
        rw [if_neg hpair] at h ⊢
        have hsingle : singles.contains c = true := by
          by_contra hnone
          rw [if_neg hnone] at h
          exact absurd h (Nat.lt_irrefl 0)
        have hmem := List.contains_iff_mem.1 hsingle
        refine ⟨c, [], by rw [if_pos hsingle]; rfl, hmem, fun _ => rfl, fun post hpost => ?_⟩
        have hnone : ¬ (post.head?.any fun d => pairs.contains (c, d)) = true := by
          intro hany
          obtain ⟨d, hd, hpair⟩ := (Option.any_eq_true _ _).1 hany
          obtain rfl := hpost d hd
          have hnot := List.all_eq_true.1 hspace c hmem
          rw [hpair] at hnot
          exact Bool.noConfusion hnot
        rw [List.nil_append, symbolReach_cons, if_neg hnone, if_pos hsingle]
        rfl

theorem firm_symbol {text : List Char} (h : 0 < symbolReach cs)
    (htext : text = cs.take (symbolReach cs)) : Firm ⟨.symbol, text⟩ := by
  have hsingles : singles.all (fun c => isBlank c = false ∧ isDigit c = false ∧
      startsWord c = false ∧ ¬ (c = '"' ∨ c = '\'')) = true := by decide
  obtain ⟨c, tail, hpiece, hc, hslash, hreach⟩ := exists_of_symbolReach h
  obtain ⟨hblank, hdigit, hword, hquote⟩ := of_decide_eq_true (List.all_eq_true.1 hsingles c hc)
  rw [hpiece] at htext
  refine .of_reach [.blank, .comment, .number, .word, .quoted] [.stray] htext hblank rfl
    (fun post hpost => ?_) fun post hpost => ?_
  · simp only [Kind.reach, htext, List.cons_append, List.length_cons]
    exact hreach post hpost
  · have hcomment : commentReach (c :: (tail ++ post)) = 0 := by
      by_cases heq : c = '/'
      · rw [heq, hslash heq, List.nil_append]
        exact commentReach_slash hpost
      · exact commentReach_of_ne heq _
    simp only [htext, List.cons_append, List.forall_mem_cons, Kind.reach]
    exact ⟨runLength_of_not hblank _, hcomment, numberReach_of_not hdigit _,
      wordReach_of_not hword _, quotedReach_of_not hquote _, by simp⟩

/-- The lexemes of a text that are tokens are firm. -/
theorem firm_of_mem_split {l : Lexeme} (h : l ∈ split cs) (htoken : l.tokenKind?.isSome = true) :
    l.Firm := by
  fun_induction split cs with
  | case1 => simp at h
  | case2 cs hne kind ih =>
      rcases List.mem_cons.1 h with rfl | h
      · have hpos : 0 < kind.reach cs := Kind.reach_at_pos hne
        clear_value kind
        cases kind with
        | blank | comment | stray => simp [tokenKind?] at htoken
        | number => exact firm_number hpos rfl
        | word => exact firm_word hpos rfl
        | quoted => exact firm_quoted hpos rfl
        | symbol => exact firm_symbol hpos rfl
      · exact ih h

/-! ### Cutting what was spelled out -/

theorem split_nil : split [] = [] := by
  rw [split, dif_pos rfl]

/-- A firm lexeme is cut off first. -/
theorem Firm.split {l : Lexeme} (h : l.Firm) (hpost : Spaced post) :
    split (l.text ++ post) = l :: split post := by
  obtain ⟨c, cs, htext, -⟩ := h.head
  have hne : l.text ++ post ≠ [] := by simp [htext]
  rw [Lexeme.split, dif_neg hne]
  simp only [h.found post hpost, h.reach post hpost, List.take_left, List.drop_left]

/-- A space is a blank of its own in front of what is none. -/
theorem split_space {c : Char} (hc : isBlank c = false) (cs : List Char) :
    split (' ' :: c :: cs) = ⟨.blank, [' ']⟩ :: split (c :: cs) := by
  have hreach : Kind.blank.reach (' ' :: c :: cs) = 1 := by
    simp [Kind.reach, runLength, hc, (by decide : isBlank ' ' = true)]
  rw [split, dif_neg (by simp), Kind.at_of_blank (by decide)]
  simp only [hreach, List.take_succ_cons, List.take_zero, List.drop_succ_cons, List.drop_zero]

/-- Firm lexemes with single spaces between them are found again. -/
theorem split_spelled {ls : List Lexeme} (h : ∀ l ∈ ls, l.Firm) :
    split (List.intercalate [' '] (ls.map Lexeme.text)) = ls.intersperse ⟨.blank, [' ']⟩ := by
  induction ls with
  | nil => exact split_nil
  | cons l ls ih =>
      rw [List.forall_mem_cons] at h
      cases ls with
      | nil =>
          have hlast : split (l.text ++ []) = l :: split [] := h.1.split (by simp [Spaced])
          rw [List.append_nil, split_nil] at hlast
          simpa using hlast
      | cons m ls =>
          obtain ⟨c, cs, htext, hc⟩ := (h.2 m List.mem_cons_self).head
          have hnext : ∃ rest, List.intercalate [' '] ((m :: ls).map Lexeme.text) = c :: rest := by
            cases ls with
            | nil => exact ⟨cs, by simpa using htext⟩
            | cons n ls =>
                rw [List.map_cons, List.map_cons, List.intercalate_cons_cons, htext]
                exact ⟨_, rfl⟩
          obtain ⟨rest, hrest⟩ := hnext
          have hsplit := ih h.2
          rw [hrest] at hsplit
          rw [List.map_cons, List.map_cons, List.intercalate_cons_cons, List.append_assoc,
            h.1.split (by simp [Spaced]), ← List.map_cons, hrest, List.singleton_append,
            split_space hc, hsplit, List.intersperse_cons_cons]

theorem mem_of_mem_intersperse {space m : Lexeme} {ls : List Lexeme}
    (h : m ∈ ls.intersperse space) : m = space ∨ m ∈ ls := by
  induction ls with
  | nil => simp at h
  | cons l ls ih =>
      cases ls with
      | nil => exact .inr h
      | cons n ls =>
          rw [List.intersperse_cons_cons, List.mem_cons, List.mem_cons] at h
          rcases h with rfl | rfl | h
          · exact .inr List.mem_cons_self
          · exact .inl rfl
          · exact (ih h).imp_right (List.mem_cons_of_mem _)

/-! ### Kinds and texts -/

/-- The kind and the text of a lexeme that is a token. -/
def word? (l : Lexeme) : Option (TokenKind × String) :=
  l.tokenKind?.map (·, String.ofList l.text)

/-- Places do not matter for kinds and texts. -/
theorem filterMap_layOut {α : Type} (f : Lexeme → Option α) (p : Position) (ls : List Lexeme) :
    (layOut p ls).filterMap (fun placed => f placed.2) = ls.filterMap f := by
  induction ls generalizing p with
  | nil => rfl
  | cons l ls ih => rw [layOut, List.filterMap_cons, List.filterMap_cons, ih]

/-- Single spaces between lexemes are no tokens. -/
theorem filterMap_intersperse {α : Type} {f : Lexeme → Option α} {space : Lexeme}
    (hspace : f space = none) (ls : List Lexeme) :
    (ls.intersperse space).filterMap f = ls.filterMap f := by
  induction ls with
  | nil => rfl
  | cons l ls ih =>
      cases ls with
      | nil => rfl
      | cons m ls =>
          rw [List.intersperse_cons_cons, List.filterMap_cons, List.filterMap_cons, hspace, ih,
            ← List.filterMap_cons]

end Lexeme

/-- The kind and the text of a token. -/
def Token.word (t : Token) : TokenKind × String :=
  (t.kind, t.text)

/-- The texts of tokens with single spaces between them. -/
def TokenList.spelled (tokens : List Token) : String :=
  " ".intercalate (tokens.map Token.text)

theorem TokenList.map_word_ofText (text : String) :
    (TokenList.ofText text).tokens.map Token.word =
      (Lexeme.split text.toList).filterMap Lexeme.word? := by
  rw [← Lexeme.filterMap_layOut Lexeme.word? Position.start, TokenList.ofText, List.map_filterMap]
  refine List.filterMap_congr fun placed _ => ?_
  obtain ⟨p, l⟩ := placed
  cases hkind : l.tokenKind? <;> simp [Lexeme.token?, Lexeme.word?, hkind, Token.word]

/-- The lexemes of a text that are tokens. -/
def tokenLexemes (text : String) : List Lexeme :=
  (Lexeme.split text.toList).filter fun l => l.tokenKind?.isSome

theorem filterMap_tokenLexemes (text : String) :
    (tokenLexemes text).filterMap Lexeme.word? = (TokenList.ofText text).tokens.map Token.word := by
  rw [TokenList.map_word_ofText, tokenLexemes, List.filterMap_filter]
  refine List.filterMap_congr fun l _ => ?_
  cases hkind : l.tokenKind? <;> simp [Lexeme.word?, hkind]

theorem TokenList.toList_spelled (text : String) :
    (TokenList.spelled (TokenList.ofText text).tokens).toList =
      List.intercalate [' '] ((tokenLexemes text).map Lexeme.text) := by
  have htexts : (TokenList.ofText text).tokens.map Token.text =
      ((tokenLexemes text).map Lexeme.text).map String.ofList := by
    have hwords := congrArg (List.map Prod.snd) (filterMap_tokenLexemes text)
    rw [List.map_map, List.map_filterMap] at hwords
    rw [List.map_map, ← List.filterMap_eq_map (f := String.ofList ∘ Lexeme.text)]
    refine hwords.symm.trans (List.filterMap_congr fun l hl => ?_)
    obtain ⟨kind, hkind⟩ := Option.isSome_iff_exists.1 (List.mem_filter.1 hl).2
    simp [Lexeme.word?, hkind]
  rw [spelled, htexts, String.toList_intercalate, List.map_map]
  simp [Function.comp_def]

/-- **Spelling the tokens of a text out and cutting it again changes nothing**: every character of
the new text belongs to a token or is a space between two of them, and the tokens have the same
kinds and texts in the same order. -/
theorem TokenList.words_spelled (text : String) :
    strayErrors (TokenList.spelled (TokenList.ofText text).tokens) = [] ∧
      (TokenList.ofText (TokenList.spelled (TokenList.ofText text).tokens)).tokens.map Token.word =
        (TokenList.ofText text).tokens.map Token.word := by
  have hsplit : Lexeme.split (TokenList.spelled (TokenList.ofText text).tokens).toList =
      (tokenLexemes text).intersperse ⟨.blank, [' ']⟩ := by
    rw [TokenList.toList_spelled]
    refine Lexeme.split_spelled fun l hl => ?_
    obtain ⟨hmem, htoken⟩ := List.mem_filter.1 hl
    exact Lexeme.firm_of_mem_split hmem htoken
  constructor
  · refine List.filterMap_eq_nil_iff.2 fun ⟨p, l⟩ hl => if_neg fun hstray => ?_
    have hmem := Lexeme.mem_of_mem_layOut hl
    rw [hsplit] at hmem
    rcases Lexeme.mem_of_mem_intersperse hmem with rfl | hmem
    · simp at hstray
    · have htoken := (List.mem_filter.1 hmem).2
      simp [Lexeme.tokenKind?, hstray] at htoken
  · rw [TokenList.map_word_ofText, hsplit, Lexeme.filterMap_intersperse rfl,
      filterMap_tokenLexemes]

end Npl
