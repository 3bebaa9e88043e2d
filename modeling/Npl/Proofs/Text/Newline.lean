import Mathlib.Data.List.Chain
import Npl.Proofs.Text.Position
import Npl.Text.Newline

/-!
# Texts with unified line ends

In most files a carriage return stands for nothing by itself: a line feed comes right behind it, and
the two end a line. Unifying the line ends of such a text is leaving out its carriage returns. That
moves offsets, but a place keeps its line, and unless it lies within a line end it keeps its column.

## Main definitions

* `Tame` — carriage returns stand before line feeds only, and none behind a backslash.
* `bare` — a text without its carriage returns.
* `barePlace` — where a place of a text is without the carriage returns.

## Main results

* `unifyNewlines_eq_bare` — unifying line ends is leaving out carriage returns.
* `aligned_barePlace` — a place keeps its line and its column.
* `take_drop_bare` — pieces of a text without its carriage returns.
-/

namespace Npl.Text

/-- Whether `d` may come behind `c`: behind a carriage return only a line feed, and no carriage
return behind a backslash. -/
def Follows (c d : Char) : Prop :=
  (c = '\r' → d = '\n') ∧ (c = '\\' → d ≠ '\r')

instance (c d : Char) : Decidable (Follows c d) :=
  inferInstanceAs (Decidable (_ ∧ _))

/-- Carriage returns stand directly before line feeds only, and none stands directly behind a
backslash. -/
structure Tame (cs : List Char) : Prop where
  follows : cs.IsChain Follows
  last : cs.getLast? ≠ some '\r'

instance (cs : List Char) : Decidable (Tame cs) :=
  decidable_of_iff (cs.IsChain Follows ∧ cs.getLast? ≠ some '\r')
    ⟨fun h => ⟨h.1, h.2⟩, fun h => ⟨h.follows, h.last⟩⟩

/-- The characters that are no carriage returns. -/
def bare (cs : List Char) : List Char :=
  cs.filter (· ≠ '\r')

variable {c : Char} {cs ds : List Char}

/-! ### Tame texts -/

theorem tame_nil : Tame [] :=
  ⟨.nil, by simp⟩

theorem tame_cons : Tame (c :: cs) ↔
    (c = '\r' → cs.head? = some '\n') ∧ (c = '\\' → cs.head? ≠ some '\r') ∧ Tame cs := by
  cases cs with
  | nil =>
      constructor
      · rintro ⟨-, hlast⟩
        exact ⟨fun hc => absurd (congrArg some hc) hlast, by simp, tame_nil⟩
      · rintro ⟨hreturn, -, -⟩
        exact ⟨.singleton c, fun hlast => by simpa using hreturn (Option.some.inj hlast)⟩
  | cons d cs =>
      have hlast : (c :: d :: cs).getLast? = (d :: cs).getLast? := List.getLast?_cons_cons
      constructor
      · rintro ⟨hfollows, hend⟩
        obtain ⟨⟨hreturn, hescape⟩, hrest⟩ := List.isChain_cons_cons.1 hfollows
        exact ⟨fun hc => congrArg some (hreturn hc), fun hc hd => hescape hc (Option.some.inj hd),
          hrest, hlast ▸ hend⟩
      · rintro ⟨hreturn, hescape, hrest⟩
        exact ⟨List.isChain_cons_cons.2 ⟨⟨fun hc => Option.some.inj (hreturn hc),
          fun hc hd => hescape hc (congrArg some hd)⟩, hrest.follows⟩, hlast ▸ hrest.last⟩

/-- What comes behind a first part of a tame text is tame. -/
theorem Tame.drop (h : Tame cs) (n : Nat) : Tame (cs.drop n) := by
  induction cs generalizing n with
  | nil => simpa using h
  | cons c cs ih =>
      cases n with
      | zero => exact h
      | succ n => exact ih (tame_cons.1 h).2.2 n

theorem Tame.tail (h : Tame (c :: cs)) : Tame cs :=
  h.drop 1

/-- The first part of a tame text is tame unless it ends within a line end. -/
theorem Tame.take (h : Tame cs) {n : Nat} (hfeed : (cs.drop n).head? ≠ some '\n') :
    Tame (cs.take n) := by
  refine ⟨h.follows.take n, fun hlast => ?_⟩
  obtain ⟨front, hfront⟩ := List.getLast?_eq_some_iff.1 hlast
  have hsplit : cs = front ++ '\r' :: cs.drop n := by
    rw [← List.singleton_append, ← List.append_assoc, ← hfront, List.take_append_drop]
  have hreturn : Tame ('\r' :: cs.drop n) := by
    have hdrop := h.drop front.length
    rwa [congrArg (List.drop front.length) hsplit, List.drop_left] at hdrop
  exact hfeed ((tame_cons.1 hreturn).1 rfl)

/-- A tame text is empty, or starts with a line end of two characters, or with a character that is
no carriage return, and what comes behind that is tame. -/
@[elab_as_elim]
theorem Tame.induction {motive : ∀ cs, Tame cs → Prop} (nil : motive [] tame_nil)
    (lineEnd : ∀ cs (h : Tame ('\r' :: '\n' :: cs)), motive cs h.tail.tail →
      motive ('\r' :: '\n' :: cs) h)
    (cons : ∀ c cs (h : Tame (c :: cs)), c ≠ '\r' → motive cs h.tail → motive (c :: cs) h)
    {cs : List Char} (h : Tame cs) : motive cs h := by
  fun_induction unifyNewlines cs with
  | case1 cs ih => exact lineEnd cs h (ih h.tail.tail)
  | case2 cs hfeed ih =>
      obtain ⟨rest, rfl⟩ := List.head?_eq_some_iff.1 ((tame_cons.1 h).1 rfl)
      exact absurd rfl (hfeed rest)
  | case3 c cs hend hreturn ih => exact cons c cs h (fun hc => hreturn hc) (ih h.tail)
  | case4 => exact nil

/-! ### Leaving out carriage returns -/

@[simp] theorem bare_nil : bare [] = [] := rfl

theorem bare_cons_return (cs : List Char) : bare ('\r' :: cs) = bare cs := rfl

theorem bare_cons (hc : c ≠ '\r') (cs : List Char) : bare (c :: cs) = c :: bare cs := by
  simp [bare, hc]

theorem bare_append (cs ds : List Char) : bare (cs ++ ds) = bare cs ++ bare ds :=
  List.filter_append _ _

theorem bare_eq_self (h : '\r' ∉ cs) : bare cs = cs :=
  List.filter_eq_self.2 fun c hc => by
    simp only [ne_eq, decide_eq_true_eq]
    rintro rfl
    exact h hc

theorem bare_cons_lineEnd (cs : List Char) : bare ('\r' :: '\n' :: cs) = '\n' :: bare cs := rfl

/-- Unifying the line ends of a tame text is leaving out its carriage returns. -/
theorem unifyNewlines_eq_bare (h : Tame cs) : unifyNewlines cs = bare cs := by
  induction h using Tame.induction with
  | nil => rfl
  | lineEnd cs h ih => rw [unifyNewlines, ih, bare_cons_lineEnd]
  | cons c cs h hc ih =>
      rw [unifyNewlines, ih, bare_cons hc]
      · exact fun _ hreturn _ => hc hreturn
      · exact hc

/-- Without the carriage returns, a line end starts with its line feed. -/
theorem head?_bare (h : Tame cs) :
    (bare cs).head? = cs.head?.map fun c => if c = '\r' then '\n' else c := by
  induction h using Tame.induction with
  | nil => rfl
  | lineEnd cs h _ => rfl
  | cons c cs h hc _ => simp [bare_cons hc, hc]

theorem bare_ne_nil (h : Tame cs) (hne : cs ≠ []) : bare cs ≠ [] := by
  intro hnil
  have hhead := head?_bare h
  rw [hnil, List.head?_nil, eq_comm, Option.map_eq_none_iff, List.head?_eq_none_iff] at hhead
  exact hne hhead

/-- A character that ends no line has the same in front of it. -/
theorem exists_of_bare_eq_cons (h : Tame cs) (hc : c ≠ '\n') (hbare : bare cs = c :: ds) :
    ∃ rest, cs = c :: rest ∧ bare rest = ds := by
  induction h using Tame.induction with
  | nil => simp at hbare
  | lineEnd cs h _ =>
      rw [bare_cons_lineEnd] at hbare
      exact absurd (List.cons.inj hbare).1.symm hc
  | cons d cs h hd _ =>
      rw [bare_cons hd] at hbare
      obtain ⟨rfl, rfl⟩ := List.cons.inj hbare
      exact ⟨cs, rfl, rfl⟩

/-- A run that carriage returns do not end. -/
theorem takeWhile_bare {p : Char → Bool} (hreturn : p '\r' = true) (cs : List Char) :
    (bare cs).takeWhile p = bare (cs.takeWhile p) := by
  induction cs with
  | nil => rfl
  | cons c cs ih =>
      by_cases hc : c = '\r'
      · rw [hc, bare_cons_return, List.takeWhile_cons_of_pos hreturn, bare_cons_return, ih]
      · rw [bare_cons hc]
        cases hp : p c with
        | true =>
            rw [List.takeWhile_cons_of_pos hp, List.takeWhile_cons_of_pos hp, ih, bare_cons hc]
        | false =>
            have hno : ¬ p c = true := by simp [hp]
            rw [List.takeWhile_cons_of_neg hno, List.takeWhile_cons_of_neg hno, bare_nil]

/-- A run that line ends do end. -/
theorem takeWhile_bare_of_not {p : Char → Bool} (hreturn : ¬ p '\r' = true)
    (hfeed : ¬ p '\n' = true) (h : Tame cs) : (bare cs).takeWhile p = cs.takeWhile p := by
  induction h using Tame.induction with
  | nil => rfl
  | lineEnd cs h _ =>
      rw [bare_cons_lineEnd, List.takeWhile_cons_of_neg hfeed, List.takeWhile_cons_of_neg hreturn]
  | cons c cs h hc ih =>
      rw [bare_cons hc]
      simp only [List.takeWhile_cons, ih]

theorem not_mem_takeWhile {p : Char → Bool} (hreturn : ¬ p '\r' = true) (cs : List Char) :
    '\r' ∉ cs.takeWhile p :=
  fun hmem => hreturn (List.mem_takeWhile_imp hmem)

/-- What comes behind a first part without carriage returns. -/
theorem drop_bare {o : Nat} (hle : o ≤ cs.length) (hno : '\r' ∉ cs.take o) :
    (bare cs).drop o = bare (cs.drop o) := by
  have hsplit : bare cs = cs.take o ++ bare (cs.drop o) := by
    rw [← bare_eq_self hno, ← bare_append, List.take_append_drop]
  have hlength : (cs.take o).length = o := by
    rw [List.length_take, Nat.min_eq_left hle]
  rw [hsplit, List.drop_left' hlength]

/-! ### Places -/

/-- The two places have the same line and the same column. -/
structure Position.Aligned (p q : Position) : Prop where
  line : p.line = q.line
  column : p.column = q.column

/-- Behind a tame text, the line and the column are the same without the carriage returns. -/
theorem Position.Aligned.advance {p q : Position} (hpq : p.Aligned q) (h : Tame cs) :
    (p.advance cs).Aligned (q.advance (bare cs)) := by
  induction h using Tame.induction generalizing p q with
  | nil => exact hpq
  | lineEnd cs h ih => exact ih ⟨congrArg (· + 1) hpq.line, rfl⟩
  | cons c cs h hc ih =>
      have hstep : (p.step c).Aligned (q.step c) := by
        unfold Position.step
        split
        · exact ⟨congrArg (· + 1) hpq.line, rfl⟩
        · exact ⟨hpq.line, congrArg (· + 1) hpq.column⟩
      rw [bare_cons hc]
      exact ih hstep

/-- How many characters come before an offset if the carriage returns are left out. -/
def bareOffset (cs : List Char) (o : Nat) : Nat :=
  (bare (cs.take o)).length

/-- Where a place of a text is if the carriage returns are left out. -/
def barePlace (cs : List Char) (p : Position) : Position :=
  Position.start.advance (bare (cs.take p.offset))

@[simp] theorem bareOffset_zero (cs : List Char) : bareOffset cs 0 = 0 := rfl

theorem bareOffset_cons (hc : c ≠ '\r') (cs : List Char) (o : Nat) :
    bareOffset (c :: cs) (o + 1) = bareOffset cs o + 1 := by
  rw [bareOffset, List.take_succ_cons, bare_cons hc, List.length_cons, bareOffset]

theorem bareOffset_add (cs : List Char) (a n : Nat) :
    bareOffset cs (a + n) = bareOffset cs a + (bare ((cs.drop a).take n)).length := by
  rw [bareOffset, List.take_add, bare_append, List.length_append, bareOffset]

/-- Where there are no carriage returns, offsets stay. -/
theorem bareOffset_of_not_mem {o : Nat} (hle : o ≤ cs.length) (hno : '\r' ∉ cs.take o) :
    bareOffset cs o = o := by
  rw [bareOffset, bare_eq_self hno, List.length_take, Nat.min_eq_left hle]

theorem offset_barePlace (cs : List Char) (p : Position) :
    (barePlace cs p).offset = bareOffset cs p.offset := by
  rw [barePlace, Position.offset_advance]
  exact Nat.zero_add _

/-- A place that does not lie within a line end keeps its line and its column. -/
theorem aligned_barePlace {p : Position} (hp : p.In cs) (h : Tame (cs.take p.offset)) :
    p.Aligned (barePlace cs p) := by
  have haligned : (Position.start.advance (cs.take p.offset)).Aligned (barePlace cs p) :=
    .advance ⟨rfl, rfl⟩ h
  rwa [← hp.eq] at haligned

theorem bareOffset_mono (cs : List Char) {a b : Nat} (h : a ≤ b) :
    bareOffset cs a ≤ bareOffset cs b :=
  (((List.take_prefix_take_left h).filter _).length_le)

/-- A piece of the text without its carriage returns. -/
theorem take_drop_bare (cs : List Char) (a b : Nat) :
    ((bare cs).drop (bareOffset cs a)).take (bareOffset cs b - bareOffset cs a) =
      bare ((cs.drop a).take (b - a)) := by
  rcases Nat.le_total b a with hle | hle
  · have hmono := bareOffset_mono cs hle
    rw [Nat.sub_eq_zero_of_le hle, Nat.sub_eq_zero_of_le hmono]
    rfl
  · have hfirst : bare (cs.take b) = bare (cs.take a) ++ bare ((cs.drop a).take (b - a)) := by
      rw [← bare_append, ← List.take_add, Nat.add_sub_cancel' hle]
    have hall : bare cs = bare (cs.take a) ++ (bare ((cs.drop a).take (b - a)) ++
        bare (cs.drop b)) := by
      rw [← List.append_assoc, ← hfirst, ← bare_append, List.take_append_drop]
    have hlength :
        bareOffset cs b - bareOffset cs a = (bare ((cs.drop a).take (b - a))).length := by
      unfold bareOffset
      rw [hfirst, List.length_append, Nat.add_sub_cancel_left]
    rw [hlength, hall, bareOffset, List.drop_left, List.take_left]

end Npl.Text
