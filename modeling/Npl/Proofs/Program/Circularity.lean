import Mathlib.Data.Prod.Lex
import Mathlib.Data.Set.Finite.List
import Mathlib.Data.String.Basic
import Mathlib.Logic.Relation
import Mathlib.Order.Preorder.Finite
import Npl.Proofs.Program.Order
import Npl.Proofs.Syntax.SourceOrder

/-!
# Chains that never end

A function without a type of its own takes its type from the one function that it calls, if its body
is nothing but that call. As a function takes its type from one function at most, a chain of such
functions either ends or runs into a circle, and what is found of a circle is all of it.

Which circle is found is up to the search. All that is asked of it is that it is depth-first and takes
the functions in their order.

## Main definitions

* `Body.IsCallOf` — a body is nothing but a call of a function.
* `Untyped.Stands` — where a function stands in the units.
* `Untyped.Owns` — a function is the one that its package and its name stand for.
* `Untyped.TakesFrom` — a function takes its type from another one.
* `Untyped.Endless` — the chain from a function never ends.
* `Untyped.Culprit` — the function that is named for a circle.

## Main results

* `Body.callee?_eq_some_iff` — the callee of a body is the function that it is a call of.
* `Untyped.mem_ofUnits_iff` — the compiler keeps the functions that names stand for.
* `Untyped.edge_iff` — the edges of the graph lead from a function to the one that it takes its type
  from.
* `Untyped.trapped_iff` — a chain never ends exactly if it runs into a circle.
* `findCircular_exact` — a circle is found exactly if there is one, and which function is named.
-/

namespace Npl

/-! ### Calls -/

namespace Body

/-- As many parentheses are opened as are closed, and none is closed before it is opened. -/
structure Balanced (tokens : List Token) : Prop where
  opened : ∀ part, part <+: tokens →
    part.countP (·.isSymbol ")") ≤ part.countP (·.isSymbol "(")
  closed : tokens.countP (·.isSymbol ")") = tokens.countP (·.isSymbol "(")

/-- The body is nothing but a call of the function: its name, and an opening parenthesis that the
last token closes. -/
def IsCallOf (name : String) (body : List Token) : Prop :=
  ∃ head opening inner closing, body = head :: opening :: (inner ++ [closing]) ∧
    head.isIdentifier = true ∧ head.text = name ∧ opening.isSymbol "(" = true ∧
    closing.isSymbol ")" = true ∧ Balanced inner

/-- A symbol is not another one. -/
theorem not_isSymbol_of_isSymbol {t : Token} {s : String} (h : t.isSymbol s = true) (s' : String)
    (hne : s ≠ s') : t.isSymbol s' = false := by
  simp only [Token.isSymbol, Bool.and_eq_true, decide_eq_true_eq] at h
  simp [Token.isSymbol, h.2, hne]

/-- What stands in front of the parenthesis that closes the first of `n + 1` open ones leaves that
one open all the way. -/
structure Inside (n : Nat) (tokens : List Token) : Prop where
  opened : ∀ part, part <+: tokens →
    part.countP (·.isSymbol ")") ≤ part.countP (·.isSymbol "(") + n
  closed : tokens.countP (·.isSymbol ")") = tokens.countP (·.isSymbol "(") + n

theorem inside_zero_iff {tokens : List Token} : Inside 0 tokens ↔ Balanced tokens :=
  ⟨fun h => ⟨h.opened, h.closed⟩, fun h => ⟨h.opened, h.closed⟩⟩

theorem inside_nil_iff {n : Nat} : Inside n [] ↔ n = 0 := by
  constructor
  · intro h
    have hclosed := h.closed
    simpa using hclosed.symm
  · rintro rfl
    exact ⟨by simp, by simp⟩

/-- A first token counts for every stretch from the start, but for the empty one. -/
theorem inside_cons_iff {t : Token} {ts : List Token} {n : Nat} :
    Inside n (t :: ts) ↔
      (∀ part, part <+: ts → (t :: part).countP (·.isSymbol ")") ≤
        (t :: part).countP (·.isSymbol "(") + n) ∧
      (t :: ts).countP (·.isSymbol ")") = (t :: ts).countP (·.isSymbol "(") + n := by
  constructor
  · exact fun h => ⟨fun part hpart => h.opened _ (List.cons_prefix_cons.2 ⟨rfl, hpart⟩), h.closed⟩
  · rintro ⟨hopened, hclosed⟩
    refine ⟨fun part hpart => ?_, hclosed⟩
    rcases List.prefix_cons_iff.1 hpart with rfl | ⟨part, rfl, hrest⟩
    · simp
    · exact hopened part hrest

/-- An opening parenthesis is one more to be closed. -/
theorem inside_cons_open_iff {t : Token} {ts : List Token} {n : Nat} (h : t.isSymbol "(" = true) :
    Inside n (t :: ts) ↔ Inside (n + 1) ts := by
  have h' := not_isSymbol_of_isSymbol h ")" (by decide)
  simp only [inside_cons_iff, List.countP_cons, h, h', if_true, Bool.false_eq_true, if_false,
    Nat.add_zero, Nat.add_assoc, Nat.add_comm 1 n]
  exact ⟨fun ⟨hopened, hclosed⟩ => ⟨hopened, hclosed⟩, fun ⟨hopened, hclosed⟩ => ⟨hopened, hclosed⟩⟩

/-- A closing parenthesis is one less to be closed, and there has to be one. -/
theorem inside_cons_close_iff {t : Token} {ts : List Token} {n : Nat} (h : t.isSymbol ")" = true) :
    Inside n (t :: ts) ↔ ∃ m, n = m + 1 ∧ Inside m ts := by
  have h' := not_isSymbol_of_isSymbol h "(" (by decide)
  simp only [inside_cons_iff, List.countP_cons, h, h', if_true, Bool.false_eq_true, if_false,
    Nat.add_zero]
  constructor
  · rintro ⟨hopened, hclosed⟩
    have hfirst := hopened [] (List.nil_prefix)
    obtain ⟨m, rfl⟩ : ∃ m, n = m + 1 := ⟨n - 1, by simp at hfirst; omega⟩
    exact ⟨m, rfl, fun part hpart => Nat.le_of_succ_le_succ (hopened part hpart),
      Nat.succ_injective hclosed⟩
  · rintro ⟨m, rfl, hopened, hclosed⟩
    exact ⟨fun part hpart => Nat.succ_le_succ (hopened part hpart), congrArg Nat.succ hclosed⟩

/-- Other tokens do not count. -/
theorem inside_cons_other_iff {t : Token} {ts : List Token} {n : Nat}
    (hopen : t.isSymbol "(" = false) (hclose : t.isSymbol ")" = false) :
    Inside n (t :: ts) ↔ Inside n ts := by
  simp only [inside_cons_iff, List.countP_cons, hopen, hclose, Bool.false_eq_true, if_false,
    Nat.add_zero]
  exact ⟨fun ⟨hopened, hclosed⟩ => ⟨hopened, hclosed⟩, fun ⟨hopened, hclosed⟩ => ⟨hopened, hclosed⟩⟩

/-- The parenthesis that closes the first of `n + 1` open ones is found behind what stands
inside. -/
theorem afterClosing?_eq_some_iff {ts rest : List Token} {n : Nat} :
    afterClosing? (n + 1) ts = some rest ↔
      ∃ inner closing, ts = inner ++ closing :: rest ∧ closing.isSymbol ")" = true ∧
        Inside n inner := by
  induction ts generalizing n with
  | nil => simp [afterClosing?]
  | cons t ts ih =>
      -- Nothing is inside, or the first token is.
      have hsplit : (∃ inner closing, t :: ts = inner ++ closing :: rest ∧
            closing.isSymbol ")" = true ∧ Inside n inner) ↔
          (n = 0 ∧ t.isSymbol ")" = true ∧ ts = rest) ∨
            ∃ inner closing, ts = inner ++ closing :: rest ∧
              closing.isSymbol ")" = true ∧ Inside n (t :: inner) := by
        constructor
        · rintro ⟨_ | ⟨u, inner⟩, closing, heq, hclosing, hinside⟩
          · obtain ⟨rfl, rfl⟩ := List.cons.inj heq
            exact .inl ⟨inside_nil_iff.1 hinside, hclosing, rfl⟩
          · obtain ⟨rfl, rfl⟩ := List.cons.inj heq
            exact .inr ⟨inner, closing, rfl, hclosing, hinside⟩
        · rintro (⟨hn, hclosing, rfl⟩ | ⟨inner, closing, rfl, hclosing, hinside⟩)
          · exact ⟨[], t, rfl, hclosing, inside_nil_iff.2 hn⟩
          · exact ⟨t :: inner, closing, rfl, hclosing, hinside⟩
      rw [hsplit, afterClosing?]
      cases hopen : t.isSymbol "(" with
      | true =>
          have hclose := not_isSymbol_of_isSymbol hopen ")" (by decide)
          simp only [hclose, if_true, inside_cons_open_iff hopen, Bool.false_eq_true, false_and,
            and_false, false_or]
          exact ih
      | false =>
          cases hclose : t.isSymbol ")" with
          | true => cases n <;> simp [inside_cons_close_iff hclose, ih]
          | false =>
              simp only [inside_cons_other_iff hopen hclose, Bool.false_eq_true, if_false,
                false_and, and_false, false_or]
              exact ih

/-- The callee of a body is the function that the body is nothing but a call of. -/
theorem callee?_eq_some_iff {body : List Token} {name : String} :
    callee? body = some name ↔ IsCallOf name body := by
  constructor
  · intro h
    unfold callee? at h
    split at h
    · next head opening ts =>
        simp only [Option.ite_none_right_eq_some, Bool.and_eq_true, decide_eq_true_eq,
          Option.some.injEq, afterClosing?_eq_some_iff] at h
        obtain ⟨⟨⟨hhead, hopening⟩, inner, closing, rfl, hclosing, hinside⟩, hname⟩ := h
        exact ⟨head, opening, inner, closing, rfl, hhead, hname, hopening, hclosing,
          inside_zero_iff.1 hinside⟩
    · simp at h
  · rintro ⟨head, opening, inner, closing, rfl, hhead, rfl, hopening, hclosing, hbalanced⟩
    have hafter : afterClosing? 1 (inner ++ [closing]) = some [] :=
      afterClosing?_eq_some_iff.2 ⟨inner, closing, rfl, hclosing, inside_zero_iff.2 hbalanced⟩
    simp [callee?, hhead, hopening, hafter]

end Body

/-! ### The functions without a type of their own -/

namespace Untyped

open Relation (ReflTransGen TransGen)

variable {units : List SourceUnit} {f g : Untyped} {i j : ℕ}

/-- The function has an expression body and no declared result, and stands in the `i`-th unit as the
`j`-th function. -/
structure Stands (units : List SourceUnit) (f : Untyped) (i j : ℕ) : Prop where
  unit : units[i]? = some f.unit
  decl : f.unit.tree.functions[j]? = some f.decl
  untyped : f.decl.returns? = none
  expression : f.decl.block = false

/-- A place in the units, by which places are ordered: units first, and functions within a unit. -/
abbrev Rank : Type := ℕ ×ₗ ℕ

/-- The function is the first one of all units that has its package and its name. -/
def Owns (units : List SourceUnit) (f : Untyped) : Prop :=
  ∃ i j, f.Stands units i j ∧ ∀ (g : Untyped) (i' j' : ℕ), g.Stands units i' j' → g.key = f.key →
    (toLex (i, j) : Rank) ≤ toLex (i', j')

theorem stands_iff : f.Stands units i j ↔
    units[i]? = some f.unit ∧ f.unit.tree.functions[j]? = some f.decl ∧ f.decl.isUntyped = true := by
  simp only [FunctionDecl.isUntyped, Bool.and_eq_true, Option.isNone_iff_eq_none, Bool.not_eq_true']
  exact ⟨fun ⟨hi, hj, hnone, hblock⟩ => ⟨hi, hj, hnone, hblock⟩,
    fun ⟨hi, hj, hnone, hblock⟩ => ⟨hi, hj, hnone, hblock⟩⟩

/-- One function stands at a place. -/
theorem Stands.unique (h : f.Stands units i j) (h' : g.Stands units i j) : f = g := by
  obtain ⟨unit, decl⟩ := f
  obtain ⟨unit', decl'⟩ := g
  obtain rfl : unit = unit' := Option.some.inj (h.unit.symm.trans h'.unit)
  obtain rfl : decl = decl' := Option.some.inj (h.decl.symm.trans h'.decl)
  rfl

/-- The functions of a unit that have no type of their own. -/
theorem mem_all_iff : f ∈ all units ↔ ∃ i j, f.Stands units i j := by
  simp only [all, List.mem_flatMap, List.mem_map, List.mem_filter]
  constructor
  · rintro ⟨u, hu, d, ⟨hd, huntyped⟩, rfl⟩
    obtain ⟨i, hi⟩ := List.mem_iff_getElem?.1 hu
    obtain ⟨j, hj⟩ := List.mem_iff_getElem?.1 hd
    exact ⟨i, j, stands_iff.2 ⟨hi, hj, huntyped⟩⟩
  · rintro ⟨i, j, h⟩
    obtain ⟨hi, hj, huntyped⟩ := stands_iff.1 h
    exact ⟨f.unit, List.mem_of_getElem? hi, f.decl, ⟨List.mem_of_getElem? hj, huntyped⟩, rfl⟩

theorem getElem?_take_eq_some_iff {α : Type} {as : List α} {a : α} {n : ℕ} :
    (as.take n)[i]? = some a ↔ i < n ∧ as[i]? = some a := by
  rw [List.getElem?_take]
  split <;> simp [*]

/-- The functions of the first units stand where they stood. -/
theorem stands_take_iff {n : ℕ} :
    f.Stands (units.take n) i j ↔ i < n ∧ f.Stands units i j := by
  constructor
  · intro h
    obtain ⟨hlt, hunit⟩ := getElem?_take_eq_some_iff.1 h.unit
    exact ⟨hlt, hunit, h.decl, h.untyped, h.expression⟩
  · rintro ⟨hlt, h⟩
    exact ⟨getElem?_take_eq_some_iff.2 ⟨hlt, h.unit⟩, h.decl, h.untyped, h.expression⟩

/-- In front of a function come those that stand before it. -/
theorem exists_split_of_stands (h : f.Stands units i j) : ∃ front back,
    all units = front ++ f :: back ∧
      ∀ g, g ∈ front ↔ ∃ i' j', g.Stands units i' j' ∧ (toLex (i', j') : Rank) < toLex (i, j) := by
  obtain ⟨hunit, hdecl, huntyped⟩ := stands_iff.1 h
  obtain ⟨hi, hgetUnit⟩ := List.getElem?_eq_some_iff.1 hunit
  obtain ⟨hj, hgetDecl⟩ := List.getElem?_eq_some_iff.1 hdecl
  have hunits : units = units.take i ++ f.unit :: units.drop (i + 1) := by
    rw [← hgetUnit, ← List.drop_eq_getElem_cons, List.take_append_drop]
  have hdecls : f.unit.tree.functions = f.unit.tree.functions.take j ++ f.decl ::
      f.unit.tree.functions.drop (j + 1) := by
    rw [← hgetDecl, ← List.drop_eq_getElem_cons, List.take_append_drop]
  refine ⟨all (units.take i) ++
      ((f.unit.tree.functions.take j).filter FunctionDecl.isUntyped).map (⟨f.unit, ·⟩),
    ((f.unit.tree.functions.drop (j + 1)).filter FunctionDecl.isUntyped).map (⟨f.unit, ·⟩) ++
      all (units.drop (i + 1)), ?split, fun g => ?front⟩
  case split =>
    have hall : all units = all (units.take i) ++
        ((f.unit.tree.functions.filter FunctionDecl.isUntyped).map (Untyped.mk f.unit) ++
          all (units.drop (i + 1))) := by
      conv_lhs => rw [hunits]
      rw [all, List.flatMap_append, List.flatMap_cons]
      rfl
    rw [hall, hdecls, List.filter_append, List.filter_cons_of_pos huntyped, List.map_append,
      List.map_cons, ← hdecls]
    simp only [List.append_assoc, List.cons_append]
  case front =>
    rw [List.mem_append, mem_all_iff]
    simp only [List.mem_map, List.mem_filter, Prod.Lex.toLex_lt_toLex]
    constructor
    · rintro (⟨i', j', hg⟩ | ⟨d, ⟨hd, huntyped⟩, rfl⟩)
      · obtain ⟨hlt, hg⟩ := stands_take_iff.1 hg
        exact ⟨i', j', hg, .inl hlt⟩
      · obtain ⟨j', hj'⟩ := List.mem_iff_getElem?.1 hd
        obtain ⟨hlt, hj'⟩ := getElem?_take_eq_some_iff.1 hj'
        exact ⟨i, j', stands_iff.2 ⟨hunit, hj', huntyped⟩, .inr ⟨rfl, hlt⟩⟩
    · rintro ⟨i', j', hg, hlt | ⟨rfl, hlt⟩⟩
      · exact .inl ⟨i', j', stands_take_iff.2 ⟨hlt, hg⟩⟩
      · obtain ⟨unit, decl⟩ := g
        obtain ⟨hunit', hdecl', huntyped'⟩ := stands_iff.1 hg
        obtain rfl : f.unit = unit := Option.some.inj (hunit.symm.trans hunit')
        exact .inr ⟨decl, ⟨List.mem_of_getElem? (getElem?_take_eq_some_iff.2 ⟨hlt, hdecl'⟩),
          huntyped'⟩, rfl⟩

/-- The compiler keeps the functions that their packages and names stand for. -/
theorem mem_ofUnits_iff : f ∈ ofUnits units ↔ Owns units f := by
  have hfind : ∀ {g : Untyped}, Owns units g → (all units).find? g.same = some g := by
    rintro g ⟨i, j, hg, hleast⟩
    obtain ⟨front, back, hall, hfront⟩ := exists_split_of_stands hg
    refine List.find?_eq_some_iff_append.2 ⟨same_iff.2 rfl, front, back, hall, fun a ha => ?_⟩
    obtain ⟨i', j', ha, hlt⟩ := (hfront a).1 ha
    rw [Bool.not_eq_true', Bool.eq_false_iff, ne_eq, same_iff]
    exact fun hkey => absurd (hleast a i' j' ha hkey.symm) (not_le.2 hlt)
  refine mem_firsts_iff.trans ⟨fun h => ?_, hfind⟩
  -- Of all places where a function with this package and name stands, there is a first one.
  obtain ⟨i, j, hf⟩ := mem_all_iff.1 (List.mem_of_find?_eq_some h)
  have hsome : {k : Rank | ∃ g : Untyped, g.Stands units (ofLex k).1 (ofLex k).2 ∧
      g.key = f.key}.Nonempty := ⟨toLex (i, j), f, hf, rfl⟩
  obtain ⟨k, ⟨g, hg, hkey⟩, hleast⟩ := WellFounded.has_min wellFounded_lt _ hsome
  have howns : Owns units g := ⟨_, _, hg, fun g' i' j' hg' hkey' =>
    not_lt.1 (hleast (toLex (i', j')) ⟨g', hg', hkey'.trans hkey⟩)⟩
  have hsame := hfind howns
  rw [same_congr hkey, h] at hsame
  exact Option.some.inj hsame ▸ howns

theorem nodup_map_key_ofUnits (units : List SourceUnit) : ((ofUnits units).map key).Nodup :=
  nodup_map_key_firsts (all units)

/-- What stands in front of a function in the units does so among the functions that are kept. -/
theorem mem_of_mem_front {front back before after : List Untyped}
    (hall : all units = front ++ f :: back) (hfront : ∀ g ∈ front, (!f.same g) = true)
    (hkept : ofUnits units = before ++ f :: after) (hg : g ∈ front) (howns : Owns units g) :
    g ∈ before := by
  have hfirst : g ∈ firsts front := by
    rw [mem_firsts_iff]
    have hfind := mem_firsts_iff.1 (mem_ofUnits_iff.2 howns)
    rw [hall, List.find?_append] at hfind
    cases hfound : front.find? g.same with
    | some b => rwa [hfound, Option.some_or] at hfind
    | none => exact absurd (same_iff.2 rfl) (List.find?_eq_none.1 hfound g hg)
  have hnew : ¬ (firsts front).any f.same = true := by
    rw [any_firsts, List.any_eq_true]
    rintro ⟨g, hg, hsame⟩
    simpa [hsame] using hfront g hg
  obtain ⟨later, hlater⟩ := exists_firsts_append (front ++ [f]) back
  rw [firsts_concat, if_neg hnew, List.append_assoc, List.append_assoc, List.singleton_append,
    List.singleton_append, ← hall] at hlater
  -- Both ways to split the kept functions are at `f`, which is not among those in front.
  rcases List.append_eq_append_iff.1 (hkept.symm.trans hlater) with
    ⟨between, hbetween, hrest⟩ | ⟨between, rfl, -⟩
  · cases between with
    | nil => rwa [← List.append_nil before, ← hbetween]
    | cons a between =>
        obtain rfl := (List.cons.inj hrest).1
        refine absurd (List.any_eq_true.2 ⟨f, ?_, same_iff.2 rfl⟩) hnew
        rw [hbetween]
        exact List.mem_append_right _ List.mem_cons_self
  · exact List.mem_append_left _ hfirst

/-! ### Chains -/

/-- The function takes its type from another one: both are those that their names stand for, the
other one is in the same package, and the body is nothing but a call of it. -/
structure TakesFrom (units : List SourceUnit) (f g : Untyped) : Prop where
  owns : Owns units f
  callee : Owns units g
  package : g.package = f.package
  call : Body.IsCallOf g.name f.decl.body

/-- The chain from the function never ends. -/
def Endless (units : List SourceUnit) (f : Untyped) : Prop :=
  ∃ path : ℕ → Untyped, path 0 = f ∧ ∀ n, TakesFrom units (path n) (path (n + 1))

theorem Endless.owns (h : Endless units f) : Owns units f := by
  obtain ⟨path, rfl, hpath⟩ := h
  exact (hpath 0).owns

/-- The edges of the graph lead from a function to the one that it takes its type from. -/
theorem edge_iff {a b : String × String} : (graph (ofUnits units)).Edge a b ↔
    ∃ f g, f.key = a ∧ g.key = b ∧ TakesFrom units f g := by
  simp only [edge_graph_iff, mem_ofUnits_iff, Body.callee?_eq_some_iff]
  constructor
  · rintro ⟨f, hf, hkey, g, hg, hkey', hpackage, hcall⟩
    exact ⟨f, g, hkey, hkey', hf, hg, hpackage, hcall⟩
  · rintro ⟨f, g, hkey, hkey', hf, hg, hpackage, hcall⟩
    exact ⟨f, hf, hkey, g, hg, hkey', hpackage, hcall⟩

/-- A package and a name stand for one function. -/
theorem Owns.unique (hf : Owns units f) (hg : Owns units g) (hkey : f.key = g.key) : f = g :=
  List.inj_on_of_nodup_map (nodup_map_key_ofUnits units) (mem_ofUnits_iff.2 hf)
    (mem_ofUnits_iff.2 hg) hkey

/-- No function takes its type from two others. -/
theorem rightUnique_takesFrom (units : List SourceUnit) : Relator.RightUnique (TakesFrom units) := by
  intro f g g' h h'
  have hname : g.name = g'.name := Option.some.inj <|
    (Body.callee?_eq_some_iff.2 h.call).symm.trans (Body.callee?_eq_some_iff.2 h'.call)
  exact h.callee.unique h'.callee (Prod.ext (h.package.trans h'.package.symm) hname)

/-- A way through the graph is a chain of functions. -/
theorem reflTransGen_edge_iff (hf : Owns units f) {b : String × String} :
    ReflTransGen (graph (ofUnits units)).Edge f.key b ↔
      ∃ g, g.key = b ∧ Owns units g ∧ ReflTransGen (TakesFrom units) f g := by
  constructor
  · intro h
    induction h with
    | refl => exact ⟨f, rfl, hf, .refl⟩
    | tail _ hedge ih =>
        obtain ⟨g, hkey, hg, hchain⟩ := ih
        obtain ⟨g', h', hkey', rfl, hstep⟩ := edge_iff.1 hedge
        obtain rfl := hg.unique hstep.owns (hkey.trans hkey'.symm)
        exact ⟨h', rfl, hstep.callee, hchain.tail hstep⟩
  · rintro ⟨g, rfl, -, hchain⟩
    exact hchain.lift key fun _ _ hstep => edge_iff.2 ⟨_, _, rfl, rfl, hstep⟩

theorem transGen_edge_iff (hf : Owns units f) (hg : Owns units g) :
    TransGen (graph (ofUnits units)).Edge f.key g.key ↔ TransGen (TakesFrom units) f g := by
  constructor
  · intro h
    obtain ⟨b, hedge, hrest⟩ := TransGen.head'_iff.1 h
    obtain ⟨f', h', hkey, rfl, hstep⟩ := edge_iff.1 hedge
    obtain rfl := hf.unique hstep.owns hkey.symm
    obtain ⟨g', hkey', hg', hchain⟩ := (reflTransGen_edge_iff hstep.callee).1 hrest
    obtain rfl := hg.unique hg' hkey'.symm
    exact .head' hstep hchain
  · exact fun h => h.lift key fun _ _ hstep => edge_iff.2 ⟨_, _, rfl, rfl, hstep⟩

/-! ### Circles -/

/-- A chain never ends exactly if it runs into a circle. -/
theorem trapped_iff (hf : Owns units f) :
    (graph (ofUnits units)).Trapped f.key ↔ Endless units f := by
  constructor
  · intro h
    have hnext (a : {f : Untyped // (graph (ofUnits units)).Trapped f.key ∧ Owns units f}) :
        ∃ b : {f : Untyped // (graph (ofUnits units)).Trapped f.key ∧ Owns units f},
          TakesFrom units a.1 b.1 := by
      obtain ⟨m, hedge, htrapped⟩ := a.2.1.next
      obtain ⟨a', b, hkey, rfl, hstep⟩ := edge_iff.1 hedge
      obtain heq := a.2.2.unique hstep.owns hkey.symm
      exact ⟨⟨b, htrapped, hstep.callee⟩, heq ▸ hstep⟩
    choose next hnext using hnext
    refine ⟨fun n => (next^[n] ⟨f, h, hf⟩).1, rfl, fun n => ?_⟩
    simp only [Function.iterate_succ_apply']
    exact hnext _
  · rintro ⟨path, rfl, hpath⟩
    have hchain (i k : ℕ) : ReflTransGen (TakesFrom units) (path i) (path (i + k)) := by
      induction k with
      | zero => exact .refl
      | succ k ih => exact ih.tail (hpath (i + k))
    -- There are not as many functions as there are steps, so one of them is passed twice.
    have hmem (n : ℕ) : path n ∈ {g | g ∈ ofUnits units} := mem_ofUnits_iff.2 (hpath n).owns
    obtain ⟨i, j, hlt, heq⟩ :=
      Set.Finite.exists_lt_map_eq_of_forall_mem hmem (List.finite_toSet _)
    have hback : ReflTransGen (TakesFrom units) (path (i + 1)) (path i) := by
      rw [heq, ← Nat.add_sub_cancel' hlt]
      exact hchain (i + 1) (j - (i + 1))
    have hedges : ∀ f g, TakesFrom units f g → (graph (ofUnits units)).Edge f.key g.key :=
      fun f g hstep => edge_iff.2 ⟨f, g, rfl, rfl, hstep⟩
    have hreached : ReflTransGen (TakesFrom units) (path 0) (path i) := by simpa using hchain 0 i
    have hcircle : TransGen (TakesFrom units) (path i) (path i) := .head' (hpath i) hback
    exact ⟨(path i).key, hreached.lift key hedges, hcircle.lift key hedges⟩

/-- A function that takes its type from itself, be it by way of others, has a chain that never
ends. -/
theorem endless_of_circular (h : TransGen (TakesFrom units) f f) : Endless units f := by
  obtain ⟨next, hstep, -⟩ := TransGen.head'_iff.1 h
  exact (trapped_iff hstep.owns).1 ⟨f.key, .refl, (transGen_edge_iff hstep.owns hstep.owns).2 h⟩

/-- What lies behind a function on a circle is on the circle. -/
theorem mem_members_of_transGen {es : List ((String × String) × (String × String))}
    (hcycle : (graph (ofUnits units)).IsCycle es) (hf : f ∈ members (ofUnits units) es)
    (h : TransGen (TakesFrom units) f g) : g ∈ members (ofUnits units) es := by
  have hstep : ∀ {a b : Untyped}, a ∈ members (ofUnits units) es → TakesFrom units a b →
      b ∈ members (ofUnits units) es := by
    intro a b ha hstep
    rw [mem_members_iff (nodup_map_key_ofUnits units)] at ha ⊢
    obtain ⟨-, e, he, hkey⟩ := ha
    obtain ⟨n, hroute⟩ := hcycle.2
    -- The edge of the circle that starts here is the only one that does.
    obtain ⟨a', b', hkey', hb, hstep'⟩ := edge_iff.1 (hroute.between he).2.1
    obtain rfl := hstep.owns.unique hstep'.owns (hkey.symm.trans hkey'.symm)
    obtain rfl := rightUnique_takesFrom units hstep hstep'
    obtain ⟨e', he', heq⟩ := hcycle.next he
    exact ⟨mem_ofUnits_iff.2 hstep.callee, e', he', heq.trans hb.symm⟩
  induction h with
  | single h => exact hstep hf h
  | tail _ h ih => exact hstep ih h

/-! ### The function that is named -/

/-- Where a function stands: the text of its location, then the line and the column of its
keyword. -/
def place (f : Untyped) : String ×ₗ ℕ ×ₗ ℕ :=
  toLex (f.unit.location.text, toLex (f.decl.keyword.pos.line, f.decl.keyword.pos.column))

theorem before_iff : f.before g = true ↔ f.place < g.place := by
  simp [before, place, Prod.Lex.toLex_lt_toLex]

/-- The first of several functions is one of them, and none of them comes before it. -/
theorem place_le_of_first? {fs : List Untyped} (h : first? fs = some f) :
    ∀ g ∈ fs, f.place ≤ g.place := by
  cases fs with
  | nil => simp
  | cons a fs =>
      obtain rfl := Option.some.inj h
      have fold (least : Untyped) :
          ∀ g ∈ least :: fs, (fs.foldl (fun least g => if g.before least then g else least)
            least).place ≤ g.place := by
        clear h
        induction fs generalizing least with
        | nil => simp
        | cons b fs ih =>
            have hnext := ih (if b.before least then b else least)
            have hmin : (if b.before least then b else least).place ≤ least.place ∧
                (if b.before least then b else least).place ≤ b.place := by
              split
              · next hbefore => exact ⟨(before_iff.1 hbefore).le, le_rfl⟩
              · next hbefore => exact ⟨le_rfl, not_lt.1 (mt before_iff.2 hbefore)⟩
            rw [List.forall_mem_cons] at hnext
            rw [List.forall_mem_cons, List.forall_mem_cons]
            exact ⟨hnext.1.trans hmin.1, hnext.1.trans hmin.2, hnext.2⟩
      exact fold a

/-- The chain from the function never ends, and no function that stands before it in the units has
such a chain. -/
structure FirstEndless (units : List SourceUnit) (start : Untyped) : Prop where
  endless : Endless units start
  first : ∃ i j, start.Stands units i j ∧ ∀ (f : Untyped) (i' j' : ℕ), f.Stands units i' j' →
    Endless units f → (toLex (i, j) : Rank) ≤ toLex (i', j')

/-- The function that is named for a circle: the first chain that never ends leads to its circle,
and of the functions on the circle it stands first. -/
structure Culprit (units : List SourceUnit) (f : Untyped) : Prop where
  reached : ∃ start, FirstEndless units start ∧ ReflTransGen (TakesFrom units) start f
  circular : TransGen (TakesFrom units) f f
  least : ∀ g, TransGen (TakesFrom units) f g → f.place ≤ g.place

/-- If no function that is kept in front of another one has a chain that never ends, none that stands
before it has. -/
theorem firstEndless_of_kept {before after : List Untyped} {start : Untyped}
    (hkept : ofUnits units = before ++ start :: after) (hendless : Endless units start)
    (hbefore : ∀ f ∈ before, ¬ Endless units f) : FirstEndless units start := by
  obtain ⟨i, j, hstands, hleast⟩ := hendless.owns
  obtain ⟨front, back, hall, hfront⟩ := exists_split_of_stands hstands
  refine ⟨hendless, i, j, hstands, fun f i' j' hf hf' => not_lt.1 fun hlt => ?_⟩
  have hnew : ∀ g ∈ front, (!start.same g) = true := by
    intro g hg
    obtain ⟨i', j', hg, hlt⟩ := (hfront g).1 hg
    rw [Bool.not_eq_true', Bool.eq_false_iff, ne_eq, same_iff]
    exact fun hkey => absurd (hleast g i' j' hg hkey.symm) (not_le.2 hlt)
  exact hbefore f (mem_of_mem_front hall hnew hkept ((hfront f).2 ⟨i', j', hf, hlt⟩) hf'.owns) hf'

/-- Of the circle that a depth-first search finds, the first function is the one to be named. -/
theorem culprit_of_search {search : Graph.Search (String × String)} (hsearch : search.DepthFirst)
    {es : List ((String × String) × (String × String))}
    (hes : search (graph (ofUnits units)) = some es)
    (hfirst : first? (members (ofUnits units) es) = some f) : Culprit units f := by
  have hcycle := hsearch.cycle _ es hes
  have hf := mem_of_first? hfirst
  obtain ⟨hmem, e, he, hkey⟩ := mem_of_mem_members hf
  have howns := mem_ofUnits_iff.1 hmem
  have hcircle := hkey ▸ hcycle.transGen he
  obtain ⟨front, key', back, hnodes, hreached, hfront⟩ := hsearch.first _ es hes
  obtain ⟨before, rest, hkept, rfl, hrest⟩ := List.map_eq_append_iff.1 hnodes
  obtain ⟨start, after, rfl, rfl, -⟩ := List.map_eq_cons_iff.1 hrest
  have hstart : Owns units start := mem_ofUnits_iff.1 (hkept ▸ by simp)
  have hreached := hkey ▸ hreached e he
  obtain ⟨f', hkey', hf', hchain⟩ := (reflTransGen_edge_iff hstart).1 hreached
  obtain rfl := howns.unique hf' hkey'.symm
  refine ⟨⟨start, firstEndless_of_kept hkept ?endless ?before, hchain⟩,
    (transGen_edge_iff howns howns).1 hcircle, fun g hg => ?least⟩
  case endless => exact (trapped_iff hstart).1 ⟨f.key, hreached, hcircle⟩
  case before =>
    intro g hg hendless
    exact hfront g.key (List.mem_map_of_mem hg) ((trapped_iff hendless.owns).2 hendless)
  case least => exact place_le_of_first? hfirst g (mem_members_of_transGen hcycle hf hg)

/-! ### No choice -/

/-- There is one first function with a chain that never ends. -/
theorem FirstEndless.unique {start start' : Untyped} (h : FirstEndless units start)
    (h' : FirstEndless units start') : start = start' := by
  obtain ⟨hendless, i, j, hstands, hfirst⟩ := h
  obtain ⟨hendless', i', j', hstands', hfirst'⟩ := h'
  have heq := le_antisymm (hfirst _ _ _ hstands' hendless') (hfirst' _ _ _ hstands hendless)
  obtain ⟨rfl, rfl⟩ := Prod.mk.inj (toLex_inj.1 heq)
  exact hstands.unique hstands'

/-- What a circle leads to leads back. -/
theorem reflTransGen_back (hcircular : TransGen (TakesFrom units) f f)
    (h : ReflTransGen (TakesFrom units) f g) : ReflTransGen (TakesFrom units) g f := by
  induction h with
  | refl => exact .refl
  | tail _ hstep ih =>
      obtain ⟨next, hnext, hback⟩ := TransGen.head'_iff.1 (hcircular.trans_right ih)
      exact rightUnique_takesFrom units hstep hnext ▸ hback

/-- No two sources of one location have functions on the same circle. -/
def Apart (units : List SourceUnit) : Prop :=
  ∀ f g, TransGen (TakesFrom units) f g → TransGen (TakesFrom units) g f →
    f.unit.location.text = g.unit.location.text → f.unit = g.unit

/-- In a unit that has been read from a source, each function has a place of its own. -/
theorem eq_of_place_eq (hread : ∀ u ∈ units, ∃ s, u = (SourceUnit.read s).1)
    (hf : f.From units) (hg : g.From units) (hunit : f.unit = g.unit) (hplace : f.place = g.place) :
    f = g := by
  obtain ⟨s, hs⟩ := hread _ hf.1
  have horder : f.unit.tree.InSourceOrder (TokenList.ofText s.content).tokens := by
    rw [hs]
    exact Tree.inSourceOrder_parse s.content
  obtain ⟨-, hkeyword⟩ := Prod.mk.inj (toLex_inj.1 hplace)
  have hitem := List.inj_on_of_nodup_map horder.nodup_keywords (horder.mem_items hf.2)
    (horder.mem_items (hunit ▸ hg.2)) (toLex_inj.1 hkeyword)
  have hdecl : f.decl = g.decl := Declaration.function.inj (Sum.inr.inj hitem)
  cases f
  cases g
  exact congrArg₂ mk hunit hdecl

theorem Culprit.from (h : Culprit units f) : f.From units :=
  from_of_mem_ofUnits (mem_ofUnits_iff.2 (endless_of_circular h.circular).owns)

/-- If no two sources of one location lie on a circle, one function is named and no other one. -/
theorem Culprit.unique (hread : ∀ u ∈ units, ∃ s, u = (SourceUnit.read s).1) (hapart : Apart units)
    (hf : Culprit units f) (hg : Culprit units g) : f = g := by
  obtain ⟨start, hstart, hreached⟩ := hf.reached
  obtain ⟨start', hstart', hreached'⟩ := hg.reached
  obtain rfl := hstart.unique hstart'
  have hmeet : TransGen (TakesFrom units) f g ∧ TransGen (TakesFrom units) g f := by
    rcases ReflTransGen.total_of_right_unique (rightUnique_takesFrom units) hreached hreached'
      with hchain | hchain
    · exact ⟨hf.circular.trans_left hchain,
        hg.circular.trans_left (reflTransGen_back hf.circular hchain)⟩
    · exact ⟨hf.circular.trans_left (reflTransGen_back hg.circular hchain),
        hg.circular.trans_left hchain⟩
  have hplace : f.place = g.place := le_antisymm (hf.least g hmeet.1) (hg.least f hmeet.2)
  have hunit := hapart f g hmeet.1 hmeet.2 (Prod.mk.inj (toLex_inj.1 hplace)).1
  exact eq_of_place_eq hread hf.from hg.from hunit hplace

end Untyped

/-- **Circles are found exactly.** With any depth-first search, the compiler reports a circle exactly
if some function takes its type from itself, be it by way of others. The function that it names is on
a circle: on the one that the first chain that never ends leads to, and of the functions on that circle
it stands first. If no two sources of one location lie on a circle, no other function is like that. -/
theorem findCircular_exact {search : Graph.Search (String × String)} (hsearch : search.DepthFirst)
    (units : List SourceUnit) :
    ((findCircular search units).isSome = true ↔
      ∃ f, Relation.TransGen (Untyped.TakesFrom units) f f) ∧
    (∀ m, findCircular search units = some m → ∃ f, Untyped.Culprit units f ∧ m = f.report) ∧
    ((∀ u ∈ units, ∃ s, u = (SourceUnit.read s).1) → Untyped.Apart units →
      ∀ f g, Untyped.Culprit units f → Untyped.Culprit units g → f = g) := by
  have hnamed (m : Message) (hm : findCircular search units = some m) :
      ∃ f, Untyped.Culprit units f ∧ m = f.report := by
    obtain ⟨es, f, hes, hfirst, rfl⟩ := findCircular_eq_some_iff.1 hm
    exact ⟨f, Untyped.culprit_of_search hsearch hes hfirst, rfl⟩
  refine ⟨⟨fun hsome => ?_, fun ⟨f, hcircular⟩ => ?_⟩, hnamed,
    fun hread hapart f g => Untyped.Culprit.unique hread hapart⟩
  · obtain ⟨m, hm⟩ := Option.isSome_iff_exists.1 hsome
    obtain ⟨f, hf, -⟩ := hnamed m hm
    exact ⟨f, hf.circular⟩
  · rw [Option.isSome_iff_ne_none]
    intro hnone
    have howns := (Untyped.endless_of_circular hcircular).owns
    exact (findCircular_eq_none_iff hsearch).1 hnone f.key
      ((Untyped.transGen_edge_iff howns howns).2 hcircular)

/-- Three functions: the first one takes its type from the circle of the other two. -/
def circling : Source :=
  ⟨"file:///a.npl", ⟨.single, ["a.npl"]⟩,
    "package p\nfunction a() -> b();\nfunction c() -> b();\nfunction b() -> c();", false⟩

/-- Named is the first function on the circle, and not the one that leads there. No other function can
be. -/
theorem findCircular_exact_circling :
    (Graph.findCycle? : Graph.Search (String × String)).DepthFirst ∧
    (∀ u ∈ [(SourceUnit.read circling).1], ∃ s, u = (SourceUnit.read s).1) ∧
    Untyped.Apart [(SourceUnit.read circling).1] ∧
    (∃ f, Relation.TransGen (Untyped.TakesFrom [(SourceUnit.read circling).1]) f f) ∧
    ∃ f, Untyped.Culprit [(SourceUnit.read circling).1] f ∧ f.report.line = 3 ∧
      ∀ g, Untyped.Culprit [(SourceUnit.read circling).1] g → g = f := by
  have hread : ∀ u ∈ [(SourceUnit.read circling).1], ∃ s, u = (SourceUnit.read s).1 :=
    fun u hu => ⟨circling, List.mem_singleton.1 hu⟩
  have hapart : Untyped.Apart [(SourceUnit.read circling).1] := by
    intro f g hfg hgf _
    have hunit : ∀ {f : Untyped}, Untyped.Owns [(SourceUnit.read circling).1] f →
        f.unit = (SourceUnit.read circling).1 := fun howns =>
      List.mem_singleton.1 (Untyped.from_of_mem_ofUnits (Untyped.mem_ofUnits_iff.2 howns)).1
    obtain ⟨_, hstep, -⟩ := Relation.TransGen.head'_iff.1 hfg
    obtain ⟨_, hstep', -⟩ := Relation.TransGen.head'_iff.1 hgf
    exact (hunit hstep.owns).trans (hunit hstep'.owns).symm
  obtain ⟨hsome, hnamed, honly⟩ :=
    findCircular_exact Graph.depthFirst_findCycle? [(SourceUnit.read circling).1]
  have hline : (findCircular Graph.findCycle? [(SourceUnit.read circling).1]).map Message.line =
      some 3 := by decide +kernel
  obtain ⟨m, hm, hthree⟩ := Option.map_eq_some_iff.1 hline
  obtain ⟨f, hf, rfl⟩ := hnamed m hm
  exact ⟨Graph.depthFirst_findCycle?, hread, hapart, hsome.1 (by rw [hm]; rfl), f, hf, hthree,
    fun g hg => honly hread hapart g f hg hf⟩

end Npl
