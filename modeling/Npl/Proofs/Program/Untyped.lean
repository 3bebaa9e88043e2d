import Mathlib.Data.List.Induction
import Mathlib.Data.List.Nodup
import Npl.Proofs.Program.Graph
import Npl.Program.Inference

/-!
# Functions without a type of their own

Of several functions with the same package and the same name, the compiler keeps the one that comes
first in the units. The functions that are kept are the nodes of a graph, under their packages and
names.

## Main definitions

* `Untyped.firsts` — the functions that come first with their package and name.

## Main results

* `Untyped.mem_firsts_iff` — kept are the functions that come first.
* `Untyped.nodup_map_key_firsts` — no package and name is kept twice.
* `Untyped.edge_graph_iff`, `Untyped.mem_members_iff` — the edges of the graph, and the functions that
  edges start from.
* `findCircular_eq_some_iff` — which message there is.
-/

namespace Npl

namespace Untyped

variable {f g : Untyped}

theorem same_iff : f.same g = true ↔ f.key = g.key := by
  simp [same, key]

theorem same_congr (h : f.key = g.key) : f.same = g.same := by
  funext a
  rw [Bool.eq_iff_iff, same_iff, same_iff, h]

/-- The functions that come first with their package and name. -/
def firsts (fs : List Untyped) : List Untyped :=
  fs.foldl (fun kept f => if kept.any f.same then kept else kept ++ [f]) []

theorem firsts_concat (fs : List Untyped) (f : Untyped) :
    firsts (fs ++ [f]) = if (firsts fs).any f.same then firsts fs else firsts fs ++ [f] := by
  rw [firsts, List.foldl_append]
  rfl

/-- Each package and name that there is has a first function. -/
theorem any_firsts (fs : List Untyped) (f : Untyped) : (firsts fs).any f.same = fs.any f.same := by
  induction fs using List.reverseRecOn with
  | nil => rfl
  | append_singleton fs a ih =>
      rw [firsts_concat, List.any_append, ← ih]
      split
      · next hseen =>
          rw [List.any_cons, List.any_nil, Bool.or_false]
          cases hsame : f.same a with
          | false => rw [Bool.or_false]
          | true => rw [same_congr (same_iff.1 hsame), hseen, Bool.or_true]
      · rw [List.any_append]

/-- Kept are the functions that come first with their package and name. -/
theorem mem_firsts_iff {fs : List Untyped} : f ∈ firsts fs ↔ fs.find? f.same = some f := by
  induction fs using List.reverseRecOn with
  | nil => simp [firsts]
  | append_singleton fs a ih =>
      rw [firsts_concat, any_firsts, List.find?_append]
      have hlast : [a].find? f.same = some f ↔ f = a := by
        rw [List.find?_singleton, Option.ite_none_right_eq_some, Option.some.injEq]
        exact ⟨fun h => h.2.symm, fun h => ⟨same_iff.2 (congrArg key h), h.symm⟩⟩
      have hnone (h : fs.find? f.same = none) : f = a → ¬ fs.any a.same = true := by
        rintro rfl
        simpa using h
      split
      · next hseen =>
          rw [ih]
          cases hfound : fs.find? f.same with
          | some b => rfl
          | none =>
              rw [Option.none_or, hlast]
              exact ⟨nofun, fun heq => absurd hseen (hnone hfound heq)⟩
      · next hnew =>
          rw [List.mem_append, List.mem_singleton, ih]
          cases hfound : fs.find? f.same with
          | some b =>
              rw [Option.some_or, or_iff_left]
              rintro rfl
              exact hnew (List.any_eq_true.2 ⟨b, List.mem_of_find?_eq_some hfound,
                List.find?_some hfound⟩)
          | none =>
              rw [Option.none_or, hlast]
              exact ⟨fun h => h.resolve_left nofun, .inr⟩

/-- No package and name is kept twice. -/
theorem nodup_map_key_firsts (fs : List Untyped) : ((firsts fs).map key).Nodup := by
  induction fs using List.reverseRecOn with
  | nil => simp [firsts]
  | append_singleton fs a ih =>
      rw [firsts_concat]
      split
      · exact ih
      · next hnew =>
          rw [List.map_append, List.nodup_append]
          refine ⟨ih, by simp, fun k hk k' hk' heq => hnew ?_⟩
          obtain ⟨g, hg, rfl⟩ := List.mem_map.1 hk
          obtain rfl : k' = a.key := by simpa using hk'
          exact List.any_eq_true.2 ⟨g, hg, same_iff.2 heq.symm⟩

/-- Later functions come behind the earlier ones. -/
theorem exists_firsts_append (fs gs : List Untyped) :
    ∃ later, firsts (fs ++ gs) = firsts fs ++ later := by
  induction gs using List.reverseRecOn with
  | nil => exact ⟨[], by simp⟩
  | append_singleton gs g ih =>
      obtain ⟨later, hlater⟩ := ih
      rw [← List.append_assoc, firsts_concat, hlater]
      split
      · exact ⟨later, rfl⟩
      · exact ⟨later ++ [g], List.append_assoc _ _ _⟩

/-- If no package and name comes twice, all functions are kept. -/
theorem firsts_eq_self {fs : List Untyped} (h : (fs.map key).Nodup) : firsts fs = fs := by
  induction fs using List.reverseRecOn with
  | nil => rfl
  | append_singleton fs a ih =>
      rw [List.map_append, List.nodup_append] at h
      obtain ⟨hfs, -, hnew⟩ := h
      rw [firsts_concat, any_firsts, ih hfs, if_neg]
      rw [List.any_eq_true]
      rintro ⟨g, hg, hsame⟩
      exact hnew g.key (List.mem_map_of_mem hg) a.key (by simp) (same_iff.1 hsame).symm

/-! ### The graph -/

variable {fs : List Untyped} {a b : String × String} {es : List ((String × String) × (String × String))}

/-- An edge leads from a function to the one that its body is nothing but a call of. -/
theorem edge_graph_iff : (graph fs).Edge a b ↔ ∃ f ∈ fs, f.key = a ∧ ∃ g ∈ fs, g.key = b ∧
    g.package = f.package ∧ Body.callee? f.decl.body = some g.name := by
  simp only [Graph.Edge, graph, List.mem_filterMap, edge?, Option.bind_eq_bind,
    Option.bind_eq_some_iff, Option.ite_none_right_eq_some, Option.some.injEq, Prod.mk.injEq]
  constructor
  · rintro ⟨f, hf, callee, hcallee, hmem, rfl, rfl⟩
    obtain ⟨g, hg, hkey⟩ := List.mem_map.1 hmem
    obtain ⟨hpackage, rfl⟩ := Prod.mk.inj hkey
    exact ⟨f, hf, rfl, g, hg, hkey, hpackage, hcallee⟩
  · rintro ⟨f, hf, rfl, g, hg, rfl, hpackage, hcallee⟩
    have hkey : g.key = (f.package, g.name) := Prod.ext hpackage rfl
    exact ⟨f, hf, g.name, hcallee, hkey ▸ List.mem_map_of_mem hg, rfl, hkey.symm⟩

theorem mem_of_mem_members (h : f ∈ members fs es) : f ∈ fs ∧ ∃ e ∈ es, e.1 = f.key := by
  obtain ⟨e, he, hfind⟩ := List.mem_filterMap.1 h
  have hkey : f.key = e.1 := by simpa using List.find?_some hfind
  exact ⟨List.mem_of_find?_eq_some hfind, e, he, hkey.symm⟩

/-- If no package and name comes twice, the functions are found under theirs. -/
theorem mem_members_iff (hkeys : (fs.map key).Nodup) :
    f ∈ members fs es ↔ f ∈ fs ∧ ∃ e ∈ es, e.1 = f.key := by
  refine ⟨mem_of_mem_members, fun ⟨hf, e, he, heq⟩ => List.mem_filterMap.2 ⟨e, he, ?_⟩⟩
  cases hfind : fs.find? (·.key = e.1) with
  | none => exact absurd (decide_eq_true heq.symm) (List.find?_eq_none.1 hfind f hf)
  | some g =>
      have hg : g.key = e.1 := by simpa using List.find?_some hfind
      rw [List.inj_on_of_nodup_map hkeys (List.mem_of_find?_eq_some hfind) hf (hg.trans heq)]

/-- A cycle in the graph has members. -/
theorem members_ne_nil (h : (graph fs).IsCycle es) : members fs es ≠ [] := by
  obtain ⟨e, he⟩ := List.exists_mem_of_ne_nil es h.1
  obtain ⟨n, hroute⟩ := h.2
  obtain ⟨f, hf, hkey⟩ := List.mem_map.1 ((graph fs).ends e (hroute.between he).2.1).1
  cases hfind : fs.find? (·.key = e.1) with
  | none => exact absurd (decide_eq_true hkey) (List.find?_eq_none.1 hfind f hf)
  | some g => exact List.ne_nil_of_mem (List.mem_filterMap.2 ⟨e, he, hfind⟩)

end Untyped

/-- There is a message if the search finds a cycle, about the first of the functions on it. -/
theorem findCircular_eq_some_iff {search : Graph.Search (String × String)}
    {units : List SourceUnit} {m : Message} : findCircular search units = some m ↔
      ∃ es f, search (Untyped.graph (Untyped.ofUnits units)) = some es ∧
        Untyped.first? (Untyped.members (Untyped.ofUnits units) es) = some f ∧ f.report = m := by
  simp only [findCircular, Option.bind_eq_some_iff, Option.map_eq_some_iff]
  exact exists_congr fun es => ⟨fun ⟨hsearch, f, hf⟩ => ⟨f, hsearch, hf⟩,
    fun ⟨f, hsearch, hf⟩ => ⟨hsearch, f, hf⟩⟩

end Npl
