import Mathlib.Data.List.Perm.Subperm
import Mathlib.Logic.Relation
import Npl.Program.Graph

/-!
# Cycles in graphs

A depth-first search from a node comes to an end without a cycle only if no cycle can be reached from
there. So the cycle that is found in a graph is one that can be reached from the first node from which
any can be.

## Main definitions

* `Graph.Route` — edges that lead from one node to another one.
* `Graph.IsCycle` — edges that lead from a node back to it.
* `Graph.Trapped` — a cycle can be reached from a node.
* `Graph.Search.DepthFirst` — what a depth-first search finds.

## Main results

* `Graph.depthFirst_findCycle?` — the search finds that.
-/

namespace Npl.Graph

open Relation (ReflTransGen TransGen)

variable {ν : Type} {g : Graph ν} {a b c n : ν} {es : List (ν × ν)}

/-! ### Cycles -/

/-- There is an edge from the one node to the other one. -/
def Edge (g : Graph ν) (a b : ν) : Prop :=
  (a, b) ∈ g.edges

/-- The edges lead from the first node to the second one. -/
inductive Route (g : Graph ν) : ν → List (ν × ν) → ν → Prop
  | nil (n : ν) : Route g n [] n
  | cons {a b c : ν} {es : List (ν × ν)} (hedge : g.Edge a b) (hroute : Route g b es c) :
      Route g a ((a, b) :: es) c

/-- The edges lead from a node back to it. -/
def IsCycle (g : Graph ν) (es : List (ν × ν)) : Prop :=
  es ≠ [] ∧ ∃ n, g.Route n es n

/-- A cycle can be reached from the node. -/
def Trapped (g : Graph ν) (n : ν) : Prop :=
  ∃ m, ReflTransGen g.Edge n m ∧ TransGen g.Edge m m

/-- What a depth-first search finds, which takes the nodes of a graph in the order in which they were
added: nothing if there is no cycle, and else the edges of one that can be reached from the first
node from which any can be. -/
structure Search.DepthFirst (search : Search ν) : Prop where
  acyclic : ∀ g, search g = none → ∀ n, ¬ TransGen g.Edge n n
  cycle : ∀ g es, search g = some es → g.IsCycle es
  first : ∀ g es, search g = some es → ∃ front start back, g.nodes = front ++ start :: back ∧
    (∀ e ∈ es, ReflTransGen g.Edge start e.1) ∧ ∀ n ∈ front, ¬ g.Trapped n

namespace Route

/-- Two routes, one behind the other. -/
theorem append {es' : List (ν × ν)} (h : g.Route a es b) (h' : g.Route b es' c) :
    g.Route a (es ++ es') c := by
  induction h with
  | nil => exact h'
  | cons hedge _ ih => exact .cons hedge (ih h')

theorem reflTransGen (h : g.Route a es c) : ReflTransGen g.Edge a c := by
  induction h with
  | nil => exact .refl
  | cons hedge _ ih => exact .head hedge ih

/-- The edges of a route are reached from where it starts, and lead on to where it ends. -/
theorem between (h : g.Route a es c) {e : ν × ν} (he : e ∈ es) :
    ReflTransGen g.Edge a e.1 ∧ g.Edge e.1 e.2 ∧ ReflTransGen g.Edge e.2 c := by
  induction h with
  | nil => simp at he
  | cons hedge hroute ih =>
      rcases List.mem_cons.1 he with rfl | he
      · exact ⟨.refl, hedge, hroute.reflTransGen⟩
      · obtain ⟨hreached, hedge', hleads⟩ := ih he
        exact ⟨.head hedge hreached, hedge', hleads⟩

/-- Behind each edge of a route there is another one, or the route ends. -/
theorem next (h : g.Route a es c) :
    (es ≠ [] → ∃ e ∈ es, e.1 = a) ∧ ∀ e ∈ es, e.2 = c ∨ ∃ e' ∈ es, e'.1 = e.2 := by
  induction h with
  | nil => simp
  | @cons a b c es _ hroute ih =>
      refine ⟨fun _ => ⟨(a, b), List.mem_cons_self, rfl⟩, fun e he => ?_⟩
      rcases List.mem_cons.1 he with rfl | he
      · by_cases hnil : es = []
        · subst hnil
          cases hroute
          exact .inl rfl
        · obtain ⟨e', he', heq⟩ := ih.1 hnil
          exact .inr ⟨e', List.mem_cons_of_mem _ he', heq⟩
      · rcases ih.2 e he with heq | ⟨e', he', heq⟩
        · exact .inl heq
        · exact .inr ⟨e', List.mem_cons_of_mem _ he', heq⟩

/-- A route that passes a node goes on from there to where it ends. -/
theorem dropWhile [DecidableEq ν] (h : g.Route a es c) (hpasses : ∃ e ∈ es, e.1 = n) :
    es.dropWhile (·.1 ≠ n) ≠ [] ∧ g.Route n (es.dropWhile (·.1 ≠ n)) c := by
  induction h with
  | nil => simp at hpasses
  | @cons a b c es hedge hroute ih =>
      by_cases heq : a = n
      · subst heq
        rw [List.dropWhile_cons_of_neg (by simp)]
        exact ⟨List.cons_ne_nil _ _, .cons hedge hroute⟩
      · rw [List.dropWhile_cons_of_pos (by simpa using heq)]
        refine ih ?_
        obtain ⟨e, he, hn⟩ := hpasses
        rcases List.mem_cons.1 he with rfl | he
        · exact absurd hn heq
        · exact ⟨e, he, hn⟩

end Route

/-- Each edge of a cycle lies on a way back to where it starts. -/
theorem IsCycle.transGen (h : g.IsCycle es) {e : ν × ν} (he : e ∈ es) :
    TransGen g.Edge e.1 e.1 := by
  obtain ⟨-, n, hroute⟩ := h
  obtain ⟨hreached, hedge, hleads⟩ := hroute.between he
  exact .head' hedge (hleads.trans hreached)

/-- Behind each edge of a cycle there is another one. -/
theorem IsCycle.next (h : g.IsCycle es) {e : ν × ν} (he : e ∈ es) : ∃ e' ∈ es, e'.1 = e.2 := by
  obtain ⟨hne, n, hroute⟩ := h
  rcases hroute.next.2 e he with heq | hnext
  · rw [heq]
    exact hroute.next.1 hne
  · exact hnext

/-- A node from which a cycle can be reached has an edge to another such node. -/
theorem Trapped.next (h : g.Trapped n) : ∃ m, g.Edge n m ∧ g.Trapped m := by
  obtain ⟨m, hreached, hcycle⟩ := h
  rcases ReflTransGen.cases_head hreached with rfl | ⟨k, hedge, hreached⟩
  · obtain ⟨k, hedge, hback⟩ := TransGen.head'_iff.1 hcycle
    exact ⟨k, hedge, n, hback, hcycle⟩
  · exact ⟨k, hedge, m, hreached, hcycle⟩

/-! ### The search -/

variable [DecidableEq ν] {depth : ℕ} {way : List (ν × ν)}

theorem mem_edgesFrom_iff {e : ν × ν} : e ∈ g.edgesFrom n ↔ g.Edge e.1 e.2 ∧ e.1 = n := by
  simp [edgesFrom, Edge]

/-- What is found is a cycle, and it can be reached from where the search started. -/
theorem isCycle_of_searchFrom (hway : g.Route a way n) (h : g.searchFrom depth way n = some es) :
    g.IsCycle es ∧ ∀ e ∈ es, ReflTransGen g.Edge a e.1 := by
  induction depth generalizing way n with
  | zero => simp [searchFrom] at h
  | succ depth ih =>
      obtain ⟨e, he, hfound⟩ := List.exists_of_findSome?_eq_some h
      obtain ⟨hedge, rfl⟩ := mem_edgesFrom_iff.1 he
      have hlonger : g.Route a (way ++ [e]) e.2 := hway.append (.cons hedge (.nil e.2))
      simp only at hfound
      split at hfound
      · next hmet =>
          obtain rfl := Option.some.inj hfound
          obtain ⟨hne, hback⟩ := hlonger.dropWhile (by simpa using hmet)
          exact ⟨⟨hne, e.2, hback⟩,
            fun e' he' => (hlonger.between ((List.dropWhile_sublist _).mem he')).1⟩
      · exact ih hlonger hfound

/-- If nothing is found, no cycle can be reached from where the search goes on. No node is passed
twice on the way, so the depth suffices. -/
theorem not_trapped_of_searchFrom (hdepth : g.nodes.length ≤ depth + way.length)
    (hnodup : (way.map Prod.fst ++ [n]).Nodup) (hnodes : way.map Prod.fst ++ [n] ⊆ g.nodes)
    (h : g.searchFrom depth way n = none) : ¬ g.Trapped n := by
  induction depth generalizing way n with
  | zero =>
      have hshort := (List.subperm_of_subset hnodup hnodes).length_le
      simp only [List.length_append, List.length_map, List.length_singleton] at hshort
      omega
  | succ depth ih =>
      intro htrapped
      obtain ⟨m, hedge, hm⟩ := htrapped.next
      have hnone := List.findSome?_eq_none_iff.1 h (n, m) (mem_edgesFrom_iff.2 ⟨hedge, rfl⟩)
      simp only at hnone
      split at hnone
      · simp at hnone
      next hnew =>
      have hnew : m ∉ (way ++ [(n, m)]).map Prod.fst := by
        intro hmet
        obtain ⟨e, he, heq⟩ := List.mem_map.1 hmet
        exact hnew (List.any_eq_true.2 ⟨e, he, decide_eq_true heq⟩)
      refine ih ?_ ?_ ?_ hnone hm
      · simp only [List.length_append, List.length_singleton]
        omega
      · rw [List.nodup_append]
        refine ⟨by simpa using hnodup, by simp, ?_⟩
        rintro a ha b hb rfl
        obtain rfl := List.mem_singleton.1 hb
        exact hnew ha
      · refine List.append_subset.2 ⟨by simpa using hnodes, ?_⟩
        exact List.cons_subset.2 ⟨(g.ends _ hedge).2, List.nil_subset _⟩

/-- **The search is depth-first.** -/
theorem depthFirst_findCycle? : (findCycle? : Search ν).DepthFirst where
  acyclic := by
    intro g h n hcycle
    obtain ⟨m, hedge, -⟩ := TransGen.head'_iff.1 hcycle
    have hmem := (g.ends _ hedge).1
    have hnone := List.findSome?_eq_none_iff.1 h n hmem
    exact not_trapped_of_searchFrom (by simp) (by simp) (by simpa using hmem) hnone
      ⟨n, .refl, hcycle⟩
  cycle := by
    intro g es h
    obtain ⟨n, -, hfound⟩ := List.exists_of_findSome?_eq_some h
    exact (isCycle_of_searchFrom (.nil n) hfound).1
  first := by
    intro g es h
    obtain ⟨front, start, back, hnodes, hfound, hfront⟩ := List.findSome?_eq_some_iff.1 h
    refine ⟨front, start, back, hnodes, (isCycle_of_searchFrom (.nil start) hfound).2, ?_⟩
    intro n hn
    have hmem : n ∈ g.nodes := hnodes ▸ List.mem_append_left _ hn
    exact not_trapped_of_searchFrom (by simp) (by simp) (by simpa using hmem) (hfront n hn)

end Npl.Graph
