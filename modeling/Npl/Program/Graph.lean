/-!
# Graphs

A graph is built by adding nodes and edges one by one, and keeps both in that order. A search for a
cycle goes from the first node along the first edge as deep as it gets, back to where another edge
leads on, and at last to the next node. It ends with the first edge that leads back to where the
search came through.

## Main definitions

* `Graph` — nodes and edges between them.
* `Graph.Search` — what finds a cycle in a graph.
* `Graph.findCycle?` — the depth-first search.
-/

namespace Npl

/-- A directed graph. Nodes and edges are in the order in which they were added. -/
@[ext] structure Graph (ν : Type) where
  nodes : List ν
  edges : List (ν × ν)
  ends : ∀ e ∈ edges, e.1 ∈ nodes ∧ e.2 ∈ nodes

namespace Graph

/-- What finds the edges of a cycle in a graph, or tells that there is none. -/
abbrev Search (ν : Type) : Type := Graph ν → Option (List (ν × ν))

variable {ν : Type} [DecidableEq ν]

/-- The edges that start from a node. -/
def edgesFrom (g : Graph ν) (n : ν) : List (ν × ν) :=
  g.edges.filter (·.1 = n)

/-- Searches on from the node that the edges in `way` lead to, for as many steps as `depth` says. -/
def searchFrom (g : Graph ν) : Nat → List (ν × ν) → ν → Option (List (ν × ν))
  | 0, _, _ => none
  | depth + 1, way, n =>
    (g.edgesFrom n).findSome? fun e =>
      let way := way ++ [e]
      if way.any (·.1 = e.2) then some (way.dropWhile (·.1 ≠ e.2))
      else g.searchFrom depth way e.2

/-- The first cycle that a depth-first search from each of the nodes comes upon. No way is longer than
there are nodes. -/
def findCycle? : Search ν :=
  fun g => g.nodes.findSome? (g.searchFrom g.nodes.length [])

end Graph

end Npl
