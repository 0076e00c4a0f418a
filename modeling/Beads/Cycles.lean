import Mathlib.Data.List.Destutter
import Mathlib.Data.List.Lex
import Mathlib.Data.List.Sort
import Mathlib.Data.String.Basic
import Beads.Lib.Breadth
import Beads.Lib.DepthFirst
import Beads.Store

/-! `cycles.go` and `cycle_report.go`: cycles of the dependency graph. A graph is a
map from ids to lists of ids, as the two tables are read into it; an id that is not
a key has no neighbors. -/
namespace Beads
open Lib

/-- `map[string][]string`. The order of the rows is the order in which the map happens
to be gone through. -/
abbrev AdjacencyMap := Table (Prod.fst : String × List String → String)

namespace AdjacencyMap
variable (graph : AdjacencyMap)

/-- `graph[node]`. -/
def neighbors (node : String) : List String := ((graph.find? node).map Prod.snd).getD []

/-- One step of the graph. -/
def Edge (a b : String) : Prop := b ∈ graph.neighbors a

instance (a b : String) : Decidable (graph.Edge a b) :=
  inferInstanceAs (Decidable (b ∈ graph.neighbors a))

/-- No id of the graph is empty. -/
def Named : Prop := ∀ row ∈ graph, row.1 ≠ "" ∧ "" ∉ row.2

instance : Decidable graph.Named :=
  inferInstanceAs (Decidable (∀ row ∈ graph, row.1 ≠ "" ∧ "" ∉ row.2))

/-- `appendDependencyGraphInTx`, from the pairs of the rows that it takes. -/
def ofEdges (edges : List (String × String)) : AdjacencyMap where
  rows := (edges.map Prod.fst).dedup.map fun id => (id, (edges.filter fun e => e.1 = id).map Prod.snd)
  distinct := by simpa [Function.comp_def] using List.nodup_dedup (edges.map Prod.fst)

end AdjacencyMap

/-! ## A cycle through given edges -/

/-- `reachPath`; the empty text stands for no node. -/
def reachPath (graph : AdjacencyMap) (start goal : String) : Tx (Option (List String)) :=
  Breadth.reachPath graph.neighbors "" start goal

/-- The ids that `CycleThroughEdgesInGraph` renders. -/
def findCycleThroughEdges (graph : AdjacencyMap) :
    List (String × String) → Tx (Option (List String))
  | [] => pure none
  | (source, target) :: rest =>
    if source = "" ∨ target = "" then findCycleThroughEdges graph rest
    else if source = target then pure (some [source, source])
    else do
      match ← reachPath graph target source with
      | none => findCycleThroughEdges graph rest
      | some path => return some (source :: path)

/-- `CycleThroughEdgesInGraph`. -/
def cycleThroughEdgesInGraph (graph : AdjacencyMap) (edges : List (String × String)) :
    Tx String := do
  match ← findCycleThroughEdges graph edges with
  | none => return ""
  | some ids => return " → ".intercalate ids

/-! ## The cycle report -/

/-- `slices.Compact`: of equal elements in a row the first is kept. -/
def compact (ids : List String) : List String := ids.destutter (· ≠ ·)

/-- `adjacency[node]`. -/
def AdjacencyMap.adjacency (graph : AdjacencyMap) (node : String) : List String :=
  compact ((graph.neighbors node).insertionSort (· ≤ ·))

/-- The keys of the graph in order. -/
def AdjacencyMap.roots (graph : AdjacencyMap) : List String :=
  (graph.rows.map Prod.fst).insertionSort (· ≤ ·)

/-- The index that the loop of `rotateToLowest` ends with. -/
def lowestIndex (path : List String) : Nat :=
  (List.range path.length).foldl (fun lowest i => if path.getD i "" < path.getD lowest "" then i else lowest) 0

/-- `rotateToLowest`. -/
def rotateToLowest (path : List String) : List String :=
  path.drop (lowestIndex path) ++ path.take (lowestIndex path)

/-- `CanonicalCyclePaths`. -/
def canonicalCyclePaths (graph : AdjacencyMap) : Tx (List (List String)) := do
  let cycles ← DepthFirst.enumerate graph.adjacency rotateToLowest graph.roots
  return cycles.insertionSort (· ≤ ·)

end Beads
