import Mathlib.Data.List.Sort
import Mathlib.Data.String.Basic
import Beads.Store
import Beads.Lib.Sweeps

/-! The layout of a dependency graph (`cmd/bd/graph.go`). The maps that the source ranges over
are met in any order, and in another one by every pass. -/
namespace Beads
open Lib

/-- `types.Dependency`, with what a layout reads of it. -/
structure GraphDependency where
  issueID : String
  dependsOnID : String
  type : DependencyType
  deriving DecidableEq

/-- `TemplateSubgraph`, with the ids of its issues. -/
structure TemplateSubgraph where
  root : Option String := none
  issues : List String
  dependencies : List GraphDependency

/-- `GraphLayout`, with the layer and the position of every node. -/
structure GraphLayout where
  rootID : String
  layer : String → Int
  position : String → Nat
  layers : List (List String)
  maxLayer : Int

namespace TemplateSubgraph
variable (g : TemplateSubgraph)

/-- The keys of `layout.Nodes`. -/
def nodes : List String := g.issues.dedup

def dependsOn (id : String) : List String :=
  (g.dependencies.filter fun dep => dep.type = .blocks ∧ dep.issueID = id).map GraphDependency.dependsOnID

/-- The last parent that is recorded for a child. -/
def parentOf (id : String) : Option String :=
  (g.dependencies.filter fun dep => dep.type = .parentChild ∧ dep.issueID = id).getLast?.map
    GraphDependency.dependsOnID

/-- The keys of `parentOf`. -/
def children : List String :=
  ((g.dependencies.filter fun dep => dep.type = .parentChild).map GraphDependency.issueID).dedup

/-- One node of the loop that assigns layers, where -1 is none; `none` where nothing changes. -/
def assignLayer (id : String) (layer : String → Int) : Option (String → Int) :=
  let deps := g.dependsOn id
  if 0 ≤ layer id then none
  else if deps = [] then some (Function.update layer id 0)
  else if ∀ depID ∈ deps, depID ∈ g.nodes ∧ 0 ≤ layer depID then
    let maxDepLayer := deps.foldl (fun highest depID => max highest (layer depID)) (-1)
    some (Function.update layer id (maxDepLayer + 1))
  else none

/-- One child of the loop that lifts children to the layer of their parent. -/
def liftChild (childID : String) (layer : String → Int) : Option (String → Int) :=
  match g.parentOf childID with
  | none => none
  | some parentID =>
    if childID ∈ g.nodes ∧ parentID ∈ g.nodes ∧ layer childID < layer parentID then
      some (Function.update layer childID (layer parentID))
    else none

/-- `computeLayout`, for the orders in which the passes of its two loops meet the nodes and
the children. -/
def computeLayout (assigned : Sweeps.Orders g.nodes) (lifted : Sweeps.Orders g.children) :
    Call Empty GraphLayout := do
  let layer ← Sweeps.untilQuiet g.assignLayer assigned.order fun _ => -1
  -- Nodes that are left without a layer, because of a cycle.
  let layer := fun id => if layer id < 0 then 0 else layer id
  let layer ← Sweeps.untilQuiet g.liftChild lifted.order layer
  let maxLayer := g.nodes.foldl (fun highest id => max highest (layer id)) 0
  let layers := (List.range (maxLayer.toNat + 1)).map fun index =>
    (g.nodes.filter fun id => layer id = (index : Int)).insertionSort (· ≤ ·)
  return {
    rootID := g.root.getD ""
    layer := layer
    position := fun id => (layers.getD (layer id).toNat []).idxOf id
    layers := layers
    maxLayer := maxLayer }

end TemplateSubgraph
end Beads
