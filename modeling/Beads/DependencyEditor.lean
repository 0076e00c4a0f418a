import Beads.Dependencies

/-! `dependency_editor.go` and `cycles.go`: asserting several edges in one
transaction. Parent-child edges go first, so that the whole planned hierarchy is
there before a blocking edge is checked against it. The check of each edge may be
skipped; the gate over the whole graph at the end is not. -/
namespace Beads
open Lib Lib.Graph

/-- `publicops.DependencyEdge`. -/
structure DependencyEdge where
  issueId : String
  dependsOnId : String
  type : DependencyType
  deriving DecidableEq

/-- `publicops.AddDependenciesRequest`. -/
structure AddDependenciesRequest where
  actor : String
  edges : List DependencyEdge
  skipPerEdgeCycleCheck : Bool := false

def maxDependencyTypeLen : Nat := 32

/-- `DependencyType.IsValid`. -/
def DependencyType.IsValid (type : DependencyType) : Prop :=
  0 < type.text.utf8ByteSize ∧ type.text.utf8ByteSize ≤ maxDependencyTypeLen

instance (type : DependencyType) : Decidable type.IsValid := inferInstanceAs (Decidable (_ ∧ _))

/-- The rules of `ValidateAddDependenciesRequest` for one edge. -/
def DependencyEdge.validate (edge : DependencyEdge) : Tx Unit := do
  if edge.issueId = "" ∨ edge.dependsOnId = "" then
    throw (.validation "add dependencies requires both endpoints")
  if ¬ edge.type.IsValid then throw (.validation "add dependencies requires a dependency type")
  if edge.issueId = edge.dependsOnId then throw (.selfDependency edge.issueId)

/-- `ValidateAddDependenciesRequest`. -/
def AddDependenciesRequest.validate (request : AddDependenciesRequest) : Tx Unit := do
  if request.actor = "" then throw (.validation "add dependencies requires an actor")
  if request.edges = [] then throw (.validation "add dependencies requires at least one edge")
  request.edges.foldlM (fun _ edge => edge.validate) ()

/-- The pairs of the scheduling edges of a request. -/
def schedulingPairs (edges : List DependencyEdge) : List (String × String) :=
  (edges.filter fun edge => edge.type.IsSchedulingEdge).map fun edge => (edge.issueId, edge.dependsOnId)

/-- `CycleThroughEdgesInGraph` finds a cycle through one of the pairs; the cycle
it renders is only part of a message. -/
def CycleThroughEdges (graph pairs : List (String × String)) : Prop :=
  ∃ pair ∈ pairs, pair.1 ≠ "" ∧ pair.2 ≠ "" ∧ (pair.1 = pair.2 ∨ pair.1 ∈ reachable graph pair.2)

instance (graph pairs : List (String × String)) : Decidable (CycleThroughEdges graph pairs) :=
  inferInstanceAs (Decidable (∃ pair ∈ pairs, _))

namespace Store
variable (s : Store)

/-- `addDependencyEdgeInTx`, for the plane its source was found in. -/
def addDependencyEdge (c : Coordinator) (request : AddDependenciesRequest) (source : Plane)
    (edge : DependencyEdge) : Tx Store :=
  s.addDependency c ⟨edge.issueId, edge.dependsOnId, edge.type, .empty⟩ {
    sourceTable := some source
    writeTable := some source
    isCrossPrefix := extractPrefix edge.issueId ≠ extractPrefix edge.dependsOnId
    skipCycleCheck := request.skipPerEdgeCycleCheck }

/-- `checkAddedEdgesForCycles`. -/
def checkAddedEdgesForCycles (edges : List DependencyEdge) : Tx Unit :=
  let pairs := schedulingPairs edges
  if pairs = [] then pure ()
  else if CycleThroughEdges (s.edges DependencyType.IsSchedulingEdge cycleDetectionTables) pairs then
    throw .dependencyCycle
  else pure ()

/-- `ExecuteAddDependencies`. The planes of the sources are read up front. -/
def executeAddDependencies (c : Coordinator) (request : AddDependenciesRequest) : Tx Store := do
  let hierarchy := request.edges.filter fun edge => edge.type = .parentChild
  let others := request.edges.filter fun edge => edge.type ≠ .parentChild
  let added ← (hierarchy ++ others).foldlM
    (fun t edge => t.addDependencyEdge c request (s.routed edge.issueId) edge) s
  added.checkAddedEdgesForCycles request.edges
  return added

/-- `AddDependencies` of the dependency editor. -/
def addDependencies (c : Coordinator) (request : AddDependenciesRequest) : Tx Store := do
  request.validate
  s.executeAddDependencies c request

end Store
end Beads
