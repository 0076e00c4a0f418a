import Beads.DependencyEditor

/-! `batch_apply.go`, in `storage` and in `issueops`: a request whose items all
add an edge. The items are planned without the database, written in the order
the caller gave them in one transaction, and the graph that the whole request
produced is gated at the end. Such a request creates no row, so endpoints are
ids, and no edge lies between two rows that the request created. -/
namespace Beads
open Lib Lib.Graph

/-- `publicops.DepAddItem`. -/
structure DepAddItem where
  source : String
  target : String
  type : DependencyType
  metadata : Metadata := .empty
  deriving DecidableEq

/-- `publicops.ApplyBatchRequest`, with items of one kind. -/
structure ApplyBatchRequest where
  actor : String
  items : List DepAddItem
  skipPerEdgeCycleCheck : Bool := false

def maxApplyBatchItems : Nat := 100

namespace DepAddItem

/-- The pair of endpoints. -/
def pair (item : DepAddItem) : String × String := (item.source, item.target)

/-- `normalizeApplyEdgeMetadata`: a waits-for edge is stored with the members of
`WaitsForMeta` alone, of which the gate is always there. -/
def normalizeApplyEdgeMetadata (item : DepAddItem) : Except Err Metadata :=
  if item.type ≠ .waitsFor then .ok item.metadata
  else
    let named := (item.metadata.extract "gate").getD ""
    let gate := if named = "" then "all-children" else named
    let spawner := (item.metadata.extract "spawner_id").getD ""
    let alsoBlocks := (item.metadata.extract "also_blocks").getD "false"
    if gate ≠ "all-children" ∧ gate ≠ "any-children" then .error (.validation "waits-for gate is neither known value")
    else .ok ⟨("gate", gate) :: (if spawner = "" then [] else [("spawner_id", spawner)]) ++
      if alsoBlocks = "true" then [("also_blocks", "true")] else []⟩

/-- `planApplyBatchDepAdd`. -/
def plan (item : DepAddItem) : Except Err DepAddItem := do
  if item.source = "" ∨ item.target = "" then throw (.validation "apply batch item must name a key or an id")
  if item.source = item.target then throw (.selfDependency item.source)
  if ¬ item.type.IsValid then throw (.validation "apply batch item requires a dependency type")
  let metadata ← item.normalizeApplyEdgeMetadata
  return { item with metadata := metadata }

/-- The dependency an item asks for. -/
def dependency (item : DepAddItem) : Dependency :=
  ⟨item.source, item.target, item.type, item.metadata⟩

/-- The edge an item is gated as. -/
def edge (item : DepAddItem) : DependencyEdge := ⟨item.source, item.target, item.type⟩

end DepAddItem

/-- `PlanApplyBatch`. -/
def ApplyBatchRequest.plan (request : ApplyBatchRequest) : Except Err (List DepAddItem) := do
  if request.actor = "" then throw (.validation "apply batch requires an actor")
  if request.items = [] then throw (.validation "apply batch requires at least one item")
  if maxApplyBatchItems < request.items.length then throw (.validation "apply batch accepts at most 100 items")
  request.items.mapM DepAddItem.plan

namespace Store
variable (s : Store)

/-- The options `applyDepAdd` calls `AddDependencyInTx` with. -/
def depAddOpts (skip : Bool) (item : DepAddItem) : AddDependencyOpts where
  sourceTable := some (s.routed item.source)
  writeTable := some (s.routed item.source)
  isCrossPrefix := extractPrefix item.source ≠ extractPrefix item.target
  skipCycleCheck := skip

/-- `applyDepAdd`. -/
def applyDepAdd (c : Coordinator) (skip : Bool) (item : DepAddItem) : Tx Store := do
  if item.source = item.target then throw (.selfDependency item.source)
  s.addDependency c item.dependency (s.depAddOpts skip item)

/-- The hierarchy half of `runEndGate`, for one of its edges. -/
def gateHierarchy (item : DepAddItem) : Tx Unit :=
  if IsExternalDepTarget item.source item.target then pure ()
  else s.checkBlockingHierarchy item.dependency cycleDetectionTables

/-- `runEndGate`. -/
def runEndGate (items : List DepAddItem) : Tx Unit := do
  if items = [] then return
  s.checkAddedEdgesForCycles (items.map DepAddItem.edge)
  items.foldlM (fun _ item => s.gateHierarchy item) ()

/-- The items in the order they are given, then the gate. -/
def applyItems (c : Coordinator) (skip : Bool) (items : List DepAddItem) : Tx Store := do
  let added ← items.foldlM (fun t item => t.applyDepAdd c skip item) s
  added.runEndGate items
  return added

/-- `ApplyBatchInTx` behind its plan. -/
def applyBatch (c : Coordinator) (request : ApplyBatchRequest) : Tx Store := do
  let items ← .ofExcept request.plan
  s.applyItems c request.skipPerEdgeCycleCheck items

end Store
end Beads
