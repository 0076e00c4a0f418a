import Mathlib.Data.List.Sort
import Mathlib.Data.String.Basic
import Beads.Create
import Beads.DependencyEditor
import Beads.Swarm
import Beads.Lib.CycleCheck
import Beads.Lib.Outcomes
import Beads.Lib.PathSearch

/-! `bd create --graph` (`cmd/bd/graph_apply.go`): a plan of issues and of edges between them,
which name each other by keys, is validated and then applied in one transaction.

The validation looks for cycles of its own in the parent keys and the blocking edges of the
plan. The transaction checks the planned edges against the store before it writes them, every
edge again as it is written, and all of them at the end. -/
namespace Beads
open Lib

/-- `GraphApplyNodeDep`. The empty type is none. -/
structure GraphApplyNodeDep where
  type : Option DependencyType := none
  target : String
  deriving DecidableEq

/-- `GraphApplyNode`. The row is what `graphApplyNodeIssue` makes of the node, with the id that
the plan asks for; `invalid` is what the checks of the node's own columns object to. -/
structure GraphApplyNode where
  key : String
  title : String
  row : Row := { id := "" }
  invalid : Option String := none
  assignee : String := ""
  assignAfterCreate : Bool := false
  metadataRefs : List (String × String) := []
  parent : String := ""
  parentKey : String := ""
  parentId : String := ""
  deps : List GraphApplyNodeDep := []

/-- `GraphApplyEdge`. The empty type is none. -/
structure GraphApplyEdge where
  fromKey : String := ""
  fromId : String := ""
  toKey : String := ""
  toId : String := ""
  type : Option DependencyType := none
  gate : String := ""
  spawnerKey : String := ""
  spawnerId : String := ""

/-- `GraphApplyPlan`. -/
structure GraphApplyPlan where
  nodes : List GraphApplyNode
  edges : List GraphApplyEdge := []

/-- What a plan is refused with. -/
inductive GraphApplyErr where
  | plan (message : String)
  | localCycle (key : String)
  | create (err : Err)
  | update (key : String) (err : Err)
  | parentPath (key parentId childId : String)
  | blockingCycle (edge : Nat) (fromId toId : String)
  | duplicatesParent (edge : Nat) (fromId toId : String) (type : DependencyType)
  | reversesParent (edge : Nat) (fromId toId : String)
  | unresolvedSpawner (fromId toId spawnerKey : String)
  | missingTarget (key target : String)
  | addParent (key : String) (err : Err)
  | addEdge (fromId toId : String) (err : Err)
  | addDep (key target : String) (err : Err)
  | finalCycle
  deriving DecidableEq

/-- `effectiveParentKey`. -/
def GraphApplyNode.effectiveParentKey (node : GraphApplyNode) : String :=
  if node.parentKey ≠ "" then node.parentKey else node.parent

/-- `graphApplyDependencyType`. -/
def graphApplyDependencyType (type : Option DependencyType) : DependencyType := type.getD .blocks

/-- `IsValidWaitsForGate`. -/
def IsValidWaitsForGate (gate : String) : Prop := gate = "all-children" ∨ gate = "any-children"

instance (gate : String) : Decidable (IsValidWaitsForGate gate) :=
  inferInstanceAs (Decidable (_ ∨ _))

namespace GraphApplyPlan
variable (plan : GraphApplyPlan)

/-- The keys of the nodes. -/
def keys : List String := plan.nodes.map GraphApplyNode.key

/-! ## Validation -/

/-- The references of a node. -/
def checkNodeReferences (node : GraphApplyNode) : Except GraphApplyErr Unit :=
  let named := "node " ++ node.key.quote
  match node.metadataRefs.find? fun ref => ref.2 ∉ plan.keys with
  | some ref =>
    throw (.plan (named ++ ": metadata ref " ++ ref.1.quote ++ " references unknown key " ++ ref.2.quote))
  | none =>
    if node.effectiveParentKey ≠ "" ∧ node.effectiveParentKey ∉ plan.keys then
      throw (.plan (named ++ ": parent key " ++ node.effectiveParentKey.quote ++ " not found in plan"))
    else node.deps.zipIdx.forM fun (dep, j) =>
      if dep.target = "" then throw (.plan (named ++ ": dep " ++ toString j ++ " has empty target"))
      else match dep.type with
        | none => return
        | some type =>
          if ¬ type.IsValid then
            throw (.plan (named ++ ": dep " ++ toString j ++ ": invalid dependency type " ++ type.text.quote))
          else return

/-- The checks of one node, with the keys and the ids that were seen before it. -/
def checkNode (seen : List String × List String) (item : GraphApplyNode × Nat) :
    Except GraphApplyErr (List String × List String) :=
  let node := item.1
  if node.key = "" then throw (.plan ("node " ++ toString item.2 ++ " has empty key"))
  else if node.key ∈ seen.1 then throw (.plan ("duplicate node key " ++ node.key.quote))
  else if node.title = "" then throw (.plan ("node " ++ node.key.quote ++ " has empty title"))
  else if node.invalid.isSome then throw (.plan (node.invalid.getD ""))
  else if node.row.id ≠ "" ∧ node.row.id ∈ seen.2 then
    throw (.plan ("duplicate explicit id " ++ node.row.id.quote ++ " (node " ++ node.key.quote ++ ")"))
  else do
    plan.checkNodeReferences node
    return (node.key :: seen.1, if node.row.id = "" then seen.2 else node.row.id :: seen.2)

/-- The gate and the spawner of an edge. -/
def checkGate (seenKeys : List String) (edge : GraphApplyEdge) (named : String) :
    Except GraphApplyErr Unit :=
  if graphApplyDependencyType edge.type ≠ .waitsFor then
    throw (.plan (named ++ ": gate/spawner fields require type \"waits-for\""))
  else if edge.gate ≠ "" ∧ ¬ IsValidWaitsForGate edge.gate then
    throw (.plan (named ++ ": invalid gate " ++ edge.gate.quote ++ " (valid: all-children, any-children)"))
  else if edge.spawnerKey ≠ "" ∧ edge.spawnerId ≠ "" then
    throw (.plan (named ++ ": cannot specify both spawner_key and spawner_id"))
  else if edge.spawnerKey ≠ "" ∧ edge.spawnerKey ∉ seenKeys then
    throw (.plan (named ++ ": spawner key " ++ edge.spawnerKey.quote ++ " not found in plan"))
  else if edge.spawnerKey ≠ "" ∧ edge.toId ≠ "" then
    throw (.plan (named ++ ": spawner_key " ++ edge.spawnerKey.quote ++ " cannot be combined with to_id " ++
      edge.toId.quote ++ " (to_id overrides to_key as the waits-for target; use spawner_id)"))
  else if edge.spawnerKey ≠ "" ∧ edge.spawnerKey ≠ edge.toKey then
    throw (.plan (named ++ ": spawner_key " ++ edge.spawnerKey.quote ++ " must match to_key " ++ edge.toKey.quote ++
      " (the waits-for target is the spawner)"))
  else if edge.spawnerId ≠ "" ∧ edge.spawnerId ≠ edge.toId then
    throw (.plan (named ++ ": spawner_id " ++ edge.spawnerId.quote ++ " must match to_id " ++ edge.toId.quote ++
      " (the waits-for target is the spawner)"))
  else return

/-- The checks of one edge. -/
def checkEdge (seenKeys : List String) (item : GraphApplyEdge × Nat) : Except GraphApplyErr Unit :=
  let edge := item.1
  let named := "edge " ++ toString item.2
  if edge.fromKey ≠ "" ∧ edge.fromKey ∉ seenKeys then
    throw (.plan (named ++ ": from key " ++ edge.fromKey.quote ++ " not found in plan"))
  else if edge.toKey ≠ "" ∧ edge.toKey ∉ seenKeys then
    throw (.plan (named ++ ": to key " ++ edge.toKey.quote ++ " not found in plan"))
  else if edge.fromKey = "" ∧ edge.fromId = "" then throw (.plan (named ++ ": must specify from_key or from_id"))
  else if edge.toKey = "" ∧ edge.toId = "" then throw (.plan (named ++ ": must specify to_key or to_id"))
  else if edge.type.any fun type => ¬ type.IsValid then
    throw (.plan (named ++ ": invalid dependency type " ++ (graphApplyDependencyType edge.type).text.quote))
  else if edge.gate ≠ "" ∨ edge.spawnerKey ≠ "" ∨ edge.spawnerId ≠ "" then checkGate seenKeys edge named
  else return

/-- `graphApplyEdgeIsLocalCycleRelevant`. -/
def EdgeIsLocalCycleRelevant (edge : GraphApplyEdge) : Prop :=
  ¬ (edge.fromKey = "" ∨ edge.toKey = "" ∨ edge.fromId ≠ "" ∨ edge.toId ≠ "") ∧
    (graphApplyDependencyType edge.type).Blocking

instance : DecidablePred EdgeIsLocalCycleRelevant := fun _ => inferInstanceAs (Decidable (_ ∧ _))

/-- `adj[key]` of `validateGraphApplyLocalCycles`: the parent of the node, then the edges. -/
def localAdj (knownKeys : List String) (key : String) : List String :=
  ((plan.nodes.filter fun node => node.key = key ∧ node.effectiveParentKey ≠ "" ∧ node.key ∈ knownKeys ∧
      node.effectiveParentKey ∈ knownKeys).map GraphApplyNode.effectiveParentKey) ++
    (plan.edges.filter fun edge => edge.fromKey = key ∧ EdgeIsLocalCycleRelevant edge ∧ edge.fromKey ∈ knownKeys ∧
      edge.toKey ∈ knownKeys).map GraphApplyEdge.toKey

/-- `validateGraphApplyLocalCycles`. -/
def validateLocalCycles (knownKeys : List String) : Call GraphApplyErr Unit := do
  match ← (CycleCheck.check (fun _ => false) (plan.localAdj knownKeys) (knownKeys.insertionSort (· ≤ ·))).outcome with
  | .error (_, cycleKey) => throw (.localCycle cycleKey)
  | .ok _ => return

/-- `validateGraphApplyPlan`. -/
def validatePlan : Call GraphApplyErr Unit := do
  if plan.nodes = [] then throw (.plan "plan has no nodes")
  let seen ← .ofExcept (plan.nodes.zipIdx.foldlM plan.checkNode ([], []))
  .ofExcept (plan.edges.zipIdx.forM (checkEdge seen.1))
  plan.validateLocalCycles seen.1

/-- `validateGraphApplyExplicitIDCollisions`. -/
def validateExplicitIdCollisions (issueExists : String → Bool) : Except GraphApplyErr Unit :=
  match plan.nodes.find? fun node => node.row.id ≠ "" ∧ issueExists node.row.id = true with
  | some node =>
    throw (.plan ("explicit id " ++ node.row.id.quote ++ " (node " ++ node.key.quote ++ ") already exists; graph " ++
      "create will not overwrite an existing issue — drop the id to mint a new one, or update the existing issue instead"))
  | none => return

/-- `validateFullGraphPlan`. -/
def validate (issueExists : String → Bool) : Call GraphApplyErr Unit := do
  plan.validatePlan
  .ofExcept (plan.validateExplicitIdCollisions issueExists)

end GraphApplyPlan

/-! ## References of a plan that is being applied -/

/-- `keyToID`, from the nodes with the ids they were created under. -/
def keyToId (placed : List (GraphApplyNode × String)) : String → String :=
  placed.foldl (fun ids item => Function.update ids item.1.key item.2) fun _ => ""

/-- `resolveEdgeRef`. -/
def resolveEdgeRef (key id : String) (ids : String → String) : String :=
  if id ≠ "" then id else if key ≠ "" then ids key else ""

namespace GraphApplyEdge

/-- `fromID` and `toID`. -/
def pair (ids : String → String) (edge : GraphApplyEdge) : String × String :=
  (resolveEdgeRef edge.fromKey edge.fromId ids, resolveEdgeRef edge.toKey edge.toId ids)

def depType (edge : GraphApplyEdge) : DependencyType := graphApplyDependencyType edge.type

end GraphApplyEdge

namespace GraphApplyNode

/-- The issue that is created for a node. -/
def newIssue (node : GraphApplyNode) : NewIssue :=
  { row := if node.assignee ≠ "" ∧ node.assignAfterCreate = false then { node.row with assignee := node.assignee }
      else node.row }

/-- The parent of a node: the one of the plan, or else an issue that is stored. -/
def parentIn (ids : String → String) (node : GraphApplyNode) : String :=
  if node.effectiveParentKey ≠ "" then ids node.effectiveParentKey else node.parentId

/-- The node and its parent. -/
def parentPair (ids : String → String) (node : GraphApplyNode) : String × String :=
  (ids node.key, node.parentIn ids)

end GraphApplyNode

/-- No end is missing. -/
def Resolved (pair : String × String) : Prop := pair.1 ≠ "" ∧ pair.2 ≠ ""

instance : DecidablePred Resolved := fun _ => inferInstanceAs (Decidable (_ ∧ _))

/-- `NewGraphEdgeDependency`. -/
def newGraphEdgeDependency (pair : String × String) (type : DependencyType)
    (gate spawnerKey spawnerId : String)
    (known : List String) (ids : String → String) : Except GraphApplyErr Dependency :=
  if type ≠ .waitsFor then .ok ⟨pair.1, pair.2, type, .empty⟩
  else if spawnerKey ≠ "" ∧ spawnerKey ∉ known then .error (.unresolvedSpawner pair.1 pair.2 spawnerKey)
  else
    let spawnerId := if spawnerKey ≠ "" then ids spawnerKey else spawnerId
    let gate := if gate = "" then "all-children" else gate
    .ok ⟨pair.1, pair.2, type, ⟨("gate", gate) :: if spawnerId = "" then [] else [("spawner_id", spawnerId)]⟩⟩

namespace GraphApplyPlan
variable (plan : GraphApplyPlan)

/-- `graphApplyParentDepPairs`. -/
def parentDepPairs (ids : String → String) : List (String × String) :=
  (plan.nodes.map (GraphApplyNode.parentPair ids)).filter Resolved

end GraphApplyPlan

namespace Store
variable (s : Store)

/-- The targets of `GetDependencyRecords` that a walk follows. -/
def dependencyRecords (follow : DependencyType → Prop) [DecidablePred follow] (id : String) :
    List String :=
  ((s.deps (s.routed id)).rows.filter fun d => d.issueId = id ∧ follow d.type).map fun d => d.target.id

/-- The planned pairs and the stored records that `graphApplyHasPath` follows. -/
def plannedNext (planned : List (String × String)) (follow : DependencyType → Prop)
    [DecidablePred follow] (id : String) : List String :=
  (planned.filter fun pair => pair.1 = id).map Prod.snd ++ s.dependencyRecords follow id

end Store

namespace GraphApplyPlan
variable (plan : GraphApplyPlan) (s : Store) (ids : String → String)

/-! ## Checks before the edges are written -/

/-- The pairs that `validateGraphApplyPlannedParentBlockingPaths` plans with. -/
def readyPairs : List (String × String) :=
  plan.parentDepPairs ids ++ (plan.edges.filter fun edge => edge.depType.AffectsReadyWork ∧
    Resolved (edge.pair ids) ∧ ¬ (edge.depType.Blocking ∧ (edge.pair ids).swap ∈ plan.parentDepPairs ids)).map
      (GraphApplyEdge.pair ids)

/-- `validateGraphApplyPlannedParentBlockingPaths`. -/
def validateParentBlockingPaths : Call GraphApplyErr Unit :=
  plan.nodes.foldlM (fun _ node =>
    let pair := node.parentPair ids
    if ¬ Resolved pair then pure ()
    else do
      let hasPath ← PathSearch.hasPath
        (s.plannedNext (plan.readyPairs ids) DependencyType.AffectsReadyWork) pair.2 pair.1
      if hasPath then throw (.parentPath node.key pair.2 pair.1)) ()

/-- The edges that `validateGraphApplyPlannedBlockingCycles` looks at, with their indices. -/
def blockingEdges : List (GraphApplyEdge × Nat) :=
  plan.edges.zipIdx.filter fun item => item.1.depType.Blocking ∧ Resolved (item.1.pair ids)

/-- `validateGraphApplyPlannedBlockingCycles`. -/
def validateBlockingCycles : Call GraphApplyErr Unit :=
  let checks := plan.blockingEdges ids
  match checks.find? fun item => (item.1.pair ids).1 = (item.1.pair ids).2 with
  | some (edge, i) => throw (.blockingCycle i (edge.pair ids).1 (edge.pair ids).2)
  | none =>
    checks.foldlM (fun _ (item : GraphApplyEdge × Nat) => do
      let pair := item.1.pair ids
      let hasPath ← PathSearch.hasPath
        (s.plannedNext (checks.map fun item => item.1.pair ids) DependencyType.Blocking) pair.2 pair.1
      if hasPath then throw (.blockingCycle item.2 pair.1 pair.2)) ()

/-- An edge must neither repeat a parent-child pair with another type nor block the other way
round. -/
def checkParentPairs (item : GraphApplyEdge × Nat) : Except GraphApplyErr Unit :=
  let pair := item.1.pair ids
  if pair ∈ plan.parentDepPairs ids ∧ item.1.depType ≠ .parentChild then
    throw (.duplicatesParent item.2 pair.1 pair.2 item.1.depType)
  else if pair.swap ∈ plan.parentDepPairs ids ∧ item.1.depType.Blocking then
    throw (.reversesParent item.2 pair.1 pair.2)
  else return

end GraphApplyPlan

/-! ## Writing the edges -/

/-- A dependency to be added, and how a refusal is reported. -/
structure PlannedAdd where
  dep : Dependency
  blame : Err → GraphApplyErr

namespace GraphApplyPlan
variable (plan : GraphApplyPlan) (placed : List (GraphApplyNode × String))

/-- The parent-child edges of the nodes. -/
def parentAdds : List PlannedAdd :=
  (placed.filter fun item => item.1.parentIn (keyToId placed) ≠ "").map fun item =>
    ⟨⟨item.2, item.1.parentIn (keyToId placed), .parentChild, .empty⟩, .addParent item.1.key⟩

/-- An edge of the plan in the phase it belongs to; a parent-child edge that a node already has
is passed over. -/
def edgeAdd (item : GraphApplyEdge × Nat) : Except GraphApplyErr (Option PlannedAdd) := do
  let ids := keyToId placed
  let edge := item.1
  let pair := edge.pair ids
  plan.checkParentPairs ids item
  if pair ∈ plan.parentDepPairs ids then return none
  let dep ← newGraphEdgeDependency pair edge.depType edge.gate edge.spawnerKey edge.spawnerId plan.keys ids
  return some ⟨dep, .addEdge pair.1 pair.2⟩

/-- An inline dependency, with `NewGraphNodeDependency`. -/
def depAdd (id key : String) (dep : GraphApplyNodeDep) :
    Except GraphApplyErr (Option PlannedAdd) := do
  let target := keyToId placed dep.target
  let target := if target = "" then dep.target else target
  if target = "" then throw (.missingTarget key dep.target)
  let added ← newGraphEdgeDependency (id, target) (graphApplyDependencyType dep.type) "" "" "" [] fun _ => ""
  return some ⟨added, .addDep key dep.target⟩

/-- One phase: the edges of the plan, then the inline dependencies, whose type is of the phase. -/
def phaseAdds (phase : DependencyType → Prop) [DecidablePred phase] :
    List (Except GraphApplyErr (Option PlannedAdd)) :=
  (plan.edges.zipIdx.filter fun item => phase item.1.depType).map (plan.edgeAdd placed) ++
    placed.flatMap fun item => (item.1.deps.filter fun dep => phase (graphApplyDependencyType dep.type)).map
      (depAdd placed item.2 item.1.key)

/-- All edges, parent-child first. -/
def adds : List (Except GraphApplyErr (Option PlannedAdd)) :=
  (parentAdds placed).map (fun add => .ok (some add)) ++ plan.phaseAdds placed (· = .parentChild) ++
    plan.phaseAdds placed (· ≠ .parentChild)

end GraphApplyPlan

namespace Store
variable (s : Store)

/-- `AddDependency` of the transaction, which keeps the pair of a scheduling edge. -/
def applyAdd (c : Coordinator) (done : Store × List (String × String))
    (add : Except GraphApplyErr (Option PlannedAdd)) :
    Call GraphApplyErr (Store × List (String × String)) := do
  match ← .ofExcept add with
  | none => return done
  | some ⟨dep, blame⟩ =>
    let added ← (done.1.addDependency c dep
      { isCrossPrefix := extractPrefix dep.issueId ≠ extractPrefix dep.dependsOnId }).mapError blame
    return (added, if dep.type.IsSchedulingEdge then done.2 ++ [(dep.issueId, dep.dependsOnId)] else done.2)

/-- The edges of a plan, with the checks before and after. -/
def applyEdges (c : Coordinator) (plan : GraphApplyPlan) (placed : List (GraphApplyNode × String)) :
    Call GraphApplyErr Store := do
  plan.validateParentBlockingPaths s (keyToId placed)
  plan.validateBlockingCycles s (keyToId placed)
  .ofExcept (plan.edges.zipIdx.forM (plan.checkParentPairs (keyToId placed)))
  let (added, newSchedulingEdges) ← (plan.adds placed).foldlM (applyAdd c) (s, [])
  if CycleThroughEdges (added.edges DependencyType.IsSchedulingEdge cycleDetectionTables) newSchedulingEdges then
    throw .finalCycle
  return added

/-! ## The transaction -/

/-- `CreateIssues`, with the ids that it leaves in the issues. -/
def createPlanned (ctx : BatchContext) (c : Coordinator) (plan : GraphApplyPlan) :
    Tx (Store × List String) := do
  let ctx := { ctx with opts := { skipPrefixValidation := true } }
  let batch := plan.nodes.map GraphApplyNode.newIssue
  let (_, issues) ← s.landBatch ctx batch
  let created ← s.createIssues ctx c batch
  return (created, issues.map fun issue => issue.row.id)

/-- An update of some of the nodes. -/
def updatePlanned (cfg : Config) (c : Coordinator) (updates : GraphApplyNode → Option IssueUpdates)
    (placed : List (GraphApplyNode × String)) : Call GraphApplyErr Store :=
  placed.foldlM (fun t item => match updates item.1 with
    | none => pure t
    | some update => (t.updateIssue cfg c item.2 update).mapError (.update item.1.key)) s

/-- `executeGraphApply`. -/
def executeGraphApply (ctx : BatchContext) (c : Coordinator) (plan : GraphApplyPlan) :
    Call GraphApplyErr (Store × List (String × String)) := do
  let (created, ids) ← (s.createPlanned ctx c plan).mapError .create
  let placed := plan.nodes.zip ids
  let merged ← created.updatePlanned ctx.cfg c
    (fun node => if node.metadataRefs = [] then none else some { other := ["metadata"] }) placed
  let linked ← merged.applyEdges c plan placed
  let assigned ← linked.updatePlanned ctx.cfg c
    (fun node => if node.assignee ≠ "" ∧ node.assignAfterCreate = true then some { assignee := some node.assignee }
      else none) placed
  return (assigned, placed.map fun item => (item.1.key, item.2))

end Store
end Beads
