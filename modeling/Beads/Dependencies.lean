import Beads.Lib.Graph
import Beads.BlockedState

/-! `dependencies.go`: adding and removing one edge inside a transaction, with
the hierarchy check and the cycle check, and the coordination cells of
`dependency_coordination.go`. Audit events and the change journal are not
modelled: nothing in the tables of `Store` depends on them. -/
namespace Beads
open Lib Lib.Graph

/-- `DepTargetKind`: which of the three target columns an edge uses. -/
inductive DepTargetKind where
  | issue
  | wisp
  | external
  deriving DecidableEq

/-- The target column of the kind, filled with the id. -/
def DepTargetKind.column : DepTargetKind → String → Target
  | .issue, id => .node (.issues, id)
  | .wisp, id => .node (.wisps, id)
  | .external, id => .external id

/-- `types.Dependency`, as far as an edge row keeps it. Absent metadata is `{}`. -/
structure Dependency where
  issueId : String
  dependsOnId : String
  type : DependencyType
  metadata : Metadata := .empty
  deriving DecidableEq

/-- `DepTargetPrecheck`: the target row as the caller has read it. -/
structure DepTargetPrecheck where
  issueType : String
  status : Status

/-- `AddDependencyOpts`, without the event switch. -/
structure AddDependencyOpts where
  sourceTable : Option Plane := none
  targetTable : Option Plane := none
  writeTable : Option Plane := none
  depTables : List Plane := []
  isCrossPrefix : Bool := false
  skipCycleCheck : Bool := false
  targetKind : Option DepTargetKind := none
  precheckedTarget : Option DepTargetPrecheck := none

/-- What a transaction brings to the coordination cells: the hash that picks
the shard of a parent, and the value `FreshRowLock` last drew for each cell. -/
structure Coordinator where
  shard : String → Nat
  freshRowLock : Plane → Nat → Nat

/-- `strings.HasPrefix(id, "external:")`. -/
def IsExternalRef (id : String) : Prop := "external:".toList.isPrefixOf id.toList = true

instance (id : String) : Decidable (IsExternalRef id) := inferInstanceAs (Decidable (_ = true))

/-- `types.ExtractPrefix`: everything up to the first hyphen, with the hyphen. -/
def extractPrefix (id : String) : List Char :=
  if '-' ∈ id.toList then id.toList.takeWhile (· ≠ '-') ++ ['-'] else []

/-- `IsExternalDepTarget`. -/
def IsExternalDepTarget (sourceId targetId : String) : Prop :=
  IsExternalRef targetId ∨ extractPrefix sourceId ≠ extractPrefix targetId

instance (sourceId targetId : String) : Decidable (IsExternalDepTarget sourceId targetId) :=
  inferInstanceAs (Decidable (_ ∨ _))

def cycleDetectionTables : List Plane := [.issues, .wisps]

namespace Store
variable (s : Store)

/-- `ClassifyDepTarget`. -/
def classifyDepTarget (dep : Dependency) (isCrossPrefix : Bool) : DepTargetKind :=
  if isCrossPrefix = true ∨ IsExternalDepTarget dep.issueId dep.dependsOnId then .external
  else if s.IsActiveWisp dep.dependsOnId then .wisp
  else .issue

/-! ## Graph queries -/

/-- The id pairs of the edges of some types in some tables, with the target of
an edge read as `COALESCE` of its three columns. -/
def edges (type : DependencyType → Prop) [DecidablePred type] (tables : List Plane) :
    List (String × String) :=
  tables.flatMap fun p => ((s.deps p).rows.filter fun d => type d.type).map Dep.key

/-- `WouldCreateSchedulingCycleInTx`, with `cycleReachabilityQuery`. -/
def WouldCreateSchedulingCycle (issueId dependsOnId : String) (tables : List Plane) : Prop :=
  issueId ∈ reachable (s.edges DependencyType.IsSchedulingEdge tables) dependsOnId

/-- `isAncestorInTx`. -/
def IsAncestor (node candidate : String) (tables : List Plane) : Prop :=
  candidate ∈ reachable (s.edges (· = .parentChild) tables) node

instance (issueId dependsOnId : String) (tables : List Plane) :
    Decidable (s.WouldCreateSchedulingCycle issueId dependsOnId tables) :=
  inferInstanceAs (Decidable (_ ∈ _))

instance (node candidate : String) (tables : List Plane) :
    Decidable (s.IsAncestor node candidate tables) :=
  inferInstanceAs (Decidable (_ ∈ _))

/-- `CheckDependencyCycleInTx`. -/
def checkDependencyCycle (dep : Dependency) (tables : List Plane) : Tx Unit := do
  if dep.issueId = dep.dependsOnId then throw (.selfDependency dep.issueId)
  if ¬ dep.type.IsSchedulingEdge then return
  if s.WouldCreateSchedulingCycle dep.issueId dep.dependsOnId tables then throw .dependencyCycle

/-- `CheckBlockingHierarchyInTx`. -/
def checkBlockingHierarchy (dep : Dependency) (tables : List Plane) : Tx Unit := do
  if ¬ dep.type.Blocking then return
  if dep.issueId = dep.dependsOnId then return
  if s.IsAncestor dep.issueId dep.dependsOnId tables then
    throw (.dependencyHierarchyConflict dep.issueId dep.dependsOnId true)
  if s.IsAncestor dep.dependsOnId dep.issueId tables then
    throw (.dependencyHierarchyConflict dep.issueId dep.dependsOnId false)

/-! ## Writing edges -/

/-- The foreign key of the target column: `depends_on_issue_id` refers to
`issues` in both tables, `depends_on_wisp_id` refers to `wisps` only from
`wisp_dependencies`. -/
def TargetKey (p : Plane) : Target → Prop
  | .node (.issues, id) => s.Holds (.issues, id)
  | .node (.wisps, id) => p = .wisps → s.Holds (.wisps, id)
  | .external _ => True

instance (p : Plane) : (t : Target) → Decidable (s.TargetKey p t)
  | .node (.issues, id) => inferInstanceAs (Decidable (s.Holds (.issues, id)))
  | .node (.wisps, id) => inferInstanceAs (Decidable (p = .wisps → s.Holds (.wisps, id)))
  | .external _ => inferInstanceAs (Decidable True)

/-- The constraints that the edge tables are declared with: the source of an edge
is a row of the table's own plane, and `TargetKey` holds of its target. -/
def ForeignKeys : Prop := ∀ p, ∀ d ∈ s.deps p, s.Holds (p, d.issueId) ∧ s.TargetKey p d.target

instance : Decidable s.ForeignKeys :=
  inferInstanceAs (Decidable (∀ p, ∀ d ∈ s.deps p, s.Holds (p, d.issueId) ∧ s.TargetKey p d.target))

/-- `INSERT INTO dependencies` or `wisp_dependencies`. -/
def insertDep (p : Plane) (d : Dep) : Tx Store :=
  if ¬ (s.Holds (p, d.issueId) ∧ s.TargetKey p d.target) then throw (.foreignKey p d.issueId d.target.id)
  else if fresh : ∀ e ∈ s.deps p, e.key ≠ d.key then pure (s.withDeps p ((s.deps p).insert d fresh))
  else throw (.duplicateKey d.issueId)

/-- `TouchDependencyCoordinationTableInTx`. -/
def touchDependencyCoordination (c : Coordinator) (parentId : String) (p : Plane) : Tx Store :=
  if parentId = "" then throw .emptyCoordinationParent
  else pure { s with
    coordination := Function.update s.coordination p
      (Function.update (s.coordination p) (c.shard parentId) (c.freshRowLock p (c.shard parentId))) }

/-- The target of a new blocking edge is neither closed nor pinned, by the row
the caller has read if there is one. -/
def TargetOpen (t : Node) : Option DepTargetPrecheck → Prop
  | some pre => pre.status.Live
  | none => s.LiveAt t

instance (t : Node) :
    (prechecked : Option DepTargetPrecheck) → Decidable (s.TargetOpen t prechecked)
  | some pre => inferInstanceAs (Decidable pre.status.Live)
  | none => inferInstanceAs (Decidable (s.LiveAt t))

/-- `markDirectBlockingDependencySourceInTx`. -/
def markDirectBlockingDependencySource (source : Node) (target : Target)
    (prechecked : Option DepTargetPrecheck) : Store :=
  match target with
  | .external _ => s
  | .node t =>
    (s.setBlocked true source.1 fun r =>
      r.id = source.2 ∧ r.isBlocked = false ∧ r.status.Live ∧ s.TargetOpen t prechecked).1

end Store

/-- `RemoveSourceFromAffected`. -/
def removeSourceFromAffected (source : Node) (ids : IDs) : IDs :=
  Function.update ids source.1 ((ids source.1).filter (· ≠ source.2))

namespace Store
variable (s : Store)

/-! ## Adding and removing an edge -/

/-- The target row's type as `addDependencyInTx` learns it; empty when the
target is in no table of this database. -/
def dependencyTargetType (dep : Dependency) (opts : AddDependencyOpts) : Except Err String :=
  match opts.precheckedTarget with
  | some pre => .ok pre.issueType
  | none =>
    if IsExternalRef dep.dependsOnId ∨ opts.isCrossPrefix = true then .ok ""
    else match s.row? (opts.targetTable.getD (s.routed dep.dependsOnId), dep.dependsOnId) with
      | some r => .ok r.issueType
      | none => .error (.missingDependencyTarget dep.issueId dep.dependsOnId)

/-- The checks `addDependencyInTx` makes before it looks at the edge table. -/
def validateAddDependency (dep : Dependency) (opts : AddDependencyOpts) : Tx Unit := do
  let tables := if opts.depTables = [] then cycleDetectionTables else opts.depTables
  if ¬ s.Holds (opts.sourceTable.getD (s.routed dep.issueId), dep.issueId) then
    throw (.missingDependencySource dep.issueId dep.dependsOnId)
  let targetType ← .ofExcept (s.dependencyTargetType dep opts)
  if targetType ≠ "" then s.checkBlockingHierarchy dep tables
  if opts.skipCycleCheck = false then s.checkDependencyCycle dep tables

/-- The table the edge is written to. -/
def writeTable (dep : Dependency) (opts : AddDependencyOpts) : Plane :=
  opts.writeTable.getD (s.routed dep.issueId)

/-- The target as the edge row keeps it. -/
def depTarget (dep : Dependency) (opts : AddDependencyOpts) : Target :=
  (opts.targetKind.getD (s.classifyDepTarget dep opts.isCrossPrefix)).column dep.dependsOnId

/-- `UPDATE … SET metadata = ?` on the edge with the key. -/
def setMetadata (p : Plane) (key : String × String) (metadata : Metadata) : Store :=
  s.withDeps p ((s.deps p).update (fun d => if d.key = key then { d with metadata := metadata } else d)
    (fun d => by split <;> rfl))

/-- The blocked-state maintenance after a new edge: blocking edges mark their
source directly and leave the rest to a mark-only loop, parent-child edges need
the full loop, every other type the mark-only one. -/
def refreshAfterAdd (source : Node) (target : Target) (type : DependencyType)
    (prechecked : Option DepTargetPrecheck) : Tx Store :=
  let affected := s.affectedByDepChange source target.id type
  if type.Blocking then
    markIsBlocked (removeSourceFromAffected source affected)
      (s.markDirectBlockingDependencySource source target prechecked)
  else if type = .parentChild then recomputeIsBlocked affected s
  else markIsBlocked affected s

/-- `addDependencyInTx`. -/
def addDependency (c : Coordinator) (dep : Dependency) (opts : AddDependencyOpts) : Tx Store := do
  s.validateAddDependency dep opts
  let p := s.writeTable dep opts
  let target := s.depTarget dep opts
  match (s.deps p).find? (dep.issueId, dep.dependsOnId) with
  | some existing =>
    if existing.type = dep.type then pure (s.setMetadata p existing.key dep.metadata)
    else throw (.dependencyTypeConflict dep.issueId dep.dependsOnId existing.type dep.type)
  | none => do
    let inserted ← s.insertDep p ⟨dep.issueId, target, dep.type, dep.metadata⟩
    let touched ←
      if dep.type = .parentChild then inserted.touchDependencyCoordination c dep.dependsOnId p
      else pure inserted
    touched.refreshAfterAdd (p, dep.issueId) target dep.type opts.precheckedTarget

/-- `removeDependencyInTx`. -/
def removeDependency (issueId dependsOnId : String) : Tx Store :=
  let p := s.routed issueId
  match (s.deps p).find? (issueId, dependsOnId) with
  | none => pure s
  | some d =>
    let removed := s.withDeps p ((s.deps p).delete fun e => e.key = (issueId, dependsOnId))
    recomputeIsBlocked (removed.affectedByDepChange (p, issueId) dependsOnId d.type) removed

end Store
end Beads
