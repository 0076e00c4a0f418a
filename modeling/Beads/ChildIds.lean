import Beads.Aggregate
import Beads.Create
import Beads.Delete

/-! `child_id.go` and the child counters of `create.go`: hierarchical ids are drawn from
a counter per parent, in the plane of the parent, and rows that arrive with an id of
their own push the counter on. The rows are those of `Create` and `Delete`, which leave
the counters out. -/
namespace Beads
open Lib

/-- The tables of the rows with the child counters of both planes. -/
structure CountedStore where
  store : Store
  counters : Plane → Table CounterRow.parentID

namespace CountedStore
variable (s : CountedStore)

/-- The ids and the counters of a plane. -/
def tables (p : Plane) : PlaneTables where
  ids := (s.store.rows p).rows.map Row.id
  labels := .empty
  dependencies := .empty
  events := .empty
  comments := .empty
  counters := s.counters p

/-- `INSERT … ON DUPLICATE KEY UPDATE last_child`: the parent is a foreign key, and the
column is an `INT`. -/
def setCounter (p : Plane) (parentID : String) (last : Int) : Except Err CountedStore :=
  if ¬ s.store.Holds (p, parentID) then .error (.foreignKey p parentID parentID)
  else if last < -2147483648 ∨ 2147483647 < last then .error (.validation "out of range value for column 'last_child'")
  else
    let counters :=
      ((s.counters p).delete (·.parentID = parentID)).insert ⟨parentID, last⟩ fun _ held same =>
        (Table.mem_delete.mp held).2 same
    .ok { s with counters := Function.update s.counters p counters }

/-- `GetNextChildIDTx`. -/
def getNextChildID (parentID : String) : Except Err (String × CountedStore) :=
  let p := s.store.routed parentID
  let next := (s.tables p).lastChild parentID + 1
  (s.setCounter p parentID next).map fun t => (childID parentID next, t)

/-! ## Reconciliation -/

/-- An issue of the batch raises `bucket.maxChild` of its parent. -/
def raiseMaxChild (parentID : String) (last : Int) (issue : NewIssue) : Int :=
  match parseHierarchicalID issue.row.id with
  | some (parent, num) => if parent = parentID ∧ num > last then num else last
  | none => last

/-- `bucket.maxChild` of a parent: the highest number among its children of the batch. -/
def maxChild (issues : List NewIssue) (parentID : String) : Int :=
  issues.foldl (raiseMaxChild parentID) 0

/-- `bucket.known`: the batch itself has the parent as a wisp. -/
def KnownWisp (issues : List NewIssue) (parentID : String) : Prop :=
  ∃ issue ∈ issues, issue.isWisp = true ∧ issue.row.id = parentID

instance (issues : List NewIssue) (parentID : String) : Decidable (KnownWisp issues parentID) :=
  inferInstanceAs (Decidable (∃ issue ∈ issues, _))

/-- The counter of one parent. A parent that the batch does not have as a wisp is looked
up; without a row of the parent there is no counter. -/
def reconcileCounter (issues : List NewIssue) (parentID : String) : Except Err CountedStore :=
  let highest := maxChild issues parentID
  if highest = 0 then .ok s
  else
    let p : Plane := if KnownWisp issues parentID then .wisps else s.store.routed parentID
    if ¬ s.store.Holds (p, parentID) then .ok s
    else match (s.counters p).find? parentID with
      | some counter =>
        if highest ≤ counter.lastChild then .ok s
        else s.setCounter p parentID (max counter.lastChild highest)
      | none => s.setCounter p parentID highest

/-- The parents that the ids of a batch name. -/
def parentsOf (issues : List NewIssue) : List String :=
  ((issues.filterMap fun issue => parseHierarchicalID issue.row.id).map Prod.fst).dedup

/-- `ReconcileChildCounters`; the order of the parents is that of a map. -/
def reconcileChildCounters (issues : List NewIssue) : Except Err CountedStore :=
  (parentsOf issues).foldlM (fun s parentID => s.reconcileCounter issues parentID) s

/-! ## Calls -/

/-- `CreateIssueInTxWithResult` on its own: a new row with a hierarchical id is reconciled. -/
def createIssue (ctx : BatchContext) (issue : NewIssue) : Tx CountedStore := do
  let (written, created) ← s.store.createIssue ctx issue
  let t : CountedStore := { s with store := written }
  match created with
  | none => return t
  | some created =>
    let isNew : Prop := ¬ s.store.Holds created.node ∧ written.Holds created.node
    if isNew ∧ ∃ parsed ∈ parseHierarchicalID created.row.id, 0 < parsed.2 then
      .ofExcept (t.reconcileChildCounters [created])
    else return t

/-- `CreateIssuesInTxWithContext`: the counters are reconciled once, for all accepted
issues. -/
def createIssues (ctx : BatchContext) (c : Coordinator) (batch : List NewIssue) :
    Tx CountedStore := do
  let (landed, accepted) ← s.store.landBatch ctx batch
  let (written, persisted) ← landed.persistDependencies c ctx.opts accepted
  let t : CountedStore := { s with store := written }
  let counted ← .ofExcept (t.reconcileChildCounters accepted)
  let done ← recomputeIsBlocked (written.createBlockedRecomputeIds accepted persisted) written
  return { counted with store := done }

/-- The counters of deleted parents go with them. -/
def withDeleted (deleted : Store) : CountedStore where
  store := deleted
  counters p := (s.counters p).delete fun counter =>
    s.store.Holds (p, counter.parentID) ∧ ¬ deleted.Holds (p, counter.parentID)

/-- The calls that draw, store and delete hierarchical ids. -/
inductive Op where
  | getNextChildID (parentID : String)
  | createIssue (ctx : BatchContext) (issue : NewIssue)
  | createIssues (ctx : BatchContext) (c : Coordinator) (batch : List NewIssue)
  | deleteIssue (id : String)
  | deleteIssues (ids : List String) (cascade force dryRun : Bool)

/-- A call, with the id that it returns if it draws one. -/
def run : Op → Tx (CountedStore × Option String)
  | .getNextChildID parentID => .ofExcept ((s.getNextChildID parentID).map fun r => (r.2, some r.1))
  | .createIssue ctx issue => do return (← s.createIssue ctx issue, none)
  | .createIssues ctx c batch => do return (← s.createIssues ctx c batch, none)
  | .deleteIssue id => do return (s.withDeleted (← s.store.deleteIssue id), none)
  | .deleteIssues ids cascade force dryRun => do
    return (s.withDeleted (← s.store.deleteIssues ids cascade force dryRun), none)

end CountedStore
end Beads
