import Beads.JournalFeed
import Beads.Concurrency
import Beads.Delete
import Beads.DependencyEditor
import Beads.Rename

/-! The calls that change edges and remove or rename rows, with the journal switched
on, and a consumer that replays what they record. The edges that a deletion takes
along are journaled by a query of its own, before the rows go. -/
namespace Beads
open Lib

/-! ## The consumer's copy -/

/-- What a consumer builds from the journal. -/
structure Replica where
  issues : String → Option Row
  edges : String × String → Option (DependencyType × Metadata)

namespace Replica

def empty : Replica := ⟨fun _ => none, fun _ => none⟩

/-- One record: a snapshot replaces the issue, an edge record replaces or removes the
edge between its two ends. -/
def apply (copy : Replica) (e : Event) : Replica :=
  match e.op, e.dep with
  | .create, _ | .update, _ | .close, _ =>
    { copy with issues := Function.update copy.issues e.issueId e.issue }
  | .delete, _ => { copy with issues := Function.update copy.issues e.issueId none }
  | .depAdd, some d =>
    { copy with edges := Function.update copy.edges (e.issueId, d.target) (some (d.kind, d.metadata)) }
  | .depRemove, some d =>
    { copy with edges := Function.update copy.edges (e.issueId, d.target) none }
  | .depAdd, none | .depRemove, none | .commentWrite, _ => copy

end Replica

namespace Journal
variable (j : Journal)

/-- The recorded events, in order. -/
def events : List Event := j.inOrder.map JournalRow.toEvent

/-- The copy a consumer has after reading the whole journal. -/
def replay : Replica := j.events.foldl Replica.apply Replica.empty

/-- `RecordDeleteInTx`, with the journal on. -/
def recordDelete (now : Nat → Nat) (id : String) : Tx Journal :=
  .ofExcept (j.insertEventRow now { op := .delete, issueId := id })

end Journal

/-! ## Recording -/

/-- `journalDependencyEdge`. -/
abbrev JournalEdge := String × EventDep

/-- The order of `sortedDependencyEdges`. -/
def JournalEdge.le (a b : JournalEdge) : Bool :=
  if a.1 ≠ b.1 then a.1 < b.1
  else if a.2.target ≠ b.2.target then a.2.target < b.2.target
  else a.2.kind.text ≤ b.2.kind.text

namespace Store
variable (s : Store)

/-- `dependencyEdgesForIssueIDsInTx`: the edges of both tables that leave or, by their
resolved target, reach one of the ids. -/
def dependencyEdgesForIssueIds (ids : List String) : List JournalEdge :=
  ((Plane.all.flatMap fun p => ((s.deps p).rows.filter fun d =>
      d.issueId ∈ ids ∨ d.target.id ∈ ids).map fun d =>
        (d.issueId, (⟨d.type, d.target.id, d.metadata⟩ : EventDep))).dedup).insertionSort
    fun a b => JournalEdge.le a b = true

/-- `recordDependencyRemovalsInTx` and its counterpart for adds. -/
def recordDepEvents (now : Nat → Nat) (op : EventOp) (edges : List JournalEdge) (j : Journal) :
    Tx Journal :=
  edges.foldlM (fun j edge => s.recordDepEvent now op edge.1 edge.2 j) j

/-- The ids `recordBlockedJournalChanges` records an update for, after the loop that
recomputes flags. -/
def flagChanges (before after : Store) : List String :=
  Plane.all.flatMap fun p =>
    (((after.rows p).rows.filter fun r => ∃ old ∈ before.rows p, old.id = r.id ∧
      old.isBlocked ≠ r.isBlocked).map Row.id).insertionSort (· ≤ ·)

/-- `RecomputeIsBlockedInTx` with the updates it journals. -/
def recomputeRecorded (now : Nat → Nat) (ids : IDs) (j : Journal) : Tx Workspace := do
  let t ← recomputeIsBlocked ids s
  let journal ← (flagChanges s t).foldlM (fun j id => t.recordEvent now .update id j) j
  return ⟨t, journal⟩

end Store

namespace Workspace
variable (w : Workspace)

/-- `removeDependencyInTx`. -/
def removeDependency (now : Nat → Nat) (issueId dependsOnId : String) : Tx Workspace :=
  let p := w.store.routed issueId
  match (w.store.deps p).find? (issueId, dependsOnId) with
  | none => pure w
  | some d => do
    let removed :=
      w.store.withDeps p ((w.store.deps p).delete fun e => e.key = (issueId, dependsOnId))
    let v ← removed.recomputeRecorded now (removed.affectedByDepChange (p, issueId) dependsOnId d.type)
      w.journal
    let journal ← v.store.recordDepEvent now .depRemove issueId ⟨d.type, dependsOnId, d.metadata⟩
      v.journal
    return ⟨v.store, journal⟩

/-- `ExecuteAddDependencies`, after the validation of the request. -/
def addDependencies (session : Session) (request : AddDependenciesRequest) : Tx Workspace := do
  request.validate
  let hierarchy := request.edges.filter fun edge => edge.type = .parentChild
  let others := request.edges.filter fun edge => edge.type ≠ .parentChild
  let added ← (hierarchy ++ others).foldlM (fun v edge => AddCall.run {
      session := session
      dep := ⟨edge.issueId, edge.dependsOnId, edge.type, .empty⟩
      opts := {
        sourceTable := some (w.store.routed edge.issueId)
        writeTable := some (w.store.routed edge.issueId)
        isCrossPrefix := extractPrefix edge.issueId ≠ extractPrefix edge.dependsOnId
        skipCycleCheck := request.skipPerEdgeCycleCheck } } v) w
  added.store.checkAddedEdgesForCycles request.edges
  return added

/-- `deleteIssueRowInTx`. -/
def deleteIssueRow (now : Nat → Nat) (n : Node) : Tx Workspace := do
  let deleted ← w.store.deleteIssueRow n
  let journal ← w.journal.recordDelete now n.2
  return ⟨deleted, journal⟩

/-- `DeleteIssueInTx`. -/
def deleteIssue (now : Nat → Nat) (id : String) : Tx Workspace := do
  let n : Node := (w.store.routed id, id)
  let affected := w.store.affectedByDeletion (Store.deletedIn n.1 [id])
  let journal ← w.store.recordDepEvents now .depRemove (w.store.dependencyEdgesForIssueIds [id]) w.journal
  let deleted ← Workspace.deleteIssueRow ⟨w.store, journal⟩ now n
  deleted.store.recomputeRecorded now affected deleted.journal

/-- `DeleteResolvedSetInTx`. Which durable rows the set names is read before they are
deleted. -/
def deleteResolvedSet (now : Nat → Nat) (set : IDs) : Tx Workspace :=
  if set .issues = [] ∧ set .wisps = [] then pure w
  else do
    let affected := w.store.affectedByDeletion set
    let journaled := (set .issues).filter fun id => w.store.Holds (.issues, id)
    let journal ← w.store.recordDepEvents now .depRemove
      (w.store.dependencyEdgesForIssueIds (set .issues ++ set .wisps)) w.journal
    let deleted ← (set .wisps).foldlM (fun v id => v.deleteIssueRow now (.wisps, id))
      (⟨w.store, journal⟩ : Workspace)
    let rest := (batches deleteBatchSize (set .issues)).foldl
      (fun s batch => s.deleteRows .issues batch) deleted.store
    let journal ← journaled.foldlM (fun j id => j.recordDelete now id) deleted.journal
    rest.recomputeRecorded now affected journal

/-- `DeleteIssuesInTx`. -/
def deleteIssues (now : Nat → Nat) (ids : List String) (cascade force dryRun : Bool) :
    Tx Workspace :=
  if ids = [] then pure w
  else do
    let set ← w.store.resolveDeletionSet ids cascade
    if cascade = false ∧ force = false then
      match (set .issues).find? fun id => w.store.dependentsOutside ids id ≠ [] with
      | some id => throw (.dependentsOutsideRequest id (w.store.dependentsOutside ids id))
      | none => pure ()
    if dryRun = true then return w
    w.deleteResolvedSet now set

/-- An edge under the new id. -/
def renameEdge (oldId newId : String) (edge : JournalEdge) : JournalEdge :=
  (if edge.1 = oldId then newId else edge.1,
    { edge.2 with target := if edge.2.target = oldId then newId else edge.2.target })

/-- `UpdateIssueIDInTx` with `recordRenameInJournal`. -/
def updateIssueId (now : Nat → Nat) (at_ : Nat) (oldId newId : String) : Tx Workspace := do
  let edges := w.store.dependencyEdgesForIssueIds [oldId]
  let renamed ← w.store.updateIssueId at_ oldId newId
  let journal ← renamed.recordDepEvents now .depRemove edges w.journal
  let journal ← journal.recordDelete now oldId
  let journal ← renamed.recordEvent now .create newId journal
  let journal ← renamed.recordDepEvents now .depAdd (edges.map (renameEdge oldId newId)) journal
  return ⟨renamed, journal⟩

end Workspace

/-! ## Runs -/

/-- A call with the journal switched on. -/
inductive JournaledCall where
  | addDependency (session : Session) (dep : Dependency) (opts : AddDependencyOpts)
  | addDependencies (session : Session) (request : AddDependenciesRequest)
  | removeDependency (now : Nat → Nat) (issueId dependsOnId : String)
  | deleteIssue (now : Nat → Nat) (id : String)
  | deleteIssues (now : Nat → Nat) (ids : List String) (cascade force dryRun : Bool)
  | updateIssueId (now : Nat → Nat) (at_ : Nat) (oldId newId : String)

def JournaledCall.run : JournaledCall → Workspace → Tx Workspace
  | .addDependency session dep opts,
    w => AddCall.run ⟨{ session with journaled := true }, dep, opts⟩ w
  | .addDependencies session request, w =>
    w.addDependencies { session with journaled := true } request
  | .removeDependency now issueId dependsOnId, w => w.removeDependency now issueId dependsOnId
  | .deleteIssue now id, w => w.deleteIssue now id
  | .deleteIssues now ids cascade force dryRun, w => w.deleteIssues now ids cascade force dryRun
  | .updateIssueId now at_ oldId newId, w => w.updateIssueId now at_ oldId newId

/-- A row without the derived flag, which edge records carry along and a replay of
snapshots does not see. -/
def Row.unflagged (r : Row) : Row := { r with isBlocked := false }

/-- An edge that leaves none of the ids and names one of them, but refers to no row. -/
def Store.Strays (s : Store) (ids : List String) (d : Dep) : Prop :=
  d.target.id ∈ ids ∧ d.issueId ∉ ids ∧ ∀ n, d.target = .node n → ¬ s.Holds n

/-- No edge is left behind by the cascade of a deletion or by a rename. Without
force, a stray edge onto a durable id is a dependent that refuses the deletion; a
cascading deletion takes the source of every edge along. -/
def JournaledCall.Safe (s : Store) : JournaledCall → Prop
  | .addDependency .. | .addDependencies .. | .removeDependency .. => True
  | .deleteIssue _ id => ∀ p, ∀ d ∈ s.deps p, ¬ s.Strays [id] d
  | .deleteIssues _ ids cascade force dryRun => cascade = true ∨ dryRun = true ∨
    ∀ p, ∀ d ∈ s.deps p, s.Strays ids d → force = false ∧ ¬ s.IsActiveWisp d.target.id
  | .updateIssueId _ _ oldId newId => (∀ p, ∀ d ∈ s.deps p, d.target ≠ .external oldId) ∧
    ¬ s.Holds ((s.routed oldId).sibling, newId)

namespace Workspace

/-- Replaying the journal gives exactly the stored issues and wisps and exactly the
stored edges. -/
structure Faithful (w : Workspace) : Prop where
  rows : ∀ id row, (∃ snapshot, w.journal.replay.issues id = some snapshot ∧ snapshot.unflagged = row) ↔
    ∃ p, ∃ r ∈ w.store.rows p, r.id = id ∧ r.unflagged = row
  edges : ∀ source target kind metadata,
    w.journal.replay.edges (source, target) = some (kind, metadata) ↔
      ∃ p, ∃ d ∈ w.store.deps p, d.key = (source, target) ∧ d.type = kind ∧ d.metadata = metadata

end Workspace
end Beads
