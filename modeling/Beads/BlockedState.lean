import Beads.Lib.Worklist
import Beads.Store

/-! `blocked_state.go`: the derived `is_blocked` column. The two mark templates
differ only in the tables they name, and so do the two unmark templates, the
two passes and the two variants of each affected-set query; all of them take
the plane as an argument here. Every statement reads the tables as they were
when it started. -/
namespace Beads
open Lib Lib.Worklist

/-- One id list per plane, as the blocked-state functions take and return them. -/
abbrev IDs := Plane → List String

namespace Target

/-- The join of an edge with the row that its typed column names. -/
def Joins (p : Node → Prop) : Target → Prop
  | .node n => p n
  | .external _ => False

instance (p : Node → Prop) [DecidablePred p] : (t : Target) → Decidable (t.Joins p)
  | .node n => inferInstanceAs (Decidable (p n))
  | .external _ => inferInstanceAs (Decidable False)

/-- The value of one of the two typed columns. -/
def column (p : Plane) : Target → Option String
  | .node n => if n.1 = p then some n.2 else none
  | .external _ => none

end Target

namespace Store
variable (s : Store)

/-- The row of the node is there and satisfies the condition. -/
def RowAt (n : Node) (p : Row → Prop) : Prop := ∃ r ∈ s.rows n.1, r.id = n.2 ∧ p r

/-- The node has an edge, in the table of its plane, that satisfies the condition. -/
def EdgeAt (n : Node) (p : Dep → Prop) : Prop := ∃ d ∈ s.deps n.1, d.issueId = n.2 ∧ p d

instance (n : Node) (p : Row → Prop) [DecidablePred p] : Decidable (s.RowAt n p) :=
  inferInstanceAs (Decidable (∃ r ∈ s.rows n.1, r.id = n.2 ∧ p r))

instance (n : Node) (p : Dep → Prop) [DecidablePred p] : Decidable (s.EdgeAt n p) :=
  inferInstanceAs (Decidable (∃ d ∈ s.deps n.1, d.issueId = n.2 ∧ p d))

def LiveAt (n : Node) : Prop := s.RowAt n fun r => r.status.Live

def FlaggedAt (n : Node) : Prop := s.RowAt n fun r => r.isBlocked = true

instance (n : Node) : Decidable (s.LiveAt n) := inferInstanceAs (Decidable (s.RowAt n _))

instance (n : Node) : Decidable (s.FlaggedAt n) := inferInstanceAs (Decidable (s.RowAt n _))

/-! ## The conditions of the templates -/

/-- `EXISTS (… cd JOIN … child …)`, over both edge tables: a parent-child row
with the spawner in the same typed column, and a child status as asked for. -/
def HasChild (spawner : Node) (p : Status → Prop) : Prop :=
  ∃ plane ∈ Plane.all, ∃ cd ∈ s.deps plane, cd.type = .parentChild ∧ cd.target = .node spawner ∧
    s.RowAt (plane, cd.issueId) fun child => p child.status

instance (spawner : Node) (p : Status → Prop) [DecidablePred p] :
    Decidable (s.HasChild spawner p) :=
  inferInstanceAs (Decidable (∃ plane ∈ Plane.all, ∃ cd ∈ s.deps plane, _))

/-- `waitsForGateBlockedSQL` for a spawner and the metadata of the edge. -/
def GateBlocked (metadata : Metadata) (spawner : Node) : Prop :=
  (s.HasChild spawner Status.Live ∧
      ¬ (metadata.AnyChildren ∧ s.HasChild spawner (· = .closed))) ∨
    (metadata.AlsoBlocks ∧ s.LiveAt spawner)

instance (metadata : Metadata) (spawner : Node) : Decidable (s.GateBlocked metadata spawner) :=
  inferInstanceAs (Decidable ((_ ∧ _) ∨ (_ ∧ _)))

/-- Some blocks or conditional-blocks target is neither closed nor pinned. -/
def LiveBlocker (n : Node) : Prop :=
  s.EdgeAt n fun d => d.type.Blocking ∧ d.target.Joins s.LiveAt

/-- Some parent-child parent carries the flag. -/
def FlaggedParent (n : Node) : Prop :=
  s.EdgeAt n fun d => d.type = .parentChild ∧ d.target.Joins s.FlaggedAt

/-- Some waits-for gate of the node holds. -/
def HeldGate (n : Node) : Prop :=
  s.EdgeAt n fun d => d.type = .waitsFor ∧ d.target.Joins (s.GateBlocked d.metadata)

instance (n : Node) : Decidable (s.LiveBlocker n) := inferInstanceAs (Decidable (s.EdgeAt n _))

instance (n : Node) : Decidable (s.FlaggedParent n) := inferInstanceAs (Decidable (s.EdgeAt n _))

instance (n : Node) : Decidable (s.HeldGate n) := inferInstanceAs (Decidable (s.EdgeAt n _))

/-- The disjunction of `EXISTS` clauses that both templates share. -/
def BlockReason (n : Node) : Prop := s.LiveBlocker n ∨ s.FlaggedParent n ∨ s.HeldGate n

instance (n : Node) : Decidable (s.BlockReason n) := inferInstanceAs (Decidable (_ ∨ _ ∨ _))

/-- Every stored flag of the two planes is what the row's own status, its edges
and the stored flags of its parents make it. -/
def FlagsCorrect : Prop :=
  ∀ p, ∀ r ∈ s.rows p, r.isBlocked = true ↔ r.status.Live ∧ s.BlockReason (p, r.id)

instance : Decidable s.FlagsCorrect :=
  decidable_of_iff
    (∀ p ∈ Plane.all, ∀ r ∈ s.rows p, r.isBlocked = true ↔ r.status.Live ∧ s.BlockReason (p, r.id))
    ⟨fun correct p => correct p (Plane.mem_all p), fun correct p _ => correct p⟩

/-! ## Statements and passes -/

/-- `UPDATE … SET is_blocked = value` on the matching rows of a plane, with the
number of rows it changed. -/
def setBlocked (value : Bool) (p : Plane) (hit : Row → Prop) [DecidablePred hit] : Store × Nat :=
  (s.withRows p ((s.rows p).update (fun r => if hit r then { r with isBlocked := value } else r)
      (fun r => by split <;> rfl)),
    (s.rows p).rows.countP fun r => hit r)

/-- `markBlockedTemplateForIssues` and `markBlockedTemplateForWisps`. -/
def markBlocked (p : Plane) (batch : List String) : Store × Nat :=
  s.setBlocked true p fun r =>
    r.id ∈ batch ∧ r.isBlocked = false ∧ r.status.Live ∧ s.BlockReason (p, r.id)

/-- `unmarkBlockedTemplateForIssues` and `unmarkBlockedTemplateForWisps`. -/
def unmarkBlocked (p : Plane) (batch : List String) : Store × Nat :=
  s.setBlocked false p fun r =>
    r.id ∈ batch ∧ r.isBlocked = true ∧
      (r.status = .closed ∨ r.status = .pinned ∨ ¬ s.BlockReason (p, r.id))

/-- The two statements `runMarkUnmarkBatchedInTx` issues for a batch. -/
def markUnmarkBlocked (p : Plane) (batch : List String) : Store × Nat :=
  let (marked, n) := s.markBlocked p batch
  let (unmarked, k) := marked.unmarkBlocked p batch
  (unmarked, n + k)

end Store

def queryBatchSize : Nat := 200

/-- The batches of a pass: those of the durable plane, then those of the other. -/
def passBatches (ids : IDs) : List (Plane × List String) :=
  Plane.all.flatMap fun p => (batches queryBatchSize (ids p)).map (p, ·)

/-- A statement on one batch, added to the count of rows changed so far. -/
def runBatch (statement : Store → Plane → List String → Store × Nat) (sofar : Store × Nat)
    (b : Plane × List String) : Store × Nat :=
  let (s, n) := statement sofar.1 b.1 b.2
  (s, sofar.2 + n)

/-- One pass of a statement over all batches, with the number of rows changed. -/
def runBatched (statement : Store → Plane → List String → Store × Nat) (ids : IDs) (s : Store) :
    Store × Nat :=
  (passBatches ids).foldl (runBatch statement) (s, 0)

/-- The loop shared by the two recomputations: passes until one changes no row. -/
def runUntilQuiet (statement : Store → Plane → List String → Store × Nat) (ids : IDs) (s : Store) :
    Tx Store :=
  if ids .issues = [] ∧ ids .wisps = [] then pure s
  else .repeatUntilQuiet (runBatched statement ids) s

/-- `RecomputeIsBlockedInTx`. -/
def recomputeIsBlocked : IDs → Store → Tx Store := runUntilQuiet Store.markUnmarkBlocked

/-- One pass of `RecomputeIsBlockedInTx` with batches of the given size. -/
def recomputePass (size : Nat) (ids : IDs) (s : Store) : Store × Nat :=
  (Plane.all.flatMap fun p => (batches size (ids p)).map (p, ·)).foldl
    (runBatch Store.markUnmarkBlocked) (s, 0)

/-- `RecomputeIsBlockedInTx` with batches of the given size. -/
def recomputeInBatches (size : Nat) (ids : IDs) (s : Store) : Tx Store :=
  if ids .issues = [] ∧ ids .wisps = [] then pure s
  else .repeatUntilQuiet (recomputePass size ids) s

/-- `recomputeIsBlockedCounting`: the loop with the number of rows it corrected. -/
def recomputeIsBlockedCounting (size : Nat) (ids : IDs) (s : Store) : Tx (Store × Nat) :=
  if ids .issues = [] ∧ ids .wisps = [] then pure (s, 0)
  else .repeatUntilQuiet (fun state : Store × Nat =>
    let (s, changed) := recomputePass size ids state.1
    ((s, state.2 + changed), changed)) (s, 0)

/-- `MarkIsBlockedInTx`. -/
def markIsBlocked : IDs → Store → Tx Store := runUntilQuiet Store.markBlocked

/-! ## Affected rows -/

namespace Store
variable (s : Store)

/-- `SELECT issue_id` from an edge table, by type and typed target column. -/
def sources (p : Plane) (type : DependencyType → Prop) [DecidablePred type] (target : Node) :
    List String :=
  ((s.deps p).rows.filter fun d => type d.type ∧ d.target = .node target).map Dep.issueId

/-- The sources, in both tables, of the edges of a type onto the given ids. -/
def loadSources (type : DependencyType → Prop) [DecidablePred type] (col : Plane)
    (ids : List String) (w : Frontier Plane String) : Frontier Plane String :=
  w.visitAll (ids.flatMap fun id => Plane.all.flatMap fun p =>
    (s.sources p type (col, id)).map (p, ·))

/-- `loadBlockingDependersForIDsInTx`. -/
def loadBlockingDependersForIDs (col : Plane) (ids : List String) (w : Frontier Plane String) :
    Frontier Plane String :=
  s.loadSources DependencyType.Blocking col ids w

/-- `loadWaitersOnSpawnerIDsByColInTx`. -/
def loadWaitersOnSpawnerIDsByCol (col : Plane) (ids : List String) (w : Frontier Plane String) :
    Frontier Plane String :=
  s.loadSources (· = .waitsFor) col ids w

/-- `loadWaitersOnSpawnerIDsInTx`. -/
def loadWaitersOnSpawnerIDs (ids : List String) (w : Frontier Plane String) :
    Frontier Plane String :=
  s.loadWaitersOnSpawnerIDsByCol .wisps ids (s.loadWaitersOnSpawnerIDsByCol .issues ids w)

/-- The parents of a node that the given typed column names. -/
def parentIDs (child : Node) (col : Plane) : List String :=
  (s.deps child.1).rows.filterMap fun d =>
    if d.issueId = child.2 ∧ d.type = .parentChild then d.target.column col else none

/-- `loadWaitersWhoseSpawnerIsParentOfInTx`. -/
def loadWaitersWhoseSpawnerIsParentOf (w : Frontier Plane String) (child : Node) :
    Frontier Plane String :=
  s.loadWaitersOnSpawnerIDsByCol .wisps (s.parentIDs child .wisps)
    (s.loadWaitersOnSpawnerIDsByCol .issues (s.parentIDs child .issues) w)

/-- `appendChildrenInTx`, for one edge table and one typed column. -/
def appendChildren (p : Plane) (col : Plane) (ids : List String) (w : Frontier Plane String) :
    Frontier Plane String :=
  w.visitAll (ids.flatMap fun id => (s.sources p (· = .parentChild) (col, id)).map (p, ·))

/-- `expandByParentChildDescendantsInTx`. Every turn of the loop takes a waiting
id, and an id waits at most once, so the edges and the seeds bound the turns. -/
def expandByParentChildDescendants (w : Frontier Plane String) : IDs :=
  (Worklist.run queryBatchSize (fun n p => s.sources p (· = .parentChild) n) Plane.all
    ((s.deps .issues).rows.length + (w.queue .issues).length +
      ((s.deps .wisps).rows.length + (w.queue .wisps).length) + 1)
    ⟨fun _ => [], w⟩).taken

/-- Seeds that consist of one node. -/
def seed (n : Node) : Frontier Plane String where
  seen := Function.update (fun _ => []) n.1 [n.2]
  queue := Function.update (fun _ => []) n.1 [n.2]

/-- `AffectedByStatusChangeInTx` and `AffectedByStatusChangeForWispInTx`. -/
def affectedByStatusChange (n : Node) : IDs :=
  let dependers := s.loadBlockingDependersForIDs n.1 [n.2] (seed n)
  let waiters := s.loadWaitersWhoseSpawnerIsParentOf dependers n
  s.expandByParentChildDescendants (s.loadWaitersOnSpawnerIDs [n.2] waiters)

/-- `AffectedByDepChangeInTx` and `AffectedByDepChangeForWispInTx`. -/
def affectedByDepChange (source : Node) (target : String) (type : DependencyType) : IDs :=
  if type.Affects then
    s.expandByParentChildDescendants
      (if type = .parentChild ∧ target ≠ "" then s.loadWaitersOnSpawnerIDs [target] (seed source)
        else seed source)
  else fun _ => []

/-- `AffectedByDeletionInTx`. The deleted ids count as seen, so none is returned. -/
def affectedByDeletion (deleted : IDs) : IDs :=
  if deleted .issues = [] ∧ deleted .wisps = [] then fun _ => []
  else
    let dependers := s.loadBlockingDependersForIDs .wisps (deleted .wisps)
      (s.loadBlockingDependersForIDs .issues (deleted .issues) ⟨deleted, fun _ => []⟩)
    let waiters := s.loadWaitersOnSpawnerIDsByCol .wisps (deleted .wisps)
      (s.loadWaitersOnSpawnerIDsByCol .issues (deleted .issues) dependers)
    let siblings := ((deleted .issues).map (Plane.issues, ·)).foldl
      s.loadWaitersWhoseSpawnerIsParentOf waiters
    let siblings := ((deleted .wisps).map (Plane.wisps, ·)).foldl
      s.loadWaitersWhoseSpawnerIsParentOf siblings
    let orphans := s.appendChildren .wisps .issues (deleted .issues)
      (s.appendChildren .issues .issues (deleted .issues) siblings)
    let orphans := s.appendChildren .wisps .wisps (deleted .wisps)
      (s.appendChildren .issues .wisps (deleted .wisps) orphans)
    s.expandByParentChildDescendants orphans

end Store

end Beads
