import Beads.Lib.History
import Beads.Concurrency
import Beads.Leases

/-! Claims from several transactions at once. Every column of an issue row is a cell
of its own: two transactions that write different columns of one row are merged, so
it takes the token in `row_lock` to keep a change of status and a change of owner
apart. An edge and a lease are one cell each; what writes a lease here writes the
whole row. -/
namespace Beads
open Lib Workspace

/-! ## Cells -/

/-- The columns of an issue row, its id and `row_lock` apart. -/
inductive RowColumn where
  | issueType
  | status
  | assignee
  | isBlocked
  | pinned
  | ephemeral
  | noHistory
  | startedAt
  | closedAt
  | closeReason
  | closedBySession
  | deferUntil
  | storageClass
  | createdAt
  | updatedAt

def RowColumn.Value : RowColumn → Type
  | .issueType | .assignee | .closeReason | .closedBySession => String
  | .status => Status
  | .isBlocked | .pinned | .ephemeral | .noHistory => Bool
  | .startedAt | .closedAt | .deferUntil => Option Nat
  | .storageClass => StorageClass
  | .createdAt | .updatedAt => Nat

namespace Row

def column (r : Row) : (c : RowColumn) → c.Value
  | .issueType => r.issueType
  | .status => r.status
  | .assignee => r.assignee
  | .isBlocked => r.isBlocked
  | .pinned => r.pinned
  | .ephemeral => r.ephemeral
  | .noHistory => r.noHistory
  | .startedAt => r.startedAt
  | .closedAt => r.closedAt
  | .closeReason => r.closeReason
  | .closedBySession => r.closedBySession
  | .deferUntil => r.deferUntil
  | .storageClass => r.storageClass
  | .createdAt => r.createdAt
  | .updatedAt => r.updatedAt

/-- A column that we have not changed is theirs. -/
def merge (base ours theirs : Row) : Row where
  id := theirs.id
  issueType := mergeValue base.issueType ours.issueType theirs.issueType
  status := mergeValue base.status ours.status theirs.status
  assignee := mergeValue base.assignee ours.assignee theirs.assignee
  isBlocked := mergeValue base.isBlocked ours.isBlocked theirs.isBlocked
  pinned := mergeValue base.pinned ours.pinned theirs.pinned
  ephemeral := mergeValue base.ephemeral ours.ephemeral theirs.ephemeral
  noHistory := mergeValue base.noHistory ours.noHistory theirs.noHistory
  startedAt := mergeValue base.startedAt ours.startedAt theirs.startedAt
  closedAt := mergeValue base.closedAt ours.closedAt theirs.closedAt
  closeReason := mergeValue base.closeReason ours.closeReason theirs.closeReason
  closedBySession := mergeValue base.closedBySession ours.closedBySession theirs.closedBySession
  deferUntil := mergeValue base.deferUntil ours.deferUntil theirs.deferUntil
  storageClass := mergeValue base.storageClass ours.storageClass theirs.storageClass
  createdAt := mergeValue base.createdAt ours.createdAt theirs.createdAt
  updatedAt := mergeValue base.updatedAt ours.updatedAt theirs.updatedAt

end Row

inductive ClaimCell where
  | column (n : Node) (c : RowColumn)
  | rowLock (n : Node)
  | dep (p : Plane) (key : String × String)
  | coordination (p : Plane) (shard : Nat)
  | lease (id : String)

/-- What a cell holds; a column of an absent row is `none`. -/
def ClaimCell.Value : ClaimCell → Type
  | .column _ c => Option c.Value
  | .rowLock _ => Nat
  | .dep _ _ => Option Dep
  | .coordination _ _ => Nat
  | .lease _ => Option Lease

private theorem mergeValue_kept {α : Type} [DecidableEq α] (base theirs : α) :
    mergeValue base base theirs = theirs :=
  if_pos rfl

private theorem mergeValue_alone {α : Type} [DecidableEq α] (base ours : α) :
    mergeValue base ours base = ours := by
  unfold mergeValue
  split
  · next same => exact same.symm
  · rfl

theorem mergeValue_key {ρ κ : Type} [DecidableEq ρ] {key : ρ → κ} (b o r : ρ) (_ : key b = key r)
    (same : key o = key r) : key (mergeValue b o r) = key r := by
  unfold mergeValue
  split
  · rfl
  · exact same

namespace ClaimStore

def read (w : ClaimStore) : (k : ClaimCell) → k.Value
  | .column n c => (w.store.row? n).map (Row.column · c)
  | .rowLock n => w.rowLock n
  | .dep p key => (w.store.deps p).find? key
  | .coordination p shard => w.store.coordination p shard
  | .lease id => w.leases.find? id

def merge (base ours theirs : ClaimStore) : ClaimStore where
  store :=
    { rows := fun p => .mergeWith Row.merge (fun _ _ _ _ _ => rfl) (base.store.rows p) (ours.store.rows p)
        (theirs.store.rows p)
      deps := fun p => .mergeWith mergeValue mergeValue_key (base.store.deps p) (ours.store.deps p)
        (theirs.store.deps p)
      coordination := fun p shard => mergeValue (base.store.coordination p shard)
        (ours.store.coordination p shard) (theirs.store.coordination p shard) }
  rowLock n := mergeValue (base.rowLock n) (ours.rowLock n) (theirs.rowLock n)
  leases := .mergeWith mergeValue mergeValue_key base.leases ours.leases theirs.leases

def cells : Merging ClaimStore ClaimCell ClaimCell.Value where
  read := read
  merge := merge
  merge_kept base theirs := by
    simp only [merge, mergeValue_kept, Table.mergeWith_kept]
    congr 2
    exact funext fun p => Table.mergeWith_kept
  merge_alone base ours := by
    simp only [merge, mergeValue_alone, Table.mergeWith_alone]
    congr 2
    exact funext fun p => Table.mergeWith_alone

end ClaimStore

/-! ## Transactions on one issue -/

/-- A transaction that changes the status or the owner of one issue. -/
inductive IssueCall where
  | claim (actor : String)
  | unclaim (by_ : UnclaimBy)
  | close (reason session : String)
  | reopen
  | reclaim (cutoff : Nat) (filter : ReclaimFilter)
  | update (c : Coordinator) (updates : IssueUpdates)

/-- The transaction on the issue with the id; a reclaim is scoped to it. -/
def IssueCall.on (id : String) : IssueCall → ClaimCall
  | .claim actor => .claim id actor
  | .unclaim by_ => .unclaim id by_
  | .close reason session => .close id reason session
  | .reopen => .reopen id
  | .reclaim cutoff filter => .reclaim cutoff { filter with ids := [id] }
  | .update c updates => .update c id updates

/-- A transaction with what it reads besides the tables, its own token included. -/
structure IssueSession where
  ctx : ClaimContext
  call : IssueCall

def IssueSession.run (id : String) (session : IssueSession) (w : ClaimStore) : Tx ClaimStore :=
  (session.call.on id).run session.ctx w

/-! ## Children of an issue that is being closed -/

/-- A transaction that closes the parent without force, or one that may add edges onto
it: one edge, or the edges of a batch. -/
inductive ParentCall where
  | close (reason session : String) (expectedVersion : Option Nat)
  | add (dep : Dependency) (opts : AddDependencyOpts)
  | create (batch : BatchContext) (issues : List (NewIssue × LeaseFields))

/-- A transaction with what it reads besides the tables, and the token it puts in a
coordination cell. -/
structure ParentSession where
  ctx : ClaimContext
  token : Plane → Nat → Nat
  call : ParentCall

namespace ParentSession

/-- `dependencyCoordinationShard` is one function for all transactions. -/
def run (shard : String → Nat) (parent : String) (session : ParentSession) (w : ClaimStore) :
    Tx ClaimStore :=
  let c : Coordinator := ⟨shard, session.token⟩
  match session.call with
  | .close reason closedBy expectedVersion =>
    w.closeIssueChecked session.ctx c parent reason closedBy false expectedVersion
  | .add dep opts => do
    let t ← w.store.addDependency c dep opts
    return { w with store := t }
  | .create batch issues => w.createIssues session.ctx batch c issues

/-- The transaction is a close. -/
def Closes (session : ParentSession) : Prop :=
  ∃ reason closedBy expectedVersion, session.call = .close reason closedBy expectedVersion

end ParentSession

/-- What a transaction left has a parent-child edge onto the parent whose key is new to
its table. -/
def AddsChild (parent : String) (w : Write ClaimStore) : Prop :=
  ∃ p, ∃ d ∈ w.result.store.deps p, d.type = .parentChild ∧ d.target.id = parent ∧
    ∀ e ∈ w.base.store.deps p, e.key ≠ d.key

end Beads
