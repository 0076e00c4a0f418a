import Beads.Lib.Snapshot
import Beads.Dependencies
import Beads.Journal

/-! Adding edges from several transactions at once. The database is read cell by
cell: an add changes one column of an issue row, and one column of an edge row or
the whole row, so a row is one cell here. Audit events are left out: their ids are
derived from their content, so two transactions that write the same one write the
same value. -/
namespace Beads
open Lib

/-- The tables of the store and the journal. -/
structure Workspace where
  store : Store
  journal : Journal

inductive Cell where
  | row (n : Node)
  | dep (p : Plane) (key : String × String)
  | coordination (p : Plane) (shard : Nat)
  | counter
  | event (seq : Nat)

/-- What a cell holds; an absent row is `none`. -/
def Cell.Value : Cell → Type
  | .row _ => Option Row
  | .dep _ _ => Option Dep
  | .coordination _ _ => Nat
  | .counter => Option Nat
  | .event _ => Option JournalRow

namespace Workspace

def read (w : Workspace) : (k : Cell) → k.Value
  | .row n => w.store.row? n
  | .dep p key => (w.store.deps p).find? key
  | .coordination p shard => w.store.coordination p shard
  | .counter => w.journal.counter
  | .event seq => w.journal.rows.find? seq

/-- A value that we have not changed is theirs. -/
def mergeValue {α : Type} [DecidableEq α] (base ours theirs : α) : α :=
  if ours = base then theirs else ours

def merge (base ours theirs : Workspace) : Workspace where
  store :=
    { rows := fun p => .merge (base.store.rows p) (ours.store.rows p) (theirs.store.rows p)
      deps := fun p => .merge (base.store.deps p) (ours.store.deps p) (theirs.store.deps p)
      coordination := fun p shard => mergeValue (base.store.coordination p shard)
        (ours.store.coordination p shard) (theirs.store.coordination p shard) }
  journal :=
    { counter := mergeValue base.journal.counter ours.journal.counter theirs.journal.counter
      rows := .merge base.journal.rows ours.journal.rows theirs.journal.rows }

def cells : Cells Workspace Cell Cell.Value where
  read := read
  merge := merge
  read_kept := by
    intro base ours theirs k kept
    cases k with
    | row n => exact Table.find?_merge.trans (if_pos kept)
    | dep p key => exact Table.find?_merge.trans (if_pos kept)
    | coordination p shard => exact if_pos kept
    | counter => exact if_pos kept
    | event seq => exact Table.find?_merge.trans (if_pos kept)
  read_wrote := by
    intro base ours theirs k wrote
    cases k with
    | row n => exact Table.find?_merge.trans (if_neg wrote)
    | dep p key => exact Table.find?_merge.trans (if_neg wrote)
    | coordination p shard => exact if_neg wrote
    | counter => exact if_neg wrote
    | event seq => exact Table.find?_merge.trans (if_neg wrote)

end Workspace

/-- What a transaction runs with: its tokens, whether the journal is switched on,
and the clock for each journal row. -/
structure Session where
  coordinator : Coordinator
  journaled : Bool := false
  now : Nat → Nat := fun _ => 0

/-- One add-dependency transaction. -/
structure AddCall where
  session : Session
  dep : Dependency
  opts : AddDependencyOpts := {}

namespace Store

/-- The ids `recordBlockedJournalChanges` records an update for: the rows whose flag
the maintenance loop has changed, by table and id. The source of a blocking edge is
marked before the loop and is not on its list. -/
def blockedJournalChanges (before after : Store) (source : Node) (type : DependencyType) :
    List String :=
  Plane.all.flatMap fun p =>
    (((after.rows p).rows.filter fun r =>
        ¬ (type.Blocking ∧ (p, r.id) = source) ∧
          ∃ old ∈ before.rows p, old.id = r.id ∧ old.isBlocked ≠ r.isBlocked).map Row.id).mergeSort
      (· ≤ ·)

end Store

namespace AddCall

/-- The transaction on a snapshot, up to its commit. -/
def run (call : AddCall) (w : Workspace) : Tx Workspace := do
  let t ← w.store.addDependency call.session.coordinator call.dep call.opts
  if call.session.journaled = false then return ⟨t, w.journal⟩
  let source : Node := (w.store.writeTable call.dep call.opts, call.dep.issueId)
  let updated ← (w.store.blockedJournalChanges t source call.dep.type).foldlM
    (fun j id => t.recordEvent call.session.now .update id j) w.journal
  let journal ← t.recordDepEvent call.session.now .depAdd call.dep.issueId
    ⟨call.dep.type, call.dep.dependsOnId, call.dep.metadata⟩ updated
  return ⟨t, journal⟩

/-- The cycle check is on and walks both edge tables. -/
def Checked (call : AddCall) : Prop :=
  call.opts.skipCycleCheck = false ∧ call.opts.depTables = []

/-- The call is accepted on the snapshot and writes a scheduling edge that is new to
its table. -/
def AddsEdge (call : AddCall) (w : Workspace) : Prop :=
  (∃ v, (call.run w).Returns v) ∧ call.dep.type.IsSchedulingEdge ∧
    ∀ d ∈ w.store.deps (w.store.writeTable call.dep call.opts),
      d.key ≠ (call.dep.issueId, call.dep.dependsOnId)

/-- The call rewrites the coordination cell. -/
def Touches (call : AddCall) (w : Workspace) (p : Plane) (shard : Nat) : Prop :=
  call.dep.type = .parentChild ∧ p = w.store.writeTable call.dep call.opts ∧
    shard = call.session.coordinator.shard call.dep.dependsOnId ∧
      call.session.coordinator.freshRowLock p shard ≠ w.store.coordination p shard

end AddCall

/-- A step of two add-dependency transactions. -/
def AddStep (calls : Bool → AddCall) : Sessions Bool Workspace → Sessions Bool Workspace → Prop :=
  Workspace.cells.Step fun i => (calls i).run

/-- Two calls on one snapshot write something that cannot be merged: both write the
journal, or both put a token of their own in one coordination cell. -/
def Serialized (calls : Bool → AddCall) (w : Workspace) : Prop :=
  (∀ i, (calls i).session.journaled = true) ∨
    ∃ p shard, (∀ i, (calls i).Touches w p shard) ∧
      (calls true).session.coordinator.freshRowLock p shard ≠
        (calls false).session.coordinator.freshRowLock p shard

/-- Each of two calls adds an edge whose target reaches the source of the other edge,
and nothing they write stops the second from committing. -/
def Race (calls : Bool → AddCall) (w : Workspace) : Prop :=
  (∀ i, (calls i).AddsEdge w) ∧
    (∀ i, Relation.ReflTransGen w.store.Scheduling (calls i).dep.dependsOnId
      (calls (!i)).dep.issueId) ∧
      ¬ Serialized calls w

end Beads
