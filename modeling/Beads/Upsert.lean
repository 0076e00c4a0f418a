import Beads.Create
import Beads.Lib.Versions

/-! `helpers.go` and `create.go`: the statement that writes an imported snapshot over a
stored row. `Create` has the part of a row that scheduling reads and decides the stale
guard once for the row; here are all columns, and the assignments in the order in which
the database evaluates them. -/
namespace Beads.Upsert
open Lib

/-- The columns of `issues` and `wisps` that `executeIssueInsert` binds, in its order;
`is_blocked` is left to its default. -/
inductive Column where
  | id | contentHash | title | description | design | acceptanceCriteria | notes
  | status | priority | issueType | assignee | estimatedMinutes
  | createdAt | createdBy | owner | updatedAt | startedAt | closedAt | externalRef | specID
  | compactionLevel | compactedAt | compactedAtCommit | originalSize
  | sender | ephemeral | noHistory | wispType | pinned | isTemplate
  | molType | workType | sourceSystem | sourceRepo | closeReason | closedBySession
  | eventKind | actor | target | payload
  | awaitType | awaitID | timeoutNs | waiters
  | dueAt | deferUntil | metadata
  | rowLock | storageClass
  | isBlocked
  deriving DecidableEq

/-- What a column holds. A `DATETIME` is a number of seconds. -/
@[reducible] def Column.Value : Column → Type
  | .status => Status
  | .storageClass => StorageClass
  | .priority | .compactionLevel | .timeoutNs | .rowLock => Int
  | .estimatedMinutes | .originalSize => Option Int
  | .createdAt | .updatedAt => Nat
  | .startedAt | .closedAt | .compactedAt | .dueAt | .deferUntil => Option Nat
  | .ephemeral | .noHistory | .pinned | .isTemplate | .isBlocked => Bool
  | .assignee | .externalRef | .compactedAtCommit => Option String
  | _ => String

/-- A row with all its columns. -/
abbrev Columns := (c : Column) → c.Value

/-- The key of the two tables. -/
def Columns.key (row : Columns) : String := row .id

/-- `issues` or `wisps`. -/
abbrev IssueTable := Table Columns.key

/-! ## The statement -/

/-- `issueUpsertColumns`. -/
def issueUpsertColumns : List Column :=
  [.contentHash, .title, .description, .design, .acceptanceCriteria,
   .notes, .status, .priority, .issueType, .assignee,
   .estimatedMinutes, .startedAt, .closedAt, .externalRef,
   .sourceRepo, .closeReason, .closedBySession, .metadata,
   .rowLock, .updatedAt]

/-- `issueUpsertAssignments`: `col = IF(VALUES(updated_at) > updated_at, VALUES(col), col)` with
the stale guard, `col = VALUES(col)` without it. -/
def issueUpsertAssignments (rejectStaleUpdate : Bool) (values : Columns) : Columns → Columns :=
  if rejectStaleUpdate = true then
    assignAll (guarded .updatedAt (· < values .updatedAt) values) issueUpsertColumns
  else assignAll (fun _ => values) issueUpsertColumns

private theorem issueUpsertAssignments_key (rejectStaleUpdate : Bool) (values row : Columns) :
    (issueUpsertAssignments rejectStaleUpdate values row).key = row.key := by
  have other : Column.id ∉ issueUpsertColumns := by decide
  unfold issueUpsertAssignments
  split
  · exact assignAll_other other
  · exact assignAll_other other

/-- `insertIssueIntoTable`. -/
def insertIssueIntoTable (t : IssueTable) (values : Columns) (rejectStaleUpdate : Bool) :
    IssueTable :=
  if fresh : ∀ r ∈ t, r.key ≠ values.key then t.insert values fresh
  else t.update
    (fun r => if r.key = values.key then issueUpsertAssignments rejectStaleUpdate values r else r)
    (fun r => by split; exacts [issueUpsertAssignments_key _ _ _, rfl])

/-! ## Importing a snapshot -/

/-- How the database stores a time, given in nanoseconds, in a `DATETIME` column, which
has whole seconds: a time before a second is not stored as a later one. Rounding does
that, and so does cutting off. -/
structure Datetime where
  stored : Nat → Nat
  stored_le : ∀ time second, time < second * 1000000000 → stored time ≤ second

/-- A snapshot as `InsertIssueIfNew` gets it: the values it stores, and the time it was
updated at, which the guard of the statement sees as it is stored. -/
structure Snapshot where
  columns : Columns
  updatedAt : Nat

/-- A snapshot that arrives, with the lock that `freshRowLock` draws for it. -/
structure Arrival where
  issue : Snapshot
  freshRowLock : Int

/-- The row of the `VALUES` clause. -/
def Arrival.values (db : Datetime) (a : Arrival) : Columns :=
  Function.update (Function.update (Function.update a.issue.columns
    .updatedAt (db.stored a.issue.updatedAt)) .rowLock a.freshRowLock) .isBlocked false

/-- `InsertIssueIfNew`, with `isNew` and `staleRejected`. -/
def insertIssueIfNew (db : Datetime) (opts : BatchCreateOptions) (t : IssueTable) (a : Arrival) :
    Except Err (IssueTable × Bool × Bool) :=
  let id := a.issue.columns.key
  let existing : Prop := id ≠ "" ∧ ∃ r ∈ t, r.key = id
  if opts.conflictSkip = true ∧ existing then .ok (t, false, false)
  else if opts.createOnly = true then
    if fresh : ∀ r ∈ t, r.key ≠ (a.values db).key then .ok (t.insert (a.values db) fresh, true, false)
    else .error (.duplicateKey id)
  else if opts.rejectStaleUpserts = true ∧ existing ∧
      ∃ r ∈ t, r.key = id ∧ a.issue.updatedAt < r .updatedAt * 1000000000 then .ok (t, false, true)
  else .ok (insertIssueIntoTable t (a.values db) opts.rejectStaleUpserts, ¬ existing, false)

/-- The options of `ImportBatch`. -/
def importOptions (allowStale skipPrefixValidation : Bool) : BatchCreateOptions where
  skipPrefixValidation := skipPrefixValidation
  rejectStaleUpserts := !allowStale
  skipDependencyValidationErrors := true

/-- Snapshots that arrive one after the other. -/
def importAll (db : Datetime) (opts : BatchCreateOptions) (t : IssueTable)
    (arrivals : List Arrival) :
    Except Err IssueTable :=
  arrivals.foldlM (fun t a => (insertIssueIfNew db opts t a).map Prod.fst) t

end Beads.Upsert
