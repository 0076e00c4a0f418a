import Beads.Dependencies

/-! Status changes of one row: the generic update of `update.go`, the close of
`close.go` with the close policy, and the reopen of `reopen.go`. Leases, audit
events and the columns that no row of `Store` has are left out; an update that
touches such a column is known by the column's name. -/
namespace Beads
open Lib

/-- What an operation reads besides the tables: the custom statuses and issue
types of the workspace, and the clock. -/
structure Config where
  customStatuses : List (String × StatusCategory) := []
  customTypes : List String := []
  now : Nat := 0

/-- `AllIssueTypes`, and the internal type `event`. -/
def builtInTypes : List String :=
  ["bug", "feature", "task", "epic", "chore", "decision", "message", "molecule", "gate", "spike",
    "story", "milestone", "event"]

/-- `IssueType.IsValidWithCustom`. -/
def Config.IsValidType (cfg : Config) (issueType : String) : Prop :=
  issueType ∈ builtInTypes ∨ issueType ∈ cfg.customTypes

instance (cfg : Config) (issueType : String) : Decidable (cfg.IsValidType issueType) :=
  inferInstanceAs (Decidable (_ ∨ _))

/-- `ReopenCategoryInTx`, with `BuiltInStatusCategory` for the built-in statuses. -/
def Config.category (cfg : Config) : Status → StatusCategory
  | .open => .active
  | .inProgress | .blocked | .hooked => .wip
  | .closed => .done
  | .deferred | .pinned => .frozen
  | .custom name => (cfg.customStatuses.lookup name).getD .unspecified

/-- The columns an update asks for. `other` names the columns that `Row` does not
have and whose value the update changes. -/
structure IssueUpdates where
  status : Option Status := none
  issueType : Option String := none
  assignee : Option String := none
  startedAt : Option (Option Nat) := none
  closedAt : Option (Option Nat) := none
  closeReason : Option String := none
  closedBySession : Option String := none
  deferUntil : Option (Option Nat) := none
  wisp : Option Bool := none
  noHistory : Option Bool := none
  pinned : Option Bool := none
  other : List String := []
  forceClosePolicy : Bool := false
  deriving DecidableEq

namespace IssueUpdates

/-- The names `IsAllowedUpdateField` accepts, without those that have a field. -/
def allowedOther : List String :=
  ["priority", "title", "owner", "description", "design", "acceptance_criteria", "notes",
    "estimated_minutes", "external_ref", "spec_id", "source_repo", "sender", "wisp_type", "mol_type",
    "event_category", "event_actor", "event_target", "event_payload", "due_at", "await_id", "waiters",
    "metadata"]

/-- `DiscardNoopIssueUpdates`. The force switch was taken out before. -/
def discardNoop (u : IssueUpdates) (old : Row) : IssueUpdates where
  status := u.status.filter (· ≠ old.status)
  issueType := u.issueType.filter (· ≠ old.issueType)
  assignee := u.assignee.filter (· ≠ old.assignee)
  startedAt := u.startedAt.filter (· ≠ old.startedAt)
  closedAt := u.closedAt.filter (· ≠ old.closedAt)
  closeReason := u.closeReason.filter (· ≠ old.closeReason)
  closedBySession := u.closedBySession.filter (· ≠ old.closedBySession)
  deferUntil := u.deferUntil.filter (· ≠ old.deferUntil)
  wisp := u.wisp.filter (· ≠ old.ephemeral)
  noHistory := u.noHistory.filter (· ≠ old.noHistory)
  pinned := u.pinned.filter (· ≠ old.pinned)
  other := u.other

/-- `ValidateClosedAtCoherence`: an explicit `closed_at` agrees with the status
the update lands. -/
def validateClosedAtCoherence (u : IssueUpdates) (old : Row) : Tx Unit :=
  let landed := u.status.getD old.status
  match u.closedAt with
  | none => pure ()
  | some none => if landed = .closed then throw (.clearClosedAt old.id landed) else pure ()
  | some (some _) => if landed ≠ .closed then throw (.setClosedAt old.id landed) else pure ()

/-- `CrossesIntoDoneCategoryInTx`. -/
def CrossesIntoDone (u : IssueUpdates) (cfg : Config) (old : Status) : Prop :=
  ∃ status ∈ u.status, cfg.category status = .done ∧ cfg.category old ≠ .done

instance (u : IssueUpdates) (cfg : Config) (old : Status) : Decidable (u.CrossesIntoDone cfg old) :=
  inferInstanceAs (Decidable (∃ status ∈ u.status, _))

/-- `ValidateScalarUpdates`. -/
def validateScalar (u : IssueUpdates) (cfg : Config) : Tx Unit := do
  if ∃ issueType ∈ u.issueType, ¬ cfg.IsValidType issueType then
    throw (.invalidIssueType (u.issueType.getD ""))
  if ∃ assignee ∈ u.assignee, 255 < assignee.length then throw (.fieldTooLong "assignee")

/-- The columns `ManageClosedAt` decides on. -/
def managedClose {α : Type} (u : IssueUpdates) (old : Row) (explicit : Option α)
    (closing reopening : α) (current : α) : α :=
  explicit.getD
    (if u.status = some .closed then closing
      else if u.status.isSome = true ∧ old.status = .closed then reopening
      else current)

/-- The `SET` clauses of the update: the columns asked for, `pinned` when the
status moves away from it, and the columns of `ManageClosedAt` and
`ManageStartedAt`. `old` is the row the operation has read. -/
def apply (u : IssueUpdates) (cfg : Config) (old r : Row) : Row :=
  { r with
    status := u.status.getD r.status
    issueType := u.issueType.getD r.issueType
    assignee := u.assignee.getD r.assignee
    startedAt := u.startedAt.getD
      (if u.status = some .inProgress ∧ old.startedAt = none then some cfg.now else r.startedAt)
    closedAt := u.managedClose old u.closedAt (some cfg.now) none r.closedAt
    closeReason := u.managedClose old u.closeReason "" "" r.closeReason
    closedBySession := u.managedClose old u.closedBySession "" "" r.closedBySession
    deferUntil := u.deferUntil.getD r.deferUntil
    ephemeral := u.wisp.getD r.ephemeral
    noHistory := u.noHistory.getD r.noHistory
    pinned := u.pinned.getD
      (if u.status.isSome = true ∧ u.status ≠ some .pinned ∧ old.pinned = true then false else r.pinned)
    updatedAt := cfg.now }

theorem apply_id (u : IssueUpdates) (cfg : Config) (old r : Row) : (u.apply cfg old r).id = r.id :=
  rfl

end IssueUpdates

namespace Store
variable (s : Store)

/-- `UPDATE … WHERE id = ?` of columns other than the id. -/
def updateRow (n : Node) (f : Row → Row) (keeps : ∀ r, (f r).id = r.id) : Store :=
  s.withRows n.1 ((s.rows n.1).update (fun r => if r.id = n.2 then f r else r)
    (fun r => by split <;> simp only [keeps]))

/-- `GetIssueInTx` without its error: the row of the durable plane, or else the
one of the ephemeral plane. -/
def issue? (id : String) : Option Node :=
  if s.Holds (.issues, id) then some (.issues, id)
  else if s.Holds (.wisps, id) then some (.wisps, id)
  else none

/-! ## Close policy -/

/-- `countOpenChildrenForTargetInTx`: distinct sources per table; an ephemeral
edge that repeats a durable one is not counted again. -/
def countOpenChildren (target : Node) : Nat :=
  (((s.deps .issues).rows.filter fun d => d.target = .node target ∧ d.type = .parentChild ∧
      s.RowAt (.issues, d.issueId) fun child => child.status ≠ .closed).map Dep.issueId).dedup.length +
    (((s.deps .wisps).rows.filter fun d => d.target = .node target ∧ d.type = .parentChild ∧
      (s.RowAt (.wisps, d.issueId) fun child => child.status ≠ .closed) ∧
      ∀ e ∈ s.deps .issues, e.key ≠ d.key).map Dep.issueId).dedup.length

/-- `loadStatusByIDInTx`: on an id in both planes the ephemeral row wins. -/
def statusById (id : String) : Option Status :=
  ((s.row? (.wisps, id)).or (s.row? (.issues, id))).map Row.status

/-- `IsBlockedInTx`: the open targets of the blocking and waits-for edges, with
the type of any edge that is no plain blocks edge, read only for a row whose
flag is set. -/
def liveBlockers (n : Node) : List String :=
  if s.FlaggedAt n then
    Plane.all.flatMap fun p => ((s.deps p).rows.filter fun d =>
      d.issueId = n.2 ∧ (d.type.Blocking ∨ d.type = .waitsFor) ∧
        ∃ status ∈ s.statusById d.target.id, status.Live).map fun d =>
          if d.type = .blocks then d.target.id else d.target.id ++ " (" ++ d.type.text ++ ")"
  else []

/-- `EnforceClosePolicyInTx`. -/
def enforceClosePolicy (c : Coordinator) (id : String) (force : Bool) : Tx Store :=
  match s.issue? id with
  | none => throw (.notFound id)
  | some n => do
    let touched ← s.touchDependencyCoordination c id .issues
    let touched ← touched.touchDependencyCoordination c id .wisps
    if force = false ∧ 0 < touched.countOpenChildren n then
      throw (.closeOpenChildren id (touched.countOpenChildren n))
    if force = false ∧ ¬ touched.RowAt n (fun r => r.status = .closed) ∧ touched.liveBlockers n ≠ [] then
      throw (.closeBlocked id (touched.liveBlockers n))
    return touched

/-! ## The operations -/

/-- The write of a generic update and the maintenance after it: the flags are
recomputed when the row crosses between open and closed or pinned. -/
def writeUpdates (cfg : Config) (n : Node) (old : Row) (u : IssueUpdates) : Tx Store :=
  let written := s.updateRow n (u.apply cfg old) (u.apply_id cfg old)
  match u.status with
  | none => pure written
  | some status =>
    if old.status.Live ↔ status.Live then pure written
    else recomputeIsBlocked (written.affectedByStatusChange n) written

/-- `updateIssueInTx`. The write goes to the plane the id is routed to, the row
it is compared with is the one `GetIssueInTx` finds. -/
def updateIssue (cfg : Config) (c : Coordinator) (id : String) (updates : IssueUpdates) :
    Tx Store :=
  match s.issue? id >>= s.row? with
  | none => throw (.notFound id)
  | some old => do
    updates.validateClosedAtCoherence old
    let u := updates.discardNoop old
    if u = {} then return s
    let checked ←
      if u.CrossesIntoDone cfg old.status then s.enforceClosePolicy c id updates.forceClosePolicy
      else pure s
    u.validateScalar cfg
    if ∃ name ∈ u.other, name ∉ IssueUpdates.allowedOther then throw .invalidField
    checked.writeUpdates cfg (s.routed id, id) old u

/-- `closeIssueInTx`. The affected rows are read before the status is written. -/
def closeIssue (cfg : Config) (id reason session : String) : Tx Store :=
  let n : Node := (s.routed id, id)
  let affected := s.affectedByStatusChange n
  match s.row? n with
  | none => throw (.notFound id)
  | some r =>
    if r.status = .closed then pure s
    else recomputeIsBlocked affected (s.updateRow n (fun r =>
      { r with status := .closed, closedAt := some cfg.now, updatedAt := cfg.now,
               closeReason := reason, closedBySession := session }) fun _ => rfl)

/-- `reopenIssueInTx`: only a status of the done category is reopened. -/
def reopenIssue (cfg : Config) (id : String) : Tx Store :=
  let n : Node := (s.routed id, id)
  match s.row? n with
  | none => throw (.notFound id)
  | some r =>
    if cfg.category r.status ≠ .done then pure s
    else recomputeIsBlocked (s.affectedByStatusChange n) (s.updateRow n (fun r =>
      { r with status := .open, closedAt := none, closeReason := "", closedBySession := "",
               deferUntil := none, updatedAt := cfg.now }) fun _ => rfl)

end Store
end Beads
