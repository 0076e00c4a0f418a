import Beads.Persistence
import Beads.Rename

/-! `lease.go`, `claim.go` and `unclaim.go`: who works on an issue, and until when.
A claim is a compare-and-swap on the `row_lock` column, which every change of
status or owner rewrites. The lease of a claim is a row of a table of its own;
each path that ends or moves a claim has to drop it. Audit events and the journal
are left out, and so are the label tables: a reclaim that is scoped by labels has
its label clauses as a predicate on ids. -/
namespace Beads
open Lib

/-! ## Identities -/

/-- The characters that separate the parts of an identity. -/
def isSeparator (c : Char) : Bool := c = '.' || c = '_' || c = '-'

/-- The loop of `canonicalActor`: a run of separators becomes one underscore. -/
def collapseSeparators : Bool → List Char → List Char
  | _, [] => []
  | inSeparator, c :: rest =>
    if isSeparator c then
      if inSeparator then collapseSeparators true rest else '_' :: collapseSeparators true rest
    else c :: collapseSeparators false rest

/-- `canonicalActor`. -/
def canonicalActor (actor : String) : List Char := collapseSeparators false actor.toList

/-- `actorMatches`. -/
def ActorMatches (a b : String) : Prop := a = b ∨ canonicalActor a = canonicalActor b

instance (a b : String) : Decidable (ActorMatches a b) := inferInstanceAs (Decidable (_ ∨ _))

/-! ## The tables -/

/-- A row of `leases`. -/
structure Lease where
  issueId : String
  holder : String
  grantedAt : Nat
  expiresAt : Nat
  heartbeatAt : Nat
  grantedNode : String
  deriving DecidableEq

/-- The tables of `Store`, the `row_lock` column of its rows, and the leases. -/
structure ClaimStore where
  store : Store
  rowLock : Node → Nat
  leases : Table Lease.issueId

/-- What a verb reads besides the tables: the workspace configuration and the clock,
the pool aliases, the lease's time to live, the name of this replica, and the token
that `freshRowLock` draws for a row. -/
structure ClaimContext where
  cfg : Config := {}
  pools : List String := []
  leaseTTL : Nat := 300
  nodeId : String := ""
  freshRowLock : Node → Nat

/-- The columns that a claim sets. -/
def Row.claim (now : Nat) (actor : String) (old r : Row) : Row :=
  { r with assignee := actor, status := .inProgress, updatedAt := now,
           startedAt := if old.startedAt = none then some now else r.startedAt }

/-- The columns that a release sets. -/
def Row.release (now : Nat) (r : Row) : Row :=
  { r with assignee := "", status := .open, updatedAt := now, startedAt := none }

/-- `ClaimableSourceStatusesInTx`. -/
def Config.Claimable (cfg : Config) : Status → Prop
  | .open => True
  | .custom name => ∃ custom ∈ cfg.customStatuses, custom = (name, .active)
  | _ => False

instance (cfg : Config) : (status : Status) → Decidable (cfg.Claimable status)
  | .open => inferInstanceAs (Decidable True)
  | .custom name =>
    inferInstanceAs (Decidable (∃ custom ∈ cfg.customStatuses, custom = (name, .active)))
  | .inProgress | .blocked | .deferred | .closed | .pinned | .hooked =>
    inferInstanceAs (Decidable False)

/-- What a claim decides on the row: to write it, to leave a claim that is the
actor's already, or to refuse. `old` and `version` are the issue as the operation
has read it, `r` and `lock` the row that the update is conditional on. -/
def claimVerdict (ctx : ClaimContext) (id actor : String) (old : Row) (version : Nat) (r : Row)
    (lock : Nat) :
    Except Err Bool :=
  if (old.assignee = "" ∨ ActorMatches old.assignee actor ∨ old.assignee ∈ ctx.pools) ∧
      lock = version ∧ ctx.cfg.Claimable r.status then .ok true
  else if ActorMatches r.assignee actor ∧ r.status = .inProgress then .ok false
  else .error (.claimConflict id r.assignee r.status
    (r.assignee ≠ "" ∧ ¬ ActorMatches r.assignee actor ∧ r.assignee ∉ ctx.pools))

/-- Who asks for a release: the owner, anyone by force, or anyone who names the
current owner. -/
inductive UnclaimBy where
  | actor (actor : String) (force : Bool)
  | ifAssignee (expected : String)

/-- The checks before the update of `UnclaimIssueInTx` and `UnclaimIssueIfAssigneeInTx`. -/
def checkUnclaim (id : String) (old : Row) : UnclaimBy → Except Err Unit
  | .actor actor force =>
    if old.status = .closed then .error (.validation ("cannot unclaim closed issue " ++ id))
    else if old.assignee = "" then .error (.validation ("issue " ++ id ++ " is not assigned"))
    else if force = false ∧ ¬ ActorMatches old.assignee actor then .error (.notOwner id old.assignee)
    else .ok ()
  | .ifAssignee expected =>
    if expected = "" then
      .error (.validation ("conditional unclaim of " ++ id ++ ": expected assignee must not be empty"))
    else if old.status = .closed then .error (.validation ("cannot unclaim closed issue " ++ id))
    else if ¬ ActorMatches old.assignee expected then .error (.assigneeMismatch id old.assignee expected)
    else .ok ()

/-- A release writes the row if it is open or in progress and has not changed; the
other refusals are those of `checkUnclaim`. -/
def unclaimVerdict (id : String) (by_ : UnclaimBy) (old : Row) (version : Nat) (r : Row)
    (lock : Nat) :
    Except Err Unit := do
  checkUnclaim id old by_
  if (r.status = .open ∨ r.status = .inProgress) ∧ lock = version then .ok ()
  else .error (.validation ("failed to unclaim issue " ++ id ++ ": no matching row"))

/-- `types.ReclaimFilter`. The label clauses are a predicate on the id. -/
structure ReclaimFilter where
  ids : List String := []
  assignees : List String := []
  labels : String → Bool := fun _ => true
  anyReplica : Bool := false

/-- One clause of `BuildReclaimScopeClauses`: a field without usable values matches
nothing. -/
def scopeClause (field : List String) (value : String) : Prop :=
  field = [] ∨ value ∈ field.filter (· ≠ "")

instance (field : List String) (value : String) : Decidable (scopeClause field value) :=
  inferInstanceAs (Decidable (_ ∨ _))

/-- `BuildReclaimScopeClauses`. -/
def ReclaimFilter.Scopes (filter : ReclaimFilter) (r : Row) : Prop :=
  scopeClause filter.ids r.id ∧ scopeClause filter.assignees r.assignee ∧ filter.labels r.id = true

instance (filter : ReclaimFilter) (r : Row) : Decidable (filter.Scopes r) :=
  inferInstanceAs (Decidable (_ ∧ _ ∧ _))

/-- A lease that the reaper of this replica may take: expired before the cutoff, and
not granted by another replica (`reclaimReplicaSQL`). -/
def Lease.Reclaimable (nodeId : String) (cutoff : Nat) (filter : ReclaimFilter) (l : Lease) :
    Prop :=
  l.expiresAt < cutoff ∧
    (filter.anyReplica = true ∨ nodeId = "" ∨ l.grantedNode = "" ∨ l.grantedNode = nodeId)

instance (nodeId : String) (cutoff : Nat) (filter : ReclaimFilter) (l : Lease) :
    Decidable (l.Reclaimable nodeId cutoff filter) :=
  inferInstanceAs (Decidable (_ ∧ _))

namespace ClaimStore
variable (w : ClaimStore) (ctx : ClaimContext)

/-- The row of an id as `GetIssueInTx` finds it, with its `row_lock`. -/
def getIssue (id : String) : Option (Row × Nat) :=
  w.store.issue? id >>= fun n => (w.store.row? n).map fun r => (r, w.rowLock n)

/-- `UPDATE … WHERE id = ?`, with the fresh token. -/
def writeRow (n : Node) (f : Row → Row) (keeps : ∀ r, (f r).id = r.id) : ClaimStore :=
  { w with store := w.store.updateRow n f keeps
           rowLock := Function.update w.rowLock n (ctx.freshRowLock n) }

/-- `UpsertLeaseInTx`. -/
def upsertLease (id holder : String) : ClaimStore :=
  let lease : Lease :=
    ⟨id, holder, ctx.cfg.now, ctx.cfg.now + ctx.leaseTTL, ctx.cfg.now, ctx.nodeId⟩
  { w with leases := (w.leases.delete fun l => l.issueId = id).insertIgnore lease }

/-- `DeleteLeaseInTx`. -/
def deleteLease (id : String) : ClaimStore :=
  { w with leases := w.leases.delete fun l => l.issueId = id }

/-! ## Claim, release, heartbeat -/

/-- `ClaimIssueInTx`. -/
def claimIssue (id actor : String) : Tx ClaimStore :=
  if 255 < actor.length then throw (.fieldTooLong "actor")
  else
    let n : Node := (w.store.routed id, id)
    match w.getIssue id, w.store.row? n with
    | some (old, version), some r => do
      let writes ← .ofExcept (claimVerdict ctx id actor old version r (w.rowLock n))
      if writes = false then return w
      let claimed := w.writeRow ctx n (Row.claim ctx.cfg.now actor old) fun _ => rfl
      return if n.1 = .issues then claimed.upsertLease ctx id actor else claimed
    | _, _ => throw (.notFound id)

/-- `UnclaimIssueInTx` and `UnclaimIssueIfAssigneeInTx`. -/
def unclaimIssue (id : String) (by_ : UnclaimBy) : Tx ClaimStore :=
  let n : Node := (w.store.routed id, id)
  match w.getIssue id, w.store.row? n with
  | some (old, version), some r => do
    .ofExcept (unclaimVerdict id by_ old version r (w.rowLock n))
    return (w.writeRow ctx n (Row.release ctx.cfg.now) fun _ => rfl).deleteLease id
  | _, _ => throw (.notFound id)

/-- `HeartbeatIssueInTx`. When no lease changes under the actor's spelling, a durable
claim that is the actor's gets a new one. -/
def heartbeatIssue (id actor : String) : Tx ClaimStore :=
  let beat : Lease → Lease := fun l =>
    if l.issueId = id ∧ l.holder = actor then
      { l with expiresAt := ctx.cfg.now + ctx.leaseTTL, heartbeatAt := ctx.cfg.now,
               grantedNode := if l.grantedNode = "" then ctx.nodeId else l.grantedNode }
    else l
  if ∃ l ∈ w.leases, (l.issueId = id ∧ l.holder = actor) ∧ beat l ≠ l then
    pure { w with leases := w.leases.update beat fun l => by unfold beat; split <;> rfl }
  else
    let p := w.store.routed id
    match w.store.row? (p, id) with
    | none => throw (.notClaimable id)
    | some r =>
      if r.assignee ≠ "" ∧ ¬ ActorMatches r.assignee actor then throw (.alreadyClaimed r.assignee)
      else if p = .issues ∧ ActorMatches r.assignee actor ∧ r.status = .inProgress then
        pure (w.upsertLease ctx id actor)
      else throw (.notClaimable id)

/-- The stale leases of `ReclaimExpiredLeasesInTx`, by id. -/
def staleLeases (cutoff : Nat) (filter : ReclaimFilter) : List String :=
  (w.leases.rows.filter fun l => l.Reclaimable ctx.nodeId cutoff filter ∧
    w.store.RowAt (.issues, l.issueId) fun r => r.status = .inProgress ∧ filter.Scopes r).map Lease.issueId

/-- The turn of the reclaim for one stale lease. -/
def reclaimIssue (cutoff : Nat) (filter : ReclaimFilter) (id : String) : ClaimStore :=
  if ∃ l ∈ w.leases, l.issueId = id ∧ l.Reclaimable ctx.nodeId cutoff filter then
    let dropped := { w with leases := w.leases.delete fun l =>
      l.issueId = id ∧ l.Reclaimable ctx.nodeId cutoff filter }
    if w.store.RowAt (.issues, id) (fun r => r.status = .inProgress) then
      dropped.writeRow ctx (.issues, id) (Row.release ctx.cfg.now) fun _ => rfl
    else dropped
  else w

/-- `ReclaimExpiredLeasesInTx`. -/
def reclaimExpiredLeases (cutoff : Nat) (filter : ReclaimFilter) : ClaimStore :=
  (w.staleLeases ctx cutoff filter).foldl (fun v id => v.reclaimIssue ctx cutoff filter id) w

/-! ## Leases across the other operations -/

/-- `ManageLeaseOnUpdate`: an update that is left with a status or an assignee ends or
moves the claim, unless it restates it. -/
def EndsClaim (old : Row) (u : IssueUpdates) : Prop :=
  (u.status.isSome = true ∨ u.assignee.isSome = true) ∧
    ¬ (u.status.getD old.status = .inProgress ∧ u.assignee.getD old.assignee ≠ "" ∧
      old.status = .inProgress ∧ u.assignee.getD old.assignee = old.assignee)

instance (old : Row) (u : IssueUpdates) : Decidable (EndsClaim old u) :=
  inferInstanceAs (Decidable (_ ∧ _))

/-- `updateIssueInTx`, with the lease. An update without an effect writes nothing. -/
def updateIssue (c : Coordinator) (id : String) (updates : IssueUpdates) : Tx ClaimStore := do
  let t ← w.store.updateIssue ctx.cfg c id updates
  match w.store.issue? id >>= w.store.row? with
  | none => throw (.notFound id)
  | some old =>
    let u := updates.discardNoop old
    if u = {} then return w
    let updated : ClaimStore := { w with
      store := t
      rowLock := Function.update w.rowLock (w.store.routed id, id) (ctx.freshRowLock (w.store.routed id, id)) }
    return if EndsClaim old u then updated.deleteLease id else updated

/-- `closeIssueInTx`, with the lease. -/
def closeIssue (id reason session : String) : Tx ClaimStore := do
  let n : Node := (w.store.routed id, id)
  let t ← w.store.closeIssue ctx.cfg id reason session
  if w.store.RowAt n (fun r => r.status = .closed) then return w
  return ({ w with store := t, rowLock := Function.update w.rowLock n (ctx.freshRowLock n) }).deleteLease id

/-- `CloseIssueCheckedInTx`. The version is compared first, then the close policy is
applied; force waives the policy only. -/
def closeIssueChecked (c : Coordinator) (id reason session : String) (force : Bool)
    (expectedVersion : Option Nat) : Tx ClaimStore := do
  let n : Node := (w.store.routed id, id)
  if let some expected := expectedVersion then
    if ¬ w.store.Holds n then throw (.notFound id)
    if w.rowLock n ≠ expected then throw (.versionMismatch expected (w.rowLock n))
  let checked ← w.store.enforceClosePolicy c id force
  closeIssue { w with store := checked } ctx id reason session

/-- `reopenIssueInTx`, with the lease. -/
def reopenIssue (id : String) : Tx ClaimStore := do
  let n : Node := (w.store.routed id, id)
  let t ← w.store.reopenIssue ctx.cfg id
  if w.store.RowAt n (fun r => ctx.cfg.category r.status ≠ .done) then return w
  return ({ w with store := t, rowLock := Function.update w.rowLock n (ctx.freshRowLock n) }).deleteLease id

end ClaimStore

/-- The lease fields of an imported snapshot. -/
structure LeaseFields where
  leaseExpiresAt : Option Nat := none
  heartbeatAt : Option Nat := none
  leaseGrantedNode : String := ""

namespace ClaimStore
variable (w : ClaimStore) (ctx : ClaimContext)

/-- The `INSERT … ON DUPLICATE KEY UPDATE` of `RestoreLeaseOnImportInTx`: an unexpired
lease of this store is kept as it is. -/
def restoreLease (id assignee : String) (fields : LeaseFields) (expiresAt : Nat) :
    Table Lease.issueId :=
  let beat := fields.heartbeatAt.getD ctx.cfg.now
  let lease : Lease := ⟨id, assignee, beat, expiresAt, beat, fields.leaseGrantedNode⟩
  (w.leases.delete fun l => l.issueId = id ∧ l.expiresAt < ctx.cfg.now).insertIgnore lease

/-- `RestoreLeaseOnImportInTx`. -/
def restoreLeaseOnImport (id : String) (fields : LeaseFields) (isNew : Bool) : ClaimStore :=
  let restored := match fields.leaseExpiresAt, w.store.row? (.issues, id) with
    | some expiresAt, some r =>
      if r.status = .inProgress ∧ r.assignee ≠ "" then
        { w with leases := w.restoreLease ctx id r.assignee fields expiresAt }
      else w
    | _, _ => w
  if isNew = true then restored
  else { restored with leases := restored.leases.delete fun l => l.issueId = id ∧
    ¬ restored.store.RowAt (.issues, id) fun r => r.status = .inProgress ∧ r.assignee = l.holder }

/-- The token of a created or overwritten row; a stored row that is kept keeps its. -/
def createdLock (opts : BatchCreateOptions) (n : Node) (issue : Row) : Node → Nat :=
  if w.store.RowAt n (fun stored => opts.conflictSkip = true ∨
      (opts.rejectStaleUpserts = true ∧ issue.updatedAt ≤ stored.updatedAt)) then w.rowLock
  else Function.update w.rowLock n (ctx.freshRowLock n)

/-- `CreateIssueInTxWithResult`, with the lease. A snapshot that is stale, or that is
skipped because the other plane has its id, leaves the leases alone. -/
def createIssue (batch : BatchContext) (issue : NewIssue) (fields : LeaseFields) :
    Tx (ClaimStore × Option NewIssue) := do
  let (written, accepted) ← w.store.createIssue { batch with cfg := ctx.cfg } issue
  match accepted with
  | none => return ({ w with store := written }, none)
  | some created =>
    if w.store.Holds (created.plane.sibling, created.row.id) then return (w, some created)
    let landed : ClaimStore := { w with
      store := written
      rowLock := w.createdLock ctx batch.opts created.node created.row }
    if created.plane = .wisps then return (landed, some created)
    return (landed.restoreLeaseOnImport ctx created.row.id fields
      (decide (¬ w.store.Holds (.issues, created.row.id))), some created)

/-- `CreateIssuesInTxWithContext`, with the leases. -/
def createIssues (batch : BatchContext) (c : Coordinator) (issues : List (NewIssue × LeaseFields)) :
    Tx ClaimStore := do
  let admitted ← .ofExcept (filterMixedBucketDependencies batch.opts (issues.map Prod.fst))
  let (landed, accepted) ← (admitted.zip (issues.map Prod.snd)).foldlM (fun (v, accepted) item => do
    let (written, created) ← ClaimStore.createIssue v ctx batch item.1 item.2
    return (written, accepted ++ created.toList)) (w, ([] : List NewIssue))
  let (written, persisted) ← landed.store.persistDependencies c batch.opts accepted
  let t ← recomputeIsBlocked (written.createBlockedRecomputeIds accepted persisted) written
  return { landed with store := t }

/-- `DeleteIssueInTx`, with the lease. -/
def deleteIssue (id : String) : Tx ClaimStore := do
  let t ← w.store.deleteIssue id
  let deleted := { w with store := t }
  return if w.store.routed id = .issues then deleted.deleteLease id else deleted

/-- `DeleteIssuesInTx`, with the leases. -/
def deleteIssues (ids : List String) (cascade force dryRun : Bool) : Tx ClaimStore := do
  let t ← w.store.deleteIssues ids cascade force dryRun
  if ids = [] ∨ dryRun = true then return w
  let set ← w.store.resolveDeletionSet ids cascade
  return { w with store := t, leases := w.leases.delete fun l => l.issueId ∈ set .issues }

/-- `UpdateIssueIDInTx`, with the lease: it follows a durable issue. -/
def updateIssueId (oldId newId : String) : Tx ClaimStore := do
  let p := w.store.routed oldId
  let t ← w.store.updateIssueId ctx.cfg.now oldId newId
  let renamed := { w with
    store := t
    rowLock := Function.update w.rowLock (p, newId) (w.rowLock (p, oldId)) }
  if p = .wisps then return renamed
  match w.leases.rekey? fun l => if l.issueId = oldId then { l with issueId := newId } else l with
  | none => throw (.duplicateLease newId)
  | some leases => return { renamed with leases := leases }

/-- `MoveIssuePersistenceInTx`, with the lease: a wisp has none. -/
def moveIssuePersistence (current : Row) (mode : PersistenceMode) (retained : Bool) :
    Tx ClaimStore := do
  let t ← w.store.moveIssuePersistence current mode retained
  let (ephemeral, noHistory, _) ← .ofExcept (normalizePersistenceMode current mode)
  let target : Node := (.ofWisp (ephemeral || noHistory), current.id)
  if w.store.routed current.id = target.1 then return { w with store := t }
  let moved :=
    { w with store := t, rowLock := Function.update w.rowLock target (ctx.freshRowLock target) }
  return if target.1 = .wisps then moved.deleteLease current.id else moved

/-- `PromoteFromEphemeralInTx`. The leases stay as they are. -/
def promoteFromEphemeral (invalid : Option String) (id : String) : Tx ClaimStore := do
  let t ← w.store.promoteFromEphemeral ctx.cfg invalid id
  let n : Node := (.issues, id)
  return { w with store := t, rowLock := Function.update w.rowLock n (ctx.freshRowLock n) }

/-- `demoteToWispInTx`. -/
def demoteToWisp (c : Coordinator) (id : String) (updates : IssueUpdates) : Tx ClaimStore := do
  let v ← w.updateIssue ctx c id updates
  match v.store.row? (.issues, id) with
  | none => throw (.notFound id)
  | some issue =>
    let (inserted, _) ← v.store.insertIssueIfNew {} .wisps issue
    let copied :=
      (inserted.outgoing .issues id).foldl (fun t d => t.insertDepIgnore .wisps d) inserted
    let retargeted ← (copied.deleteOutgoing .issues id).retargetInbound .issues .wisps id
    let moved := retargeted.deleteRows .issues [id]
    let t ← recomputeIsBlocked (moved.affectedByStatusChange (.wisps, id)) moved
    let n : Node := (.wisps, id)
    let demoted :=
      { v with store := t, rowLock := Function.update v.rowLock n (ctx.freshRowLock n) }
    return demoted.deleteLease id

end ClaimStore

/-- A lease belongs to a durable issue that is in progress and assigned to its holder,
up to the spelling of the identity. -/
def ClaimStore.LeasesOwned (w : ClaimStore) : Prop :=
  ∀ l ∈ w.leases, ∃ r ∈ w.store.rows .issues, r.id = l.issueId ∧ r.status = .inProgress ∧
    canonicalActor r.assignee = canonicalActor l.holder

/-! ## Runs -/

/-- A transaction that may touch a claim. -/
inductive ClaimCall where
  | claim (id actor : String)
  | unclaim (id : String) (by_ : UnclaimBy)
  | heartbeat (id actor : String)
  | update (c : Coordinator) (id : String) (updates : IssueUpdates)
  | close (id reason session : String)
  | reopen (id : String)
  | reclaim (cutoff : Nat) (filter : ReclaimFilter)
  | create (batch : BatchContext) (c : Coordinator) (issues : List (NewIssue × LeaseFields))
  | delete (id : String)
  | deleteMany (ids : List String) (cascade force dryRun : Bool)
  | rename (oldId newId : String)
  | move (current : Row) (mode : PersistenceMode) (retained : Bool)
  | promote (invalid : Option String) (id : String)
  | demote (c : Coordinator) (id : String) (updates : IssueUpdates)

/-- The body of the transaction. -/
def ClaimCall.run (ctx : ClaimContext) : ClaimCall → ClaimStore → Tx ClaimStore
  | .claim id actor, w => w.claimIssue ctx id actor
  | .unclaim id by_, w => w.unclaimIssue ctx id by_
  | .heartbeat id actor, w => w.heartbeatIssue ctx id actor
  | .update c id updates, w => w.updateIssue ctx c id updates
  | .close id reason session, w => w.closeIssue ctx id reason session
  | .reopen id, w => w.reopenIssue ctx id
  | .reclaim cutoff filter, w => pure (w.reclaimExpiredLeases ctx cutoff filter)
  | .create batch c issues, w => w.createIssues ctx batch c issues
  | .delete id, w => w.deleteIssue id
  | .deleteMany ids cascade force dryRun, w => w.deleteIssues ids cascade force dryRun
  | .rename oldId newId, w => w.updateIssueId ctx oldId newId
  | .move current mode retained, w => w.moveIssuePersistence ctx current mode retained
  | .promote invalid id, w => w.promoteFromEphemeral ctx invalid id
  | .demote c id updates, w => w.demoteToWisp ctx c id updates

/-- One transaction, accepted or refused. -/
def ClaimStep (w v : ClaimStore) : Prop :=
  ∃ (ctx : ClaimContext) (call : ClaimCall), (call.run ctx w).Leaves w v

end Beads
