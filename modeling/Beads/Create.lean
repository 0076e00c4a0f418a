import Beads.Lifecycle

/-! `create.go`: the batch create and import engine. The rows of a batch are
inserted or overwritten one by one, then the edges of the accepted rows are
inserted, hierarchy first, and at last the flags of the batch's own rows and of
what the new edges affect are recomputed. Labels, comments, leases, child
counters, events and the callbacks that report skipped work are left out. -/
namespace Beads
open Lib

/-- `types.Issue` as the engine takes it. An empty id is generated; `invalid` is
what the validation objects to in columns that `Row` does not have. -/
structure NewIssue where
  row : Row
  dependencies : List Dependency := []
  wispPlaneOverride : Option Bool := none
  prefixOverride : String := ""
  idPrefix : String := ""
  invalid : Option String := none

/-- `storage.BatchCreateOptions`, without the callbacks. -/
structure BatchCreateOptions where
  createOnly : Bool := false
  skipPrefixValidation : Bool := false
  conflictSkip : Bool := false
  rejectStaleUpserts : Bool := false
  skipDependencyValidationErrors : Bool := false

/-- `BatchContext`. The allowed prefixes are split and trimmed; `idSuffix` is what
`GenerateIssueIDInTable` puts after the hyphen, the shortest free hash or the
next counter. -/
structure BatchContext where
  cfg : Config := {}
  configPrefix : String
  allowedPrefixes : List String := []
  idSuffix : Store → Plane → NewIssue → Except Err String := fun _ _ _ => .error (.validation "no id")
  opts : BatchCreateOptions := {}

namespace NewIssue

/-- `IsWisp`. -/
def isWisp (issue : NewIssue) : Bool :=
  issue.wispPlaneOverride.getD (issue.row.ephemeral || issue.row.noHistory)

/-- `TableRouting`. -/
def plane (issue : NewIssue) : Plane := .ofWisp issue.isWisp

/-- The row the issue is written to. -/
def node (issue : NewIssue) : Node := (issue.plane, issue.row.id)

end NewIssue

/-! ## Validation -/

/-- `Status.IsValidWithCustom`. -/
def Config.IsValidStatus (cfg : Config) : Status → Prop
  | .custom name => ∃ known ∈ cfg.customStatuses, known.1 = name
  | _ => True

instance (cfg : Config) : (status : Status) → Decidable (cfg.IsValidStatus status)
  | .custom name => inferInstanceAs (Decidable (∃ known ∈ cfg.customStatuses, known.1 = name))
  | .open | .inProgress | .blocked | .deferred | .closed | .pinned | .hooked =>
    inferInstanceAs (Decidable True)

/-- `Issue.ValidateWithCustom`. -/
def validateWithCustom (cfg : Config) (invalid : Option String) (issue : Row) :
    Except Err Unit := do
  if let some message := invalid then throw (.validation message)
  if ¬ cfg.IsValidStatus issue.status then throw (.validation "invalid status")
  if ¬ cfg.IsValidType issue.issueType then throw (.invalidIssueType issue.issueType)
  if issue.status = .closed ∧ issue.closedAt = none then
    throw (.validation "closed issues must have closed_at timestamp")
  if issue.status ≠ .closed ∧ issue.closedAt ≠ none then
    throw (.validation "non-closed issues cannot have closed_at timestamp")
  if issue.ephemeral = true ∧ issue.noHistory = true then
    throw (.validation "ephemeral and no_history are mutually exclusive")
  if ¬ issue.storageClass.IsValid then throw (.validation "invalid storage class")
  if issue.storageClass ≠ .unset then
    let wispPlane := issue.ephemeral || issue.noHistory
    if wispPlane = true ∧ issue.storageClass ≠ .ephemeral then
      throw (.validation "storage class conflicts with ephemeral/no_history")
    if wispPlane = false ∧ issue.storageClass = .ephemeral then
      throw (.validation "storage class ephemeral requires the ephemeral flag")
  if 255 < issue.assignee.length then throw (.fieldTooLong "assignee")

/-- `PrepareIssueForInsert`: default times, then validation. -/
def prepareIssueForInsert (cfg : Config) (invalid : Option String) (issue : Row) : Except Err Row :=
  let createdAt := if issue.createdAt = 0 then cfg.now else issue.createdAt
  let updatedAt := if issue.updatedAt = 0 then cfg.now else issue.updatedAt
  let closedAt :=
    if issue.status = .closed ∧ issue.closedAt = none then some (max createdAt updatedAt + 1)
    else issue.closedAt
  let prepared :=
    { issue with createdAt := createdAt, updatedAt := updatedAt, closedAt := closedAt }
  (validateWithCustom cfg invalid prepared).map fun _ => prepared

/-- `ValidateIssueIDPrefix`. -/
def validateIssueIdPrefix (ctx : BatchContext) (id : String) : Except Err Unit :=
  if (ctx.configPrefix :: ctx.allowedPrefixes).any fun allowed =>
    (allowed ++ "-").toList.isPrefixOf id.toList
  then .ok () else .error (.prefixMismatch id)

/-- The prefix of a generated id. -/
def generatedPrefix (ctx : BatchContext) (issue : NewIssue) : String :=
  if issue.prefixOverride ≠ "" then issue.prefixOverride
  else if issue.idPrefix ≠ "" then ctx.configPrefix ++ "-" ++ issue.idPrefix
  else if issue.isWisp = true then ctx.configPrefix ++ "-wisp"
  else ctx.configPrefix

/-! ## Rows -/

/-- The columns of `issueUpsertAssignments`. With the stale guard a stored row
keeps them unless the incoming row is strictly newer. -/
def issueUpsertAssignments (opts : BatchCreateOptions) (incoming stored : Row) : Row :=
  if opts.rejectStaleUpserts = true ∧ incoming.updatedAt ≤ stored.updatedAt then stored
  else { stored with
    status := incoming.status
    issueType := incoming.issueType
    assignee := incoming.assignee
    startedAt := incoming.startedAt
    closedAt := incoming.closedAt
    closeReason := incoming.closeReason
    closedBySession := incoming.closedBySession
    updatedAt := incoming.updatedAt }

theorem issueUpsertAssignments_id (opts : BatchCreateOptions) (incoming stored : Row) :
    (issueUpsertAssignments opts incoming stored).id = stored.id := by
  unfold issueUpsertAssignments
  split <;> rfl

namespace Store
variable (s : Store)

/-- `INSERT INTO issues` or `wisps` with a new id. `is_blocked` is no column of
the statement and starts out unset. -/
def insertRow (p : Plane) (issue : Row) (fresh : ∀ r ∈ s.rows p, r.id ≠ issue.id) : Store :=
  s.withRows p ((s.rows p).insert
    { issue with isBlocked := false, storageClass := issue.storageClass.normalize } fresh)

/-- `InsertIssueStrictInTx`. -/
def insertIssueStrict (p : Plane) (issue : Row) : Tx Store :=
  if fresh : ∀ r ∈ s.rows p, r.id ≠ issue.id then pure (s.insertRow p issue fresh)
  else throw (.duplicateKey issue.id)

/-- `InsertIssueIfNew`, with the verdict of the stale guard. -/
def insertIssueIfNew (opts : BatchCreateOptions) (p : Plane) (issue : Row) : Tx (Store × Bool) :=
  if fresh : ∀ r ∈ s.rows p, r.id ≠ issue.id then pure (s.insertRow p issue fresh, false)
  else if opts.conflictSkip = true then pure (s, false)
  else if opts.createOnly = true then throw (.duplicateKey issue.id)
  else if opts.rejectStaleUpserts = true ∧
      s.RowAt (p, issue.id) (fun stored => issue.updatedAt < stored.updatedAt) then pure (s, true)
  else pure (s.updateRow (p, issue.id) (issueUpsertAssignments opts issue)
    (issueUpsertAssignments_id opts issue), false)

/-- `assignCreateIssueIDInTx`. -/
def assignCreateIssueId (ctx : BatchContext) (issue : NewIssue) : Except Err String :=
  if issue.row.id = "" then
    (ctx.idSuffix s issue.plane issue).map fun suffix => generatedPrefix ctx issue ++ "-" ++ suffix
  else if ctx.opts.skipPrefixValidation = true then .ok issue.row.id
  else (validateIssueIdPrefix ctx issue.row.id).map fun _ => issue.row.id

/-- `CreateIssueInTxWithResult`. A stale snapshot is not accepted: its edges stay
out of the batch. -/
def createIssue (ctx : BatchContext) (issue : NewIssue) : Tx (Store × Option NewIssue) := do
  let prepared ← .ofExcept (prepareIssueForInsert ctx.cfg issue.invalid issue.row)
  let id ← .ofExcept (s.assignCreateIssueId ctx issue)
  let created := { issue with row := { prepared with id := id } }
  if ctx.opts.createOnly = true ∧ (s.Holds (.issues, id) ∨ s.Holds (.wisps, id)) then
    throw (.duplicateKey id)
  if s.Holds (issue.plane.sibling, id) then
    if ctx.opts.conflictSkip = true then return (s, some created)
    throw (.crossTableCollision id)
  let (written, staleRejected) ← s.insertIssueIfNew ctx.opts issue.plane created.row
  return (written, if staleRejected = true then none else some created)

end Store

/-! ## Edges -/

/-- `batchWispByID`: the plane an id of the batch goes to; the last entry wins. -/
def batchWispById (batch : List NewIssue) (id : String) : Option Bool :=
  (batch.reverse.find? fun issue => issue.row.id = id ∧ id ≠ "").map NewIssue.isWisp

/-- The source of an edge, which defaults to the issue that lists it. -/
def sourceOf (issue : NewIssue) (dep : Dependency) : String :=
  if dep.issueId = "" then issue.row.id else dep.issueId

/-- An edge between a durable and an ephemeral row of one batch. -/
def CrossesPlanes (batch : List NewIssue) (issue : NewIssue) (dep : Dependency) : Prop :=
  ∃ targetIsWisp ∈ batchWispById batch dep.dependsOnId,
    targetIsWisp ≠ (batchWispById batch dep.issueId).getD issue.isWisp

instance (batch : List NewIssue) (issue : NewIssue) (dep : Dependency) :
    Decidable (CrossesPlanes batch issue dep) :=
  inferInstanceAs (Decidable (∃ targetIsWisp ∈ batchWispById batch dep.dependsOnId, _))

/-- `filterCreateIssuesMixedBucketDependencies`. -/
def filterMixedBucketDependencies (opts : BatchCreateOptions) (batch : List NewIssue) :
    Except Err (List NewIssue) :=
  if (batch.all fun issue => issue.isWisp) ∨ (batch.all fun issue => !issue.isWisp) then .ok batch
  else batch.mapM fun issue =>
    if opts.skipDependencyValidationErrors = true then
      .ok { issue with dependencies := issue.dependencies.filter (¬ CrossesPlanes batch issue ·) }
    else match issue.dependencies.find? (CrossesPlanes batch issue ·) with
      | some dep => .error (.crossPlaneBatchEdge (sourceOf issue dep) dep.dependsOnId)
      | none => .ok issue

/-- `persistedDependency`. -/
structure PersistedDependency where
  source : Node
  target : String
  type : DependencyType

/-- The plane a kind of target is looked up in. -/
def DepTargetKind.plane : DepTargetKind → Plane
  | .wisp => .wisps
  | _ => .issues

namespace Store
variable (s : Store)

/-- The checks an edge of a batch has to pass. -/
def checkBatchDependency (dep : Dependency) (kind : DepTargetKind) : Tx Unit := do
  if kind ≠ .external ∧ extractPrefix dep.issueId = extractPrefix dep.dependsOnId then
    s.checkBlockingHierarchy dep cycleDetectionTables
  s.checkDependencyCycle dep cycleDetectionTables

/-- One edge of `PersistDependenciesWithOptionsResult`, for the table the source
was routed to. An edge without a target row is skipped, and so is one that is
already there; a refused one is skipped when the options say so. -/
def persistDependency (c : Coordinator) (opts : BatchCreateOptions)
    (persisted : List PersistedDependency) (item : Dependency × Plane) :
    Tx (Store × List PersistedDependency) := do
  let dep := item.1
  let kind := s.classifyDepTarget dep (extractPrefix dep.issueId ≠ extractPrefix dep.dependsOnId)
  if kind ≠ .external ∧ ¬ s.Holds (kind.plane, dep.dependsOnId) then return (s, persisted)
  let valid ← tryCatch (s.checkBatchDependency dep kind >>= fun _ => pure true) fun e =>
    if opts.skipDependencyValidationErrors = true then pure false else throw e
  if valid = false then return (s, persisted)
  match (s.deps item.2).find? (dep.issueId, dep.dependsOnId) with
  | some _ => return (s, persisted)
  | none =>
    let inserted ← s.insertDep item.2 ⟨dep.issueId, kind.column dep.dependsOnId, dep.type, dep.metadata⟩
    let touched ←
      if dep.type = .parentChild then inserted.touchDependencyCoordination c dep.dependsOnId item.2
      else pure inserted
    return (touched, persisted ++ [⟨(item.2, dep.issueId), dep.dependsOnId, dep.type⟩])

/-- The edges of the accepted issues with the table each source is routed to. -/
def pendingDependencies (issues : List NewIssue) : List (Dependency × Plane) :=
  issues.flatMap fun issue => issue.dependencies.map fun dep =>
    ({ dep with issueId := sourceOf issue dep }, s.routed (sourceOf issue dep))

/-- `PersistDependenciesWithOptionsResult`: hierarchy first, so that blocking
edges of the same batch are checked against the whole planned ancestry. -/
def persistDependencies (c : Coordinator) (opts : BatchCreateOptions) (issues : List NewIssue) :
    Tx (Store × List PersistedDependency) :=
  let pending := s.pendingDependencies issues
  let hierarchy := pending.filter fun item => item.1.type = .parentChild
  let others := pending.filter fun item => item.1.type ≠ .parentChild
  (hierarchy ++ others).foldlM (fun (t, persisted) item => t.persistDependency c opts persisted item)
    (s, [])

/-! ## The engine -/

/-- `createBlockedRecomputeIDs`. -/
def createBlockedRecomputeIds (issues : List NewIssue) (persisted : List PersistedDependency) :
    IDs :=
  fun p =>
    let own := (issues.filter fun issue => issue.plane = p).map fun issue => issue.row.id
    let affected := persisted.flatMap fun d => s.affectedByDepChange d.source d.target d.type p
    ((own ++ affected).filter (· ≠ "")).eraseDups

/-- The loop over the rows of a batch, with the accepted issues. -/
def createRows (ctx : BatchContext) (batch : List NewIssue) : Tx (Store × List NewIssue) :=
  batch.foldlM (fun (t, accepted) issue => do
    let (written, created) ← t.createIssue ctx issue
    return (written, accepted ++ created.toList)) (s, [])

/-- The rows of a batch, without the edges that its planes do not admit. -/
def landBatch (ctx : BatchContext) (batch : List NewIssue) : Tx (Store × List NewIssue) := do
  let issues ← .ofExcept (filterMixedBucketDependencies ctx.opts batch)
  s.createRows ctx issues

/-- What `CreateIssuesInTxWithContext` does before it recomputes flags: the rows,
the edges, and the ids to recompute. -/
def writeBatch (ctx : BatchContext) (c : Coordinator) (batch : List NewIssue) :
    Tx (Store × IDs) := do
  let (landed, accepted) ← s.landBatch ctx batch
  let (written, persisted) ← landed.persistDependencies c ctx.opts accepted
  return (written, written.createBlockedRecomputeIds accepted persisted)

/-- `CreateIssuesInTxWithContext`. -/
def createIssues (ctx : BatchContext) (c : Coordinator) (batch : List NewIssue) : Tx Store := do
  let (written, ids) ← s.writeBatch ctx c batch
  recomputeIsBlocked ids written

end Store
end Beads
