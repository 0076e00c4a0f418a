import Beads.Lifecycle

/-! `engine.go` of the tracker package: one sync of the local issues with the issues of
an external tracker. A sync detects conflicts, pulls, and pushes. The adapter of the
tracker, its remote and the hooks are parameters. Messages, counters, metadata and
dependencies are left out: none of them reaches a column of `Issue`. -/
namespace Beads
open Lib

/-- `unicode.IsSpace`. -/
def isSpace (c : Char) : Bool :=
  c.toNat ∈ [0x9, 0xa, 0xb, 0xc, 0xd, 0x20, 0x85, 0xa0, 0x1680, 0x2028, 0x2029, 0x202f, 0x205f, 0x3000] ||
    (0x2000 ≤ c.toNat && c.toNat ≤ 0x200a)

/-- `strings.TrimSpace`. -/
def trimSpace (text : String) : String :=
  String.ofList ((text.toList.dropWhile isSpace).reverse.dropWhile isSpace).reverse

/-- The columns of an issue that a sync reads or writes. -/
structure Issue where
  id : String
  title : String := ""
  description : String := ""
  priority : Int := 2
  status : Status := .open
  issueType : String := "task"
  assignee : String := ""
  labels : List String := []
  externalRef : Option String := none
  createdAt : Nat := 0
  updatedAt : Nat := 0
  ephemeral : Bool := false
  deriving DecidableEq

/-- The columns that a pull takes over from the tracker. -/
def Issue.content (issue : Issue) : String × String × Int × Status × String × String :=
  (issue.title, issue.description, issue.priority, issue.status, issue.issueType, issue.assignee)

/-- The local database: the issues of both planes, the time of the last sync and the
push fingerprints of `local_metadata`. -/
structure LocalStore where
  issues : Table Issue.id
  lastSync : Option Nat := none
  pushHash : String → Option String := fun _ => none

/-- What is known of the past of the external references. `linkedAt` is when an issue
was created or its reference last changed; `previous` is `PreviousExternalRef`, for a
store that has a history to ask. -/
structure RefHistory where
  linkedAt : String → Nat
  previous : Option (String → Nat → Option String) := none

/-- `FetchOptions`. -/
structure FetchOptions where
  state : String := ""
  since : Option Nat := none

/-- `ConflictResolution`. -/
inductive ConflictResolution where
  | timestamp | keepLocal | external
  deriving DecidableEq

/-- `SyncOptions`. The descendants of the parent, when one is given, are a predicate. -/
structure SyncOptions where
  pull : Bool := false
  push : Bool := false
  dryRun : Bool := false
  createOnly : Bool := false
  state : String := ""
  conflictResolution : ConflictResolution := .timestamp
  typeFilter : List String := []
  excludeTypes : List String := []
  excludeIdPrefix : String := ""
  excludeIdPatterns : List String := []
  excludeEphemeral : Bool := false
  descendants : Option (String → Bool) := none
  issueIds : List String := []

/-- A failed call to the tracker: the quota is used up, the request was refused for
its rate, or something else. -/
inductive Fault where
  | exhausted | rateLimited | other
  deriving DecidableEq

/-- `BatchPushItem`. -/
structure BatchPushItem where
  localId : String
  externalRef : String

/-- `IssueTracker` and its `FieldMapper`: `ε` is an issue of the tracker, `ρ` what the
tracker holds. A converted issue has an id without blanks around it, or none. -/
structure Tracker (ε ρ : Type) where
  updatedAt : ε → Nat
  identifier : ε → String
  isExternalRef : String → Bool
  extractIdentifier : String → String
  buildExternalRef : ε → String
  issueToBeads : ε → Option Issue
  trimmed : ∀ ext conv, issueToBeads ext = some conv → trimSpace conv.id = conv.id
  fetchIssues : ρ → FetchOptions → Except Fault (List ε)
  fetchIssue : ρ → String → Except Fault (Option ε)
  createIssue : ρ → Issue → ρ × Except Fault ε
  updateIssue : ρ → String → Issue → ρ × Except Fault Unit
  batchPush : Option (ρ → List Issue → List String → ρ × Except Fault (List BatchPushItem)) := none

/-- `PullHooks`. Every `GenerateID` keeps an id that is there and avoids those in use. -/
structure PullHooks (ε : Type) where
  shouldImport : ε → Bool := fun _ => true
  transformIssue : Issue → Issue := id
  generateId : Option (List String → Issue → Option String) := none
  fresh : ∀ generate ∈ generateId, ∀ taken conv id, generate taken conv = some id → id ∉ taken := by simp
  afterConvert : ε → Issue → String → Option Issue → Bool := fun _ _ _ _ => true

/-- `PushHooks`. -/
structure PushHooks (ε : Type) where
  formatDescription : Issue → String := Issue.description
  contentEqual : Option (Issue → ε → Bool) := none
  contentHash : Issue → String := fun _ => ""
  targetScope : String := ""
  shouldPush : Issue → Bool := fun _ => true

/-- What the engine reads besides: configuration and clock, the prefix of local ids,
`strings.ToLower`, and how the store treats a new issue: the id it assigns and whether
it accepts the issue. -/
structure SyncContext where
  cfg : Config := {}
  issuePrefix : String := "bd"
  toLower : String → String := String.toLower
  newId : List String → Issue → String
  fresh : ∀ taken issue, newId taken issue ∉ taken
  accepts : Issue → Bool := fun _ => true

/-- `Engine`. -/
structure Engine (ε ρ : Type) where
  tracker : Tracker ε ρ
  pullHooks : PullHooks ε := {}
  pushHooks : PushHooks ε := {}
  ctx : SyncContext

/-- Both sides of a sync. -/
structure SyncState (ρ : Type) where
  store : LocalStore
  remote : ρ

/-! ## The local store -/

/-- `normalizedStringSet`. -/
def normalizedStringSet (values : List String) : List String :=
  ((values.map trimSpace).filter (· ≠ "")).dedup

/-- `equalNormalizedStrings`. -/
def equalNormalizedStrings (a b : List String) : Bool :=
  normalizedStringSet a ⊆ normalizedStringSet b && normalizedStringSet b ⊆ normalizedStringSet a

/-- `syncIssueLabels`. -/
def syncIssueLabels (current desired : List String) : List String :=
  let before := normalizedStringSet current
  let after := normalizedStringSet desired
  current.filter (fun label => ¬ (label ∈ before ∧ label ∉ after)) ++ after.filter (· ∉ before)

/-- The columns of `buildPullIssueUpdates` with the labels. `existing` is the row as the
pull has read it. -/
def pullIssueUpdates (existing remote : Issue) (ref : String) (stored : Issue) : Issue :=
  { stored with
    title := remote.title
    description := remote.description
    priority := remote.priority
    status := remote.status
    issueType := remote.issueType
    assignee := remote.assignee
    labels := syncIssueLabels stored.labels remote.labels
    externalRef :=
      if trimSpace ref = "" ∨ existing.externalRef.map trimSpace = some (trimSpace ref) then stored.externalRef
      else some (trimSpace ref) }

/-- `pullIssueEqual`. -/
def pullIssueEqual (stored remote : Issue) (ref : String) : Bool :=
  stored.title = remote.title && stored.description = remote.description &&
    stored.priority = remote.priority && stored.status = remote.status && stored.issueType = remote.issueType &&
    trimSpace stored.assignee = trimSpace remote.assignee &&
    equalNormalizedStrings stored.labels remote.labels &&
    (stored.externalRef.map trimSpace).getD "" = trimSpace ref

/-- A write to a row is stamped when it changes something. -/
def Issue.stamped (now : Nat) (f : Issue → Issue) (issue : Issue) : Issue :=
  if f issue = issue then issue else { f issue with updatedAt := now }

theorem Issue.stamped_id {now : Nat} {f : Issue → Issue} (keeps : ∀ r, (f r).id = r.id)
    (issue : Issue) : (issue.stamped now f).id = issue.id := by
  unfold Issue.stamped
  split
  · rfl
  · exact keeps issue

namespace LocalStore
variable (s : LocalStore)

/-- The ids in use. -/
def ids : List String := s.issues.rows.map Issue.id

/-- `GetIssueByExternalRef`. -/
def issueByExternalRef (ref : String) : Option Issue :=
  s.issues.rows.find? fun issue => issue.externalRef = some ref

/-- `UpdateIssue`. -/
def updateIssue (now : Nat) (id : String) (f : Issue → Issue) (keeps : ∀ r, (f r).id = r.id) :
    LocalStore :=
  let issues := s.issues.update (fun r => if r.id = id then r.stamped now f else r) (fun r => by
    split <;> simp only [Issue.stamped_id keeps])
  { s with issues := issues }

/-- `applyPullIssueUpdate`. A changed type or assignee has to be a valid one. -/
def applyPullIssueUpdate (cfg : Config) (existing conv : Issue) (ref : String) :
    Option LocalStore :=
  match s.issues.find? existing.id with
  | none => none
  | some stored =>
    if (conv.issueType ≠ stored.issueType ∧ ¬ cfg.IsValidType conv.issueType) ∨
        (conv.assignee ≠ stored.assignee ∧ 255 < conv.assignee.length) then none
    else some (s.updateIssue cfg.now existing.id (pullIssueUpdates existing conv ref) fun _ => rfl)

/-- `CreateIssue`, with the id of the new issue. An issue with the id of a stored one
overwrites it. -/
def createIssue (ctx : SyncContext) (issue : Issue) : Option (LocalStore × String) :=
  let row : Issue := { issue with
    id := if issue.id = "" then ctx.newId s.ids issue else issue.id
    createdAt := if issue.createdAt = 0 then ctx.cfg.now else issue.createdAt
    updatedAt := if issue.updatedAt = 0 then ctx.cfg.now else issue.updatedAt }
  if ctx.accepts row then
    some ({ s with issues := (s.issues.delete fun r => r.id = row.id).insertIgnore row }, row.id)
  else none

/-- `UPDATE … SET external_ref`. -/
def setExternalRef (now : Nat) (id ref : String) : LocalStore :=
  s.updateIssue now id (fun r => { r with externalRef := some ref }) fun _ => rfl

end LocalStore

/-- `externalRefChangedAfter`. -/
def RefHistory.externalRefChangedAfter (history : RefHistory) (issue : Issue) (currentRef : String)
    (lastSync : Nat) : Bool :=
  match history.previous with
  | none => lastSync < issue.createdAt || lastSync < issue.updatedAt
  | some previousExternalRef =>
    match previousExternalRef issue.id lastSync with
    | none => true
    | some previousRef => trimSpace previousRef ≠ trimSpace currentRef

/-- `Conflict`. -/
structure Conflict where
  issueId : String
  localUpdated : Nat
  externalUpdated : Nat

/-- The issues that a conflict keeps from the push, forces into it, or lets the pull
overwrite. -/
structure Verdicts where
  skip : List String := []
  force : List String := []
  allow : List String := []

/-- `resolveConflicts`. -/
def resolveConflicts (resolution : ConflictResolution) (conflicts : List Conflict) : Verdicts :=
  conflicts.foldl (fun verdicts c =>
    let keepLocal := { verdicts with force := c.issueId :: verdicts.force }
    let keepExternal :=
      { verdicts with skip := c.issueId :: verdicts.skip, allow := c.issueId :: verdicts.allow }
    match resolution with
    | .keepLocal => keepLocal
    | .external => keepExternal
    | .timestamp => if c.externalUpdated < c.localUpdated then keepLocal else keepExternal) {}

namespace Engine
variable {ε ρ : Type} (e : Engine ε ρ)

/-- `DetectConflicts`: the linked issues that changed on both sides since the last
sync. An issue that cannot be fetched is none. -/
def detectConflicts (state : SyncState ρ) : List Conflict :=
  match state.store.lastSync with
  | none => []
  | some lastSync => state.store.issues.rows.filterMap fun issue =>
    let extRef := issue.externalRef.getD ""
    if extRef = "" ∨ e.tracker.isExternalRef extRef = false ∨ issue.updatedAt ≤ lastSync ∨
        e.tracker.extractIdentifier extRef = "" then none
    else match e.tracker.fetchIssue state.remote (e.tracker.extractIdentifier extRef) with
      | .ok (some ext) =>
        if lastSync < e.tracker.updatedAt ext then some ⟨issue.id, issue.updatedAt, e.tracker.updatedAt ext⟩
        else none
      | _ => none

/-! ## Pull -/

/-- The reference of an issue, if the tracker knows it. -/
def linkedRef (issue : Issue) : Option String :=
  (issue.externalRef.map trimSpace).filter fun ref => ref ≠ "" && e.tracker.isExternalRef ref

/-- What `fetchPrelinkedIssues` has gathered. -/
structure Hydration (ε : Type) where
  hydrated : List ε := []
  localIds : List String := []
  seen : List String

/-- The names under which `fetchPrelinkedIssues` remembers an identifier. -/
def seenAs (identifier : String) : List String :=
  if identifier = "" then [] else [identifier, e.ctx.toLower identifier]

/-- One turn of `fetchPrelinkedIssues`: a linked issue whose reference counts as changed
is fetched unless its identifier has been seen. -/
def hydrateIssue (history : RefHistory) (remote : ρ) (lastSync : Nat) (state : Hydration ε)
    (issue : Issue) :
    Except Fault (Hydration ε) :=
  match e.linkedRef issue with
  | none => .ok state
  | some ref =>
    let identifier := trimSpace (e.tracker.extractIdentifier ref)
    if history.externalRefChangedAfter issue ref lastSync = false ∨ identifier = "" ∨
        identifier ∈ state.seen ∨ e.ctx.toLower identifier ∈ state.seen then .ok state
    else do
      match ← e.tracker.fetchIssue remote identifier with
      | none => return state
      | some ext => return {
          hydrated := state.hydrated ++ [ext]
          localIds := state.localIds ++ [issue.id]
          seen := state.seen ++ e.seenAs identifier }

/-- `fetchPrelinkedIssues`. -/
def fetchPrelinkedIssues (history : RefHistory) (remote : ρ) (fetched : List ε)
    (locals : List Issue) :
    Option Nat → Except Fault (List ε × List String)
  | none => .ok ([], [])
  | some lastSync => do
    let seen := fetched.flatMap fun ext => e.seenAs (trimSpace (e.tracker.identifier ext)) ++
      e.seenAs (trimSpace (e.tracker.extractIdentifier (e.tracker.buildExternalRef ext)))
    let found ← locals.foldlM (e.hydrateIssue history remote lastSync) { seen := seen }
    return (found.hydrated, found.localIds)

/-- `isBeadID`. -/
def isBeadId (id : String) : Bool :=
  e.ctx.issuePrefix ≠ "" && id ≠ "" && (e.ctx.issuePrefix ++ "-").toList.isPrefixOf id.toList

/-- `localByID`. -/
def localById (locals : List Issue) (id : String) : Option Issue :=
  if id = "" then none else locals.reverse.find? fun issue => trimSpace issue.id = id

/-- `localByExternalIdentifier`. -/
def localByExternalIdentifier (locals : List Issue) (identifier : String) : Option Issue :=
  if identifier = "" then none
  else locals.reverse.find? fun issue => (e.linkedRef issue).map e.tracker.extractIdentifier = some identifier

/-- The selective fetch of a pull: a bead id stands for the issue it is linked to. -/
def fetchSelected (remote : ρ) (locals : List Issue) (issueIds : List String) : List ε :=
  issueIds.filterMap fun id =>
    let identifier :=
      if e.isBeadId id then
        ((localById locals id).bind Issue.externalRef).map e.tracker.extractIdentifier |>.getD ""
      else id
    if e.isBeadId id ∧ identifier = "" then none
    else match e.tracker.fetchIssue remote identifier with
      | .ok ext => ext
      | .error _ => none

/-- The issues that a pull goes through, and the local issues among them that were
hydrated. -/
def pullCandidates (history : RefHistory) (opts : SyncOptions) (state : SyncState ρ) :
    Except Fault (List ε × List String) :=
  let locals := state.store.issues.rows
  if opts.issueIds ≠ [] then .ok (e.fetchSelected state.remote locals opts.issueIds, [])
  else do
    let fetched ← e.tracker.fetchIssues state.remote { state := opts.state, since := state.store.lastSync }
    let (hydrated, localIds) ← e.fetchPrelinkedIssues history state.remote fetched locals state.store.lastSync
    return (fetched ++ hydrated, localIds)

/-- The local issue that an issue of the tracker stands for: by its reference, by its
identifier, or by the id it was converted to. -/
def existing (store : LocalStore) (locals : List Issue) (ref : String) (conv : Issue) :
    Option Issue :=
  ((store.issueByExternalRef ref).or
    (if ref = "" then none else e.localByExternalIdentifier locals (e.tracker.extractIdentifier ref))).or
      (localById locals (trimSpace conv.id))

/-- `GenerateID`. -/
def generateId (taken : List String) (conv : Issue) : Option String :=
  if conv.id ≠ "" then some conv.id
  else match e.pullHooks.generateId with
    | none => some ""
    | some generate => generate taken conv

/-- The end of a turn of `doPull`: the local issue that was found is updated, or a new
one is created. -/
def importIssue (opts : SyncOptions) (lastSync : Option Nat) (allow hydratedIds : List String)
    (state : LocalStore × List String) (ext : ε) (conv : Issue) (ref : String) :
    Option Issue → LocalStore × List String
  | some row =>
    -- A local edit since the last sync is left to the conflict resolution.
    if (∃ t ∈ lastSync, t < row.updatedAt ∧ row.id ∉ allow ∧ row.id ∉ hydratedIds) ∨
        e.pullHooks.afterConvert ext conv ref (some row) = false ∨ pullIssueEqual row conv ref = true ∨
        opts.dryRun = true then state
    else ((state.1.applyPullIssueUpdate e.ctx.cfg row conv ref).getD state.1, row.id :: state.2)
  | none =>
    if e.pullHooks.afterConvert ext conv ref none = false ∨ opts.dryRun = true then state
    else match state.1.createIssue e.ctx { conv with externalRef := some ref } with
      | none => state
      | some (created, id) => (created, id :: state.2)

/-- `TransformIssue`. -/
def transformIssue (conv : Issue) : Issue := { e.pullHooks.transformIssue conv with id := conv.id }

/-- One turn of the loop of `doPull`. The local issues were read before the loop. -/
def pullIssue (opts : SyncOptions) (locals : List Issue) (lastSync : Option Nat)
    (allow hydratedIds : List String)
    (state : LocalStore × List String) (ext : ε) : LocalStore × List String :=
  if e.pullHooks.shouldImport ext = false then state
  else match e.tracker.issueToBeads ext with
    | none => state
    | some converted =>
      let ref := e.tracker.buildExternalRef ext
      match e.generateId state.1.ids (e.transformIssue converted) with
      | none => state
      | some id => e.importIssue opts lastSync allow hydratedIds state ext
          { e.transformIssue converted with id := id } ref (e.existing state.1 locals ref converted)

/-- `doPull`, with the ids of the issues it has written. -/
def doPull (history : RefHistory) (opts : SyncOptions) (allow : List String) (state : SyncState ρ) :
    Except Fault (LocalStore × List String) := do
  let (candidates, hydratedIds) ← e.pullCandidates history opts state
  return candidates.foldl
    (e.pullIssue opts state.store.issues.rows state.store.lastSync allow hydratedIds) (state.store, [])

/-! ## Push -/

/-- `pushCacheValue`. -/
def pushCacheValue (issue : Issue) (externalRef : String) : String :=
  let content := e.pushHooks.contentHash issue
  let target := trimSpace externalRef
  let scope := trimSpace e.pushHooks.targetScope
  if content = "" ∨ target = "" then ""
  else "v3:" ++ toString content.utf8ByteSize ++ ":" ++ content ++
    toString scope.utf8ByteSize ++ ":" ++ scope ++ target

/-- `storedPushHashMatches`. -/
def StoredPushHashMatches (store : LocalStore) (issue : Issue) (externalRef : String) : Prop :=
  e.pushCacheValue issue externalRef ≠ "" ∧ store.pushHash issue.id = some (e.pushCacheValue issue externalRef)

instance (store : LocalStore) (issue : Issue) (externalRef : String) :
    Decidable (e.StoredPushHashMatches store issue externalRef) :=
  inferInstanceAs (Decidable (_ ∧ _))

/-- `recordPushHash`. -/
def recordPushHash (store : LocalStore) (issue : Issue) (externalRef : String) : LocalStore :=
  let value := e.pushCacheValue issue externalRef
  if value = "" then store
  else { store with pushHash := Function.update store.pushHash issue.id (some value) }

/-- `shouldPushIssue`. -/
def shouldPushIssue (opts : SyncOptions) (issue : Issue) : Bool :=
  !(opts.excludeEphemeral && issue.ephemeral) &&
    (opts.typeFilter = [] || issue.issueType ∈ opts.typeFilter) &&
    issue.issueType ∉ opts.excludeTypes &&
    !(opts.excludeIdPrefix ≠ "" && opts.excludeIdPrefix.toList.isPrefixOf issue.id.toList) &&
    (opts.excludeIdPatterns.all fun p => p = "" || !issue.id.toList.tails.any fun t => p.toList.isPrefixOf t) &&
    !(opts.state = "open" && issue.status = .closed)

/-- The issues that a push goes through. -/
def pushCandidates (opts : SyncOptions) (verdicts : Verdicts) (store : LocalStore) : List Issue :=
  store.issues.rows.filter fun issue =>
    (opts.issueIds = [] || issue.id ∈ opts.issueIds) &&
      ((opts.descendants.map fun within => within issue.id).getD true) &&
      shouldPushIssue opts issue && e.pushHooks.shouldPush issue && issue.id ∉ verdicts.skip

/-- `formatPushIssue`. -/
def formatPushIssue (issue : Issue) : Issue :=
  { issue with description := e.pushHooks.formatDescription issue }

/-- How the loop of a push goes on. -/
inductive PushOutcome where
  | next | stop | fail
  deriving DecidableEq

def Fault.outcome : Fault → PushOutcome
  | .exhausted => .fail
  | .rateLimited => .stop
  | .other => .next

/-- An issue without a counterpart is created in the tracker and linked. -/
def pushCreate (state : SyncState ρ) (issue : Issue) : SyncState ρ × PushOutcome :=
  match e.tracker.createIssue state.remote (e.formatPushIssue issue) with
  | (remote, .error fault) => ({ state with remote := remote }, Fault.outcome fault)
  | (remote, .ok created) =>
    let ref := e.tracker.buildExternalRef created
    let linked := state.store.setExternalRef e.ctx.cfg.now issue.id ref
    ({ store := e.recordPushHash linked issue ref, remote := remote }, .next)

/-- The update of a counterpart. -/
def pushWrite (state : SyncState ρ) (issue : Issue) (extRef : String) : SyncState ρ × PushOutcome :=
  match e.tracker.updateIssue state.remote (e.tracker.extractIdentifier extRef) (e.formatPushIssue issue) with
  | (remote, .error fault) => ({ state with remote := remote }, Fault.outcome fault)
  | (remote, .ok ()) =>
    ({ store := e.recordPushHash state.store issue extRef, remote := remote }, .next)

/-- The check whether a counterpart needs the update: the stored fingerprint first, then
the counterpart itself. -/
def pushUpdate (state : SyncState ρ) (issue : Issue) (extRef : String) :
    SyncState ρ × PushOutcome :=
  if e.StoredPushHashMatches state.store issue extRef then (state, .next)
  else match e.tracker.fetchIssue state.remote (e.tracker.extractIdentifier extRef) with
    | .error .exhausted => (state, .fail)
    | .ok (some ext) =>
      match e.pushHooks.contentEqual with
      | some contentEqual =>
        if contentEqual issue ext then ({ state with store := e.recordPushHash state.store issue extRef }, .next)
        else e.pushWrite state issue extRef
      | none =>
        if e.tracker.updatedAt ext < issue.updatedAt then e.pushWrite state issue extRef else (state, .next)
    | _ => e.pushWrite state issue extRef

/-- One turn of the loop of `doPush`. -/
def pushIssue (opts : SyncOptions) (force : List String) (state : SyncState ρ) (issue : Issue) :
    SyncState ρ × PushOutcome :=
  let extRef := issue.externalRef.getD ""
  if extRef = "" ∨ e.tracker.isExternalRef extRef = false then e.pushCreate state issue
  else if opts.createOnly = true ∧ issue.id ∉ force then (state, .next)
  else if e.tracker.extractIdentifier extRef = "" then (state, .next)
  else if issue.id ∈ force then e.pushWrite state issue extRef
  else e.pushUpdate state issue extRef

/-- The loop of `doPush`, with whether it fails. -/
def pushIssues (opts : SyncOptions) (force : List String) :
    List Issue → SyncState ρ → SyncState ρ × Bool
  | [], state => (state, true)
  | issue :: rest, state =>
    match e.pushIssue opts force state issue with
    | (after, .next) => pushIssues opts force rest after
    | (after, .stop) => (after, true)
    | (after, .fail) => (after, false)

/-- `applyBatchPushResult`. -/
def applyBatchPushResult (store : LocalStore) (items : List BatchPushItem) : LocalStore :=
  items.foldl (fun store item =>
    if item.localId = "" ∨ trimSpace item.externalRef = "" then store
    else store.setExternalRef e.ctx.cfg.now item.localId (trimSpace item.externalRef)) store

/-- `doPush`, with whether it fails. A dry run writes nothing. -/
def doPush (opts : SyncOptions) (verdicts : Verdicts) (state : SyncState ρ) : SyncState ρ × Bool :=
  let candidates := e.pushCandidates opts verdicts state.store
  if opts.dryRun = true then (state, true)
  else match e.tracker.batchPush with
    | none => e.pushIssues opts verdicts.force candidates state
    | some batchPush =>
      let linked (issue : Issue) : Bool :=
        issue.externalRef.getD "" ≠ "" && e.tracker.isExternalRef (issue.externalRef.getD "")
      let batch := (candidates.filter fun issue =>
        !(linked issue && opts.createOnly && issue.id ∉ verdicts.force)).map e.formatPushIssue
      if batch = [] then (state, true)
      else match batchPush state.remote batch verdicts.force with
        | (remote, .error _) => ({ state with remote := remote }, false)
        | (remote, .ok items) =>
          ({ store := e.applyBatchPushResult state.store items, remote := remote }, true)

/-! ## Sync -/

/-- One second of the clock. -/
def second : Nat := 1000000000

/-- `Sync`. A failed phase ends it, without a new time of the last sync; what the
phases before have written stays. -/
def sync (history : RefHistory) (opts : SyncOptions) (state : SyncState ρ) : SyncState ρ :=
  let pull := opts.pull || !opts.push
  let push := opts.push || !opts.pull
  let verdicts : Verdicts :=
    if pull && push then resolveConflicts opts.conflictResolution (e.detectConflicts state) else {}
  let stamp (state : SyncState ρ) : SyncState ρ :=
    if opts.dryRun then state
    else { state with store := { state.store with lastSync := some ((e.ctx.cfg.now / second + 1) * second) } }
  let pushed (state : SyncState ρ) (skip : List String) : SyncState ρ :=
    if push then
      let (after, succeeded) := e.doPush opts { verdicts with skip := skip } state
      if succeeded then stamp after else after
    else stamp state
  if pull then
    match e.doPull history opts verdicts.allow state with
    | .error _ => state
    | .ok (store, pulled) => pushed { state with store := store } (pulled ++ verdicts.skip)
  else pushed state verdicts.skip

end Engine
end Beads
