import Beads.Lib.Graph
import Beads.Query
import Beads.Search

/-! Ready work (`issueops/ready_work.go`, `sqlbuild/ready.go`): the durable issues come from one
query with an order and a bound, the wisps from pages of another query whose rows are filtered once
more, and the two are merged by a comparison in memory. Both tables exist. One reading of the clock,
in nanoseconds, serves a whole call; times in rows are seconds. `REGEXP` is the database's. -/
namespace Beads
open Lib

/-! ## Rows and filters -/

/-- The columns of `issues` and `wisps` that ready work reads, with the labels of the row. -/
structure WorkIssue extends SearchIssue where
  deferUntil : Option Nat := none
  isBlocked : Bool := false
  molType : String := ""
  wispType : String := ""
  labels : List String := []
  metadata : Metadata := .empty
  deriving DecidableEq

def WorkIssue.key (row : WorkIssue) : String := row.id

structure WorkStore where
  rows : Plane → Table WorkIssue.key
  deps : Plane → Table Dep.key

/-- `types.SortPolicy`; every other name is taken as well. -/
inductive SortPolicy where
  | unset
  | hybrid
  | priority
  | oldest
  | other (name : String)
  deriving DecidableEq

/-- `types.WorkFilter`; the empty text is no status. The fields that only the listing with counts
reads are left out. -/
structure WorkFilter where
  status : Option Status := none
  statuses : List Status := []
  type : String := ""
  priority : Option Int := none
  assignee : Option String := none
  unassigned : Bool := false
  labels : List String := []
  labelsAny : List String := []
  excludeLabels : List String := []
  labelPattern : String := ""
  labelRegex : String := ""
  limit : Int := 0
  sortPolicy : SortPolicy := .unset
  parentID : Option String := none
  moleculeID : String := ""
  molType : Option String := none
  wispType : Option String := none
  includeDeferred : Bool := false
  includeEphemeral : Bool := false
  excludeTypes : List String := []
  metadataFields : List (String × String) := []
  hasMetadataKey : String := ""
  maxRows : Nat := 0
  maxRowsSource : String := ""

/-- What the query is refused with. -/
inductive WorkError where
  | invalidMetadataKey (message : String)
  | tooManyRows (error : ErrTooManyRows)
  deriving DecidableEq

/-! ## Order -/

/-- The age up to which an issue is recent: 48 hours. -/
def recentWindow : Nat := 48 * 3600 * nanosecondsPerSecond

/-- `created_at >= cutoff`. -/
def WorkIssue.recent (now : Nat) (row : WorkIssue) : Bool :=
  now ≤ row.createdAt * nanosecondsPerSecond + recentWindow

namespace SortPolicy

def byCreated : WorkIssue → WorkIssue → Ordering :=
  compareLex (compareOn (·.createdAt)) (compareOn (·.id))

def byPriority : WorkIssue → WorkIssue → Ordering := compareLex (compareOn (·.priority)) byCreated

/-- `BuildReadyWorkOrder`. -/
def order (now : Nat) : SortPolicy → WorkIssue → WorkIssue → Ordering
  | .oldest => byCreated
  | .priority | .other _ => byPriority
  | .hybrid | .unset =>
    compareLex (compareOn fun row => if row.recent now then 0 else 1)
      (compareLex (compareOn fun row => if row.recent now then row.priority else 999) byCreated)

/-- `issueCreatedBefore`. -/
def issueCreatedBefore (a b : WorkIssue) : Bool :=
  if a.createdAt ≠ b.createdAt then a.createdAt < b.createdAt else a.id < b.id

/-- `issuePriorityBefore`. -/
def issuePriorityBefore (a b : WorkIssue) : Bool :=
  if a.priority ≠ b.priority then a.priority < b.priority
  else if a.createdAt ≠ b.createdAt then a.createdAt < b.createdAt
  else a.id < b.id

/-- The comparison of `sortReadyIssues`. -/
def before (now : Nat) : SortPolicy → WorkIssue → WorkIssue → Bool
  | .oldest, a, b => issueCreatedBefore a b
  | .priority, a, b => issuePriorityBefore a b
  | .hybrid, a, b | .unset, a, b =>
    let aRecent := a.recent now
    let bRecent := b.recent now
    if aRecent ≠ bRecent then aRecent
    else if aRecent = true ∧ a.priority ≠ b.priority then a.priority < b.priority
    else issueCreatedBefore a b
  | .other _, a, b => issuePriorityBefore a b

/-- `ORDER BY`. -/
def OrderedBefore (policy : SortPolicy) (now : Nat) (a b : WorkIssue) : Prop :=
  (policy.order now a b).isLE = true

instance (policy : SortPolicy) (now : Nat) : DecidableRel (policy.OrderedBefore now) := fun _ _ =>
  inferInstanceAs (Decidable (_ = true))

/-- `sortReadyIssues`, which is stable. -/
def sortReadyIssues (policy : SortPolicy) (now : Nat) (rows : List WorkIssue) : List WorkIssue :=
  rows.insertionSort fun a b => ¬ policy.before now b a

end SortPolicy

/-- A `LIMIT` clause, which is left out for zero. -/
def limitClause (limit : Nat) (rows : List WorkIssue) : List WorkIssue :=
  if 0 < limit then rows.take limit else rows

/-- `EffectiveSearchLimit`, which passes on a limit below zero; that gives no clause. -/
def WorkFilter.effectiveLimit (filter : WorkFilter) : Nat :=
  if filter.limit < 0 then 0 else effectiveSearchLimit filter.limit.toNat filter.maxRows

/-! ## Labels and types -/

/-- `globToLikePattern`. -/
def globToLikePattern (pattern : List Char) : List Char :=
  pattern.flatMap fun c =>
    if c = '%' ∨ c = '_' ∨ c = '|' then ['|', c]
    else if c = '*' then ['%']
    else if c = '?' then ['_']
    else [c]

/-- `LIKE … ESCAPE '|'`. -/
def likeEscaped : List Char → List Char → Bool
  | [], text => text.isEmpty
  | '%' :: pattern, text => text.tails.any (likeEscaped pattern)
  | '_' :: pattern, _ :: text => likeEscaped pattern text
  | '|' :: literal :: pattern, c :: text => literal == c && likeEscaped pattern text
  | literal :: pattern, c :: text => literal == c && likeEscaped pattern text
  | _ :: _, [] => false

/-- `ReadyWorkExcludeTypes`. -/
def readyWorkExcludeTypes (extra : List String) : List String :=
  extra.foldl (fun out type => if type = "" ∨ type ∈ out then out else out ++ [type])
    ["merge-request", "gate", "molecule", "rig", "agent", "role", "message"]

/-- `CompactNonEmptyStrings`. -/
def compactNonEmptyStrings (values : List String) : List String := values.filter (· ≠ "")

/-- The metadata clauses of `AppendMetadataClauses`. -/
def WorkIssue.HasMetadata (row : WorkIssue) (hasKey : String) (fields : List (String × String)) :
    Prop :=
  (hasKey ≠ "" → row.metadata.extract hasKey ≠ none) ∧
    ∀ field ∈ fields, row.metadata.extract field.1 = some field.2

instance (row : WorkIssue) (hasKey : String) (fields : List (String × String)) :
    Decidable (row.HasMetadata hasKey fields) := inferInstanceAs (Decidable (_ ∧ _))

/-- The statuses that are asked for. -/
def WorkFilter.wantedStatuses (filter : WorkFilter) : List Status :=
  match filter.status with
  | some status => [status]
  | none => if filter.statuses ≠ [] then filter.statuses else [.open, .inProgress]

/-- The first key that `AppendMetadataClauses` refuses; the fields go by key. -/
def WorkFilter.invalidKey? (filter : WorkFilter) : Option String :=
  let keys := (filter.metadataFields.map Prod.fst).insertionSort (· ≤ ·)
  ((if filter.hasMetadataKey ≠ "" then [filter.hasMetadataKey] else []) ++ keys).find?
    fun key => !Query.validMetadataKey key

/-! ## Parents -/

/-- `defer_until > UTC_TIMESTAMP()`. -/
def WorkIssue.Deferred (row : WorkIssue) (now : Nat) : Prop :=
  ∃ time ∈ row.deferUntil, now < time * nanosecondsPerSecond

instance (row : WorkIssue) (now : Nat) : Decidable (row.Deferred now) :=
  inferInstanceAs (Decidable (∃ _ ∈ _, _))

namespace WorkStore
variable (s : WorkStore)

/-- The parent-child edges of one table. -/
def parentEdges (p : Plane) : List Dep := (s.deps p).rows.filter (·.type = .parentChild)

/-- The id has a parent in the table. -/
def HasParent (p : Plane) (id : String) : Prop := ∃ d ∈ s.parentEdges p, d.issueId = id

instance (p : Plane) : DecidablePred (s.HasParent p) :=
  fun _ => inferInstanceAs (Decidable (∃ _ ∈ _, _))

/-- `GetDescendantIDsInTx` without a depth. -/
def getDescendantIDs (rootID : String) : List String :=
  let edges := (s.parentEdges .issues ++ s.parentEdges .wisps).map fun d => (d.target.id, d.issueId)
  if rootID = "" then [] else (Graph.reachable edges rootID).filter (· ≠ rootID)

/-- `getChildrenOfDeferredParentsInTx`. -/
def getChildrenOfDeferredParents (now : Nat) : List String :=
  ((s.parentEdges .issues ++ s.parentEdges .wisps).filter fun d =>
    ∃ p ∈ Plane.all, ∃ parent ∈ (s.rows p).rows, d.target = .node (p, parent.id) ∧ parent.Deferred now).map Dep.issueId

/-- `deferredChildIDs`. -/
def deferredChildIDs (now : Nat) (filter : WorkFilter) : List String :=
  if filter.includeDeferred then [] else s.getChildrenOfDeferredParents now

/-- The clause on the direct children of an id: by an edge, or by the id itself if there is none. -/
def ChildOf (p : Plane) (parentID : String) (id : String) : Prop :=
  (∃ d ∈ s.parentEdges p, d.issueId = id ∧ d.target.id = parentID) ∨
    like (parentID.toList ++ ['.', '%']) id.toList = true ∧ ¬ s.HasParent p id

instance (p : Plane) (parentID : String) : DecidablePred (s.ChildOf p parentID) := fun _ =>
  inferInstanceAs (Decidable (_ ∨ _))

/-! ## Durable issues -/

variable (regexp : String → String → Bool) (now : Nat) (filter : WorkFilter)

/-- `BuildReadyWorkWhere` for `issues`. -/
def ReadyIssue (row : WorkIssue) : Prop :=
  row.status ∈ filter.wantedStatuses ∧ row.pinned = false ∧ row.isBlocked = false ∧
    (filter.includeEphemeral = false → row.ephemeral = false) ∧
    (∀ priority ∈ filter.priority, row.priority = priority) ∧
    (if filter.type ≠ "" then row.issueType = filter.type
      else row.issueType ∉ readyWorkExcludeTypes filter.excludeTypes) ∧
    (if filter.unassigned = true then row.assignee.getD "" = ""
      else ∀ assignee ∈ filter.assignee, row.assignee = some assignee) ∧
    (filter.includeDeferred = false → ¬ row.Deferred now ∧ row.id ∉ s.deferredChildIDs now filter) ∧
    (∀ label ∈ filter.labels, label ∈ row.labels) ∧
    (filter.labelsAny ≠ [] → ∃ label ∈ row.labels, label ∈ filter.labelsAny) ∧
    (∀ label ∈ row.labels, label ∉ filter.excludeLabels) ∧
    (filter.labelPattern ≠ "" →
      ∃ label ∈ row.labels, likeEscaped (globToLikePattern filter.labelPattern.toList) label.toList = true) ∧
    (filter.labelRegex ≠ "" → ∃ label ∈ row.labels, regexp filter.labelRegex label = true) ∧
    (∀ parentID ∈ filter.parentID,
      (like (parentID.toList ++ ['.', '%']) row.id.toList = true ∧ ¬ s.HasParent .issues row.id) ∨
        row.id ∈ s.getDescendantIDs parentID) ∧
    (filter.moleculeID ≠ "" → s.ChildOf .issues filter.moleculeID row.id) ∧
    row.HasMetadata filter.hasMetadataKey filter.metadataFields

instance : DecidablePred (s.ReadyIssue regexp now filter) :=
  fun _ => inferInstanceAs (Decidable (_ ∧ _))

/-- The rows that a query returns. -/
def query (p : Plane) (where_ : WorkIssue → Prop) [DecidablePred where_] : List WorkIssue :=
  ((s.rows p).rows.filter where_).insertionSort (filter.sortPolicy.OrderedBefore now)

/-- `GetIssuesByIDsInTx` without a given set of wisps: an id in both tables is read as a wisp. -/
def getIssuesByIDs (ids : List String) : List WorkIssue :=
  ids.filterMap fun id => ((s.rows .wisps).find? id).or ((s.rows .issues).find? id)

/-- The query for the durable issues. -/
def readyIssues : List WorkIssue :=
  let rows := s.query now filter .issues (s.ReadyIssue regexp now filter)
  s.getIssuesByIDs ((limitClause filter.effectiveLimit rows).map WorkIssue.key)

end WorkStore

/-! ## Wisps -/

/-- The fields of `types.IssueFilter` that `readyWorkWispIssueFilter` sets. -/
structure WispFilter where
  statuses : List Status
  priority : Option Int
  labels : List String
  labelsAny : List String
  excludeLabels : List String
  molType : Option String
  wispType : Option String
  pinned : Bool
  metadataFields : List (String × String)
  hasMetadataKey : String
  maxRows : Nat
  issueType : Option String
  excludeTypes : List String
  noAssignee : Bool
  assignee : Option String
  parentID : Option String
  ephemeral : Option Bool

/-- `readyWorkWispIssueFilter`; one status is a list of one. -/
def readyWorkWispIssueFilter (filter : WorkFilter) : WispFilter where
  statuses := filter.wantedStatuses
  priority := filter.priority
  labels := filter.labels
  labelsAny := filter.labelsAny
  excludeLabels := filter.excludeLabels
  molType := filter.molType
  wispType := filter.wispType
  pinned := false
  metadataFields := filter.metadataFields
  hasMetadataKey := filter.hasMetadataKey
  maxRows := filter.maxRows
  issueType := if filter.type ≠ "" then some filter.type else none
  excludeTypes := if filter.type ≠ "" then [] else readyWorkExcludeTypes filter.excludeTypes
  noAssignee := filter.unassigned
  assignee := if filter.unassigned then none else filter.assignee
  parentID := if filter.moleculeID ≠ "" then some filter.moleculeID else none
  ephemeral := if filter.includeEphemeral then none else some false

namespace WorkStore
variable (s : WorkStore) (now : Nat) (filter : WorkFilter)

/-- The label clauses: `BuildLabelDrivenSearch` drops empty labels, unless there are no others. -/
def MatchesLabels (filter : WispFilter) (row : WorkIssue) : Prop :=
  let plain :=
    compactNonEmptyStrings filter.labels = [] ∧ compactNonEmptyStrings filter.labelsAny = []
  let labels := if plain then filter.labels else compactNonEmptyStrings filter.labels
  let labelsAny := if plain then filter.labelsAny else compactNonEmptyStrings filter.labelsAny
  (∀ label ∈ labels, label ∈ row.labels) ∧ (labelsAny ≠ [] → ∃ label ∈ row.labels, label ∈ labelsAny) ∧
    ∀ label ∈ row.labels, label ∉ filter.excludeLabels

instance (filter : WispFilter) : DecidablePred (MatchesLabels filter) :=
  fun _ => inferInstanceAs (Decidable (_ ∧ _))

/-- `BuildIssueFilterClauses` for `wisps`. -/
def MatchesWisp (filter : WispFilter) (row : WorkIssue) : Prop :=
  (filter.statuses ≠ [] → row.status ∈ filter.statuses) ∧
    (∀ issueType ∈ filter.issueType, row.issueType = issueType) ∧ row.issueType ∉ filter.excludeTypes ∧
    (∀ assignee ∈ filter.assignee, row.assignee = some assignee) ∧
    (∀ priority ∈ filter.priority, row.priority = priority) ∧
    (∀ parentID ∈ filter.parentID, s.ChildOf .wisps parentID row.id) ∧
    (∀ molType ∈ filter.molType, row.molType = molType) ∧
    (∀ wispType ∈ filter.wispType, row.wispType = wispType) ∧ MatchesLabels filter row ∧
    row.pinned = filter.pinned ∧ (∀ ephemeral ∈ filter.ephemeral, row.ephemeral = ephemeral) ∧
    (filter.noAssignee = true → row.assignee.getD "" = "") ∧
    row.HasMetadata filter.hasMetadataKey filter.metadataFields

instance (filter : WispFilter) : DecidablePred (s.MatchesWisp filter) :=
  fun _ => inferInstanceAs (Decidable (_ ∧ _))

/-- The rows that `filterReadyWispsInTx` excludes. -/
def Excluded (row : WorkIssue) : Prop :=
  (∃ parentID ∈ filter.parentID, row.id ∉ s.getDescendantIDs parentID ∧
    ¬ ((parentID ++ ".").toList <+: row.id.toList ∧ ¬ s.HasParent .issues row.id ∧ ¬ s.HasParent .wisps row.id)) ∨
    (filter.includeDeferred = false ∧ (row.Deferred now ∨ row.id ∈ s.deferredChildIDs now filter)) ∨
    row.isBlocked = true

instance : DecidablePred (s.Excluded now filter) := fun _ => inferInstanceAs (Decidable (_ ∨ _))

/-- `filterReadyWispsInTx`. -/
def filterReadyWisps (wisps : List WorkIssue) : List WorkIssue :=
  wisps.filter fun wisp => wisp.pinned = false ∧ ¬ s.Excluded now filter wisp

/-- `readyWorkPageSize`. -/
def readyWorkPageSize (limit : Nat) : Nat := if limit < 100 then 100 else limit

/-- The clauses of `queryReadyWispIssueIDPage`. -/
def PagedWisp (row : WorkIssue) : Prop :=
  s.MatchesWisp (readyWorkWispIssueFilter filter) row ∧ (filter.includeDeferred = false → ¬ row.Deferred now)

instance : DecidablePred (s.PagedWisp now filter) := fun _ => inferInstanceAs (Decidable (_ ∧ _))

/-- `queryReadyWispIssueIDPage`. -/
def queryReadyWispIssueIDPage (rows : List WorkIssue) (limit offset : Nat) : List WorkIssue :=
  (rows.drop offset).take limit

/-- The loop over the pages: it ends when enough wisps are found, and at the end of the table. -/
def gatherPages (rows : List WorkIssue) (limit pageSize offset : Nat) (ready : List WorkIssue) :
    List WorkIssue :=
  if ready.length < limit then
    if _last : queryReadyWispIssueIDPage rows pageSize offset = [] then ready
    else
      let page := queryReadyWispIssueIDPage rows pageSize offset
      let ready := (ready ++ s.filterReadyWisps now filter page).take limit
      if page.length < pageSize then ready else gatherPages rows limit pageSize (offset + pageSize) ready
  else ready
termination_by rows.length - offset
decreasing_by
  rw [queryReadyWispIssueIDPage, List.take_eq_nil_iff, not_or, List.drop_eq_nil_iff] at _last
  omega

/-- The unbounded query, in the default order of a search. -/
def searchWisps : List WorkIssue :=
  let rows :=
    ((s.rows .wisps).rows.filter (s.MatchesWisp (readyWorkWispIssueFilter filter))).insertionSort
    fun a b => (SortKey.unset.orderBy false a.toSearchIssue b.toSearchIssue).isLE = true
  limitClause (effectiveSearchLimit 0 (readyWorkWispIssueFilter filter).maxRows) rows

/-- `getReadyWispsInTx`. -/
def getReadyWisps : List WorkIssue :=
  if (s.rows .wisps).rows = [] then []
  else if filter.limit ≤ 0 then s.filterReadyWisps now filter (s.searchWisps filter)
  else
    let limit := filter.limit.toNat
    let rows := s.query now filter .wisps (s.PagedWisp now filter)
    s.gatherPages now filter rows limit (readyWorkPageSize limit) 0 []

/-! ## The query -/

/-- `mergeReadyWisps`. -/
def mergeReadyWisps (ordered wisps : List WorkIssue) : List WorkIssue :=
  let kept := ordered.filter fun issue => issue.id ∉ wisps.map WorkIssue.key
  let kept := filter.sortPolicy.sortReadyIssues now (kept ++ wisps)
  if 0 < filter.limit ∧ filter.limit < kept.length then kept.take filter.limit.toNat else kept

/-- `GetReadyWorkInTx`. -/
def getReadyWork (regexp : String → String → Bool) : Except WorkError (List WorkIssue) := do
  if let some key := filter.invalidKey? then throw (.invalidMetadataKey (Query.invalidMetadataKey key))
  let ordered := s.readyIssues regexp now filter
  let wisps := s.getReadyWisps now filter
  let ordered := if wisps = [] then ordered else mergeReadyWisps now filter ordered wisps
  (enforceMaxRowsCap ordered.length filter.maxRows filter.maxRowsSource).mapError .tooManyRows
  return ordered

end WorkStore
end Beads
