import Mathlib.Data.List.Sort
import Mathlib.Data.String.Basic
import Beads.Store

/-! Searches over the two issue tables: the clauses and the order of a query
(`sqlbuild/filter.go`, `sqlbuild/sort.go`), and the store-backed search with its
row bounds (`issueops/search.go`, `issueops/search_counts.go`). Both tables
exist. Labels, dependencies and counts that are loaded for the rows of a result
are left out. -/
namespace Beads
open Lib

/-- The text a status is stored as. -/
def Status.text : Status → String
  | .open => "open"
  | .inProgress => "in_progress"
  | .blocked => "blocked"
  | .deferred => "deferred"
  | .closed => "closed"
  | .pinned => "pinned"
  | .hooked => "hooked"
  | .custom name => name

/-- The columns of `issues` and `wisps` that a search reads. Times are seconds;
`sortTitle` is the title in lower case, as `LOWER` and `strings.ToLower` give it. -/
structure SearchIssue where
  id : String
  status : Status := .open
  issueType : String := "task"
  priority : Int := 2
  sortTitle : String := ""
  assignee : Option String := none
  createdAt : Nat := 0
  updatedAt : Nat := 0
  closedAt : Option Nat := none
  ephemeral : Bool := false
  pinned : Bool := false
  description : String := ""
  notes : String := ""
  deriving DecidableEq

/-- The sort keys that a query orders by. `unset` is the empty key and every key
that is not in the table of keys. -/
inductive SortKey where
  | unset
  | priority
  | created
  | updated
  | closed
  | status
  | type
  | assignee
  | title
  deriving DecidableEq

/-- `types.IssueFilter`, with the clauses that no modelled function sets kept as
one. A time bound is in nanoseconds; zero bounds are absent. -/
structure IssueFilter where
  status : Option Status := none
  statuses : List Status := []
  ephemeral : Option Bool := none
  closedBefore : Option Nat := none
  clauses : SearchIssue → Bool := fun _ => true
  skipWisps : Bool := false
  limit : Nat := 0
  offset : Nat := 0
  maxRows : Nat := 0
  maxRowsSource : String := ""
  sortBy : SortKey := .unset
  sortDesc : Bool := false

def nanosecondsPerSecond : Nat := 1000000000

/-- `BuildIssueFilterClauses`. A time is rendered without its fraction of a second. -/
def IssueFilter.Matches (filter : IssueFilter) (issue : SearchIssue) : Prop :=
  (∀ status ∈ filter.status, issue.status = status) ∧
    (filter.statuses ≠ [] → issue.status ∈ filter.statuses) ∧
    (∀ ephemeral ∈ filter.ephemeral, issue.ephemeral = ephemeral) ∧
    (∀ cutoff ∈ filter.closedBefore, ∃ closed ∈ issue.closedAt, closed < cutoff / nanosecondsPerSecond) ∧
    filter.clauses issue = true

instance (filter : IssueFilter) (issue : SearchIssue) : Decidable (filter.Matches issue) :=
  inferInstanceAs (Decidable (_ ∧ _))

/-! ## Order -/

namespace SortKey

/-- `SortDefs`: whether the key sorts downwards by itself. -/
def descends : SortKey → Bool
  | .created | .updated | .closed => true
  | .unset | .priority | .status | .type | .assignee | .title => false

/-- One direction of a sort term. -/
def directed (desc : Bool) (cmp : SearchIssue → SearchIssue → Ordering) (a b : SearchIssue) :
    Ordering :=
  if desc then cmp b a else cmp a b

/-- The column a key stands for, upwards. A column that is `NULL` in both rows
does not tell them apart. -/
def column : SortKey → SearchIssue → SearchIssue → Ordering
  | .unset | .priority => compareOn SearchIssue.priority
  | .created => compareOn SearchIssue.createdAt
  | .updated => compareOn SearchIssue.updatedAt
  | .closed => compareOn fun issue => issue.closedAt.getD 0
  | .status => compareOn fun issue => issue.status.text
  | .type => compareOn SearchIssue.issueType
  | .assignee => compareOn fun issue => issue.assignee.getD ""
  | .title => compareOn SearchIssue.sortTitle

/-- `OrderByForColumns`. -/
def orderBy (key : SortKey) (sortDesc : Bool) : SearchIssue → SearchIssue → Ordering :=
  let desc := key.descends != sortDesc
  let byId := compareOn SearchIssue.id
  match key with
  | .unset | .priority => compareLex (directed desc key.column)
      (compareLex (directed true (compareOn SearchIssue.createdAt)) byId)
  -- A nullable column leads with `IS NULL`, in the direction opposite to its own.
  | .closed => compareLex (directed (!desc) (compareOn fun issue => issue.closedAt.isNone))
      (compareLex (directed desc key.column) byId)
  | .assignee => compareLex (directed (!desc) (compareOn fun issue => issue.assignee.isNone))
      (compareLex (directed desc key.column) byId)
  | .created | .updated | .status | .type | .title => compareLex (directed desc key.column) byId

/-- `sortKeyCompare`. A column that is `NULL` is read as the empty text, and as
no time, which is before every other. -/
def sortKeyCompare : SortKey → SearchIssue → SearchIssue → Ordering
  | .closed, a, b => match a.closedAt, b.closedAt with
    | none, none => .eq
    | none, some _ => .lt
    | some _, none => .gt
    | some s, some t => compare s t
  | key, a, b => key.column a b

/-- `Less`. -/
def less (key : SortKey) (sortDesc : Bool) (a b : SearchIssue) : Bool :=
  let descending := key.descends != sortDesc
  match key.sortKeyCompare a b with
  | .lt => !descending
  | .gt => descending
  | .eq =>
    if (key = .unset ∨ key = .priority) ∧ a.createdAt ≠ b.createdAt then b.createdAt < a.createdAt
    else a.id < b.id

end SortKey

/-- `ORDER BY`. -/
def IssueFilter.OrderedBefore (filter : IssueFilter) (a b : SearchIssue) : Prop :=
  (filter.sortBy.orderBy filter.sortDesc a b).isLE = true

instance (filter : IssueFilter) : DecidableRel filter.OrderedBefore := fun _ _ =>
  inferInstanceAs (Decidable (_ = true))

/-- `sort.SliceStable` with `Less`. -/
def IssueFilter.sortMergedResults (filter : IssueFilter) (rows : List SearchIssue) :
    List SearchIssue :=
  rows.insertionSort fun a b => ¬ filter.sortBy.less filter.sortDesc b a

/-! ## Row bounds -/

/-- `ErrTooManyRows`. -/
structure ErrTooManyRows where
  found : Nat
  cap : Nat
  source : String
  deriving DecidableEq

/-- `EffectiveSearchLimit`. -/
def effectiveSearchLimit (limit maxRows : Nat) : Nat :=
  if 0 < maxRows ∧ (limit = 0 ∨ maxRows < limit) then maxRows + 1 else limit

/-- `SearchProbeLimit`: the row bound, and the cap it was sized for. -/
def searchProbeLimit (limit maxRows : Nat) : Nat × Nat :=
  let rowCap := if 0 < maxRows ∧ limit = maxRows then maxRows + 1 else maxRows
  let probe := if 0 < limit then limit + 1 else limit
  (effectiveSearchLimit probe rowCap, rowCap)

/-- `EnforceMaxRowsCap`. -/
def enforceMaxRowsCap (found maxRows : Nat) (source : String) : Except ErrTooManyRows Unit :=
  if 0 < maxRows ∧ maxRows < found then throw ⟨found, maxRows, source⟩ else pure ()

/-- A `LIMIT` clause, which is left out for zero; also `trimToSearchLimit`. -/
def bounded (limit : Nat) (rows : List SearchIssue) : List SearchIssue :=
  if 0 < limit then rows.take limit else rows

/-! ## The store-backed search -/

/-- The issue tables as a search sees them. -/
abbrev IssueTables := Plane → Table SearchIssue.id

namespace IssueTables
variable (tables : IssueTables) (filter : IssueFilter)

/-- The rows of one table that match, in table order. -/
def matching (p : Plane) : List SearchIssue := (tables p).rows.filter filter.Matches

/-- `searchTableInTxT`, `runFilterSearchQueryInTx`: one table's query. -/
def searchTable (p : Plane) : List SearchIssue :=
  bounded (effectiveSearchLimit filter.limit filter.maxRows)
    ((tables.matching filter p).insertionSort filter.OrderedBefore)

/-- The canonical record of an id that is in both results is the wisp's. -/
def withoutDuplicates (results wispResults : List SearchIssue) : List SearchIssue :=
  results.filter fun issue => issue.id ∉ wispResults.map SearchIssue.id

/-- The trim and the cap check that every exit of a search goes through. -/
def finish (results : List SearchIssue) : Except ErrTooManyRows (List SearchIssue) := do
  let results := bounded filter.limit results
  enforceMaxRowsCap results.length filter.maxRows filter.maxRowsSource
  return results

/-- `searchInTx`. -/
def searchInTx : Except ErrTooManyRows (List SearchIssue) :=
  let wispResults := tables.searchTable filter .wisps
  if filter.ephemeral = some true ∧ wispResults ≠ [] then finish filter wispResults
  else
    let results := tables.searchTable filter .issues
    if filter.skipWisps = true ∨ filter.ephemeral = some true ∨ (tables .wisps).rows = [] ∨ wispResults = [] then
      finish filter results
    else finish filter (filter.sortMergedResults (withoutDuplicates results wispResults ++ wispResults))

/-- `SearchIssuesWithCountsInTx`, with `finishSearchIssuesWithCounts`, which sorts
at every exit. -/
def searchIssuesWithCounts : Except ErrTooManyRows (List SearchIssue) :=
  let finishSorted (items : List SearchIssue) := finish filter (filter.sortMergedResults items)
  let wisps := tables.searchTable filter .wisps
  if filter.ephemeral = some true ∧ (tables .wisps).rows ≠ [] ∧ wisps ≠ [] then finishSorted wisps
  else
    let out := tables.searchTable filter .issues
    if filter.skipWisps = true ∨ filter.ephemeral = some true ∨ (tables .wisps).rows = [] ∨ wisps = [] then
      finishSorted out
    else finishSorted (withoutDuplicates out wisps ++ wisps)

end IssueTables
end Beads
