import Beads.Search

/-! Pages of a listing: the epilogue that both readers share (`workapi/sort.go`,
`workapi/page.go`), the row window of the unit of work
(`domain/db/issue_search.go`, `domain/db/issue_search_counts.go`), and the
readers themselves. -/
namespace Beads
open Lib

/-- `issueops.IssuePage`, `domain.SearchCountsPage`. -/
structure IssuePage where
  items : List SearchIssue := []
  hasMore : Bool := false
  deriving DecidableEq

/-! ## Display order and page cut -/

namespace SortKey

/-- `CompareIssuesBy`. -/
def compareIssuesBy : SortKey → SearchIssue → SearchIssue → Ordering
  | .unset, _, _ => .eq
  | .priority, a, b => compare a.priority b.priority
  | .created, a, b => compare b.createdAt a.createdAt
  | .updated, a, b => compare b.updatedAt a.updatedAt
  | .closed, a, b => match a.closedAt, b.closedAt with
    | none, none => .eq
    | none, some _ => .gt
    | some _, none => .lt
    | some s, some t => compare t s
  | .status, a, b => compare a.status.text b.status.text
  | .title, a, b => compare a.sortTitle b.sortTitle
  | .type, a, b => compare a.issueType b.issueType
  | .assignee, a, b => compare (a.assignee.getD "") (b.assignee.getD "")

/-- The comparison of `SortRows`. -/
def DisplayedBefore (key : SortKey) (reverse : Bool) (a b : SearchIssue) : Prop :=
  (if reverse then (key.compareIssuesBy a b).swap else key.compareIssuesBy a b).isLE = true

instance (key : SortKey) (reverse : Bool) : DecidableRel (key.DisplayedBefore reverse) := fun _ _ =>
  inferInstanceAs (Decidable (_ = true))

end SortKey

/-- `SortRows`. -/
def sortRows (rows : List SearchIssue) (sortBy : SortKey) (reverse : Bool) : List SearchIssue :=
  if sortBy = .unset then rows else rows.insertionSort (sortBy.DisplayedBefore reverse)

/-- `FinishPageAt`. -/
def finishPageAt (rows : List SearchIssue) (sortBy : SortKey) (reverse : Bool) (offset limit : Nat)
    (hasMore : Bool) : IssuePage :=
  let rows := sortRows rows sortBy reverse
  let rows :=
    if rows.length ≤ offset then []
    else if 0 < offset then rows.drop offset
    else rows
  if 0 < limit ∧ limit < rows.length then ⟨rows.take limit, true⟩ else ⟨rows, hasMore⟩

/-- `FinishPage`. -/
def finishPage (rows : List SearchIssue) (sortBy : SortKey) (reverse : Bool) (limit : Nat)
    (hasMore : Bool) : IssuePage :=
  finishPageAt rows sortBy reverse 0 limit hasMore

namespace IssueFilter

/-- `WithRowsBeforeThePage`. -/
def withRowsBeforeThePage (filter : IssueFilter) (offset : Nat) : IssueFilter :=
  { filter with
    offset := 0
    limit := if 0 < offset ∧ 0 < filter.limit then filter.limit + offset else filter.limit }

/-- `WithFetchOneExtra`. -/
def withFetchOneExtra (filter : IssueFilter) : IssueFilter :=
  if 0 < filter.limit then
    { filter with
      maxRows :=
        if 0 < filter.maxRows ∧ filter.limit = filter.maxRows then filter.maxRows + 1 else filter.maxRows
      limit := filter.limit + 1 }
  else filter

end IssueFilter

/-! ## The window of a unit of work -/

/-- `searchWindow`. The clause is a `LIMIT` with its `OFFSET`, zero where the
clause has none. -/
structure SearchWindow where
  clause : Option (Nat × Nat) := none
  skip : Nat := 0
  limit : Nat
  rowCap : Nat
  capSource : String
  legLimit : Nat := 0
  deriving DecidableEq

/-- `searchWindowFor`. -/
def searchWindowFor (limit offset maxRows : Nat) (maxRowsSource : String) (goSideSort : Bool) :
    SearchWindow :=
  let pageLimit := if goSideSort then 0 else limit
  let skipHere : Bool := 0 < maxRows ∧ 0 < offset
  let touched := if skipHere ∧ 0 < pageLimit then pageLimit + offset else pageLimit
  let (bound, rowCap) := searchProbeLimit touched maxRows
  let w : SearchWindow := { limit := limit, rowCap := rowCap, capSource := maxRowsSource }
  let w :=
    if bound = 0 then { w with skip := offset }
    else if skipHere then { w with skip := offset, clause := some (bound, 0), legLimit := bound }
    else if 0 < offset then { w with clause := some (bound, offset), legLimit := bound + offset }
    else { w with clause := some (bound, 0), legLimit := bound }
  if goSideSort then { w with legLimit := 0 } else w

/-- `searchWindowForFilter`. The sort keys of the model are those SQL orders by. -/
def IssueFilter.window (filter : IssueFilter) : SearchWindow :=
  searchWindowFor filter.limit filter.offset filter.maxRows filter.maxRowsSource false

namespace SearchWindow
variable {α : Type} (w : SearchWindow)

/-- The window's clause. -/
def apply (rows : List α) : List α :=
  match w.clause with
  | none => rows
  | some (bound, offset) => (rows.drop offset).take bound

/-- `applyN1Overflow`. -/
def applyN1Overflow (items : List α) (limit : Nat) : List α × Bool :=
  if limit = 0 ∨ items.length ≤ limit then (items, false) else (items.take limit, true)

/-- `finishWindow`: the cap, then the offset that the clause does not carry, then
the page. -/
def finishWindow (rows : List α) : Except ErrTooManyRows (List α × Bool) := do
  enforceMaxRowsCap rows.length w.rowCap w.capSource
  return applyN1Overflow (rows.drop w.skip) w.limit

end SearchWindow

namespace IssueTables
variable (tables : IssueTables) (filter : IssueFilter)

/-- `runFilterSearchQuery`, `finishSearchCountsPage`: the search of one table. -/
def searchOneTable (p : Plane) : Except ErrTooManyRows IssuePage := do
  let (items, hasMore) ← filter.window.finishWindow
    (filter.window.apply ((tables.matching filter p).insertionSort filter.OrderedBefore))
  return ⟨items, hasMore⟩

/-- `buildUnionSubquery` with `legWindowSQL`: one leg of the union, with the table each
row comes from. -/
def unionLeg (p : Plane) : List (Plane × SearchIssue) :=
  let rows := tables.matching filter p
  let rows :=
    if filter.window.legLimit = 0 then rows
    else (rows.insertionSort filter.OrderedBefore).take filter.window.legLimit
  rows.map (p, ·)

/-- `scanIDSrcPage`: of an id that is in both legs the wisp is kept. -/
def scanIDSrcPage (rows : List Node) : List Node :=
  rows.filter fun ref => ref.1 = .issues → (Plane.wisps, ref.2) ∉ rows

/-- `reassembleBySrc`, with the rows fetched by id from the table they came from. -/
def reassembleBySrc (refs : List Node) : List SearchIssue :=
  refs.filterMap fun ref => (tables ref.1).find? ref.2

/-- `searchUnionWithCounts`. -/
def searchUnionWithCounts : Except ErrTooManyRows IssuePage := do
  let merged := (tables.unionLeg filter .issues ++ tables.unionLeg filter .wisps).insertionSort
    fun a b => filter.OrderedBefore a.2 b.2
  let page := scanIDSrcPage ((filter.window.apply merged).map fun row => (row.1, row.2.id))
  let (refs, hasMore) ← filter.window.finishWindow page
  return ⟨tables.reassembleBySrc refs, hasMore⟩

/-- `searchAcrossIssuesAndWispsWithCounts`. -/
def searchAcrossIssuesAndWispsWithCounts : Except ErrTooManyRows IssuePage :=
  if filter.ephemeral = some true then
    if (tables .wisps).rows = [] then pure {} else tables.searchOneTable filter .wisps
  else if filter.skipWisps = true ∨ (tables .wisps).rows = [] then tables.searchOneTable filter .issues
  else tables.searchUnionWithCounts filter

end IssueTables

/-! ## The readers -/

/-- `issueops.ListRequest`. What selects rows is kept as the clauses, the plane
flag and the table that it comes to. -/
structure ListRequest where
  clauses : SearchIssue → Bool := fun _ => true
  ephemeral : Option Bool := none
  skipWisps : Bool := false
  limit : Option Nat := none
  offset : Nat := 0
  maxRows : Nat := 0
  maxRowsSource : String := ""
  sortBy : SortKey := .unset
  reverse : Bool := false

def defaultListLimit : Nat := 50

namespace ListRequest
variable (req : ListRequest) (tables : IssueTables)

/-- `PageLimit`, and `SQLLimit` for the sort keys of the model. -/
def pageLimit : Nat := req.limit.getD defaultListLimit

/-- `BuildListFilter`. -/
def filter : IssueFilter where
  ephemeral := req.ephemeral
  clauses := req.clauses
  skipWisps := req.skipWisps
  limit := req.pageLimit
  offset := req.offset
  maxRows := req.maxRows
  maxRowsSource := req.maxRowsSource
  sortBy := req.sortBy
  sortDesc := req.reverse

/-- `storeReader.List`. -/
def storeList : Except ErrTooManyRows IssuePage := do
  let items ← tables.searchIssuesWithCounts (req.filter.withRowsBeforeThePage req.offset).withFetchOneExtra
  return finishPageAt items req.sortBy req.reverse req.offset req.pageLimit false

/-- `issueReader.List` of a unit of work. -/
def uowList : Except ErrTooManyRows IssuePage := do
  let page ← tables.searchAcrossIssuesAndWispsWithCounts (req.filter.withRowsBeforeThePage req.offset)
  return finishPageAt page.items req.sortBy req.reverse req.offset req.pageLimit page.hasMore

/-- A unit of work whose query carries the offset, as `querier.Query` and the
callers that run the filter themselves have it. -/
def uowWindowList : Except ErrTooManyRows IssuePage := do
  let page ← tables.searchAcrossIssuesAndWispsWithCounts req.filter
  return finishPage page.items req.sortBy req.reverse req.pageLimit page.hasMore

end ListRequest
end Beads
