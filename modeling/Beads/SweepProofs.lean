import Beads.ClaimEffects
import Beads.Sweep

/-! What a sweep deletes. The search for candidates and the recheck leave closed rows of
the tier; the scan reads every row in a status that it asks for, and a candidate that one
of them cites is spared. An id that is in both tables is an exception to both: a deletion
goes to the wisp, and so does the search for comments. -/
namespace Beads
open Lib

/-! ## Searches without a bound -/

namespace IssueTables
variable {tables : IssueTables} {filter : IssueFilter} {a : SearchIssue}
  {results : List SearchIssue}

/-- Neither a limit nor a cap. -/
structure Unbounded (filter : IssueFilter) : Prop where
  limit : filter.limit = 0
  maxRows : filter.maxRows = 0
  skipWisps : filter.skipWisps = false

theorem mem_searchTable (free : Unbounded filter) {p : Plane} :
    a ∈ tables.searchTable filter p ↔ a ∈ tables p ∧ filter.Matches a := by
  have all : effectiveSearchLimit filter.limit filter.maxRows = 0 := by
    rw [free.limit, free.maxRows]
    rfl
  rw [searchTable, all, bounded, if_neg (Nat.lt_irrefl 0), List.mem_insertionSort, matching,
    List.mem_filter, decide_eq_true_eq]
  rfl

theorem finish_unbounded (free : Unbounded filter) (rows : List SearchIssue) :
    finish filter rows = .ok rows := by
  have kept : bounded filter.limit rows = rows := by
    rw [free.limit]
    exact if_neg (Nat.lt_irrefl 0)
  have passed : enforceMaxRowsCap rows.length filter.maxRows filter.maxRowsSource = .ok () := by
    rw [free.maxRows]
    exact if_neg fun cap => Nat.lt_irrefl 0 cap.1
  unfold finish
  simp only [kept, passed]
  rfl

/-- Every result is a row of a table that matches. -/
theorem searchInTx_sound (free : Unbounded filter) (found : tables.searchInTx filter = .ok results)
    (listed : a ∈ results) :
    ∃ p, a ∈ tables p ∧ filter.Matches a := by
  unfold searchInTx at found
  extract_lets wispResults issueResults at found
  simp only [finish_unbounded free] at found
  split at found
  · rw [← Except.ok.inj found] at listed
    exact ⟨.wisps, (mem_searchTable free).mp listed⟩
  · split at found
    · rw [← Except.ok.inj found] at listed
      exact ⟨.issues, (mem_searchTable free).mp listed⟩
    · rw [← Except.ok.inj found, IssueFilter.sortMergedResults, List.mem_insertionSort,
        List.mem_append] at listed
      rcases listed with durable | wisp
      · exact ⟨.issues, (mem_searchTable free).mp (List.mem_filter.mp durable).1⟩
      · exact ⟨.wisps, (mem_searchTable free).mp wisp⟩

/-- A search of both tables returns every row that matches, unless the other table has
its id. -/
theorem searchInTx_complete (free : Unbounded filter) (both : filter.ephemeral = none) {p : Plane}
    (found : tables.searchInTx filter = .ok results) (held : a ∈ tables p)
    (matched : filter.Matches a) (alone : ∀ b ∈ tables p.sibling, b.id ≠ a.id) : a ∈ results := by
  have here : a ∈ tables.searchTable filter p := (mem_searchTable free).mpr ⟨held, matched⟩
  have notEphemeral : filter.ephemeral ≠ some true := by
    rw [both]
    exact fun none => absurd none.symm (Option.some_ne_none _)
  unfold searchInTx at found
  extract_lets wispResults issueResults at found
  simp only [finish_unbounded free, free.skipWisps, notEphemeral, false_and, if_false,
    Bool.false_eq_true, false_or] at found
  split at found
  · next none =>
    rw [← Except.ok.inj found]
    cases p with
    | issues => exact here
    | wisps =>
      have empty : wispResults = [] := by
        rcases none with rows | results
        · refine List.eq_nil_iff_forall_not_mem.mpr fun b listed => ?_
          have row : b ∈ (tables .wisps).rows := ((mem_searchTable free).mp listed).1
          rw [rows] at row
          exact List.not_mem_nil row
        · exact results
      have here : a ∈ wispResults := here
      rw [empty] at here
      exact absurd here List.not_mem_nil
  · rw [← Except.ok.inj found, IssueFilter.sortMergedResults, List.mem_insertionSort,
      List.mem_append]
    cases p with
    | issues =>
      refine Or.inl (List.mem_filter.mpr ⟨here, decide_eq_true fun twin => ?_⟩)
      obtain ⟨b, wisp, same⟩ := List.mem_map.mp twin
      exact alone b ((mem_searchTable free).mp wisp).1 same
    | wisps => exact Or.inr here

end IssueTables

/-! ## Candidates -/

section Candidates
variable {glob : Glob} {req : SweepRequest} {a : SearchIssue}

/-- What the recheck asks of a candidate. -/
def Rechecked (req : SweepRequest) (a : SearchIssue) : Prop :=
  a.pinned = false ∧ a.status = .closed ∧
    ∃ closed ∈ a.closedAt, ∀ cutoff ∈ req.closedBefore, closed * nanosecondsPerSecond < cutoff

private theorem skip_eq_none {skips : SweepSkips} : skips.skip req a = none ↔ Rechecked req a := by
  unfold SweepSkips.skip Rechecked
  cases pinned : a.pinned with
  | true => simp
  | false =>
    by_cases closed : a.status = .closed
    · cases at_ : a.closedAt with
      | none => simp [closed]
      | some time => simp [closed]
    · simp [closed]

private theorem mem_filterSweepCandidates {issues : List SearchIssue} :
    a ∈ (filterSweepCandidates glob req issues).1 ↔
      a ∈ issues ∧ matchesSweepPattern glob req.idPattern a.id = true ∧ Rechecked req a := by
  have loop : ∀ (issues : List SearchIssue) (state : List SearchIssue × SweepSkips),
      a ∈ (issues.foldl (filterSweepCandidate glob req) state).1 ↔
        a ∈ state.1 ∨ (a ∈ issues ∧ matchesSweepPattern glob req.idPattern a.id = true ∧ Rechecked req a) := by
    intro issues
    induction issues with
    | nil => simp
    | cons first rest ih =>
      intro state
      have turn : a ∈ (filterSweepCandidate glob req state first).1 ↔
          a ∈ state.1 ∨ (a = first ∧ matchesSweepPattern glob req.idPattern a.id = true ∧ Rechecked req a) := by
        unfold filterSweepCandidate
        split
        · next outside =>
          refine (or_iff_left ?_).symm
          rintro ⟨rfl, inside, -⟩
          rw [outside] at inside
          cases inside
        · next inside =>
          split
          · next skips skipped =>
            refine (or_iff_left ?_).symm
            rintro ⟨rfl, -, checked⟩
            rw [skip_eq_none.mpr checked] at skipped
            cases skipped
          · next kept =>
            rw [List.mem_append, List.mem_singleton]
            refine or_congr_right ⟨?_, fun same => same.1⟩
            rintro rfl
            exact ⟨rfl, (Bool.not_eq_false _).mp inside, skip_eq_none.mp kept⟩
      rw [List.foldl_cons, ih, turn, List.mem_cons, or_and_right, or_assoc]
  have run := loop issues ([], {})
  simpa [filterSweepCandidates] using run

end Candidates

private theorem textBytes_injective : Function.Injective textBytes := by
  intro a b same
  exact String.toByteArray_inj.mp (ByteArray.ext (Array.toList_inj.mp same))

/-! ## Sweeps -/

namespace SweptStore
variable {s t : SweptStore} {glob : Glob} {cfg : Config} {req : SweepRequest} {result : SweepResult}
  {a : SearchIssue}
  {n : Node} {kept : List SearchIssue}

/-- The texts of a row that the scan reads. -/
def texts (s : SweptStore) (n : Node) : List String :=
  [(s.columns n).description, (s.columns n).notes] ++ (s.columns n).comments

/-- A row that a sweep may delete. -/
structure Eligible (glob : Glob) (req : SweepRequest) (r : Row) : Prop where
  tier : r.ephemeral = decide (req.tier = .ephemeral)
  closed : r.status = .closed
  pinned : r.pinned = false
  pattern : matchesSweepPattern glob req.idPattern r.id = true
  cutoff : ∃ closed ∈ r.closedAt, ∀ cutoff ∈ req.closedBefore, closed * nanosecondsPerSecond < cutoff

theorem mem_tables {p : Plane} : a ∈ s.tables p ↔ ∃ r ∈ s.store.rows p, s.searchIssue p r = a :=
  List.mem_map

theorem search_ok {filter : IssueFilter} {results : List SearchIssue}
    (ok : s.search filter = .ok results) :
    s.tables.searchInTx filter = .ok results := by
  unfold search at ok
  cases found : s.tables.searchInTx filter with
  | error e =>
    rw [found] at ok
    cases ok
  | ok rows =>
    rw [found] at ok
    cases ok
    rfl

private theorem candidateFilter_unbounded : IssueTables.Unbounded (buildSweepCandidateFilter req) :=
  ⟨rfl, rfl, rfl⟩

private theorem scanFilter_unbounded : IssueTables.Unbounded (buildSweepReferenceScanFilter cfg) :=
  ⟨rfl, rfl, rfl⟩

/-- The candidates are eligible rows. -/
theorem sweepCandidates_eligible {skips : SweepSkips}
    (ok : s.sweepCandidates glob req = .ok (kept, skips))
    (listed : a ∈ kept) : ∃ p, ∃ r ∈ s.store.rows p, r.id = a.id ∧ Eligible glob req r := by
  obtain ⟨results, found, same⟩ := bind_eq_ok.mp ok
  have here : a ∈ (filterSweepCandidates glob req results).1 := by
    rw [Except.ok.inj same]
    exact listed
  obtain ⟨inside, matched, unpinned, closed, cutoff⟩ := mem_filterSweepCandidates.mp here
  obtain ⟨p, row, filtered⟩ :=
    IssueTables.searchInTx_sound candidateFilter_unbounded (search_ok found) inside
  obtain ⟨r, held, rfl⟩ := mem_tables.mp row
  exact ⟨p, r, held, rfl, filtered.2.2.1 _ rfl, closed, unpinned, matched, cutoff⟩

private theorem sweepSelection_protected (protect : req.protectReferenced = true)
    (ok : s.sweepSelection glob cfg req = .ok (kept, result)) :
    ∃ candidates skips referenced, s.sweepCandidates glob req = .ok (candidates, skips) ∧
      s.sweepReferenced cfg candidates = .ok referenced ∧ ∀ a ∈ kept, a ∈ candidates ∧
        a.id ∉ referenced := by
  obtain ⟨⟨candidates, skips⟩, selected, rest⟩ := bind_eq_ok.mp ok
  simp only [protect, if_true] at rest
  obtain ⟨referenced, scanned, rest⟩ := bind_eq_ok.mp rest
  refine ⟨candidates, skips, referenced, selected, scanned, fun a listed => ?_⟩
  have spared : candidates.filter (fun issue => issue.id ∉ referenced) = kept :=
    congrArg Prod.fst (Except.ok.inj rest)
  rw [← spared, List.mem_filter, decide_eq_true_eq] at listed
  exact listed

/-- The scan finds every candidate that a row in a listed status cites. -/
theorem mem_sweepReferenced {candidates : List SearchIssue} {referenced : List String} {x : Row}
    {text : String}
    (ok : s.sweepReferenced cfg candidates = .ok referenced) (stored : s.store.row? n = some x)
    (alone : ¬ s.store.Holds (n.1.sibling, n.2)) (asked : x.status ∈ notDoneStatusesForSweep cfg)
    (read : text ∈ s.texts n) (listed : a ∈ candidates)
    (cited : Cites IsWordBoundaryAt textBytes (candidates.map SearchIssue.id) (textBytes text) a.id) :
    a.id ∈ referenced := by
  unfold sweepReferenced at ok
  rw [if_neg (List.ne_nil_of_mem listed)] at ok
  obtain ⟨notDone, found, same⟩ := bind_eq_ok.mp ok
  rw [← Except.ok.inj same]
  obtain ⟨row, named⟩ := Store.row?_eq_some.mp stored
  have held : s.store.Holds n := ⟨x, row, named⟩
  have matched : (buildSweepReferenceScanFilter cfg).Matches (s.searchIssue n.1 x) :=
    ⟨fun _ none => absurd none (Option.not_mem_none _), fun _ => asked,
      fun _ none => absurd none (Option.not_mem_none _),
      fun _ none => absurd none (Option.not_mem_none _), rfl⟩
  have result : s.searchIssue n.1 x ∈ notDone := by
    refine IssueTables.searchInTx_complete scanFilter_unbounded rfl (search_ok found)
      (mem_tables.mpr ⟨x, row, rfl⟩) matched
      fun b twin same => alone ?_
    obtain ⟨y, there, rfl⟩ := mem_tables.mp twin
    exact ⟨y, there, same.trans named⟩
  have scanned : text ∈ [(s.searchIssue n.1 x).description, (s.searchIssue n.1 x).notes] ++
      s.commentsOf (s.searchIssue n.1 x).id := by
    have here : (n.1, x.id) = n := Prod.ext rfl named
    have comments : s.commentsOf x.id = (s.columns n).comments := by
      rw [commentsOf, named, Store.routed_of_alone held alone]
    simp only [searchIssue, here, comments]
    exact read
  refine List.mem_flatMap.mpr ⟨_, result, List.mem_flatMap.mpr ⟨text, scanned, ?_⟩⟩
  exact (mem_findAll textBytes_injective).mpr ⟨List.mem_map_of_mem listed, cited⟩

/-- What a sweep deletes is what it has selected, in the plane the id is routed to. -/
theorem sweepInTx_deleted (returns : (s.sweepInTx glob cfg req).Returns (t, result))
    (held : s.store.Holds n) (gone : ¬ t.store.Holds n) :
    ∃ kept, s.sweepSelection glob cfg req = .ok (kept, result) ∧ (∃ a ∈ kept, a.id = n.2) ∧
      s.store.routed n.2 = n.1 := by
  obtain ⟨⟨kept, result'⟩, selects, rest⟩ := Call.returns_bind.mp returns
  have ok := Call.returns_ofExcept.mp selects
  dsimp only at rest
  split at rest
  · cases Call.returns_pure.mp rest
    exact absurd held gone
  · obtain ⟨deleted, deletes, rest⟩ := Call.returns_bind.mp rest
    cases Call.returns_pure.mp rest
    refine ⟨kept, ok, ?_⟩
    rcases Store.deleteIssues_returns deletes with ⟨-, rfl⟩ | ⟨-, set, resolves, others⟩
    · exact absurd held gone
    · have inside : n.2 ∈ set n.1 := by
        by_contra outside
        exact gone ((others n outside).holds.mpr held)
      have split : set = fun p => (kept.map SearchIssue.id).filter fun id => s.store.routed id = p := by
        obtain ⟨all, ids, rest⟩ := Call.returns_bind.mp resolves
        rw [← Call.returns_pure.mp rest, Call.returns_pure.mp ids]
      rw [split, List.mem_filter, List.mem_map, decide_eq_true_eq] at inside
      exact inside

/-- Under protection a sweep deletes eligible rows only, and none that a row in a status
of the scan cites. An id of both tables is left out. -/
theorem sweep_spares (glob : Glob) (cfg : Config) (req : SweepRequest)
    (protect : req.protectReferenced = true)
    (s t : SweptStore) (result : SweepResult) (returns : (s.sweep glob cfg req).Returns (t, result))
    (n : Node) (r : Row)
    (stored : s.store.row? n = some r) (gone : ¬ t.store.Holds n)
    (alone : ¬ s.store.Holds (n.1.sibling, n.2)) :
    Eligible glob req r ∧ ∃ candidates skips, s.sweepCandidates glob req = .ok (candidates, skips) ∧
      ∀ m x, s.store.row? m = some x → ¬ s.store.Holds (m.1.sibling, m.2) →
        x.status ∈ notDoneStatusesForSweep cfg →
        ∀ text ∈ s.texts m,
          ¬ Cites IsWordBoundaryAt textBytes (candidates.map SearchIssue.id) (textBytes text) n.2 := by
  obtain ⟨-, -, returns⟩ := Call.returns_bind.mp returns
  obtain ⟨row, named⟩ := Store.row?_eq_some.mp stored
  obtain ⟨kept, ok, ⟨a, listed, same⟩, -⟩ := sweepInTx_deleted returns ⟨r, row, named⟩ gone
  obtain ⟨candidates, skips, referenced, selected, scanned, spared⟩ :=
    sweepSelection_protected protect ok
  obtain ⟨candidate, uncited⟩ := spared a listed
  constructor
  · obtain ⟨p, r', row', named', eligible⟩ := sweepCandidates_eligible selected candidate
    have plane : p = n.1 := by
      by_contra other
      refine alone ?_
      have sibling : p = n.1.sibling := by
        cases p <;> cases here : n.1 <;> simp_all [Plane.sibling]
      exact ⟨r', sibling ▸ row', named'.trans same⟩
    subst plane
    rwa [Table.eq_of_key row row' (named.trans (named'.trans same).symm)]
  · refine ⟨candidates, skips, selected, fun m x stored' alone' asked text read cited => uncited ?_⟩
    rw [← same] at cited
    exact mem_sweepReferenced scanned stored' alone' asked read candidate cited

/-- `filepath.Match` for the pattern that matches every id. -/
def star : Glob := fun pattern _ => if pattern = "*" then some true else none

/-- A closed issue that another one cites. -/
def citing (status : Status) : SweptStore where
  store := {
    rows := fun p => if p = .issues then ⟨[{ id := "bd-1", status := .closed, closedAt := some 1 },
      { id := "bd-2", status := status }, { id := "bd-3", status := .closed, closedAt := some 1 }], by
        change ["bd-1", "bd-2", "bd-3"].Nodup
        decide⟩ else .empty
    deps := fun _ => .empty }
  columns n := if n.2 = "bd-2" then { description := "see bd-1" } else {}

/-- A sweep of everything that is closed. -/
def everything : SweepRequest where
  tier := .durable
  idPattern := "*"
  protectReferenced := true

/-- The issue that the open one does not cite is deleted. -/
theorem sweep_spares_cited :
    ∃ t result, ((citing .open).sweep star {} everything).Returns (t, result) ∧
      t.store.Holds (.issues, "bd-1") ∧
      ¬ t.store.Holds (.issues, "bd-3") ∧
        Eligible star everything { id := "bd-3", status := .closed, closedAt := some 1 } := by
  obtain ⟨⟨t, result⟩, returns, kept, gone⟩ : ∃ r, ((citing .open).sweep star {} everything).Returns r ∧
      r.1.store.Holds (.issues, "bd-1") ∧ ¬ r.1.store.Holds (.issues, "bd-3") :=
    Call.returns_of_value? (n := 2) (by decide +kernel)
  have spares :=
    sweep_spares star {} everything rfl (citing .open) t result returns (.issues, "bd-3")
    { id := "bd-3", status := .closed, closedAt := some 1 } (by decide +kernel) gone (by decide +kernel)
  exact ⟨t, result, returns, kept, gone, spares.1⟩

/-- A status that is not configured any more is not asked for. -/
theorem unlisted_status_ignored :
    ∃ t result candidates skips,
      ((citing (.custom "review")).sweep star {} everything).Returns (t, result) ∧
      (citing (.custom "review")).store.Holds (.issues, "bd-1") ∧
        ¬ t.store.Holds (.issues, "bd-1") ∧
      (citing (.custom "review")).sweepCandidates star everything = .ok (candidates, skips) ∧
      (∃ x, (citing (.custom "review")).store.row? (.issues, "bd-2") = some x ∧
        x.status = .custom "review") ∧
      ∃ text ∈ (citing (.custom "review")).texts (.issues, "bd-2"),
        Cites IsWordBoundaryAt textBytes (candidates.map SearchIssue.id) (textBytes text) "bd-1" := by
  obtain ⟨⟨t, result⟩, returns, gone⟩ : ∃ r, ((citing (.custom "review")).sweep star {} everything).Returns r ∧
      ¬ r.1.store.Holds (.issues, "bd-1") :=
    Call.returns_of_value? (n := 2) (by decide +kernel)
  have ids : ((citing (.custom "review")).sweepCandidates star everything).map
      (fun r => r.1.map SearchIssue.id) =
      .ok ["bd-1", "bd-3"] := by decide +kernel
  cases selected : (citing (.custom "review")).sweepCandidates star everything with
  | error e =>
    rw [selected] at ids
    cases ids
  | ok r =>
    rw [selected] at ids
    refine ⟨t, result, r.1, r.2, returns, by decide +kernel, gone, rfl, ⟨_, rfl, rfl⟩, "see bd-1",
      by decide +kernel, ?_⟩
    have ids : r.1.map SearchIssue.id = ["bd-1", "bd-3"] := Except.ok.inj ids
    rw [ids]
    exact ⟨by decide +kernel, 4, by decide +kernel, by decide +kernel⟩

end SweptStore
end Beads
