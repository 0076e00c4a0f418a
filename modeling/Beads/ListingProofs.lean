import Beads.Listing
import Beads.Lib.Window

/-! Both readers answer a listing with the same page, and refuse it for too many
rows under the same condition. -/
namespace Beads
open Lib Lib.Window

/-! ## The order of a query -/

namespace SortKey
variable {key : SortKey} {sortDesc : Bool} {a b : SearchIssue}

instance (desc : Bool) (cmp : SearchIssue → SearchIssue → Ordering) [Std.TransCmp cmp] :
    Std.TransCmp (directed desc cmp) := by
  cases desc with
  | false => exact inferInstanceAs (Std.TransCmp fun a b => cmp a b)
  | true => exact inferInstanceAs (Std.TransCmp fun a b => cmp b a)

instance (key : SortKey) : Std.TransCmp key.column := by
  cases key <;> exact inferInstanceAs (Std.TransCmp (compareOn _))

instance (key : SortKey) (sortDesc : Bool) : Std.TransCmp (key.orderBy sortDesc) := by
  cases key <;> exact inferInstanceAs (Std.TransCmp (compareLex _ _))

/-- Every order ends with the id. -/
theorem id_eq_of_orderBy (same : key.orderBy sortDesc a b = .eq) : a.id = b.id := by
  cases key <;> simp_all [orderBy, compareLex, compareOn, Ordering.then_eq_eq]

theorem sortKeyCompare_closed :
    SortKey.closed.sortKeyCompare a b = compare a.closedAt b.closedAt := by
  cases left : a.closedAt <;> cases right : b.closedAt <;> simp only [sortKeyCompare, left, right] <;> rfl

/-- No text is before the empty one. -/
theorem empty_isLE (text : String) : (compare "" text).isLE = true := by
  have least : ¬ text < "" := by
    rw [String.lt_iff_toList_lt]
    exact List.not_lt_nil _
  rw [Ordering.isLE_iff_ne_gt, compare_gt_iff_gt]
  exact least

instance (key : SortKey) : Std.OrientedCmp key.sortKeyCompare := by
  cases key with
  | closed =>
    constructor
    intro a b
    rw [sortKeyCompare_closed, sortKeyCompare_closed]
    exact Std.OrientedCmp.eq_swap
  | _ => exact inferInstanceAs (Std.OrientedCmp (compareOn _))

/-- A row that is displayed by a key is displayed in the direction of its column. -/
theorem compareIssuesBy_eq (set : key ≠ .unset) :
    key.compareIssuesBy a b = directed key.descends key.sortKeyCompare a b := by
  cases key with
  | unset => exact absurd rfl set
  | closed =>
    cases left : a.closedAt <;> cases right : b.closedAt <;>
      simp [compareIssuesBy, directed, descends, sortKeyCompare, left, right]
  | _ => rfl

private theorem displayedBefore_iff (set : key ≠ .unset) : key.DisplayedBefore sortDesc a b ↔
    (directed (key.descends != sortDesc) key.sortKeyCompare a b).isLE = true := by
  rw [DisplayedBefore, compareIssuesBy_eq set]
  have oriented : key.sortKeyCompare a b = (key.sortKeyCompare b a).swap := Std.OrientedCmp.eq_swap
  cases sortDesc <;> cases key.descends <;> simp [directed, oriented]

/-- The order of a query is finer than the order of the column. -/
theorem column_of_orderBy (before : (key.orderBy sortDesc a b).isLE = true) :
    (directed (key.descends != sortDesc) key.sortKeyCompare a b).isLE = true := by
  have apart : (compare true false).isLE = false := rfl
  cases key with
  | closed =>
    cases left : a.closedAt <;> cases right : b.closedAt <;> cases sortDesc <;>
      simp_all [orderBy, directed, compareLex, compareOn, descends, column, sortKeyCompare,
        Ordering.isLE_then_iff_and]
  | assignee =>
    cases left : a.assignee <;> cases right : b.assignee <;> cases sortDesc <;>
      simp_all [orderBy, directed, compareLex, compareOn, descends, column, sortKeyCompare,
        Ordering.isLE_then_iff_and, empty_isLE]
  | _ => exact Ordering.isLE_left_of_isLE_then before

end SortKey

namespace IssueFilter
variable {filter : IssueFilter} {a b c : SearchIssue}

instance (filter : IssueFilter) : Std.Total filter.OrderedBefore where
  total a b := by
    have oriented : filter.sortBy.orderBy filter.sortDesc b a =
        (filter.sortBy.orderBy filter.sortDesc a b).swap := Std.OrientedCmp.eq_swap
    rw [OrderedBefore, OrderedBefore, oriented]
    cases filter.sortBy.orderBy filter.sortDesc a b <;> simp

instance (filter : IssueFilter) : IsTrans SearchIssue filter.OrderedBefore where
  trans _ _ _ := Std.TransCmp.isLE_trans

private theorem id_eq_of_orderedBefore (left : filter.OrderedBefore a b)
    (right : filter.OrderedBefore b a) :
    a.id = b.id := by
  have same : filter.sortBy.orderBy filter.sortDesc a b = .eq :=
    Std.OrientedCmp.isLE_antisymm left right
  exact SortKey.id_eq_of_orderBy same

end IssueFilter

/-! ## The rows of a listing -/

/-- The rows of a table that a search with the filter is about. -/
def IssueTables.part (tables : IssueTables) (filter : IssueFilter) : Plane → List SearchIssue
  | .issues => tables.matching filter .issues
  | .wisps =>
    if filter.skipWisps = true ∧ filter.ephemeral ≠ some true then [] else tables.matching filter .wisps

/-- The rows that match a listing, in the order of its query. -/
def IssueTables.answer (tables : IssueTables) (filter : IssueFilter) : List SearchIssue :=
  (tables.part filter .issues ++ tables.part filter .wisps).insertionSort filter.OrderedBefore

/-- No id is in both tables. -/
def IssueTables.Disjoint (tables : IssueTables) : Prop :=
  ∀ a ∈ tables .issues, ∀ b ∈ tables .wisps, a.id ≠ b.id

/-- The ids of the two tables are disjoint, only wisps are ephemeral, and the
comparison that merged results are sorted with is the order of the query. -/
structure Comparable (tables : IssueTables) (filter : IssueFilter) : Prop where
  disjoint : ∀ a ∈ tables .issues, ∀ b ∈ tables .wisps, a.id ≠ b.id
  ephemeral : filter.ephemeral = some true → tables.matching filter .issues = []
  order : ∀ a ∈ tables.answer filter, ∀ b ∈ tables.answer filter,
    filter.sortBy.less filter.sortDesc a b = true ↔ filter.sortBy.orderBy filter.sortDesc a b = .lt

section Rows
variable {tables : IssueTables} {filter : IssueFilter} {a b : SearchIssue} {p : Plane}

theorem mem_of_part (held : a ∈ tables.part filter p) : a ∈ tables p := by
  cases p with
  | issues => exact (List.mem_filter.mp held).1
  | wisps =>
    rw [IssueTables.part] at held
    split at held
    · cases held
    · exact (List.mem_filter.mp held).1

theorem mem_answer : a ∈ tables.answer filter ↔ ∃ p, a ∈ tables.part filter p := by
  rw [IssueTables.answer, List.mem_insertionSort, List.mem_append]
  constructor
  · rintro (held | held)
    · exact ⟨_, held⟩
    · exact ⟨_, held⟩
  · rintro ⟨p, held⟩
    cases p with
    | issues => exact Or.inl held
    | wisps => exact Or.inr held

theorem answer_sorted : (tables.answer filter).Pairwise filter.OrderedBefore :=
  List.pairwise_insertionSort filter.OrderedBefore _

/-- Rows of either table with the same id are the same row. -/
theorem IssueTables.Disjoint.eq_of_id (disjoint : tables.Disjoint) {q : Plane} (left : a ∈ tables p)
    (right : b ∈ tables q) (same : a.id = b.id) : a = b := by
  cases p <;> cases q
  · exact Table.eq_of_key left right same
  · exact absurd same (disjoint a left b right)
  · exact absurd same.symm (disjoint b right a left)
  · exact Table.eq_of_key left right same

theorem IssueTables.Disjoint.separates (disjoint : tables.Disjoint) :
    Separates filter.OrderedBefore (tables.part filter .issues ++ tables.part filter .wisps) := by
  intro a left b right before after
  obtain ⟨p, left⟩ := mem_answer.mp ((List.mem_insertionSort filter.OrderedBefore).mpr left)
  obtain ⟨q, right⟩ := mem_answer.mp ((List.mem_insertionSort filter.OrderedBefore).mpr right)
  exact disjoint.eq_of_id (mem_of_part left) (mem_of_part right)
    (IssueFilter.id_eq_of_orderedBefore before after)

/-- Merged results are sorted as a query would sort them. -/
theorem Comparable.sortMergedResults_eq (comparable : Comparable tables filter)
    {rows : List SearchIssue} (listed : ∀ a ∈ rows, a ∈ tables.answer filter) :
    filter.sortMergedResults rows = rows.insertionSort filter.OrderedBefore := by
  rw [IssueFilter.sortMergedResults]
  refine (List.map_id _).symm.trans (Eq.trans ?_ (congrArg _ (List.map_id rows)))
  refine List.map_insertionSort _ _ id rows fun a left b right => ?_
  have oriented : filter.sortBy.orderBy filter.sortDesc a b =
      (filter.sortBy.orderBy filter.sortDesc b a).swap := Std.OrientedCmp.eq_swap
  rw [comparable.order b (listed b right) a (listed a left), IssueFilter.OrderedBefore, id, id,
    oriented]
  cases filter.sortBy.orderBy filter.sortDesc b a <;> simp

/-- A page that is already sorted is displayed in its order. -/
theorem sortRows_eq {rows : List SearchIssue} (sorted : rows.Pairwise filter.OrderedBefore) :
    sortRows rows filter.sortBy filter.sortDesc = rows := by
  rw [sortRows]
  split
  · rfl
  · next set =>
    refine List.Pairwise.insertionSort_eq (sorted.imp fun before => ?_)
    exact (SortKey.displayedBefore_iff set).mpr (SortKey.column_of_orderBy before)

end Rows

/-! ## The store-backed search -/

section Store
variable {tables : IssueTables} {filter : IssueFilter}

/-- What the tables' queries bring in for the search. -/
def IssueTables.fetched (tables : IssueTables) (filter : IssueFilter) (limit : Nat) :
    List SearchIssue :=
  (bounded limit ((tables.part filter .issues).insertionSort filter.OrderedBefore) ++
    bounded limit ((tables.part filter .wisps).insertionSort filter.OrderedBefore)).insertionSort
      filter.OrderedBefore

theorem mem_of_bounded {limit : Nat} {rows : List SearchIssue} {a : SearchIssue}
    (held : a ∈ bounded limit rows) : a ∈ rows := by
  rw [bounded] at held
  split at held
  · exact List.mem_of_mem_take held
  · exact held

theorem length_bounded (limit : Nat) (rows : List SearchIssue) :
    (bounded limit rows).length = if 0 < limit then min limit rows.length else rows.length := by
  rw [bounded]
  split
  · exact List.length_take
  · rfl

theorem bounded_fetched (disjoint : tables.Disjoint) (filter : IssueFilter) (limit : Nat) :
    bounded limit (tables.fetched filter limit) = bounded limit (tables.answer filter) := by
  rw [IssueTables.fetched, IssueTables.answer]
  by_cases positive : 0 < limit
  · simp only [bounded, if_pos positive]
    exact take_sort_parts disjoint.separates le_rfl
  · simp only [bounded, if_neg positive]
    refine sort_unique ?_ (List.pairwise_insertionSort _ _) ?_
    · refine disjoint.separates.sublist fun a held => ?_
      simpa only [List.mem_append, List.mem_insertionSort] using held
    · refine (List.perm_insertionSort _ _).trans ?_
      exact ((List.perm_insertionSort _ _).append (List.perm_insertionSort _ _)).symm

private theorem length_fetched (limit : Nat) : (tables.fetched filter limit).length =
    (bounded limit (tables.part filter .issues)).length + (bounded limit (tables.part filter .wisps)).length := by
  simp only [IssueTables.fetched, List.length_insertionSort, List.length_append, length_bounded]

theorem length_answer : (tables.answer filter).length =
    (tables.part filter .issues).length + (tables.part filter .wisps).length := by
  rw [IssueTables.answer, List.length_insertionSort, List.length_append]

theorem mem_answer_of_bounded {limit : Nat} {p : Plane} {a : SearchIssue}
    (held : a ∈ bounded limit ((tables.part filter p).insertionSort filter.OrderedBefore)) :
    a ∈ tables.answer filter :=
  mem_answer.mpr ⟨p, (List.mem_insertionSort filter.OrderedBefore).mp (mem_of_bounded held)⟩

/-- No row of the durable table is dropped for a wisp. -/
theorem withoutDuplicates_eq (disjoint : tables.Disjoint) :
    IssueTables.withoutDuplicates (tables.searchTable filter .issues) (tables.searchTable filter .wisps) =
      tables.searchTable filter .issues := by
  rw [IssueTables.withoutDuplicates, List.filter_eq_self]
  intro a left
  rw [decide_eq_true_eq, List.mem_map]
  rintro ⟨b, right, same⟩
  have matched {p : Plane} {c : SearchIssue} (held : c ∈ tables.searchTable filter p) :
      c ∈ tables p :=
    (List.mem_filter.mp ((List.mem_insertionSort filter.OrderedBefore).mp (mem_of_bounded held))).1
  exact disjoint a (matched left) b (matched right) same.symm

/-- At every exit the search finishes what the tables' queries brought in. -/
theorem searchIssuesWithCounts_eq (comparable : Comparable tables filter) :
    tables.searchIssuesWithCounts filter = IssueTables.finish filter
      (tables.fetched filter (effectiveSearchLimit filter.limit filter.maxRows)) := by
  have issues : bounded (effectiveSearchLimit filter.limit filter.maxRows)
      ((tables.part filter .issues).insertionSort filter.OrderedBefore) = tables.searchTable filter .issues := rfl
  have listed (q : Plane) (a : SearchIssue)
      (held : a ∈ bounded (effectiveSearchLimit filter.limit filter.maxRows)
        ((tables.part filter q).insertionSort filter.OrderedBefore)) : a ∈ tables.answer filter :=
    mem_answer_of_bounded held
  simp only [IssueTables.searchIssuesWithCounts]
  split
  · next ephemeral =>
    -- An ephemeral listing that finds wisps is about wisps alone.
    have wisps : tables.part filter .wisps = tables.matching filter .wisps :=
      if_neg fun skipped => skipped.2 ephemeral.1
    have none : tables.part filter .issues = [] := comparable.ephemeral ephemeral.1
    have search : tables.searchTable filter .wisps = bounded
        (effectiveSearchLimit filter.limit filter.maxRows)
        ((tables.part filter .wisps).insertionSort filter.OrderedBefore) := by rw [wisps]; rfl
    rw [search, comparable.sortMergedResults_eq (listed .wisps), IssueTables.fetched, none]
    simp [bounded]
  · next other =>
    split
    · next alone =>
      -- The durable table answers alone when the other has no part in the listing.
      have wisps : bounded (effectiveSearchLimit filter.limit filter.maxRows)
          ((tables.part filter .wisps).insertionSort filter.OrderedBefore) = [] := by
        by_cases skipped : filter.skipWisps = true ∧ filter.ephemeral ≠ some true
        · rw [IssueTables.part, if_pos skipped]
          simp [bounded]
        · have search : tables.part filter .wisps = tables.matching filter .wisps := if_neg skipped
          have absent : (tables .wisps).rows = [] → tables.searchTable filter .wisps = [] := by
            intro empty
            simp [IssueTables.searchTable, IssueTables.matching, empty, bounded]
          rw [search]
          change tables.searchTable filter .wisps = []
          rcases alone with skip | ephemeral | empty | none
          · have ephemeral : filter.ephemeral = some true := by
              by_contra durable
              exact skipped ⟨skip, durable⟩
            by_contra found
            exact other ⟨ephemeral, fun empty => found (absent empty), found⟩
          · by_contra found
            exact other ⟨ephemeral, fun empty => found (absent empty), found⟩
          · exact absent empty
          · exact none
      rw [← issues, comparable.sortMergedResults_eq (listed .issues), IssueTables.fetched, wisps,
        List.append_nil]
    · next both =>
      have wisps : tables.part filter .wisps = tables.matching filter .wisps :=
        if_neg fun skipped => both (Or.inl skipped.1)
      rw [withoutDuplicates_eq comparable.disjoint, comparable.sortMergedResults_eq,
        IssueTables.fetched, issues, wisps]
      · rfl
      · intro a held
        rcases List.mem_append.mp held with left | right
        · exact listed .issues a left
        · refine listed .wisps a ?_
          rw [wisps]
          exact right

theorem finish_eq (rows : List SearchIssue) : IssueTables.finish filter rows =
    if 0 < filter.maxRows ∧ filter.maxRows < (bounded filter.limit rows).length then
      .error ⟨(bounded filter.limit rows).length, filter.maxRows, filter.maxRowsSource⟩
    else .ok (bounded filter.limit rows) := by
  simp only [IssueTables.finish, enforceMaxRowsCap]
  split
  · rfl
  · rfl

/-- The search answers with the first rows of the listing, unless the cap is
below them and below the rows that match. -/
theorem searchIssuesWithCounts_spec (comparable : Comparable tables filter) :
    (0 < filter.maxRows ∧ filter.maxRows < (tables.answer filter).length ∧
        (filter.limit = 0 ∨ filter.maxRows < filter.limit) →
      ∃ e, tables.searchIssuesWithCounts filter = .error e) ∧
    (¬ (0 < filter.maxRows ∧ filter.maxRows < (tables.answer filter).length ∧
        (filter.limit = 0 ∨ filter.maxRows < filter.limit)) →
      tables.searchIssuesWithCounts filter = .ok (bounded filter.limit (tables.answer filter))) := by
  have sizes := @length_fetched tables filter (effectiveSearchLimit filter.limit filter.maxRows)
  have total := @length_answer tables filter
  have first :=
    bounded_fetched comparable.disjoint filter (effectiveSearchLimit filter.limit filter.maxRows)
  rw [searchIssuesWithCounts_eq comparable]
  generalize tables.fetched filter (effectiveSearchLimit filter.limit filter.maxRows) = rows at sizes first
  simp only [length_bounded] at sizes
  by_cases capped : 0 < filter.maxRows ∧ (filter.limit = 0 ∨ filter.maxRows < filter.limit)
  · -- One row beyond the cap is fetched, so the cap sees whether more match.
    rw [effectiveSearchLimit, if_pos capped] at sizes first
    simp only [bounded, if_pos (Nat.succ_pos _)] at sizes first
    have counted : filter.maxRows < (bounded filter.limit rows).length ↔
        filter.maxRows < (tables.answer filter).length := by
      rw [length_bounded]
      split <;> omega
    refine ⟨fun refused => ?_, fun accepted => ?_⟩
    · rw [finish_eq, if_pos ⟨refused.1, counted.mpr refused.2.1⟩]
      exact ⟨_, rfl⟩
    · have few : ¬ filter.maxRows < (tables.answer filter).length := fun many =>
        accepted ⟨capped.1, many, capped.2⟩
      have same : rows = tables.answer filter := by
        rwa [List.take_of_length_le (by omega), List.take_of_length_le (by omega)] at first
      rw [finish_eq, if_neg fun refused => few (counted.mp refused.2), same]
  · rw [effectiveSearchLimit, if_neg capped] at first
    have fits : ¬ (0 < filter.maxRows ∧ filter.maxRows < (bounded filter.limit rows).length) := by
      rw [length_bounded]
      split <;> omega
    refine ⟨fun refused => absurd ⟨refused.1, refused.2.2⟩ capped, fun _ => ?_⟩
    rw [finish_eq, if_neg fits, first]

end Store

/-! ## The window of a unit of work -/

section Window
variable {α β : Type} {limit offset maxRows : Nat} {source : String}

/-- What a window is made of: the bound on the rows it touches, and the offset,
which the clause carries unless a cap has to see the rows before the page. -/
theorem searchWindowFor_spec (limit offset maxRows : Nat) (source : String) {w : SearchWindow}
    (window : w = searchWindowFor limit offset maxRows source false) :
    w.limit = limit ∧ ∃ bound, (bound, w.rowCap) =
        searchProbeLimit (if 0 < maxRows ∧ 0 < limit then limit + offset else limit) maxRows ∧
      (bound = 0 ∧ w.clause = none ∧ w.skip = offset ∧ w.legLimit = 0 ∨
        0 < bound ∧ ∃ skipped, w.clause = some (bound, skipped) ∧ w.legLimit = bound + skipped ∧
          w.skip + skipped = offset ∧ (0 < maxRows → skipped = 0) ∧
            (maxRows = 0 → w.skip = 0)) := by
  have touched : (if decide (0 < maxRows ∧ 0 < offset) = true ∧ 0 < limit then limit + offset else limit) =
      if 0 < maxRows ∧ 0 < limit then limit + offset else limit := by
    simp only [decide_eq_true_eq]
    split <;> split <;> omega
  simp only [searchWindowFor, Bool.false_eq_true, if_false, touched] at window
  generalize searchProbeLimit (if 0 < maxRows ∧ 0 < limit then limit + offset else limit) maxRows = probe at window
  obtain ⟨bound, rowCap⟩ := probe
  split at window
  · next none =>
    subst window
    exact ⟨rfl, bound, rfl, Or.inl ⟨none, rfl, rfl, rfl⟩⟩
  · next some =>
    have positive := Nat.pos_of_ne_zero some
    split at window
    · next capped =>
      rw [decide_eq_true_eq] at capped
      subst window
      refine ⟨rfl, bound, rfl, Or.inr ⟨positive, 0, rfl, rfl, rfl, fun _ => rfl, fun none => ?_⟩⟩
      omega
    · next free =>
      rw [decide_eq_true_eq] at free
      split at window
      · next skips =>
        subst window
        refine ⟨rfl, bound, rfl,
          Or.inr ⟨positive, offset, rfl, rfl, Nat.zero_add _, fun capped => ?_, fun _ => rfl⟩⟩
        exact absurd ⟨capped, skips⟩ free
      · next stays =>
        subst window
        refine ⟨rfl, bound, rfl, Or.inr ⟨positive, 0, rfl, rfl, ?_, fun _ => rfl, fun _ => rfl⟩⟩
        exact (Nat.eq_zero_of_not_pos stays).symm

/-- The clause reads as deep as the legs are cut. -/
theorem apply_congr {w : SearchWindow} (window : w = searchWindowFor limit offset maxRows source false)
    {rows other : List SearchIssue} (same : bounded w.legLimit rows = bounded w.legLimit other) :
    w.apply rows = w.apply other := by
  obtain ⟨-, bound, -, ⟨-, clause, -, legs⟩ | ⟨positive, skipped, clause, legs, -⟩⟩ :=
    searchWindowFor_spec limit offset maxRows source window
  · simp only [legs, bounded, Nat.lt_irrefl, if_false] at same
    rw [same]
  · rw [legs] at same
    simp only [bounded, if_pos (Nat.add_pos_left positive skipped)] at same
    have cut (zs : List SearchIssue) :
        (zs.drop skipped).take bound = (zs.take (bound + skipped)).drop skipped := by
      rw [List.drop_take, Nat.add_sub_cancel]
    simp only [SearchWindow.apply, clause, cut, same]

theorem finishWindow_eq (w : SearchWindow) (rows : List α) : w.finishWindow rows =
    if 0 < w.rowCap ∧ w.rowCap < rows.length then .error ⟨rows.length, w.rowCap, w.capSource⟩
    else .ok (SearchWindow.applyN1Overflow (rows.drop w.skip) w.limit) := by
  simp only [SearchWindow.finishWindow, enforceMaxRowsCap]
  split
  · rfl
  · rfl

private theorem applyN1Overflow_eq (rows : List α) (limit : Nat) :
    SearchWindow.applyN1Overflow rows limit = (page 0 limit rows, decide (More 0 limit rows)) := by
  rw [SearchWindow.applyN1Overflow, page, List.drop_zero]
  split
  · next fits =>
    have last : ¬ More 0 limit rows := by
      rw [More]
      omega
    rw [decide_eq_false last]
    split
    · rfl
    · rw [List.take_of_length_le (by omega)]
  · next cut =>
    have more : More 0 limit rows := by
      rw [More]
      omega
    rw [decide_eq_true more, if_neg fun none => cut (Or.inl none)]

/-- The bound is one row beyond the cap, or one beyond the rows that are asked for. -/
theorem searchProbeLimit_eq (touched maxRows : Nat) : searchProbeLimit touched maxRows =
    if 0 < maxRows then
      if touched = 0 ∨ maxRows < touched then (maxRows + 1, maxRows)
      else (touched + 1, if touched = maxRows then maxRows + 1 else maxRows)
    else (if 0 < touched then touched + 1 else 0, 0) := by
  simp only [searchProbeLimit, effectiveSearchLimit]
  grind

/-- The bound of a window is one row beyond the cap, or one beyond the page. -/
theorem searchProbeLimit_cases {bound rowCap : Nat} (probe : (bound, rowCap) =
      searchProbeLimit (if 0 < maxRows ∧ 0 < limit then limit + offset else limit) maxRows) :
    (0 < maxRows ∧ (limit = 0 ∨ maxRows < limit + offset)) ∧ bound = maxRows + 1 ∧
      rowCap = maxRows ∨
      (0 < maxRows ∧ 0 < limit ∧ limit + offset ≤ maxRows) ∧ bound = limit + offset + 1 ∧
        bound ≤ rowCap ∨
      maxRows = 0 ∧ rowCap = 0 ∧ (0 < limit ∧ bound = limit + 1 ∨ limit = 0 ∧ bound = 0) := by
  rw [searchProbeLimit_eq] at probe
  by_cases capped : 0 < maxRows
  · by_cases asked : 0 < limit
    · simp only [capped, asked, and_self, if_true] at probe
      split at probe
      · cases probe
        omega
      · split at probe
        · cases probe
          omega
        · cases probe
          omega
    · have none := Nat.eq_zero_of_not_pos asked
      simp only [capped, none, if_true, true_or, Nat.lt_irrefl, and_false, if_false] at probe
      cases probe
      omega
  · simp only [capped, false_and, if_false] at probe
    split at probe
    · cases probe
      omega
    · cases probe
      omega

/-- The window of a search answers with the page, unless the cap is below its
end and below the rows that match. -/
theorem window_spec {w : SearchWindow} (window : w = searchWindowFor limit offset maxRows source false)
    (rows : List α) :
    (0 < maxRows ∧ maxRows < rows.length ∧ (limit = 0 ∨ maxRows < limit + offset) →
      ∃ e, w.finishWindow (w.apply rows) = .error e) ∧
    (¬ (0 < maxRows ∧ maxRows < rows.length ∧ (limit = 0 ∨ maxRows < limit + offset)) →
      w.finishWindow (w.apply rows) = .ok (page offset limit rows, decide (More offset limit rows))) := by
  obtain ⟨pageLimit, bound, probe, ⟨none, clause, skip, -⟩ | ⟨positive, skipped, clause, -, sum, capped, free⟩⟩ :=
    searchWindowFor_spec limit offset maxRows source window
  · -- Without a bound there is no cap either.
    have open_ : maxRows = 0 ∧ w.rowCap = 0 := by
      have cases := searchProbeLimit_cases probe
      omega
    refine ⟨fun refused => absurd refused.1 (by omega), fun _ => ?_⟩
    rw [finishWindow_eq, if_neg fun refused => by omega, applyN1Overflow_eq, SearchWindow.apply,
      clause, skip, pageLimit]
    simp only [page_drop, more_drop]
  · have read : w.apply rows = (rows.drop skipped).take bound := by rw [SearchWindow.apply, clause]
    have behind : (w.apply rows).drop w.skip = (rows.drop offset).take (bound - w.skip) := by
      rw [read, List.drop_take, List.drop_drop, Nat.add_comm skipped, sum]
    have answer (reaches : Reaches 0 limit ((w.apply rows).drop w.skip) (rows.drop offset))
        (fits : ¬ (0 < w.rowCap ∧ w.rowCap < (w.apply rows).length)) :
        w.finishWindow (w.apply rows) = .ok (page offset limit rows, decide (More offset limit rows)) := by
      rw [finishWindow_eq, if_neg fits, applyN1Overflow_eq, pageLimit, reaches.page_eq, page_drop]
      simp only [reaches.more_iff, more_drop]
    have count : (w.apply rows).length = min bound (rows.length - skipped) := by
      rw [read, List.length_take, List.length_drop]
    obtain ⟨tight, bound_eq, cap⟩ | ⟨loose, bound_eq, cap⟩ | ⟨none, cap, bound_eq⟩ :=
      searchProbeLimit_cases probe
    · -- The bound is one row beyond the cap.
      have whole := capped tight.1
      refine ⟨fun refused => ?_, fun accepted => answer (Or.inl ?_) (by omega)⟩
      · rw [finishWindow_eq, if_pos (by omega)]
        exact ⟨_, rfl⟩
      · rw [behind, List.take_of_length_le]
        rw [List.length_drop]
        omega
    · have whole := capped loose.1
      refine ⟨fun refused => absurd refused.2.2 (by omega), fun _ => ?_⟩
      refine answer (Or.inr ⟨_, behind, loose.2.1, ?_⟩) (by omega)
      omega
    · have start := free none
      refine ⟨fun refused => absurd refused.1 (by omega), fun _ => ?_⟩
      refine answer (Or.inr ⟨_, behind, ?_, ?_⟩) ?_
      · omega
      · omega
      · omega

private theorem apply_map (w : SearchWindow) (f : α → β) (rows : List α) :
    w.apply (rows.map f) = (w.apply rows).map f := by
  rw [SearchWindow.apply, SearchWindow.apply]
  split
  · rfl
  · rw [List.map_take, List.map_drop]

private theorem mem_of_apply {w : SearchWindow} {rows : List α} {a : α} (held : a ∈ w.apply rows) :
    a ∈ rows := by
  rw [SearchWindow.apply] at held
  split at held
  · exact held
  · exact List.mem_of_mem_drop (List.mem_of_mem_take held)

/-- Rows that stand for others are windowed as those are. -/
theorem finishWindow_map (w : SearchWindow) (f : α → β) (rows : List α) :
    w.finishWindow (rows.map f) =
    (w.finishWindow rows).map fun found => (found.1.map f, found.2) := by
  rw [finishWindow_eq, finishWindow_eq, List.length_map]
  split
  · rfl
  · simp only [Except.map, SearchWindow.applyN1Overflow, ← List.map_drop, List.length_map,
      ← List.map_take]
    split <;> rfl

end Window

/-! ## The search of a unit of work -/

section Uow
variable {tables : IssueTables} {filter : IssueFilter}

private theorem mem_of_finishWindow {α : Type} {w : SearchWindow} {rows : List α}
    {found : List α × Bool}
    {a : α} (ok : w.finishWindow rows = .ok found) (held : a ∈ found.1) : a ∈ rows := by
  rw [finishWindow_eq] at ok
  split at ok
  · cases ok
  · cases ok
    rw [SearchWindow.applyN1Overflow] at held
    split at held
    · exact List.mem_of_mem_drop held
    · exact List.mem_of_mem_drop (List.mem_of_mem_take held)

/-- One leg of the union, without the table it names. -/
def IssueTables.leg (tables : IssueTables) (filter : IssueFilter) (p : Plane) : List SearchIssue :=
  if filter.window.legLimit = 0 then tables.matching filter p
  else ((tables.matching filter p).insertionSort filter.OrderedBefore).take filter.window.legLimit

private theorem mem_of_leg {p : Plane} {a : SearchIssue} (held : a ∈ tables.leg filter p) :
    a ∈ tables p := by
  rw [IssueTables.leg] at held
  split at held
  · exact (List.mem_filter.mp held).1
  · exact (List.mem_filter.mp ((List.mem_insertionSort filter.OrderedBefore).mp (List.mem_of_mem_take held))).1

private theorem mem_unionLeg {p : Plane} {row : Plane × SearchIssue}
    (held : row ∈ tables.unionLeg filter p) :
    row.2 ∈ tables row.1 := by
  obtain ⟨a, inside, rfl⟩ := List.mem_map.mp held
  exact mem_of_leg inside

/-- The union, before its clause, with the table of each row. -/
def IssueTables.union (tables : IssueTables) (filter : IssueFilter) : List (Plane × SearchIssue) :=
  (tables.unionLeg filter .issues ++ tables.unionLeg filter .wisps).insertionSort
    fun a b => filter.OrderedBefore a.2 b.2

private theorem mem_union {row : Plane × SearchIssue} (held : row ∈ tables.union filter) :
    row.2 ∈ tables row.1 := by
  rcases List.mem_append.mp ((List.mem_insertionSort _).mp held) with left | right
  · exact mem_unionLeg left
  · exact mem_unionLeg right

/-- The clause of the union reads the listing. -/
theorem union_apply (comparable : Comparable tables filter) (both : filter.skipWisps ≠ true) :
    (filter.window.apply (tables.union filter)).map Prod.snd = filter.window.apply (tables.answer filter) := by
  have wisps : tables.part filter .wisps = tables.matching filter .wisps :=
    if_neg fun skipped => both skipped.1
  have legs : (tables.union filter).map Prod.snd =
      (tables.leg filter .issues ++ tables.leg filter .wisps).insertionSort filter.OrderedBefore := by
    rw [IssueTables.union,
      List.map_insertionSort _ filter.OrderedBefore Prod.snd _ fun _ _ _ _ => Iff.rfl]
    congr 1
    simp only [IssueTables.unionLeg, List.map_append, List.map_map]
    exact congrArg₂ _ (List.map_id _) (List.map_id _)
  rw [← apply_map, legs]
  refine apply_congr rfl ?_
  rw [IssueTables.leg, IssueTables.leg, IssueTables.answer, wisps]
  change bounded filter.window.legLimit _ = bounded filter.window.legLimit _
  by_cases none : filter.window.legLimit = 0
  · rw [if_pos none, if_pos none]
    rfl
  · rw [if_neg none, if_neg none]
    simp only [bounded, if_pos (Nat.pos_of_ne_zero none)]
    exact take_sort_parts (wisps ▸ IssueTables.Disjoint.separates comparable.disjoint) le_rfl

/-- No reference to a row of the durable table is dropped for a wisp. -/
theorem scanIDSrcPage_eq (comparable : Comparable tables filter) {rows : List (Plane × SearchIssue)}
    (held : ∀ row ∈ rows, row.2 ∈ tables row.1) :
    IssueTables.scanIDSrcPage (rows.map fun row => (row.1, row.2.id)) = rows.map fun row => (row.1, row.2.id) := by
  rw [IssueTables.scanIDSrcPage, List.filter_eq_self]
  intro ref member
  obtain ⟨⟨p, a⟩, left, rfl⟩ := List.mem_map.mp member
  rw [decide_eq_true_eq]
  intro issues found
  obtain ⟨⟨q, b⟩, right, same⟩ := List.mem_map.mp found
  obtain rfl : p = .issues := issues
  obtain ⟨rfl, name⟩ : q = .wisps ∧ b.id = a.id := Prod.mk.inj same
  exact comparable.disjoint a (held _ left) b (held _ right) name.symm

/-- Every reference is fetched back. -/
theorem reassembleBySrc_eq {rows : List (Plane × SearchIssue)}
    (held : ∀ row ∈ rows, row.2 ∈ tables row.1) :
    tables.reassembleBySrc (rows.map fun row => (row.1, row.2.id)) = rows.map Prod.snd := by
  rw [IssueTables.reassembleBySrc, List.filterMap_map, ← List.filterMap_eq_map]
  refine List.filterMap_congr fun row inside => ?_
  exact Table.find?_eq_some.mpr ⟨held row inside, rfl⟩

private theorem searchUnionWithCounts_eq (comparable : Comparable tables filter)
    (both : filter.skipWisps ≠ true) :
    tables.searchUnionWithCounts filter =
      (filter.window.finishWindow (filter.window.apply (tables.answer filter))).map fun found =>
        ⟨found.1, found.2⟩ := by
  have held :
      ∀ row ∈ filter.window.apply (tables.union filter), row.2 ∈ tables row.1 := fun row inside =>
    mem_union (mem_of_apply inside)
  change (do
    let found ← filter.window.finishWindow (IssueTables.scanIDSrcPage
      ((filter.window.apply (tables.union filter)).map fun row : Plane × SearchIssue => (row.1, row.2.id)))
    return (⟨tables.reassembleBySrc found.1, found.2⟩ : IssuePage)) = _
  rw [scanIDSrcPage_eq comparable held, finishWindow_map, ← union_apply comparable both,
    finishWindow_map]
  cases found : filter.window.finishWindow (filter.window.apply (tables.union filter)) with
  | error e => rfl
  | ok page =>
    have fetched := @reassembleBySrc_eq tables page.1 fun row inside =>
      held row (mem_of_finishWindow found inside)
    simp only [Except.map, bind, Except.bind, fetched]
    rfl

private theorem searchOneTable_eq {p : Plane} (alone : tables.answer filter =
      (tables.matching filter p).insertionSort filter.OrderedBefore) :
    tables.searchOneTable filter p =
      (filter.window.finishWindow (filter.window.apply (tables.answer filter))).map fun found =>
        ⟨found.1, found.2⟩ := by
  rw [IssueTables.searchOneTable, alone]
  cases filter.window.finishWindow
    (filter.window.apply ((tables.matching filter p).insertionSort filter.OrderedBefore)) <;> rfl

/-- Whichever tables the search reads, its window is on the listing. -/
theorem searchAcross_eq (comparable : Comparable tables filter) :
    tables.searchAcrossIssuesAndWispsWithCounts filter =
      (filter.window.finishWindow (filter.window.apply (tables.answer filter))).map fun found =>
        ⟨found.1, found.2⟩ := by
  have absent : (tables .wisps).rows = [] → tables.matching filter .wisps = [] := by
    intro empty
    rw [IssueTables.matching, empty, List.filter_nil]
  rw [IssueTables.searchAcrossIssuesAndWispsWithCounts]
  split
  · next ephemeral =>
    have issues : tables.part filter .issues = [] := comparable.ephemeral ephemeral
    have wisps : tables.part filter .wisps = tables.matching filter .wisps :=
      if_neg fun skipped => skipped.2 ephemeral
    have alone : tables.answer filter =
        (tables.matching filter .wisps).insertionSort filter.OrderedBefore := by
      rw [IssueTables.answer, issues, wisps, List.nil_append]
    split
    · next empty =>
      have none : tables.answer filter = [] := by rw [alone, absent empty]; rfl
      have page := (window_spec (w := filter.window) rfl ([] : List SearchIssue)).2 (by simp)
      rw [none, page]
      simp [Window.page, Except.map, More]
      rfl
    · exact searchOneTable_eq alone
  · split
    · next durable single =>
      refine searchOneTable_eq ?_
      have wisps : tables.part filter .wisps = [] := by
        rcases single with skip | empty
        · exact if_pos ⟨skip, durable⟩
        · rw [IssueTables.part, absent empty, ite_self]
      rw [IssueTables.answer, wisps, List.append_nil]
      rfl
    · next durable both => exact searchUnionWithCounts_eq comparable fun skip => both (Or.inl skip)

end Uow

/-! ## The readers -/

/-- The cap is below the end of the page and below the rows that match. -/
def ListRequest.Refused (req : ListRequest) (matched : Nat) : Prop :=
  0 < req.maxRows ∧ req.maxRows < matched ∧ (req.pageLimit = 0 ∨ req.maxRows < req.pageLimit + req.offset)

instance (req : ListRequest) (matched : Nat) : Decidable (req.Refused matched) :=
  inferInstanceAs (Decidable (_ ∧ _))

/-- The page of a listing. -/
def ListRequest.page (req : ListRequest) (rows : List SearchIssue) : IssuePage where
  items := Window.page req.offset req.pageLimit rows
  hasMore := decide (More req.offset req.pageLimit rows)

section Readers
variable {tables : IssueTables} {req : ListRequest}

/-- The epilogue cuts sorted rows to the page. -/
theorem finishPageAt_eq {rows : List SearchIssue} (sorted : rows.Pairwise req.filter.OrderedBefore)
    (offset limit : Nat) (hasMore : Bool) :
    finishPageAt rows req.sortBy req.reverse offset limit hasMore =
      ⟨Window.page offset limit rows, decide (More offset limit rows) || hasMore⟩ := by
  have display : sortRows rows req.sortBy req.reverse = rows := sortRows_eq sorted
  have behind : (if rows.length ≤ offset then [] else if 0 < offset then rows.drop offset else rows) =
      rows.drop offset := by
    split
    · next short => exact (List.drop_eq_nil_of_le short).symm
    · split
      · rfl
      · next start => rw [Nat.eq_zero_of_not_pos start, List.drop_zero]
  simp only [finishPageAt, display, behind, List.length_drop]
  split
  · next cut =>
    have more : More offset limit rows := ⟨cut.1, by omega⟩
    rw [decide_eq_true more, Window.page, if_neg cut.1.ne', Bool.true_or]
  · next fits =>
    have last : ¬ More offset limit rows := by
      rw [More]
      omega
    rw [decide_eq_false last, Bool.false_or, Window.page]
    split
    · rfl
    · rw [List.take_of_length_le]
      rw [List.length_drop]
      omega

theorem comparable_of_filter {filter : IssueFilter} (comparable : Comparable tables req.filter)
    (limit offset maxRows : Nat) (same : filter = { req.filter with limit, offset, maxRows }) :
    Comparable tables filter := by
  subst same
  exact ⟨comparable.disjoint, comparable.ephemeral, comparable.order⟩

/-- The filter of the store-backed reader asks for one row beyond the page, and
lifts a cap that the page just meets. -/
theorem storeFilter_spec (req : ListRequest) {filter : IssueFilter}
    (asked : filter = (req.filter.withRowsBeforeThePage req.offset).withFetchOneExtra) :
    filter = { req.filter with limit := filter.limit, offset := 0, maxRows := filter.maxRows } ∧
      (req.pageLimit = 0 ∧ filter.limit = 0 ∧ filter.maxRows = req.maxRows ∨
        0 < req.pageLimit ∧ filter.limit = req.pageLimit + req.offset + 1 ∧
          (req.pageLimit + req.offset = req.maxRows ∧ filter.maxRows = req.maxRows + 1 ∨
            req.pageLimit + req.offset ≠ req.maxRows ∧ filter.maxRows = req.maxRows)) := by
  have before : (req.filter.withRowsBeforeThePage req.offset).limit =
      if 0 < req.pageLimit then req.pageLimit + req.offset else 0 := by
    change (if 0 < req.offset ∧ 0 < req.pageLimit then req.pageLimit + req.offset else req.pageLimit) = _
    split <;> split <;> omega
  rw [IssueFilter.withFetchOneExtra, before] at asked
  by_cases limited : 0 < req.pageLimit
  · rw [if_pos limited, if_pos (Nat.add_pos_left limited _)] at asked
    subst asked
    refine ⟨rfl, Or.inr ⟨limited, rfl, ?_⟩⟩
    change req.pageLimit + req.offset = req.maxRows ∧
        (if 0 < req.maxRows ∧ req.pageLimit + req.offset = req.maxRows then req.maxRows + 1 else req.maxRows) =
          req.maxRows + 1 ∨
      req.pageLimit + req.offset ≠ req.maxRows ∧
        (if 0 < req.maxRows ∧ req.pageLimit + req.offset = req.maxRows then req.maxRows + 1 else req.maxRows) =
          req.maxRows
    split <;> omega
  · rw [if_neg limited, if_neg (Nat.lt_irrefl 0)] at asked
    subst asked
    refine ⟨rfl, Or.inl ⟨Nat.eq_zero_of_not_pos limited, ?_, rfl⟩⟩
    rw [before, if_neg limited]

private theorem storeList_eq (comparable : Comparable tables req.filter) :
    (req.Refused (tables.answer req.filter).length → ∃ e, req.storeList tables = .error e) ∧
      (¬ req.Refused (tables.answer req.filter).length →
        req.storeList tables = .ok (req.page (tables.answer req.filter))) := by
  generalize asked : (req.filter.withRowsBeforeThePage req.offset).withFetchOneExtra = filter
  obtain ⟨same, sizes⟩ := storeFilter_spec req asked.symm
  have answer : tables.answer filter = tables.answer req.filter := by rw [same]; rfl
  have spec := searchIssuesWithCounts_spec (comparable_of_filter comparable _ _ _ same)
  have refused : (0 < filter.maxRows ∧ filter.maxRows < (tables.answer req.filter).length ∧
      (filter.limit = 0 ∨ filter.maxRows < filter.limit)) ↔ req.Refused (tables.answer req.filter).length := by
    rw [ListRequest.Refused]
    omega
  rw [answer, refused] at spec
  have found : req.storeList tables = (tables.searchIssuesWithCounts filter).map fun items =>
      finishPageAt items req.sortBy req.reverse req.offset req.pageLimit false := by
    rw [ListRequest.storeList, asked]
    cases tables.searchIssuesWithCounts filter <;> rfl
  rw [found]
  refine ⟨fun yes => ?_, fun no => ?_⟩
  · obtain ⟨e, error⟩ := spec.1 yes
    rw [error]
    exact ⟨e, rfl⟩
  · have reaches : Reaches req.offset req.pageLimit
        (bounded filter.limit (tables.answer req.filter))
        (tables.answer req.filter) := by
      rcases sizes with ⟨-, none, -⟩ | ⟨limited, limit, -⟩
      · exact Or.inl (by rw [none]; rfl)
      · refine Or.inr ⟨filter.limit, if_pos (by omega), limited, by omega⟩
    have sorted : (bounded filter.limit (tables.answer req.filter)).Pairwise req.filter.OrderedBefore := by
      rw [bounded]
      split
      · exact answer_sorted.sublist (List.take_sublist _ _)
      · exact answer_sorted
    rw [spec.2 no, Except.map, finishPageAt_eq sorted, reaches.page_eq, Bool.or_false]
    simp only [reaches.more_iff]
    rfl

/-- A unit of work whose window starts the given rows before the page. -/
theorem windowed_list_eq (comparable : Comparable tables req.filter) {filter : IssueFilter}
    {limit offset display : Nat}
    (same : filter = { req.filter with limit, offset }) (start : offset + display = req.offset)
    (deep : limit = if req.pageLimit = 0 then 0 else req.pageLimit + display)
    {list : Except ErrTooManyRows IssuePage}
    (search : list = (tables.searchAcrossIssuesAndWispsWithCounts filter).map fun page =>
      finishPageAt page.items req.sortBy req.reverse display req.pageLimit page.hasMore) :
    (req.Refused (tables.answer req.filter).length → ∃ e, list = .error e) ∧
      (¬ req.Refused (tables.answer req.filter).length →
        list = .ok (req.page (tables.answer req.filter))) := by
  have comparable' := comparable_of_filter comparable _ _ _ same
  have answer : tables.answer filter = tables.answer req.filter := by rw [same]; rfl
  have window : filter.window = searchWindowFor limit offset req.maxRows req.maxRowsSource false := by rw [same]; rfl
  have spec := window_spec window (tables.answer req.filter)
  have refused : (0 < req.maxRows ∧ req.maxRows < (tables.answer req.filter).length ∧
      (limit = 0 ∨ req.maxRows < limit + offset)) ↔ req.Refused (tables.answer req.filter).length := by
    rw [ListRequest.Refused]
    split at deep <;> omega
  rw [refused] at spec
  rw [search, searchAcross_eq comparable', answer]
  refine ⟨fun yes => ?_, fun no => ?_⟩
  · obtain ⟨e, error⟩ := spec.1 yes
    rw [error]
    exact ⟨e, rfl⟩
  · have sorted : (Window.page offset limit (tables.answer req.filter)).Pairwise req.filter.OrderedBefore :=
      answer_sorted.sublist page_sublist
    have more : (decide (More display req.pageLimit (Window.page offset limit (tables.answer req.filter))) ||
        decide (More offset limit (tables.answer req.filter))) =
          decide (More req.offset req.pageLimit (tables.answer req.filter)) := by
      rw [Bool.eq_iff_iff, Bool.or_eq_true, decide_eq_true_eq, decide_eq_true_eq, decide_eq_true_eq]
      have length : 0 < limit → (Window.page offset limit (tables.answer req.filter)).length ≤ limit := by
        intro limited
        rw [Window.page, if_neg limited.ne']
        exact List.length_take_le _ _
      simp only [More]
      split at deep <;> omega
    rw [spec.2 no]
    simp only [Except.map, finishPageAt_eq sorted, more]
    rw [deep, page_page, start]
    rfl

/-- Both readers, the one of a unit of work with the offset of the listing kept
or handed to its query, refuse the listing exactly when the cap is below the rows
that match and below the end of the page, and otherwise answer with the page. -/
def ListRequest.Agrees (req : ListRequest) (tables : IssueTables) : Prop :=
  ∀ list ∈ [req.storeList tables, req.uowList tables, req.uowWindowList tables],
    (req.Refused (tables.answer req.filter).length → ∃ e, list = .error e) ∧
      (¬ req.Refused (tables.answer req.filter).length → list = .ok (req.page (tables.answer req.filter)))

private theorem agrees_of_comparable (comparable : Comparable tables req.filter) :
    req.Agrees tables := by
  have kept : req.uowList tables =
      (tables.searchAcrossIssuesAndWispsWithCounts (req.filter.withRowsBeforeThePage req.offset)).map fun page =>
        finishPageAt page.items req.sortBy req.reverse req.offset req.pageLimit page.hasMore := by
    rw [ListRequest.uowList]
    cases tables.searchAcrossIssuesAndWispsWithCounts (req.filter.withRowsBeforeThePage req.offset) <;> rfl
  have pushed : req.uowWindowList tables =
      (tables.searchAcrossIssuesAndWispsWithCounts req.filter).map fun page =>
        finishPageAt page.items req.sortBy req.reverse 0 req.pageLimit page.hasMore := by
    rw [ListRequest.uowWindowList]
    cases tables.searchAcrossIssuesAndWispsWithCounts req.filter <;> rfl
  have widened : (if 0 < req.offset ∧ 0 < req.pageLimit then req.pageLimit + req.offset else req.pageLimit) =
      if req.pageLimit = 0 then 0 else req.pageLimit + req.offset := by
    split <;> split <;> omega
  intro list held
  simp only [List.mem_cons, List.not_mem_nil, or_false] at held
  rcases held with rfl | rfl | rfl
  · exact storeList_eq comparable
  · exact windowed_list_eq comparable rfl (Nat.zero_add _) widened kept
  · refine windowed_list_eq comparable
      (rfl : _ = { req.filter with limit := req.pageLimit, offset := req.offset })
      rfl ?_ pushed
    split <;> omega

/-- The listing without bounds shows all rows that match. -/
theorem length_of_agrees {req : ListRequest} {page : IssuePage} (agrees : req.Agrees tables)
    (all : req.limit = some 0)
    (start : req.offset = 0) (free : req.maxRows = 0) (found : req.uowList tables = .ok page) :
    page.items.length = (tables.answer req.filter).length := by
  have allowed : ¬ req.Refused (tables.answer req.filter).length := by
    rw [ListRequest.Refused, free]
    exact fun capped => absurd capped.1 (Nat.lt_irrefl 0)
  have same := (agrees (req.uowList tables) (by simp)).2 allowed
  rw [found] at same
  rw [Except.ok.inj same, ListRequest.page, Window.page, ListRequest.pageLimit, all, start]
  rfl

/-- The readers agree on every page, offset and cap of a listing exactly if no
durable row matches a listing of ephemeral rows. -/
theorem readers_agree_iff (tables : IssueTables) (req : ListRequest) (disjoint : tables.Disjoint)
    (order : ∀ a ∈ tables.answer req.filter, ∀ b ∈ tables.answer req.filter,
      req.sortBy.less req.reverse a b = true ↔ req.sortBy.orderBy req.reverse a b = .lt) :
    (∀ limit offset maxRows, ({ req with limit, offset, maxRows } : ListRequest).Agrees tables) ↔
      (req.ephemeral = some true → tables.matching req.filter .issues = []) := by
  constructor
  · intro agree ephemeral
    -- A unit of work does not look at the durable rows of such a listing.
    let wisps : IssueTables := fun p => if p = .wisps then tables .wisps else Table.empty
    let whole : ListRequest := { req with limit := some 0, offset := 0, maxRows := 0 }
    have subset : ∀ a ∈ wisps.answer whole.filter, a ∈ tables.answer req.filter := by
      intro a held
      obtain ⟨p, part⟩ := mem_answer.mp held
      cases p with
      | issues => cases part
      | wisps => exact mem_answer.mpr ⟨.wisps, part⟩
    have alone : whole.Agrees wisps :=
      agrees_of_comparable ⟨fun a durable => absurd durable List.not_mem_nil,
        fun _ => rfl, fun a left b right => order a (subset a left) b (subset b right)⟩
    have blind : whole.uowList tables = whole.uowList wisps := by
      have chosen : (whole.filter.withRowsBeforeThePage whole.offset).ephemeral = some true :=
        ephemeral
      simp only [ListRequest.uowList, IssueTables.searchAcrossIssuesAndWispsWithCounts,
        if_pos chosen]
      rfl
    cases found : whole.uowList wisps with
    | error e =>
      have allowed :=
        (alone (whole.uowList wisps) (by simp)).2 (by simp [ListRequest.Refused, whole])
      rw [found] at allowed
      cases allowed
    | ok page =>
      have all := length_of_agrees (agree (some 0) 0 0) rfl rfl rfl (blind.trans found)
      have few := length_of_agrees alone rfl rfl rfl found
      rw [all, IssueTables.answer, IssueTables.answer, List.length_insertionSort,
        List.length_insertionSort, List.length_append, List.length_append] at few
      have none : (tables.part whole.filter .issues).length =
          (wisps.part whole.filter .issues).length :=
        Nat.add_right_cancel few
      exact List.eq_nil_of_length_eq_zero none
  · intro durable limit offset maxRows
    exact agrees_of_comparable ⟨disjoint, durable, order⟩

/-- Two durable rows with a wisp between them. -/
def threeRows : IssueTables
  | .issues => ⟨[{ id := "bd-1", priority := 1 }, { id := "bd-3", priority := 3 }], by decide⟩
  | .wisps => ⟨[{ id := "bd-w2", priority := 2, ephemeral := true }], by decide⟩

/-- The second row of three, with the given cap. -/
def secondRow (maxRows : Nat) : ListRequest := { limit := some 1, offset := 1, maxRows := maxRows }

theorem readers_agree_iff_threeRows :
    (secondRow 2).storeList threeRows =
        .ok ⟨[{ id := "bd-w2", priority := 2, ephemeral := true }], true⟩ ∧
      ∃ e, (secondRow 1).uowWindowList threeRows = .error e := by
  have agree := (readers_agree_iff threeRows (secondRow 0) (by unfold IssueTables.Disjoint; decide)
    (by decide +kernel)).mpr nofun
  constructor
  · rw [(agree (some 1) 1 2 ((secondRow 2).storeList threeRows) (by simp [secondRow])).2 (by decide +kernel)]
    decide +kernel
  · exact (agree (some 1) 1 1 ((secondRow 1).uowWindowList threeRows) (by simp [secondRow])).1
      (by decide +kernel)

/-- A durable row that is flagged as ephemeral. -/
def durableEphemeral : IssueTables
  | .issues => ⟨[{ id := "bd-1", ephemeral := true }], by decide⟩
  | .wisps => Table.empty

/-- The store shows the row in a listing of ephemeral rows, a unit of work does not. -/
theorem readers_disagree :
    (∀ a ∈ durableEphemeral .issues, ∀ b ∈ durableEphemeral .wisps, a.id ≠ b.id) ∧
      ({ ephemeral := some true } : ListRequest).storeList durableEphemeral =
        .ok ⟨[{ id := "bd-1", ephemeral := true }], false⟩ ∧
      ({ ephemeral := some true } : ListRequest).uowList durableEphemeral = .ok ⟨[], false⟩ :=
  ⟨by decide, by decide +kernel, by decide +kernel⟩

end Readers

end Beads
