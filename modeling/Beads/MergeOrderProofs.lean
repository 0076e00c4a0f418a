import Beads.ListingProofs

/-! The comparison that merged results are sorted with against the order of the query
(`sqlbuild/sort.go`, `issueops/search.go`). The rows that are compared have been read
into memory, where a missing assignee and an empty one are the same text, so the two
orders part on such a pair, and on no other. -/
namespace Beads
open Lib Lib.Window

namespace SortKey
variable {key : SortKey} {sortDesc : Bool} {a b : SearchIssue}

/-- One row has no assignee and the other an empty one, which the query tells apart, and
their ids are in the opposite order. -/
def Collapses (key : SortKey) (sortDesc : Bool) (a b : SearchIssue) : Prop :=
  key = .assignee ∧ a.assignee.getD "" = "" ∧ b.assignee.getD "" = "" ∧ a.assignee ≠ b.assignee ∧
    ¬ (a.id < b.id ↔ a.assignee.isNone ≠ sortDesc)

instance (key : SortKey) (sortDesc : Bool) : DecidableRel (key.Collapses sortDesc) := fun _ _ =>
  inferInstanceAs (Decidable (_ ∧ _))

/-- When a sort term in a direction, with another one behind it, puts a row first. -/
theorem then_eq_lt {desc : Bool} {c o : Ordering} : (if desc then c.swap else c).then o = .lt ↔
    (c = .lt ∧ desc = false) ∨ (c = .gt ∧ desc = true) ∨ (c = .eq ∧ o = .lt) := by
  cases c <;> cases desc <;> simp

theorem directed_eq {desc : Bool} (cmp : SearchIssue → SearchIssue → Ordering)
    [Std.OrientedCmp cmp] :
    directed desc cmp a b = if desc then (cmp a b).swap else cmp a b := by
  have oriented : cmp b a = (cmp a b).swap := Std.OrientedCmp.eq_swap
  cases desc <;> simp [directed, oriented]

theorem byId_eq_lt : compareOn SearchIssue.id a b = .lt ↔ a.id < b.id :=
  compare_lt_iff_lt

/-- `Less`, with the column and what breaks its ties. -/
theorem less_iff (ties : Prop) (broken : (if (key = .unset ∨ key = .priority) ∧ a.createdAt ≠ b.createdAt then
      decide (b.createdAt < a.createdAt) else decide (a.id < b.id)) = true ↔ ties) :
    key.less sortDesc a b = true ↔
      (key.sortKeyCompare a b = .lt ∧ (key.descends != sortDesc) = false) ∨
      (key.sortKeyCompare a b = .gt ∧ (key.descends != sortDesc) = true) ∨
      (key.sortKeyCompare a b = .eq ∧ ties) := by
  rw [less]
  split
  · next c => simp [c]
  · next c => simp [c]
  · next c =>
    simp only [c, reduceCtorEq, false_and, false_or, true_and]
    exact broken

/-- A column that is never `NULL` is read as it is. -/
theorem less_of_column (plain : key.orderBy sortDesc a b =
      (directed (key.descends != sortDesc) key.column a b).then (compareOn SearchIssue.id a b))
    (read : key.sortKeyCompare a b = key.column a b) (single : key ≠ .unset ∧ key ≠ .priority) :
    key.less sortDesc a b = true ↔ key.orderBy sortDesc a b = .lt := by
  rw [less_iff (a.id < b.id) (by simp [single.1, single.2]), plain, directed_eq, then_eq_lt, read,
    byId_eq_lt]

private theorem less_priority (either : key = .unset ∨ key = .priority) :
    key.less sortDesc a b = true ↔ key.orderBy sortDesc a b = .lt := by
  have order : key.orderBy sortDesc a b = (directed (key.descends != sortDesc) key.column a b).then
      ((directed true (compareOn SearchIssue.createdAt) a b).then (compareOn SearchIssue.id a b)) := by
    rcases either with rfl | rfl <;> rfl
  have read : key.sortKeyCompare a b = key.column a b := by
    rcases either with rfl | rfl <;> rfl
  have ties : (directed true (compareOn SearchIssue.createdAt) a b).then
      (compareOn SearchIssue.id a b) = .lt ↔
      b.createdAt < a.createdAt ∨ (a.createdAt = b.createdAt ∧ a.id < b.id) := by
    rw [directed_eq, then_eq_lt, byId_eq_lt]
    simp [compareOn, Nat.compare_eq_lt, Nat.compare_eq_gt]
  rw [less_iff (b.createdAt < a.createdAt ∨ (a.createdAt = b.createdAt ∧ a.id < b.id)), order,
    directed_eq, then_eq_lt, read, ties]
  simp only [either, true_and, ne_eq, ite_not]
  split
  · next same => simp [same]
  · next differs => simp [differs]

/-- How a nullable column is rendered. -/
theorem nullable_eq_lt {desc : Bool} {α : Type} (column : SearchIssue → Option α) (c o : Ordering) :
    (if !desc then (compareOn (fun issue => (column issue).isNone) a b).swap
        else compareOn (fun issue => (column issue).isNone) a b).then
      ((if desc then c.swap else c).then o) = .lt ↔
    if (column a).isNone = (column b).isNone then
      (c = .lt ∧ desc = false) ∨ (c = .gt ∧ desc = true) ∨ (c = .eq ∧ o = .lt)
    else (column a).isNone ≠ desc := by
  have first : compare true false = .gt := rfl
  have last : compare false true = .lt := rfl
  rw [then_eq_lt, then_eq_lt]
  cases left : column a <;> cases right : column b <;> cases desc <;>
    simp [compareOn, left, right, first, last]

private theorem less_closed :
    SortKey.closed.less sortDesc a b = true ↔ SortKey.closed.orderBy sortDesc a b = .lt := by
  have order : SortKey.closed.orderBy sortDesc a b =
      (directed (!(true != sortDesc)) (compareOn fun issue => issue.closedAt.isNone) a b).then
        ((directed (true != sortDesc) SortKey.closed.column a b).then (compareOn SearchIssue.id a b)) := rfl
  have before (time : Nat) : compare none (some time) = .lt := rfl
  have after (time : Nat) : compare (some time) none = .gt := rfl
  have both (s t : Nat) : compare (some s) (some t) = compare s t := rfl
  rw [less_iff (a.id < b.id) (by simp), order, directed_eq, directed_eq, nullable_eq_lt, byId_eq_lt,
    sortKeyCompare_closed]
  cases left : a.closedAt <;> cases right : b.closedAt <;>
    simp [left, right, descends, column, compareOn, before, after, both]

theorem compare_empty_left {name : String} (named : name ≠ "") : compare "" name = .lt := by
  have least := empty_isLE name
  have other : compare "" name ≠ .eq := fun same => named (compare_eq_iff_eq.mp same).symm
  cases found : compare "" name <;> simp_all

private theorem compare_empty_right {name : String} (named : name ≠ "") :
    compare name "" = .gt := by
  rw [compare_gt_iff_gt, ← compare_lt_iff_lt]
  exact compare_empty_left named

/-- The comparison and the query disagree exactly on the rows they read differently. -/
theorem less_assignee :
    (SortKey.assignee.less sortDesc a b = true ↔ SortKey.assignee.orderBy sortDesc a b = .lt) ↔
    ¬ SortKey.assignee.Collapses sortDesc a b := by
  have order : SortKey.assignee.orderBy sortDesc a b =
      (directed (!(false != sortDesc)) (compareOn fun issue => issue.assignee.isNone) a b).then
        ((directed (false != sortDesc) SortKey.assignee.column a b).then (compareOn SearchIssue.id a b)) := rfl
  rw [less_iff (a.id < b.id) (by simp), order, directed_eq, directed_eq, nullable_eq_lt, byId_eq_lt,
    Collapses]
  generalize (a.id < b.id) = ids
  cases left : a.assignee with
  | none =>
    cases right : b.assignee with
    | none => simp [left, right, descends, column, sortKeyCompare, compareOn]
    | some name =>
      by_cases empty : name = ""
      · subst empty
        cases sortDesc <;> simp [left, right, descends, column, sortKeyCompare, compareOn]
      · simp [left, right, descends, column, sortKeyCompare, compareOn, empty,
          compare_empty_left empty]
  | some name =>
    cases right : b.assignee with
    | none =>
      by_cases empty : name = ""
      · subst empty
        cases sortDesc <;> simp [left, right, descends, column, sortKeyCompare, compareOn]
      · simp [left, right, descends, column, sortKeyCompare, compareOn, empty,
          compare_empty_right empty]
    | some other =>
      have alike : name = "" → other = "" → name = other := by
        rintro rfl rfl
        rfl
      simp only [left, right, descends, column, sortKeyCompare, compareOn, Option.isNone_some,
        Option.getD_some, if_true, true_iff]
      rintro ⟨-, first, second, differ, -⟩
      exact differ (congrArg some (alike first second))

/-- The comparison puts a row before another one when the query does, but for the rows
that it does not tell apart. -/
theorem less_iff_orderBy (key : SortKey) (sortDesc : Bool) (a b : SearchIssue) :
    (key.less sortDesc a b = true ↔ key.orderBy sortDesc a b = .lt) ↔
      ¬ key.Collapses sortDesc a b := by
  have told (other : key ≠ .assignee) : ¬ key.Collapses sortDesc a b :=
    fun collapses => other collapses.1
  cases key with
  | assignee => exact less_assignee
  | closed => simp only [less_closed, told, ne_eq, reduceCtorEq, not_false_eq_true]
  | unset => simp only [less_priority, told, ne_eq, reduceCtorEq, not_false_eq_true, true_or]
  | priority => simp only [less_priority, told, ne_eq, reduceCtorEq, not_false_eq_true, or_true]
  | _ =>
    simp only [told, ne_eq, reduceCtorEq, not_false_eq_true, iff_true]
    apply less_of_column
    · rfl
    · rfl
    · simp

/-- The order of the rows in memory. -/
def inMemory (key : SortKey) (sortDesc : Bool) : SearchIssue → SearchIssue → Ordering :=
  if key = .assignee then compareLex (directed sortDesc key.column) (compareOn SearchIssue.id)
  else key.orderBy sortDesc

instance (key : SortKey) (sortDesc : Bool) : Std.TransCmp (key.inMemory sortDesc) := by
  rw [inMemory]
  split <;> infer_instance

theorem less_eq_inMemory : key.less sortDesc a b = true ↔ key.inMemory sortDesc a b = .lt := by
  by_cases merged : key = .assignee
  · subst merged
    have order : SortKey.assignee.inMemory sortDesc a b =
        (directed sortDesc SortKey.assignee.column a b).then (compareOn SearchIssue.id a b) := rfl
    rw [less_iff (a.id < b.id) (by simp), order, directed_eq, then_eq_lt, byId_eq_lt]
    simp [descends, sortKeyCompare]
  · rw [inMemory, if_neg merged]
    exact (less_iff_orderBy key sortDesc a b).mpr fun collapses => merged collapses.1

private theorem id_eq_of_inMemory (same : key.inMemory sortDesc a b = .eq) : a.id = b.id := by
  rw [inMemory] at same
  split at same
  · exact compare_eq_iff_eq.mp (Ordering.then_eq_eq.mp same).2
  · exact id_eq_of_orderBy same

/-- No row is moved before the one. -/
theorem not_less_iff :
    ¬ key.less sortDesc b a = true ↔ (key.inMemory sortDesc a b).isLE = true := by
  have oriented : key.inMemory sortDesc b a = (key.inMemory sortDesc a b).swap :=
    Std.OrientedCmp.eq_swap
  rw [less_eq_inMemory, oriented]
  cases key.inMemory sortDesc a b <;> simp

private theorem id_eq_of_not_less (left : ¬ key.less sortDesc a b = true)
    (right : ¬ key.less sortDesc b a = true) :
    a.id = b.id :=
  id_eq_of_inMemory (Std.OrientedCmp.isLE_antisymm (not_less_iff.mp right) (not_less_iff.mp left))

end SortKey

/-! ## The cut -/

/-- A row that the query puts behind the cut is read into memory with one before the cut
that the comparison does not tell from it. -/
def IssueTables.Displaces (tables : IssueTables) (filter : IssueFilter) : Prop :=
  0 < filter.limit ∧ (filter.maxRows = 0 ∨ filter.limit ≤ filter.maxRows) ∧
    ∃ p, ∃ late ∈ ((tables.matching filter p).insertionSort filter.OrderedBefore).take filter.limit,
      late ∉ (tables.answer filter).take filter.limit ∧
        ∃ kept ∈ (tables.answer filter).take filter.limit, filter.sortBy.Collapses filter.sortDesc late kept

/-- What the search answers with are the first rows of the query over both tables. -/
def IssueTables.Keeps (tables : IssueTables) (filter : IssueFilter) : Prop :=
  ∀ kept, tables.searchInTx filter = .ok kept → kept.Perm (bounded filter.limit (tables.answer filter))

section Cut
variable {tables : IssueTables} {filter : IssueFilter}

private theorem sortMergedResults_sorted (rows : List SearchIssue) :
    (filter.sortMergedResults rows).Pairwise fun a b =>
    ¬ filter.sortBy.less filter.sortDesc b a = true := by
  have total : Std.Total fun a b :
      SearchIssue => ¬ filter.sortBy.less filter.sortDesc b a = true := by
    constructor
    intro a b
    by_contra neither
    push Not at neither
    have oriented : filter.sortBy.inMemory filter.sortDesc b a =
        (filter.sortBy.inMemory filter.sortDesc a b).swap := Std.OrientedCmp.eq_swap
    rw [SortKey.less_eq_inMemory, SortKey.less_eq_inMemory, oriented] at neither
    cases found : filter.sortBy.inMemory filter.sortDesc a b <;> simp [found] at neither
  have transitive :
      IsTrans SearchIssue fun a b => ¬ filter.sortBy.less filter.sortDesc b a = true := by
    constructor
    intro a b c first second
    rw [SortKey.not_less_iff] at first second ⊢
    exact Std.TransCmp.isLE_trans first second
  exact List.pairwise_insertionSort _ rows

theorem ids_distinct (disjoint : tables.Disjoint) :
    ((tables.matching filter .issues ++ tables.matching filter .wisps).map SearchIssue.id).Nodup := by
  have each (p : Plane) : ((tables.matching filter p).map SearchIssue.id).Nodup :=
    (tables p).distinct.sublist (List.filter_sublist.map _)
  rw [List.map_append, List.nodup_append]
  refine ⟨each .issues, each .wisps, ?_⟩
  intro left first right second
  obtain ⟨a, held, rfl⟩ := List.mem_map.mp first
  obtain ⟨b, there, rfl⟩ := List.mem_map.mp second
  exact disjoint a (List.mem_filter.mp held).1 b (List.mem_filter.mp there).1

theorem searchTable_of_empty {p : Plane} (empty : (tables p).rows = []) :
    tables.searchTable filter p = [] := by
  simp [IssueTables.searchTable, IssueTables.matching, empty, bounded]

/-- Where both tables are searched, what their queries bring in is finished in some order;
it is the order of the comparison when there are wisps among it. -/
theorem searchInTx_eq (disjoint : tables.Disjoint) (both : filter.skipWisps = false)
    (merged : filter.ephemeral ≠ some true) :
    ∃ rows, tables.searchInTx filter = IssueTables.finish filter rows ∧
      rows.Perm (tables.searchTable filter .issues ++ tables.searchTable filter .wisps) ∧
      (tables.searchTable filter .wisps ≠ [] →
        rows.Pairwise fun a b => ¬ filter.sortBy.less filter.sortDesc b a = true) := by
  simp only [IssueTables.searchInTx, merged, both, false_and, if_false, false_or, reduceCtorEq]
  split
  · next alone =>
    have none : tables.searchTable filter .wisps = [] := by
      rcases alone with empty | none
      · exact searchTable_of_empty empty
      · exact none
    refine ⟨_, rfl, ?_, fun found => absurd none found⟩
    rw [none, List.append_nil]
  · refine ⟨_, rfl, ?_, fun _ => ?_⟩
    · rw [withoutDuplicates_eq disjoint]
      exact List.perm_insertionSort _ _
    · exact sortMergedResults_sorted _

theorem part_eq_matching (both : filter.skipWisps = false) (p : Plane) :
    tables.part filter p = tables.matching filter p := by
  cases p with
  | issues => rfl
  | wisps => simp [IssueTables.part, both]

theorem length_searchTable (p : Plane) : (tables.searchTable filter p).length =
    if 0 < effectiveSearchLimit filter.limit filter.maxRows then
      min (effectiveSearchLimit filter.limit filter.maxRows) (tables.matching filter p).length
    else (tables.matching filter p).length := by
  rw [IssueTables.searchTable, length_bounded, List.length_insertionSort]

theorem matching_of_searchTable_nil {p : Plane} (none : tables.searchTable filter p = []) :
    tables.matching filter p = [] := by
  have length : (tables.searchTable filter p).length = 0 := by rw [none]; rfl
  rw [length_searchTable] at length
  apply List.length_eq_zero_iff.mp
  split at length <;> omega

/-- The search is refused when the cap is below the rows that match and below the cut. -/
theorem searchInTx_refused_iff (disjoint : tables.Disjoint) (both : filter.skipWisps = false)
    (merged : filter.ephemeral ≠ some true) : (∃ e, tables.searchInTx filter = .error e) ↔
      0 < filter.maxRows ∧ filter.maxRows < (tables.answer filter).length ∧
        (filter.limit = 0 ∨ filter.maxRows < filter.limit) := by
  obtain ⟨rows, found, perm, -⟩ := searchInTx_eq disjoint both merged
  have size := perm.length_eq
  rw [List.length_append, length_searchTable, length_searchTable] at size
  have refused : (∃ e, tables.searchInTx filter = .error e) ↔
      0 < filter.maxRows ∧ filter.maxRows < (bounded filter.limit rows).length := by
    rw [found, finish_eq]
    split
    · next above => simp [above]
    · next fits => simp [fits]
  rw [refused, length_bounded, length_answer, part_eq_matching both, part_eq_matching both]
  rw [effectiveSearchLimit] at size
  split at size <;> split at size <;> split <;> omega

/-- Where the cut does not show, every row that matches is there. -/
theorem perm_answer_of_uncut (both : filter.skipWisps = false) {rows kept : List SearchIssue}
    (perm : rows.Perm (tables.searchTable filter .issues ++ tables.searchTable filter .wisps))
    (uncut : ¬ (0 < filter.limit ∧ (filter.maxRows = 0 ∨ filter.limit ≤ filter.maxRows)))
    (found : IssueTables.finish filter rows = .ok kept) :
    kept.Perm (bounded filter.limit (tables.answer filter)) := by
  have size := perm.length_eq
  rw [List.length_append, length_searchTable, length_searchTable] at size
  rw [finish_eq] at found
  split at found
  · cases found
  · next fits =>
    obtain rfl := Except.ok.inj found
    rw [length_bounded] at fits
    have whole (p : Plane) : tables.searchTable filter p =
        (tables.matching filter p).insertionSort filter.OrderedBefore := by
      rw [IssueTables.searchTable, bounded]
      split
      · next cut =>
        apply List.take_of_length_le
        rw [List.length_insertionSort]
        rw [if_pos cut, if_pos cut] at size
        have bound : effectiveSearchLimit filter.limit filter.maxRows = filter.maxRows + 1 ∧ 0 < filter.maxRows := by
          rw [effectiveSearchLimit] at cut ⊢
          split at cut
          · next capped => exact ⟨if_pos capped, capped.1⟩
          · omega
        cases p <;> split at fits <;> omega
      · rfl
    have answer : (tables.answer filter).length =
        (tables.matching filter .issues).length + (tables.matching filter .wisps).length := by
      rw [length_answer, part_eq_matching both, part_eq_matching both]
    have rest (list : List SearchIssue) (same : list.length = rows.length) :
        bounded filter.limit list = list := by
      rw [bounded]
      split
      · apply List.take_of_length_le
        rw [same]
        split at fits <;> omega
      · rfl
    have all : rows.Perm (tables.answer filter) := by
      rw [whole, whole] at perm
      apply perm.trans
      rw [IssueTables.answer, part_eq_matching both, part_eq_matching both]
      exact ((List.perm_insertionSort _ _).append (List.perm_insertionSort _ _)).trans
        (List.perm_insertionSort _ _).symm
    rw [rest _ rfl, rest _ all.length_eq.symm]
    exact all

/-- Before the cut the query has put a row that is not moved behind it. -/
theorem not_less_iff_tells {a b : SearchIssue} (kept : a ∈ (tables.answer filter).take filter.limit)
    (held : b ∈ tables.answer filter) (late : b ∉ (tables.answer filter).take filter.limit) :
    ¬ filter.sortBy.less filter.sortDesc b a = true ↔
      ¬ filter.sortBy.Collapses filter.sortDesc b a := by
  have before : (filter.sortBy.orderBy filter.sortDesc a b).isLE = true := by
    have sorted : (tables.answer filter).Pairwise filter.OrderedBefore := answer_sorted
    rw [← List.take_append_drop filter.limit (tables.answer filter)] at sorted held
    exact (List.pairwise_append.mp sorted).2.2 a kept b
      ((List.mem_append.mp held).resolve_left late)
  have oriented : filter.sortBy.orderBy filter.sortDesc b a =
      (filter.sortBy.orderBy filter.sortDesc a b).swap := Std.OrientedCmp.eq_swap
  have behind : filter.sortBy.orderBy filter.sortDesc b a ≠ .lt := by
    rw [oriented]
    cases found : filter.sortBy.orderBy filter.sortDesc a b <;> simp_all
  rw [← SortKey.less_iff_orderBy]
  simp [behind]

/-- The rows of the merge that are kept are those the query keeps, unless one is displaced. -/
theorem take_merge_iff (disjoint : tables.Disjoint) (both : filter.skipWisps = false)
    {rows : List SearchIssue}
    (cut : 0 < filter.limit ∧ (filter.maxRows = 0 ∨ filter.limit ≤ filter.maxRows))
    (perm : rows.Perm (tables.searchTable filter .issues ++ tables.searchTable filter .wisps))
    (sorted : rows.Pairwise fun a b => ¬ filter.sortBy.less filter.sortDesc b a = true) :
    (rows.take filter.limit).Perm ((tables.answer filter).take filter.limit) ↔
      ¬ tables.Displaces filter := by
  have limit : effectiveSearchLimit filter.limit filter.maxRows = filter.limit :=
    if_neg (by omega)
  have leg (p : Plane) : tables.searchTable filter p =
      ((tables.matching filter p).insertionSort filter.OrderedBefore).take filter.limit := by
    rw [IssueTables.searchTable, limit, bounded, if_pos cut.1]
  have listed {a : SearchIssue} : a ∈ rows ↔ ∃ p, a ∈ tables.searchTable filter p := by
    rw [perm.mem_iff, List.mem_append]
    constructor
    · rintro (held | held)
      · exact ⟨_, held⟩
      · exact ⟨_, held⟩
    · rintro ⟨p, held⟩
      cases p with
      | issues => exact Or.inl held
      | wisps => exact Or.inr held
  have matched {a : SearchIssue} (held : a ∈ rows) : a ∈ tables.answer filter := by
    obtain ⟨p, held⟩ := listed.mp held
    rw [leg] at held
    rw [mem_answer]
    refine ⟨p, ?_⟩
    rw [part_eq_matching both]
    exact (List.mem_insertionSort _).mp (List.mem_of_mem_take held)
  have fetched : (tables.fetched filter filter.limit).Perm rows := by
    rw [IssueTables.fetched, part_eq_matching both, part_eq_matching both, ← limit]
    exact (List.perm_insertionSort _ _).trans perm.symm
  have first : (tables.fetched filter filter.limit).take filter.limit =
      (tables.answer filter).take filter.limit := by
    have bounds := bounded_fetched disjoint filter filter.limit
    rwa [bounded, bounded, if_pos cut.1, if_pos cut.1] at bounds
  have all : (tables.matching filter .issues ++ tables.matching filter .wisps).Nodup :=
    (ids_distinct disjoint).of_map
  have distinct : (tables.answer filter).Nodup := by
    rw [IssueTables.answer, part_eq_matching both, part_eq_matching both]
    exact (List.perm_insertionSort _ _).nodup_iff.mpr all
  have nodup : rows.Nodup := by
    rw [perm.nodup_iff, leg, leg]
    have whole : ((tables.matching filter .issues).insertionSort filter.OrderedBefore ++
        (tables.matching filter .wisps).insertionSort filter.OrderedBefore).Nodup :=
      ((List.perm_insertionSort _ _).append (List.perm_insertionSort _ _)).nodup_iff.mpr all
    exact whole.sublist ((List.take_sublist _ _).append (List.take_sublist _ _))
  have inside : (tables.answer filter).take filter.limit ⊆ rows := by
    intro a held
    rw [← first] at held
    exact fetched.mem_iff.mp (List.mem_of_mem_take held)
  have size : ((tables.answer filter).take filter.limit).length = min filter.limit rows.length := by
    rw [← first, List.length_take, fetched.length_eq]
  have separates : Separates (fun a b => ¬ filter.sortBy.less filter.sortDesc b a = true) rows := by
    intro a left b right before after
    obtain ⟨p, left⟩ := mem_answer.mp (matched left)
    obtain ⟨q, right⟩ := mem_answer.mp (matched right)
    exact disjoint.eq_of_id (mem_of_part left) (mem_of_part right)
      (SortKey.id_eq_of_not_less after before)
  rw [take_perm_iff sorted separates nodup (distinct.sublist (List.take_sublist _ _)) inside size]
  constructor
  · rintro first ⟨-, -, p, late, held, behind, kept, before, collapses⟩
    have there : late ∈ rows := listed.mpr ⟨p, leg p ▸ held⟩
    exact (not_less_iff_tells before (matched there) behind).mp
      (first kept before late there behind) collapses
  · intro told a kept b held late
    rw [not_less_iff_tells kept (matched held) late]
    intro collapses
    obtain ⟨p, there⟩ := listed.mp held
    exact told ⟨cut.1, cut.2, p, b, leg p ▸ there, late, a, kept, collapses⟩

/-- A search that meets no wisps is cut by the query. -/
theorem take_alone (both : filter.skipWisps = false) {rows : List SearchIssue}
    (cut : 0 < filter.limit ∧ (filter.maxRows = 0 ∨ filter.limit ≤ filter.maxRows))
    (perm : rows.Perm (tables.searchTable filter .issues ++ tables.searchTable filter .wisps))
    (alone : tables.searchTable filter .wisps = []) :
    (rows.take filter.limit).Perm ((tables.answer filter).take filter.limit) ∧
      ¬ tables.Displaces filter := by
  have limit : effectiveSearchLimit filter.limit filter.maxRows = filter.limit :=
    if_neg (by omega)
  have leg (p : Plane) : tables.searchTable filter p =
      ((tables.matching filter p).insertionSort filter.OrderedBefore).take filter.limit := by
    rw [IssueTables.searchTable, limit, bounded, if_pos cut.1]
  have answer : (tables.answer filter).take filter.limit = tables.searchTable filter .issues := by
    rw [leg, IssueTables.answer, part_eq_matching both, part_eq_matching both,
      matching_of_searchTable_nil alone, List.append_nil]
  constructor
  · rw [alone, List.append_nil] at perm
    have short : rows.length ≤ filter.limit := by
      rw [perm.length_eq, leg]
      exact List.length_take_le _ _
    rw [List.take_of_length_le short, answer]
    exact perm
  · rintro ⟨-, -, p, late, held, behind, -⟩
    rw [← leg] at held
    cases p with
    | issues => exact behind (answer ▸ held)
    | wisps =>
      rw [alone] at held
      cases held

private theorem searchInTx_keeps_iff (disjoint : tables.Disjoint) (both : filter.skipWisps = false)
    (merged : filter.ephemeral ≠ some true) : tables.Keeps filter ↔ ¬ tables.Displaces filter := by
  obtain ⟨rows, found, perm, sorted⟩ := searchInTx_eq disjoint both merged
  rw [IssueTables.Keeps, found]
  by_cases cut : 0 < filter.limit ∧ (filter.maxRows = 0 ∨ filter.limit ≤ filter.maxRows)
  · have fits : ¬ (0 < filter.maxRows ∧ filter.maxRows < (bounded filter.limit rows).length) := by
      rw [length_bounded, if_pos cut.1]
      omega
    have ends : (∀ kept, IssueTables.finish filter rows = .ok kept →
          kept.Perm (bounded filter.limit (tables.answer filter))) ↔
        (rows.take filter.limit).Perm ((tables.answer filter).take filter.limit) := by
      rw [finish_eq, if_neg fits, bounded, bounded, if_pos cut.1, if_pos cut.1]
      simp
    rw [ends]
    by_cases alone : tables.searchTable filter .wisps = []
    · have same := take_alone both cut perm alone
      simp [same]
    · exact take_merge_iff disjoint both cut perm (sorted alone)
  · constructor
    · intro _ displaces
      exact cut ⟨displaces.1, displaces.2.1⟩
    · intro _ kept ok
      exact perm_answer_of_uncut both perm cut ok

/-! ## Rows that are in both tables -/

/-- No id has a row that matches in both tables. -/
def IssueTables.Apart (tables : IssueTables) (filter : IssueFilter) : Prop :=
  ∀ a ∈ tables.matching filter .issues, ∀ b ∈ tables.matching filter .wisps, a.id ≠ b.id

/-- The tables without the rows that do not match. -/
def IssueTables.matched (tables : IssueTables) (filter : IssueFilter) : IssueTables := fun p =>
  (tables p).delete fun issue => ¬ filter.Matches issue

theorem matching_matched (p : Plane) :
    (tables.matched filter).matching filter p = tables.matching filter p := by
  simp [IssueTables.matched, IssueTables.matching, Table.delete, List.filter_filter]

private theorem searchTable_matched (p : Plane) :
    (tables.matched filter).searchTable filter p = tables.searchTable filter p := by
  rw [IssueTables.searchTable, matching_matched, IssueTables.searchTable]

theorem answer_matched : (tables.matched filter).answer filter = tables.answer filter := by
  have part (p : Plane) : (tables.matched filter).part filter p = tables.part filter p := by
    cases p with
    | issues => exact matching_matched .issues
    | wisps => rw [IssueTables.part, matching_matched, IssueTables.part]
  rw [IssueTables.answer, part, part, IssueTables.answer]

/-- A search sees the rows that match and no others. -/
theorem searchInTx_matched :
    (tables.matched filter).searchInTx filter = tables.searchInTx filter := by
  have probed (tables : IssueTables) :
      ((tables .wisps).rows = [] ∨ tables.searchTable filter .wisps = []) ↔
      tables.searchTable filter .wisps = [] :=
    or_iff_right_of_imp searchTable_of_empty
  simp only [IssueTables.searchInTx, probed]
  simp only [searchTable_matched]

theorem IssueTables.Apart.disjoint (apart : tables.Apart filter) :
    (tables.matched filter).Disjoint := by
  intro a left b right
  rw [IssueTables.matched, Table.mem_delete, not_not] at left right
  exact apart a (List.mem_filter.mpr ⟨left.1, decide_eq_true left.2⟩) b
    (List.mem_filter.mpr ⟨right.1, decide_eq_true right.2⟩)

private theorem keeps_matched : (tables.matched filter).Keeps filter ↔ tables.Keeps filter := by
  rw [IssueTables.Keeps, searchInTx_matched, answer_matched, IssueTables.Keeps]

private theorem displaces_matched :
    (tables.matched filter).Displaces filter ↔ tables.Displaces filter := by
  simp only [IssueTables.Displaces, matching_matched, answer_matched]

/-- A search without a bound is short of a row that is in both tables. -/
theorem apart_of_keeps (both : filter.skipWisps = false) (merged : filter.ephemeral ≠ some true)
    (whole : filter.limit = 0) (free : filter.maxRows = 0) (keeps : tables.Keeps filter) :
    tables.Apart filter := by
  have all (rows : List SearchIssue) : bounded filter.limit rows = rows := if_neg (by omega)
  have leg (p : Plane) : tables.searchTable filter p =
      (tables.matching filter p).insertionSort filter.OrderedBefore := by
    rw [IssueTables.searchTable, effectiveSearchLimit, if_neg (by omega), all]
  have listed {p : Plane} {a : SearchIssue} (held : a ∈ tables.matching filter p) :
      a ∈ tables.searchTable filter p := by
    rw [leg]
    exact (List.mem_insertionSort _).mpr held
  intro a left b right same
  have some : ¬ ((tables .wisps).rows = [] ∨ tables.searchTable filter .wisps = []) := by
    rw [or_iff_right_of_imp searchTable_of_empty]
    exact List.ne_nil_of_mem (listed right)
  simp only [IssueTables.Keeps, IssueTables.searchInTx, merged, both, false_and, if_false, false_or,
    if_neg some, reduceCtorEq, finish_eq, free, Nat.lt_irrefl, all] at keeps
  have size := (keeps _ rfl).length_eq
  rw [IssueFilter.sortMergedResults, List.length_insertionSort, List.length_append, length_answer,
    part_eq_matching both, part_eq_matching both, leg, leg, List.length_insertionSort] at size
  have kept : (IssueTables.withoutDuplicates ((tables.matching filter .issues).insertionSort filter.OrderedBefore)
      ((tables.matching filter .wisps).insertionSort filter.OrderedBefore)).length =
        ((tables.matching filter .issues).insertionSort filter.OrderedBefore).length := by
    rw [List.length_insertionSort]
    omega
  have single := List.length_filter_eq_length_iff.mp kept a ((List.mem_insertionSort _).mpr left)
  rw [decide_eq_true_eq] at single
  exact single (List.mem_map.mpr ⟨b, (List.mem_insertionSort _).mpr right, same.symm⟩)

/-- The comparison agrees with the query on every two rows that it tells apart. Where both
tables are searched and no id matches in both, the rows that are kept are the first ones of
the query over both, unless one of those is displaced by a row that the comparison does not
tell from it. They are the first ones for every bound exactly if no id matches in both and
nothing is displaced under any. -/
theorem merge_follows_query (tables : IssueTables) (filter : IssueFilter)
    (both : filter.skipWisps = false) (merged : filter.ephemeral ≠ some true) :
    (∀ (key : SortKey) (sortDesc : Bool) (a b : SearchIssue),
      (key.less sortDesc a b = true ↔ key.orderBy sortDesc a b = .lt) ↔
        ¬ key.Collapses sortDesc a b) ∧
    (tables.Apart filter →
      ((∃ e, tables.searchInTx filter = .error e) ↔
        0 < filter.maxRows ∧ filter.maxRows < (tables.answer filter).length ∧
          (filter.limit = 0 ∨ filter.maxRows < filter.limit)) ∧
      (tables.Keeps filter ↔ ¬ tables.Displaces filter)) ∧
    ((∀ limit maxRows, tables.Keeps { filter with limit, maxRows }) ↔
      tables.Apart filter ∧ ∀ limit maxRows,
        ¬ tables.Displaces { filter with limit, maxRows }) := by
  have each (bounds : IssueFilter) (both : bounds.skipWisps = false)
      (merged : bounds.ephemeral ≠ some true)
      (apart : tables.Apart bounds) : tables.Keeps bounds ↔ ¬ tables.Displaces bounds := by
    rw [← keeps_matched, searchInTx_keeps_iff apart.disjoint both merged, displaces_matched]
  refine ⟨SortKey.less_iff_orderBy, fun apart => ⟨?_, each filter both merged apart⟩, ?_, ?_⟩
  · rw [← searchInTx_matched, searchInTx_refused_iff apart.disjoint both merged, answer_matched]
  · intro keeps
    have apart : tables.Apart { filter with limit := 0, maxRows := 0 } :=
      apart_of_keeps both merged rfl rfl (keeps 0 0)
    exact ⟨apart, fun limit maxRows =>
      (each { filter with limit, maxRows } both merged apart).mp (keeps limit maxRows)⟩
  · rintro ⟨apart, told⟩ limit maxRows
    exact (each { filter with limit, maxRows } both merged apart).mpr (told limit maxRows)

theorem merge_follows_query_threeRows :
    threeRows.searchInTx { limit := 2 } =
        .ok [{ id := "bd-1", priority := 1 }, { id := "bd-w2", priority := 2, ephemeral := true }] ∧
      ([{ id := "bd-1", priority := 1 }, { id := "bd-w2", priority := 2, ephemeral := true }] : List SearchIssue).Perm
        (bounded 2 (threeRows.answer { limit := 2 })) := by
  have found : threeRows.searchInTx { limit := 2 } =
      .ok [{ id := "bd-1", priority := 1 }, { id := "bd-w2", priority := 2, ephemeral := true }] := by
    decide +kernel
  have apart : threeRows.Apart {} := by
    unfold IssueTables.Apart
    decide +kernel
  have keeps := (merge_follows_query threeRows {} rfl (by simp)).2.2.mpr ⟨apart, by
    rintro limit maxRows ⟨-, -, p, late, held, behind, kept, before, collapses⟩
    cases collapses.1⟩
  exact ⟨found, keeps 2 0 _ found⟩

/-- An issue without an assignee, and a wisp whose claim was given up. -/
def unclaimedWisp : IssueTables
  | .issues => ⟨[{ id := "bd-2" }], by decide⟩
  | .wisps => ⟨[{ id := "bd-1", assignee := some "" }], by decide⟩

/-- The first row by assignee. -/
def firstAssigned : IssueFilter := { limit := 1, sortBy := .assignee }

theorem unclaimedWisp_displaces :
    (SortKey.assignee.less false { id := "bd-1", assignee := some "" } { id := "bd-2" } = true ∧
      SortKey.assignee.orderBy false { id := "bd-1", assignee := some "" } { id := "bd-2" } = .gt) ∧
    unclaimedWisp.searchInTx firstAssigned = .ok [{ id := "bd-1", assignee := some "" }] ∧
    bounded 1 (unclaimedWisp.answer firstAssigned) = [{ id := "bd-2" }] := by
  decide +kernel

end Cut
end Beads
