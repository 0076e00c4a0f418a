import Beads.Lib.Window
import Beads.ReadyWork

/-! Ready work is the sorted list of all ready rows, cut to the limit, or a refusal by the row cap.
The comparison of the merge is the order of the queries, so each of them may be cut to the limit
first; the pages of wisps come to the first ready ones. -/
namespace Beads
open Lib Lib.Window

/-! ## Order -/

namespace SortPolicy
variable {policy : SortPolicy} {now : Nat} {a b : WorkIssue}

theorem issueCreatedBefore_iff : issueCreatedBefore a b = true ↔ byCreated a b = .lt := by
  have order : byCreated a b = (compare a.createdAt b.createdAt).then (compare a.id b.id) := rfl
  rw [order, Ordering.then_eq_lt, compare_lt_iff_lt, compare_eq_iff_eq, compare_lt_iff_lt,
    issueCreatedBefore]
  by_cases same : a.createdAt = b.createdAt <;> simp [same]

private theorem issuePriorityBefore_iff :
    issuePriorityBefore a b = true ↔ byPriority a b = .lt := by
  have order : byPriority a b = (compare a.priority b.priority).then (byCreated a b) := rfl
  have rest : issuePriorityBefore a b = true ↔ a.priority < b.priority ∨
      a.priority = b.priority ∧ issueCreatedBefore a b = true := by
    by_cases same : a.priority = b.priority <;> simp [issuePriorityBefore, issueCreatedBefore, same]
  rw [rest, order, Ordering.then_eq_lt, compare_lt_iff_lt, compare_eq_iff_eq,
    issueCreatedBefore_iff]

/-- The comparison in memory is that of the query. -/
theorem before_iff : policy.before now a b = true ↔ policy.order now a b = .lt := by
  have hybrid : SortPolicy.hybrid.before now a b = true ↔ SortPolicy.hybrid.order now a b = .lt := by
    have order : SortPolicy.hybrid.order now a b =
        (compare (if a.recent now then 0 else 1) (if b.recent now then 0 else 1)).then
          ((compare (if a.recent now then a.priority else 999) (if b.recent now then b.priority else 999)).then
            (byCreated a b)) := rfl
    rw [order]
    cases fresh : a.recent now <;> cases fresh' : b.recent now
    · simp [before, fresh, fresh', issueCreatedBefore_iff]
    · simp [before, fresh, fresh', Nat.compare_eq_lt, Ordering.then_eq_lt]
    · simp [before, fresh, fresh', Nat.compare_eq_lt, Ordering.then_eq_lt]
    · by_cases same : a.priority = b.priority
      · simp [before, fresh, fresh', same, issueCreatedBefore_iff]
      · simp [before, fresh, fresh', same, Ordering.then_eq_lt, compare_lt_iff_lt]
  cases policy with
  | oldest => exact issueCreatedBefore_iff
  | priority => exact issuePriorityBefore_iff
  | other => exact issuePriorityBefore_iff
  | hybrid => exact hybrid
  | unset => exact hybrid

instance : Std.TransCmp byCreated := inferInstanceAs (Std.TransCmp (compareLex _ _))

instance : Std.TransCmp (policy.order now) := by
  unfold order byPriority
  cases policy <;> exact inferInstanceAs (Std.TransCmp (compareLex _ _))

instance : Std.Total (policy.OrderedBefore now) where
  total a b := by
    have oriented : policy.order now b a = (policy.order now a b).swap := Std.OrientedCmp.eq_swap
    rw [OrderedBefore, OrderedBefore, oriented]
    cases policy.order now a b <;> simp

instance : IsTrans WorkIssue (policy.OrderedBefore now) where
  trans _ _ _ := Std.TransCmp.isLE_trans

private theorem not_before_iff : ¬ policy.before now b a = true ↔ policy.OrderedBefore now a b := by
  have oriented : policy.order now b a = (policy.order now a b).swap := Std.OrientedCmp.eq_swap
  rw [before_iff, OrderedBefore, oriented]
  cases policy.order now a b <;> simp

private theorem sortReadyIssues_eq (rows : List WorkIssue) :
    policy.sortReadyIssues now rows = rows.insertionSort (policy.OrderedBefore now) := by
  rw [sortReadyIssues]
  simp only [not_before_iff]

/-- Rows that stand side by side in the order have one id. -/
theorem id_eq_of_orderedBefore (left : policy.OrderedBefore now a b)
    (right : policy.OrderedBefore now b a) :
    a.id = b.id := by
  have same : policy.order now a b = .eq := Std.OrientedCmp.isLE_antisymm left right
  have created : byCreated a b = .eq := by
    cases policy <;> simp_all [order, byPriority, compareLex, Ordering.then_eq_eq]
  have id : (compare a.createdAt b.createdAt).then (compare a.id b.id) = .eq := created
  rw [Ordering.then_eq_eq, compare_eq_iff_eq, compare_eq_iff_eq] at id
  exact id.2

end SortPolicy

/-! ## Rows -/

/-- The part of a list that a limit leaves; a limit that is not positive is none. -/
def WorkFilter.cut (filter : WorkFilter) (rows : List WorkIssue) : List WorkIssue :=
  if 0 < filter.limit then rows.take filter.limit.toNat else rows

/-- The durable query reads to the limit, or one row past a cap that is below it. -/
theorem WorkFilter.effectiveLimit_of_limit {filter : WorkFilter} (limited : 0 < filter.limit) :
    filter.effectiveLimit = filter.limit.toNat ∧
      (filter.maxRows = 0 ∨ filter.limit.toNat ≤ filter.maxRows) ∨
      filter.effectiveLimit = filter.maxRows + 1 ∧ 0 < filter.maxRows ∧
        filter.maxRows < filter.limit.toNat := by
  unfold effectiveLimit effectiveSearchLimit
  split_ifs <;> omega

/-- Without a limit it reads everything, or one row past the cap. -/
theorem WorkFilter.effectiveLimit_of_unlimited {filter : WorkFilter}
    (unlimited : ¬ 0 < filter.limit) :
    filter.effectiveLimit = 0 ∨
      filter.effectiveLimit = filter.maxRows + 1 ∧ 0 < filter.maxRows := by
  unfold effectiveLimit effectiveSearchLimit
  split_ifs <;> omega

theorem length_limitClause (limit : Nat) (rows : List WorkIssue) :
    (limitClause limit rows).length = if 0 < limit then min limit rows.length else rows.length := by
  rw [limitClause]
  split
  · exact List.length_take
  · rfl

namespace WorkStore
variable {s : WorkStore} {regexp : String → String → Bool} {now : Nat} {filter : WorkFilter}
  {rows : List WorkIssue}

variable (s now filter) in
/-- A wisp is ready if the filter matches it and the second filter keeps it. -/
def ReadyWisp (row : WorkIssue) : Prop :=
  s.MatchesWisp (readyWorkWispIssueFilter filter) row ∧ row.pinned = false ∧ ¬ s.Excluded now filter row

instance : DecidablePred (s.ReadyWisp now filter) := fun _ => inferInstanceAs (Decidable (_ ∧ _))

variable (s regexp now filter) in
/-- All ready issues and wisps, in table order. -/
def readyRows : List WorkIssue :=
  (s.rows .issues).rows.filter (s.ReadyIssue regexp now filter) ++
    (s.rows .wisps).rows.filter (s.ReadyWisp now filter)

variable (s) in
/-- No id is in both tables. -/
def Disjoint : Prop := ∀ a ∈ s.rows .issues, ∀ b ∈ s.rows .wisps, a.id ≠ b.id

/-- The order tells the rows of disjoint tables apart. -/
theorem Disjoint.separates (disjoint : s.Disjoint) :
    Separates (filter.sortPolicy.OrderedBefore now) ((s.rows .issues).rows ++ (s.rows .wisps).rows) := by
  intro a left b right before after
  have same : a.id = b.id := SortPolicy.id_eq_of_orderedBefore before after
  rcases List.mem_append.mp left with left | left <;> rcases List.mem_append.mp right with right | right
  · exact Table.eq_of_key left right same
  · exact absurd same (disjoint a left b right)
  · exact absurd same.symm (disjoint b right a left)
  · exact Table.eq_of_key left right same

/-- Durable rows are read back as they are. -/
theorem Disjoint.getIssuesByIDs (disjoint : s.Disjoint)
    (held : ∀ row ∈ rows, row ∈ s.rows .issues) :
    s.getIssuesByIDs (rows.map WorkIssue.key) = rows := by
  have read : ∀ row ∈ rows,
      ((s.rows .wisps).find? row.key).or ((s.rows .issues).find? row.key) = some row := by
    intro row mem
    have other : (s.rows .wisps).find? row.key = none :=
      Table.find?_eq_none.mpr fun wisp wisps => Ne.symm (disjoint row (held row mem) wisp wisps)
    have found : (s.rows .issues).find? row.key = some row :=
      Table.find?_eq_some.mpr ⟨held row mem, rfl⟩
    rw [other, found, Option.none_or]
  rw [WorkStore.getIssuesByIDs, List.filterMap_map]
  exact (List.filterMap_congr read).trans List.filterMap_some

/-! ## Pages -/

private theorem filterReadyWisps_append (rows rows' : List WorkIssue) :
    s.filterReadyWisps now filter (rows ++ rows') =
      s.filterReadyWisps now filter rows ++ s.filterReadyWisps now filter rows' :=
  List.filter_append _ _

/-- The pages come to the first ready rows behind their offset. -/
theorem gatherPages_eq {limit pageSize offset : Nat} {ready : List WorkIssue} (page : 0 < pageSize)
    (few : ready.length ≤ limit) :
    s.gatherPages now filter rows limit pageSize offset ready =
      (ready ++ s.filterReadyWisps now filter (rows.drop offset)).take limit := by
  fun_induction gatherPages with
  | case1 offset ready fewer last =>
    rw [queryReadyWispIssueIDPage, List.take_eq_nil_iff] at last
    have none : rows.drop offset = [] := last.resolve_left page.ne'
    simp [none, filterReadyWisps, few]
  | case2 offset ready fewer more page ready' short =>
    have whole : page = rows.drop offset := by
      apply List.take_of_length_le
      simp only [page, queryReadyWispIssueIDPage, List.length_take] at short
      omega
    rw [← whole]
  | case3 offset ready fewer more page ready' full ih =>
    have split : rows.drop offset = page ++ rows.drop (offset + pageSize) := by
      rw [← List.drop_drop]
      exact (List.take_append_drop pageSize _).symm
    rw [ih (List.length_take_le _ _), take_take_append, split, filterReadyWisps_append,
      List.append_assoc]
  | case4 offset ready enough =>
    have exactly : ready.length = limit := by omega
    rw [← exactly, List.take_left']
    rfl

/-! ## The two parts -/

private theorem ReadyWisp.paged {row : WorkIssue} (ready : s.ReadyWisp now filter row) :
    s.PagedWisp now filter row := by
  refine ⟨ready.1, fun hidden deferred => ready.2.2 ?_⟩
  exact .inr (.inl ⟨hidden, .inl deferred⟩)

/-- The second filter leaves the ready rows of a query that reads them all. -/
theorem filterReadyWisps_filter {where_ : WorkIssue → Prop} [DecidablePred where_]
    (complete : ∀ row, s.ReadyWisp now filter row → where_ row)
    (matched : ∀ row, where_ row → s.MatchesWisp (readyWorkWispIssueFilter filter) row) :
    s.filterReadyWisps now filter (rows.filter where_) = rows.filter (s.ReadyWisp now filter) := by
  rw [filterReadyWisps, List.filter_filter]
  apply List.filter_congr
  intro row _
  rw [← Bool.decide_and, decide_eq_decide]
  constructor
  · rintro ⟨kept, held⟩
    exact ⟨matched row held, kept⟩
  · intro ready
    exact ⟨ready.2, complete row ready⟩

theorem mem_query {p : Plane} {where_ : WorkIssue → Prop} [DecidablePred where_] {row : WorkIssue} :
    row ∈ s.query now filter p where_ ↔ row ∈ s.rows p ∧ where_ row := by
  rw [query, List.mem_insertionSort, List.mem_filter, decide_eq_true_eq]
  rfl

variable (s now filter) in
/-- The ready wisps, sorted. -/
def sortedWisps : List WorkIssue := s.query now filter .wisps (s.ReadyWisp now filter)

variable (s regexp now filter) in
/-- The ready issues, sorted. -/
def sortedIssues : List WorkIssue := s.query now filter .issues (s.ReadyIssue regexp now filter)

private theorem length_sortedWisps :
    (s.sortedWisps now filter).length = ((s.rows .wisps).rows.filter (s.ReadyWisp now filter)).length :=
  List.length_insertionSort _ _

theorem length_sortedIssues : (s.sortedIssues regexp now filter).length =
    ((s.rows .issues).rows.filter (s.ReadyIssue regexp now filter)).length :=
  List.length_insertionSort _ _

/-- With a limit, the wisps are the first ready ones. -/
theorem Disjoint.getReadyWisps_of_limit (disjoint : s.Disjoint) (limited : 0 < filter.limit) :
    s.getReadyWisps now filter = (s.sortedWisps now filter).take filter.limit.toNat := by
  by_cases none : (s.rows .wisps).rows = []
  · simp [getReadyWisps, sortedWisps, query, none]
  · have page : 0 < readyWorkPageSize filter.limit.toNat := by
      unfold readyWorkPageSize
      split <;> omega
    have separates : Separates (filter.sortPolicy.OrderedBefore now)
        ((s.rows .wisps).rows.filter (s.PagedWisp now filter)) :=
      disjoint.separates.sublist fun row held => List.mem_append_right _ (List.mem_filter.mp held).1
    have ready : s.filterReadyWisps now filter
        (s.query now filter .wisps (s.PagedWisp now filter)) =
        s.sortedWisps now filter := by
      rw [sortedWisps, query, query,
        ← filterReadyWisps_filter (fun _ => ReadyWisp.paged) fun _ held => held.1]
      exact sort_filter separates _
    rw [getReadyWisps, if_neg none, if_neg (not_le.mpr limited)]
    simp only []
    rw [gatherPages_eq page (Nat.zero_le _), List.drop_zero, List.nil_append, ready]

variable (s now filter) in
/-- The row cap does not keep a ready wisp from an unlimited query. -/
def WispsReached : Prop :=
  0 < filter.limit ∨ filter.maxRows = 0 ∨ ∀ row ∈ s.rows .wisps, s.ReadyWisp now filter row → row ∈ s.searchWisps filter

theorem nodup_rows (p : Plane) : (s.rows p).rows.Nodup := (s.rows p).distinct.of_map

private theorem mem_searchWisps_of_uncapped {row : WorkIssue} (uncapped : filter.maxRows = 0)
    (held : row ∈ s.rows .wisps)
    (matched : s.MatchesWisp (readyWorkWispIssueFilter filter) row) :
    row ∈ s.searchWisps filter := by
  have bound : effectiveSearchLimit 0 (readyWorkWispIssueFilter filter).maxRows = 0 := by
    simp [effectiveSearchLimit, readyWorkWispIssueFilter, uncapped]
  rw [searchWisps, bound]
  simp only [limitClause, lt_irrefl, if_false, List.mem_insertionSort, List.mem_filter,
    decide_eq_true_eq]
  exact ⟨held, matched⟩

theorem limitClause_sublist (limit : Nat) (rows : List WorkIssue) :
    (limitClause limit rows).Sublist rows := by
  rw [limitClause]
  split
  · exact List.take_sublist _ _
  · exact .refl _

theorem mem_wisps_of_searchWisps {row : WorkIssue} (searched : row ∈ s.searchWisps filter) :
    row ∈ s.rows .wisps ∧ s.MatchesWisp (readyWorkWispIssueFilter filter) row := by
  have sorted := (limitClause_sublist _ _).subset searched
  rw [List.mem_insertionSort, List.mem_filter, decide_eq_true_eq] at sorted
  exact sorted

private theorem nodup_searchWisps : (s.searchWisps filter).Nodup := by
  apply List.Nodup.sublist (limitClause_sublist _ _)
  exact (List.perm_insertionSort _ _).nodup_iff.mpr ((nodup_rows .wisps).filter _)

/-- Without a limit, the wisps are the ready ones, if the query reaches them. -/
theorem getReadyWisps_of_unlimited (unlimited : ¬ 0 < filter.limit)
    (reached : s.WispsReached now filter) :
    (s.getReadyWisps now filter).Perm ((s.rows .wisps).rows.filter (s.ReadyWisp now filter)) := by
  by_cases none : (s.rows .wisps).rows = []
  · simp [getReadyWisps, none]
  rw [getReadyWisps, if_neg none, if_pos (not_lt.mp unlimited)]
  apply (List.perm_ext_iff_of_nodup (nodup_searchWisps.filter _) ((nodup_rows .wisps).filter _)).mpr
  intro row
  simp only [List.mem_filter, decide_eq_true_eq]
  constructor
  · rintro ⟨searched, kept⟩
    have held := mem_wisps_of_searchWisps searched
    exact ⟨held.1, held.2, kept⟩
  · rintro ⟨held, ready⟩
    refine ⟨?_, ready.2⟩
    rcases reached with limited | uncapped | reached
    · exact absurd limited unlimited
    · exact mem_searchWisps_of_uncapped uncapped held ready.1
    · exact reached row held ready

/-- The durable issues are the first ready ones. -/
theorem Disjoint.readyIssues_eq (disjoint : s.Disjoint) :
    s.readyIssues regexp now filter = limitClause filter.effectiveLimit (s.sortedIssues regexp now filter) := by
  apply disjoint.getIssuesByIDs
  intro row held
  exact (mem_query.mp ((limitClause_sublist _ _).subset held)).1

/-! ## The query -/

variable (s regexp now filter) in
/-- What ready work is: all ready rows in the order of the policy, up to the limit. -/
def readyWork : List WorkIssue :=
  filter.cut ((s.readyRows regexp now filter).insertionSort (filter.sortPolicy.OrderedBefore now))

/-- A merge of parts from disjoint tables is sorted and cut. -/
theorem Disjoint.mergeReadyWisps_eq {wisps : List WorkIssue} (disjoint : s.Disjoint)
    (left : ∀ row ∈ rows, row ∈ s.rows .issues) (right : ∀ row ∈ wisps, row ∈ s.rows .wisps) :
    mergeReadyWisps now filter rows wisps =
      filter.cut ((rows ++ wisps).insertionSort (filter.sortPolicy.OrderedBefore now)) := by
  have kept : (rows.filter fun issue => issue.id ∉ wisps.map WorkIssue.key) = rows := by
    apply List.filter_eq_self.mpr
    intro issue held
    rw [decide_eq_true_eq, List.mem_map]
    rintro ⟨wisp, mem, same⟩
    exact disjoint issue (left issue held) wisp (right wisp mem) same.symm
  rw [mergeReadyWisps]
  simp only [kept, SortPolicy.sortReadyIssues_eq, WorkFilter.cut]
  by_cases limited : 0 < filter.limit
  · simp only [limited, true_and, if_true]
    split
    · rfl
    · rw [List.take_of_length_le]
      omega
  · simp [limited]

variable (s regexp now filter) in
/-- The rows before the cap is checked. -/
def ordered : List WorkIssue :=
  if s.getReadyWisps now filter = [] then s.readyIssues regexp now filter
  else mergeReadyWisps now filter (s.readyIssues regexp now filter) (s.getReadyWisps now filter)

private theorem mem_wisps_of_getReadyWisps {row : WorkIssue} (disjoint : s.Disjoint)
    (held : row ∈ s.getReadyWisps now filter) : row ∈ s.rows .wisps := by
  by_cases limited : 0 < filter.limit
  · rw [disjoint.getReadyWisps_of_limit limited] at held
    exact (mem_query.mp (List.mem_of_mem_take held)).1
  · rw [getReadyWisps] at held
    split at held
    · cases held
    · rw [if_pos (not_lt.mp limited)] at held
      exact (mem_wisps_of_searchWisps (List.mem_filter.mp held).1).1

/-- The rows before the cap are the two parts, sorted and cut. -/
theorem Disjoint.ordered_eq (disjoint : s.Disjoint) : s.ordered regexp now filter =
    filter.cut ((limitClause filter.effectiveLimit (s.sortedIssues regexp now filter) ++
      s.getReadyWisps now filter).insertionSort (filter.sortPolicy.OrderedBefore now)) := by
  have durable : ∀ row ∈ limitClause filter.effectiveLimit
      (s.sortedIssues regexp now filter), row ∈ s.rows .issues :=
    fun row held => (mem_query.mp ((limitClause_sublist _ _).subset held)).1
  rw [ordered, disjoint.readyIssues_eq]
  split
  · next none =>
    have sorted : (limitClause filter.effectiveLimit (s.sortedIssues regexp now filter)).Pairwise
        (filter.sortPolicy.OrderedBefore now) :=
      (List.pairwise_insertionSort _ _).sublist (limitClause_sublist _ _)
    rw [none, List.append_nil, sorted.insertionSort_eq, WorkFilter.cut]
    split
    · next limited =>
      rw [List.take_of_length_le]
      have reads := WorkFilter.effectiveLimit_of_limit limited
      rw [length_limitClause]
      split <;> omega
    · rfl
  · exact disjoint.mergeReadyWisps_eq durable fun row held => mem_wisps_of_getReadyWisps disjoint
      held

/-- The two lists are refused alike by the cap, and if they are not they are the same. -/
structure SameUnder (cap : Nat) (found wanted : List WorkIssue) : Prop where
  refused : 0 < cap → (cap < found.length ↔ cap < wanted.length)
  same : (0 < cap → wanted.length ≤ cap) → found = wanted

theorem Disjoint.separates_readyRows (disjoint : s.Disjoint) :
    Separates (filter.sortPolicy.OrderedBefore now) (s.readyRows regexp now filter) := by
  apply disjoint.separates.sublist
  intro row held
  rcases List.mem_append.mp held with durable | wisp
  · exact List.mem_append_left _ (List.mem_filter.mp durable).1
  · exact List.mem_append_right _ (List.mem_filter.mp wisp).1

/-- The sort does not depend on the order in which the parts were read. -/
theorem sort_readyRows_perm (disjoint : s.Disjoint) {wisps : List WorkIssue}
    (perm : wisps.Perm ((s.rows .wisps).rows.filter (s.ReadyWisp now filter))) :
    (s.sortedIssues regexp now filter ++ wisps).insertionSort (filter.sortPolicy.OrderedBefore now) =
      (s.readyRows regexp now filter).insertionSort (filter.sortPolicy.OrderedBefore now) := by
  have all : (s.sortedIssues regexp now filter ++ wisps).Perm (s.readyRows regexp now filter) :=
    (List.perm_insertionSort _ _).append perm
  exact sort_unique (disjoint.separates_readyRows.sublist all.subset)
    (List.pairwise_insertionSort _ _) ((List.perm_insertionSort _ _).trans all.symm)

private theorem ordered_of_unlimited (disjoint : s.Disjoint) (reached : s.WispsReached now filter)
    (unlimited : ¬ 0 < filter.limit) :
    SameUnder filter.maxRows (s.ordered regexp now filter) (s.readyWork regexp now filter) := by
  have perm := getReadyWisps_of_unlimited unlimited reached
  have uncut (rows : List WorkIssue) : filter.cut rows = rows := by simp [WorkFilter.cut, unlimited]
  have size : (s.readyWork regexp now filter).length =
      (s.sortedIssues regexp now filter).length + (s.getReadyWisps now filter).length := by
    simp [readyWork, uncut, readyRows, length_sortedIssues, perm.length_eq]
  rw [disjoint.ordered_eq, uncut]
  rcases WorkFilter.effectiveLimit_of_unlimited unlimited with all | ⟨cut, capped⟩
  · have same : (limitClause filter.effectiveLimit (s.sortedIssues regexp now filter) ++
        s.getReadyWisps now filter).insertionSort (filter.sortPolicy.OrderedBefore now) =
        s.readyWork regexp now filter := by
      rw [readyWork, uncut, all, ← sort_readyRows_perm disjoint perm]
      rfl
    rw [same]
    exact ⟨fun _ => Iff.rfl, fun _ => rfl⟩
  · constructor
    · intro _
      rw [List.length_insertionSort, List.length_append, length_limitClause, cut, size]
      split <;> omega
    · intro within
      have few : (s.sortedIssues regexp now filter).length ≤ filter.maxRows + 1 := by
        have := within capped
        omega
      rw [readyWork, uncut, ← sort_readyRows_perm disjoint perm, cut, limitClause,
        if_pos (Nat.succ_pos _), List.take_of_length_le few]

private theorem ordered_of_limit (disjoint : s.Disjoint) (limited : 0 < filter.limit) :
    SameUnder filter.maxRows (s.ordered regexp now filter) (s.readyWork regexp now filter) := by
  have perm : (s.sortedWisps now filter).Perm
      ((s.rows .wisps).rows.filter (s.ReadyWisp now filter)) :=
    List.perm_insertionSort _ _
  have cut (rows : List WorkIssue) : filter.cut rows = rows.take filter.limit.toNat := by
    simp [WorkFilter.cut, limited]
  have size : (s.readyWork regexp now filter).length = min filter.limit.toNat
      ((s.sortedIssues regexp now filter).length + (s.sortedWisps now filter).length) := by
    simp [readyWork, cut, readyRows, length_sortedIssues, length_sortedWisps]
  rw [disjoint.ordered_eq, cut, disjoint.getReadyWisps_of_limit limited]
  rcases WorkFilter.effectiveLimit_of_limit limited with ⟨deep, -⟩ | ⟨short, capped, below⟩
  · have same : ((limitClause filter.effectiveLimit (s.sortedIssues regexp now filter) ++
        (s.sortedWisps now filter).take filter.limit.toNat).insertionSort
          (filter.sortPolicy.OrderedBefore now)).take filter.limit.toNat = s.readyWork regexp now filter := by
      rw [readyWork, cut, deep, limitClause, if_pos (by omega)]
      exact take_sort_parts disjoint.separates_readyRows le_rfl
    rw [same]
    exact ⟨fun _ => Iff.rfl, fun _ => rfl⟩
  · constructor
    · intro _
      rw [List.length_take, List.length_insertionSort, List.length_append, length_limitClause,
        short, size, List.length_take]
      split <;> omega
    · intro within
      have few := within capped
      rw [size] at few
      have issues : (s.sortedIssues regexp now filter).take
          (filter.maxRows + 1) = s.sortedIssues regexp now filter :=
        List.take_of_length_le (by omega)
      have wisps : (s.sortedWisps now filter).take filter.limit.toNat = s.sortedWisps now filter :=
        List.take_of_length_le (by omega)
      rw [readyWork, cut, ← sort_readyRows_perm disjoint perm, short, limitClause,
        if_pos (Nat.succ_pos _), issues, wisps]

private theorem getReadyWork_eq (valid : filter.invalidKey? = none) :
    s.getReadyWork now filter regexp =
    if 0 < filter.maxRows ∧ filter.maxRows < (s.ordered regexp now filter).length then
      .error (.tooManyRows ⟨(s.ordered regexp now filter).length, filter.maxRows, filter.maxRowsSource⟩)
    else .ok (s.ordered regexp now filter) := by
  have run : s.getReadyWork now filter regexp = (do
      (enforceMaxRowsCap (s.ordered regexp now filter).length filter.maxRows filter.maxRowsSource).mapError .tooManyRows
      return s.ordered regexp now filter) := by
    rw [getReadyWork, valid]
    rfl
  rw [run, enforceMaxRowsCap]
  by_cases exceeded : 0 < filter.maxRows ∧ filter.maxRows < (s.ordered regexp now filter).length
  · rw [if_pos exceeded, if_pos exceeded]
    rfl
  · rw [if_neg exceeded, if_neg exceeded]
    rfl

/-- A key of a metadata clause that is not valid is refused by name. Otherwise ready work is
returned, all of it without a limit and its first rows with one, or refused because it has more
rows than the cap; where a cap stands without a limit, this is said of stores whose ready wisps
are all among the rows that the capped query reads. -/
theorem getReadyWork_spec (s : WorkStore) (regexp : String → String → Bool) (now : Nat)
    (filter : WorkFilter) (disjoint : s.Disjoint) :
    (∀ key, filter.invalidKey? = some key →
      s.getReadyWork now filter regexp = .error (.invalidMetadataKey (Query.invalidMetadataKey key))) ∧
    (filter.invalidKey? = none → s.WispsReached now filter →
      if 0 < filter.maxRows ∧ filter.maxRows < (s.readyWork regexp now filter).length then
        ∃ found, s.getReadyWork now filter regexp =
          .error (.tooManyRows ⟨found, filter.maxRows, filter.maxRowsSource⟩)
      else s.getReadyWork now filter regexp = .ok (s.readyWork regexp now filter)) := by
  constructor
  · intro key invalid
    rw [getReadyWork, invalid]
    rfl
  · intro valid reached
    have agree : SameUnder filter.maxRows (s.ordered regexp now filter)
        (s.readyWork regexp now filter) := by
      by_cases limited : 0 < filter.limit
      · exact ordered_of_limit disjoint limited
      · exact ordered_of_unlimited disjoint reached limited
    rw [getReadyWork_eq valid]
    split
    · next exceeded =>
      rw [if_pos ⟨exceeded.1, (agree.refused exceeded.1).mpr exceeded.2⟩]
      exact ⟨_, rfl⟩
    · next within =>
      have few : 0 < filter.maxRows → (s.readyWork regexp now filter).length ≤ filter.maxRows := by
        intro capped
        by_contra more
        exact within ⟨capped, not_le.mp more⟩
      rw [agree.same few, if_neg within]

/-- Two issues that are ready, and a wisp. -/
def smallQueue : WorkStore where
  rows
    | .issues => ⟨[{ id := "bd-b", priority := 2 }, { id := "bd-a", priority := 1 }], by decide⟩
    | .wisps => ⟨[{ id := "bd-w", priority := 0 }], by decide⟩
  deps := fun _ => Table.empty

/-- The first two of the three are returned. -/
theorem getReadyWork_spec_smallQueue : smallQueue.Disjoint ∧
    (smallQueue.readyWork (fun _ _ => false) 0 { limit := 2, sortPolicy := .priority }).map WorkIssue.key =
      ["bd-w", "bd-a"] ∧
    smallQueue.getReadyWork 0 { limit := 2, sortPolicy := .priority } (fun _ _ => false) =
      .ok (smallQueue.readyWork (fun _ _ => false) 0 { limit := 2, sortPolicy := .priority }) := by
  have disjoint : smallQueue.Disjoint := by
    unfold Disjoint
    decide
  refine ⟨disjoint, by decide +kernel, ?_⟩
  have spec :=
    (getReadyWork_spec smallQueue (fun _ _ => false) 0 { limit := 2, sortPolicy := .priority } disjoint).2
    (by decide +kernel) (.inl (by decide))
  rwa [if_neg (by decide)] at spec

/-- A cap of two refuses all three, so that without a limit the whole list is not returned. -/
theorem smallQueue_refused : smallQueue.Disjoint ∧
    smallQueue.getReadyWork 0 { maxRows := 2 } (fun _ _ => false) = .error (.tooManyRows ⟨3, 2, ""⟩) ∧
    smallQueue.getReadyWork 0 { maxRows := 2 } (fun _ _ => false) ≠
      .ok (smallQueue.readyWork (fun _ _ => false) 0 { maxRows := 2 }) := by
  refine ⟨?_, by decide +kernel, by decide +kernel⟩
  unfold Disjoint
  decide

end WorkStore
end Beads
