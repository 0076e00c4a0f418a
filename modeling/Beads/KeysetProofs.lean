import Mathlib.Data.Prod.Lex
import Beads.Keyset
import Beads.MergeOrderProofs
import Beads.Lib.Keyset

/-! A walk by keyset pages returns every row that is there at all its reads once and in
order, whatever else changes between the reads. -/
namespace Beads
open Lib Lib.Keyset

/-- The two terms of a sort. -/
theorem isLE_then {c o : Ordering} :
    (c.then o).isLE = true ↔ c = .lt ∨ (c = .eq ∧ o.isLE = true) := by
  cases c <;> simp

/-! ## Comments -/

/-- A read of a page of comments: the state it meets, the limit it asks for, and its answer.
No comment is at the zero time and without an id. -/
structure CommentRead where
  state : Aggregates
  limit : Int
  page : List CommentRow
  dated : ∀ p, ∀ c ∈ (state p).comments, c.createdAt ≠ 0 ∨ c.id ≠ ""

namespace CommentRead

/-- The page ends the walk. -/
def Short (read : CommentRead) : Prop := read.page.length < commentsPageLimit read.limit

/-- Every read of the walk starts behind the last comment returned. -/
def Walk (issueID : String) : CommentPageCursor → List CommentRead → Prop
  | _, [] => True
  | after, read :: rest => read.state.getIssueCommentsPage issueID after read.limit = read.page ∧
      Walk issueID (after.resume read.page) rest

def delivered (reads : List CommentRead) : List CommentRow := reads.flatMap page

end CommentRead

/-- One comment comes before another one. -/
def CommentRow.Before (a b : CommentRow) : Prop :=
  a.createdAt < b.createdAt ∨ (a.createdAt = b.createdAt ∧ a.id < b.id)

def CommentRow.position (c : CommentRow) : Nat ×ₗ String := toLex (c.createdAt, c.id)

section Comments
variable {a b c : CommentRow} {after : CommentPageCursor} {position : Option (Nat ×ₗ String)}
  {s : Aggregates}
  {issueID : String}

theorem CommentRow.position_lt : a.position < b.position ↔ a.Before b :=
  Prod.Lex.toLex_lt_toLex

theorem CommentRow.orderedBefore_iff : a.OrderedBefore b ↔ a.position ≤ b.position := by
  have order : compareLex (compareOn CommentRow.createdAt) (compareOn CommentRow.id) a b =
      (compare a.createdAt b.createdAt).then (compare a.id b.id) := rfl
  rw [CommentRow.OrderedBefore, order, isLE_then, position, position, Prod.Lex.toLex_le_toLex,
    compare_lt_iff_lt, compare_eq_iff_eq, Ordering.isLE_iff_ne_gt, ← ne_eq, compare_le_iff_le]

instance : Std.Total CommentRow.OrderedBefore where
  total a b := by
    rw [CommentRow.orderedBefore_iff, CommentRow.orderedBefore_iff]
    exact le_total _ _

instance : IsTrans CommentRow CommentRow.OrderedBefore where
  trans a b c first second := by
    rw [CommentRow.orderedBefore_iff] at first second ⊢
    exact first.trans second

/-- The rewritten predicate is the comparison of the pairs. -/
theorem CommentPageCursor.keysetPredicate_iff : after.KeysetPredicate c ↔
    toLex (after.createdAt, after.id) < c.position := by
  rw [KeysetPredicate, CommentRow.position, Prod.Lex.toLex_lt_toLex]
  constructor
  · rintro ⟨bound, late | tie⟩
    · exact Or.inl late
    · exact bound.lt_or_eq.imp_right fun same => ⟨same, tie⟩
  · rintro (late | ⟨same, tie⟩)
    · exact ⟨late.le, Or.inl late⟩
    · exact ⟨le_of_eq same, Or.inr tie⟩

/-- The cursor of a page is the position of a walk. -/
def CommentPageCursor.At (after : CommentPageCursor) : Option (Nat ×ₗ String) → Prop
  | none => after = {}
  | some position =>
    position = toLex (after.createdAt, after.id) ∧ (after.createdAt ≠ 0 ∨ after.id ≠ "")

private theorem mem_getIssueComments :
    c ∈ s.getIssueComments issueID ↔ c ∈ s.commentTable issueID ∧ c.issueID = issueID := by
  rw [Aggregates.getIssueComments, List.mem_insertionSort, List.mem_filter, decide_eq_true_eq]
  rfl

/-- Comments of one table in order are in strict order. -/
theorem sorted_comments (s : Aggregates) (issueID : String) (keep : CommentRow → Bool) :
    (((s.commentTable issueID).rows.filter keep).insertionSort CommentRow.OrderedBefore).Pairwise fun a b =>
      a.position < b.position := by
  have distinct : ((s.commentTable issueID).rows.filter keep).Pairwise fun a b => a.id ≠ b.id :=
    List.pairwise_map.mp ((s.commentTable issueID).distinct.sublist (List.filter_sublist.map _))
  have apart := ((List.perm_insertionSort CommentRow.OrderedBefore _).pairwise_iff
    fun {a b : CommentRow} (differ : a.id ≠ b.id) => differ.symm).mpr distinct
  have sorted := List.pairwise_insertionSort CommentRow.OrderedBefore
    ((s.commentTable issueID).rows.filter keep)
  apply (sorted.and apart).imp
  rintro a b ⟨ordered, differ⟩
  apply lt_of_le_of_ne (CommentRow.orderedBefore_iff.mp ordered)
  intro same
  exact differ (congrArg (fun pair : Nat ×ₗ String => (ofLex pair).2) same)

theorem commentsPageLimit_pos (limit : Int) : 0 < commentsPageLimit limit := by
  rw [commentsPageLimit]
  split
  · decide
  · split
    · decide
    · omega

/-- A page resumes where its cursor stands. -/
theorem getIssueCommentsPage_resumes (stands : after.At position) (limit : Int) :
    (⟨s.getIssueComments issueID, commentsPageLimit limit, s.getIssueCommentsPage issueID after limit⟩ :
      Keyset.Read CommentRow).Resumes CommentRow.position position := by
  have page (mem : _) :=
    @resumes_of_sorted _ _ _ CommentRow.position position (s.getIssueComments issueID) _
    (commentsPageLimit limit) (sorted_comments s issueID fun c => c.issueID = issueID ∧
      (decide (after.createdAt ≠ 0 ∨ after.id ≠ "") = true → after.KeysetPredicate c)) mem
  rw [if_neg (commentsPageLimit_pos limit).ne'] at page
  apply page
  intro c
  rw [List.mem_insertionSort, List.mem_filter, decide_eq_true_eq, mem_getIssueComments, and_assoc]
  apply and_congr Iff.rfl
  apply and_congr_right
  intro _
  cases position with
  | none =>
    obtain rfl : after = {} := stands
    simp [Behind]
  | some position =>
    obtain ⟨rfl, set⟩ := stands
    simp [Behind, set, CommentPageCursor.keysetPredicate_iff]

/-- The page that follows starts at the position a walk has come to. -/
theorem CommentPageCursor.At.resume (stands : after.At position) {page : List CommentRow}
    (dated : ∀ c ∈ page, c.createdAt ≠ 0 ∨ c.id ≠ "") :
    (after.resume page).At (Keyset.next CommentRow.position position page) := by
  cases last : page.getLast? with
  | none => simpa [CommentPageCursor.resume, Keyset.next, last] using stands
  | some c =>
    simp only [CommentPageCursor.resume, Keyset.next, last, Option.map_some, Option.some_or]
    exact ⟨rfl, dated c (List.mem_of_getLast? last)⟩

/-- A read as a walk sees it. -/
def CommentRead.read (issueID : String) (read : CommentRead) : Keyset.Read CommentRow where
  rows := read.state.getIssueComments issueID
  bound := commentsPageLimit read.limit
  page := read.page

private theorem CommentRead.read_short (read : CommentRead) :
    (read.read issueID).Short ↔ read.Short := by
  have positive := commentsPageLimit_pos read.limit
  change commentsPageLimit read.limit = 0 ∨ read.page.length < commentsPageLimit read.limit ↔
    read.page.length < commentsPageLimit read.limit
  omega

theorem CommentRead.Walk.keyset {reads : List CommentRead} (stands : after.At position)
    (walk : CommentRead.Walk issueID after reads) :
    Keyset.Walk CommentRow.position position (reads.map (CommentRead.read issueID)) := by
  induction reads generalizing after position with
  | nil => exact trivial
  | cons read rest ih =>
    obtain ⟨page, walk⟩ := walk
    have resumes : (read.read issueID).Resumes CommentRow.position position := by
      rw [CommentRead.read, ← page]
      exact getIssueCommentsPage_resumes stands read.limit
    have dated : ∀ c ∈ read.page, c.createdAt ≠ 0 ∨ c.id ≠ "" := by
      intro c held
      rw [← page] at held
      have stored :=
        (List.mem_filter.mp ((List.mem_insertionSort _).mp (List.mem_of_mem_take held))).1
      rw [Aggregates.commentTable] at stored
      split at stored
      · exact read.dated .wisps c stored
      · exact read.dated .issues c stored
    exact ⟨resumes, ih (stands.resume dated) walk⟩

private theorem CommentRead.delivered_eq (issueID : String) (reads : List CommentRead) :
    Keyset.delivered (reads.map (CommentRead.read issueID)) = CommentRead.delivered reads := by
  rw [Keyset.delivered, CommentRead.delivered, List.flatMap_map]
  rfl

end Comments
/-! ## Issues -/

/-- A read of a page of issues. -/
structure IssueRead where
  tables : IssueTables
  limit : Nat
  page : List SearchIssue

namespace IssueRead

/-- The page ends the walk; a limit of zero is none. -/
def Short (read : IssueRead) : Prop := read.limit = 0 ∨ read.page.length < read.limit

/-- Every read of the walk starts behind the last row returned. -/
def Walk (filter : IssueFilter) : Option IssueCursor → List IssueRead → Prop
  | _, [] => True
  | after, read :: rest =>
      read.tables.searchInTx { filter.resumeAfter after with limit := read.limit } = .ok read.page ∧
        Walk filter (IssueCursor.resume after read.page) rest

def delivered (reads : List IssueRead) : List SearchIssue := reads.flatMap page

end IssueRead

/-- A search of both tables meets no id twice, and one of ephemeral rows meets rows of one
table alone. -/
def IssueTables.Whole (tables : IssueTables) (filter : IssueFilter) : Prop :=
  if filter.ephemeral = some true then tables.matching filter .issues = [] ∨ tables.matching filter .wisps = []
  else filter.skipWisps = true ∨ tables.Apart filter

/-- One issue comes before another one. -/
def SearchIssue.Before (a b : SearchIssue) : Prop :=
  b.createdAt < a.createdAt ∨ (a.createdAt = b.createdAt ∧ a.id < b.id)

def SearchIssue.position (issue : SearchIssue) : Natᵒᵈ ×ₗ String :=
  toLex (OrderDual.toDual issue.createdAt, issue.id)

def IssueCursor.position (after : IssueCursor) : Natᵒᵈ ×ₗ String :=
  toLex (OrderDual.toDual after.createdAt, after.id)

section Issues
variable {a b : SearchIssue} {after : Option IssueCursor} {tables : IssueTables}
  {filter : IssueFilter}

theorem SearchIssue.position_lt : a.position < b.position ↔ a.Before b :=
  Prod.Lex.toLex_lt_toLex

private theorem IssueCursor.keysetPredicate_iff {after : IssueCursor} : after.KeysetPredicate a ↔
    after.position < a.position := by
  rw [KeysetPredicate, SearchIssue.position, position, Prod.Lex.toLex_lt_toLex]
  simp only [OrderDual.toDual_lt_toDual, OrderDual.toDual_inj]
  constructor
  · rintro ⟨bound, late | tie⟩
    · exact Or.inl late
    · exact bound.lt_or_eq.imp_right fun same => ⟨same.symm, tie⟩
  · rintro (late | ⟨same, tie⟩)
    · exact ⟨late.le, Or.inl late⟩
    · exact ⟨le_of_eq same.symm, Or.inr tie⟩

/-- The order a walk has to ask for. -/
theorem orderedBefore_iff (sorted : filter.sortBy = .created) (newest : filter.sortDesc = false) :
    filter.OrderedBefore a b ↔ a.position ≤ b.position := by
  have order : SortKey.created.orderBy false a b =
      (compare b.createdAt a.createdAt).then (compare a.id b.id) := rfl
  rw [IssueFilter.OrderedBefore, sorted, newest, order, isLE_then, SearchIssue.position,
    SearchIssue.position,
    Prod.Lex.toLex_le_toLex, compare_lt_iff_lt, compare_eq_iff_eq, Ordering.isLE_iff_ne_gt, ← ne_eq,
    compare_le_iff_le]
  simp only [OrderDual.toDual_lt_toDual, OrderDual.toDual_inj, eq_comm]

/-- What one table's query brings in is in its place. -/
theorem sort_searchTable (comparable : Comparable tables filter) {p : Plane}
    (part : tables.part filter p = tables.matching filter p) :
    filter.sortMergedResults (tables.searchTable filter p) = tables.searchTable filter p := by
  rw [comparable.sortMergedResults_eq]
  · apply List.Pairwise.insertionSort_eq
    rw [IssueTables.searchTable, bounded]
    have sorted := List.pairwise_insertionSort filter.OrderedBefore (tables.matching filter p)
    split
    · exact sorted.sublist (List.take_sublist _ _)
    · exact sorted
  · intro a held
    rw [IssueTables.searchTable, ← part] at held
    exact mem_answer_of_bounded held

/-- The search without counts has the same rows in the same order. -/
theorem searchInTx_eq_withCounts (comparable : Comparable tables filter) :
    tables.searchInTx filter = tables.searchIssuesWithCounts filter := by
  have same : (filter.ephemeral = some true ∧ tables.searchTable filter .wisps ≠ []) ↔
      filter.ephemeral = some true ∧ (tables .wisps).rows ≠ [] ∧ tables.searchTable filter .wisps ≠ [] :=
    and_congr_right fun _ => ⟨fun found => ⟨mt searchTable_of_empty found, found⟩, And.right⟩
  simp only [IssueTables.searchInTx, IssueTables.searchIssuesWithCounts, same]
  split
  · next ephemeral =>
    have wisps : tables.part filter .wisps = tables.matching filter .wisps :=
      if_neg fun skipped => skipped.2 ephemeral.1
    rw [sort_searchTable comparable wisps]
  · split
    · rw [sort_searchTable comparable rfl]
    · rfl

private theorem comparable_created (disjoint : tables.Disjoint)
    (mixed : filter.ephemeral ≠ some true)
    (sorted : filter.sortBy = .created) : Comparable tables filter where
  disjoint := disjoint
  ephemeral := fun ephemeral => absurd ephemeral mixed
  order := by
    intro a _ b _
    apply (SortKey.less_iff_orderBy _ _ a b).mpr
    intro collapses
    rw [sorted] at collapses
    cases collapses.1

/-- What is left of one table's query has the first rows of the table. -/
theorem finish_searchTable {p : Plane} {page : List SearchIssue}
    (found : IssueTables.finish filter (tables.searchTable filter p) = .ok page) :
    page = bounded filter.limit ((tables.matching filter p).insertionSort filter.OrderedBefore) := by
  rw [finish_eq, IssueTables.searchTable] at found
  generalize (tables.matching filter p).insertionSort filter.OrderedBefore = rows at found ⊢
  split at found
  · cases found
  · next fits =>
    obtain rfl := Except.ok.inj found
    rw [length_bounded, length_bounded] at fits
    by_cases capped : 0 < filter.maxRows ∧ (filter.limit = 0 ∨ filter.maxRows < filter.limit)
    · rw [effectiveSearchLimit, if_pos capped, if_pos (Nat.succ_pos _)] at fits
      have few : rows.length ≤ filter.maxRows + 1 := by
        split at fits <;> omega
      rw [effectiveSearchLimit, if_pos capped, bounded, bounded, if_pos (Nat.succ_pos _),
        List.take_of_length_le few, bounded]
    · rw [effectiveSearchLimit, if_neg capped]
      simp only [bounded]
      split
      · rw [List.take_take, Nat.min_self]
      · rfl

private theorem part_distinct (p : Plane) : ((tables.part filter p).map SearchIssue.id).Nodup := by
  have each : ((tables.matching filter p).map SearchIssue.id).Nodup :=
    (tables p).distinct.sublist (List.filter_sublist.map _)
  cases p with
  | issues => exact each
  | wisps =>
    rw [IssueTables.part]
    split
    · exact List.nodup_nil
    · exact each

theorem IssueTables.Whole.distinct (whole : tables.Whole filter) :
    ((tables.part filter .issues ++ tables.part filter .wisps).map SearchIssue.id).Nodup := by
  rw [IssueTables.Whole] at whole
  split at whole
  · next ephemeral =>
    rcases whole with none | none
    · have left : tables.part filter .issues = [] := none
      rw [left]
      exact part_distinct .wisps
    · have right : tables.part filter .wisps = [] :=
        (if_neg fun skipped => skipped.2 ephemeral).trans none
      rw [right, List.append_nil]
      exact part_distinct .issues
  · next mixed =>
    by_cases skipped : filter.skipWisps = true
    · have right : tables.part filter .wisps = [] := if_pos ⟨skipped, mixed⟩
      rw [right, List.append_nil]
      exact part_distinct .issues
    · have right : tables.part filter .wisps = tables.matching filter .wisps :=
        if_neg fun skips => skipped skips.1
      rw [right, ← matching_matched .wisps, IssueTables.part, ← matching_matched .issues]
      exact ids_distinct (whole.resolve_left skipped).disjoint

/-- A search that meets no id twice answers with the first rows of the query. -/
theorem IssueTables.Whole.searchInTx (whole : tables.Whole filter)
    (sorted : filter.sortBy = .created)
    {page : List SearchIssue} (found : tables.searchInTx filter = .ok page) :
    page = bounded filter.limit (tables.answer filter) := by
  rw [IssueTables.Whole] at whole
  split at whole
  · next ephemeral =>
    have right : tables.part filter .wisps = tables.matching filter .wisps :=
      if_neg fun skipped => skipped.2 ephemeral
    have left : tables.part filter .issues = tables.matching filter .issues := rfl
    simp only [IssueTables.searchInTx, ephemeral, true_and, true_or, or_true, if_true] at found
    rw [IssueTables.answer, right, left]
    split at found
    · next some =>
      have none : tables.matching filter .issues = [] := by
        refine whole.resolve_right fun empty => some ?_
        simp [IssueTables.searchTable, empty, bounded]
      rw [none, List.nil_append]
      exact finish_searchTable found
    · next alone =>
      rw [matching_of_searchTable_nil (not_not.mp alone), List.append_nil]
      exact finish_searchTable found
  · next mixed =>
    by_cases skipped : filter.skipWisps = true
    · have right : tables.part filter .wisps = [] := if_pos ⟨skipped, mixed⟩
      simp only [IssueTables.searchInTx, mixed, false_and, if_false, skipped, true_or,
        if_true] at found
      rw [IssueTables.answer, right, List.append_nil]
      exact finish_searchTable found
    · have comparable := comparable_created (whole.resolve_left skipped).disjoint mixed sorted
      have spec := searchIssuesWithCounts_spec comparable
      rw [← searchInTx_eq_withCounts comparable, searchInTx_matched, answer_matched, found] at spec
      apply Except.ok.inj
      apply spec.2
      intro refused
      obtain ⟨e, error⟩ := spec.1 refused
      cases error

theorem matches_resumeAfter (limit : Nat) :
    ({ filter.resumeAfter after with limit } : IssueFilter).Matches a ↔
    filter.Matches a ∧ Behind (after.map IssueCursor.position) a.position := by
  have behind : (∀ position ∈ after, position.KeysetPredicate a) ↔
      Behind (after.map IssueCursor.position) a.position := by
    cases after with
    | none => simp [Behind]
    | some position => simp [Behind, IssueCursor.keysetPredicate_iff]
  simp only [IssueFilter.Matches, IssueFilter.resumeAfter, Bool.and_eq_true, decide_eq_true_eq,
    behind, and_assoc]

/-- A search that resumes meets fewer rows. -/
theorem IssueTables.Whole.resumeAfter (whole : tables.Whole filter) (after : Option IssueCursor)
    (limit : Nat) :
    tables.Whole { filter.resumeAfter after with limit } := by
  have fewer {p : Plane} {a : SearchIssue}
      (held : a ∈ tables.matching { filter.resumeAfter after with limit } p) :
      a ∈ tables.matching filter p := by
    obtain ⟨stored, matched⟩ := List.mem_filter.mp held
    rw [decide_eq_true_eq, matches_resumeAfter] at matched
    exact List.mem_filter.mpr ⟨stored, decide_eq_true matched.1⟩
  have none {p : Plane} (empty : tables.matching filter p = []) :
      tables.matching { filter.resumeAfter after with limit } p = [] := by
    apply List.eq_nil_iff_forall_not_mem.mpr
    intro a held
    have listed := fewer held
    rw [empty] at listed
    cases listed
  rw [IssueTables.Whole] at whole ⊢
  have same : ({ filter.resumeAfter after with limit } : IssueFilter).ephemeral = filter.ephemeral ∧
      ({ filter.resumeAfter after with limit } : IssueFilter).skipWisps = filter.skipWisps := ⟨rfl, rfl⟩
  rw [same.1, same.2]
  split
  · next ephemeral =>
    rw [if_pos ephemeral] at whole
    exact whole.imp none none
  · next mixed =>
    rw [if_neg mixed] at whole
    exact whole.imp_right fun apart a left b right => apart a (fewer left) b (fewer right)

/-- The rows of a search that resumes are those of the whole one behind the position. -/
theorem mem_answer_resumeAfter (limit : Nat) :
    a ∈ tables.answer { filter.resumeAfter after with limit } ↔
      a ∈ tables.answer filter ∧ Behind (after.map IssueCursor.position) a.position := by
  have held (p : Plane) : a ∈ tables.part { filter.resumeAfter after with limit } p ↔
      a ∈ tables.part filter p ∧ Behind (after.map IssueCursor.position) a.position := by
    cases p with
    | issues =>
      simp only [IssueTables.part, IssueTables.matching, List.mem_filter, decide_eq_true_eq,
        matches_resumeAfter, and_assoc]
    | wisps =>
      have same : (if filter.skipWisps = true ∧ filter.ephemeral ≠ some true then []
          else tables.matching { filter.resumeAfter after with limit } .wisps) =
          tables.part { filter.resumeAfter after with limit } .wisps := rfl
      rw [← same, IssueTables.part]
      split
      · simp
      · simp only [IssueTables.matching, List.mem_filter, decide_eq_true_eq, matches_resumeAfter,
          and_assoc]
  rw [mem_answer, mem_answer]
  simp only [held, exists_and_right]

private theorem answer_strict (whole : tables.Whole filter) (sorted : filter.sortBy = .created)
    (newest : filter.sortDesc = false) :
    (tables.answer filter).Pairwise fun a b => a.position < b.position := by
  have apart : (tables.answer filter).Pairwise fun a b => a.id ≠ b.id :=
    ((List.perm_insertionSort filter.OrderedBefore _).pairwise_iff
      fun {a b : SearchIssue} (differ : a.id ≠ b.id) => differ.symm).mpr (List.pairwise_map.mp whole.distinct)
  have ordered : (tables.answer filter).Pairwise filter.OrderedBefore := answer_sorted
  apply (ordered.and apart).imp
  rintro a b ⟨ordered, differ⟩
  apply lt_of_le_of_ne ((orderedBefore_iff sorted newest).mp ordered)
  intro same
  exact differ (congrArg (fun pair : Natᵒᵈ ×ₗ String => (ofLex pair).2) same)

/-- A read as a walk sees it. -/
def IssueRead.read (filter : IssueFilter) (read : IssueRead) : Keyset.Read SearchIssue where
  rows := read.tables.answer filter
  bound := read.limit
  page := read.page

private theorem search_resumes {read : IssueRead} (sorted : filter.sortBy = .created)
    (newest : filter.sortDesc = false) (whole : read.tables.Whole filter)
    (page : read.tables.searchInTx { filter.resumeAfter after with limit := read.limit } = .ok read.page) :
    (read.read filter).Resumes SearchIssue.position (after.map IssueCursor.position) := by
  have whole := whole.resumeAfter after read.limit
  generalize asked : ({ filter.resumeAfter after with limit := read.limit } : IssueFilter) = resumed at page whole
  have same : resumed.sortBy = .created ∧ resumed.sortDesc = false ∧ resumed.limit = read.limit := by
    rw [← asked]
    exact ⟨sorted, newest, rfl⟩
  have first : read.page = bounded read.limit (read.tables.answer resumed) := by
    rw [← same.2.2]
    exact whole.searchInTx same.1 page
  have resumes : (⟨read.tables.answer filter, read.limit, if read.limit = 0 then read.tables.answer resumed
      else (read.tables.answer resumed).take read.limit⟩ : Keyset.Read SearchIssue).Resumes SearchIssue.position
        (after.map IssueCursor.position) := by
    apply resumes_of_sorted (answer_strict whole same.1 same.2.1)
    intro a
    rw [← asked]
    exact mem_answer_resumeAfter read.limit
  rw [IssueRead.read, first, bounded]
  split at resumes
  · next none => simpa [none] using resumes
  · next some => simpa [Nat.pos_of_ne_zero some] using resumes

/-- The row that follows is searched from the position a walk has come to. -/
theorem resume_position (page : List SearchIssue) :
    (IssueCursor.resume after page).map IssueCursor.position =
      Keyset.next SearchIssue.position (after.map IssueCursor.position) page := by
  cases last : page.getLast? with
  | none => simp [IssueCursor.resume, Keyset.next, last]
  | some issue =>
    simp only [IssueCursor.resume, Keyset.next, last, Option.map_some, Option.some_or]
    rfl

theorem IssueRead.Walk.keyset {reads : List IssueRead} (sorted : filter.sortBy = .created)
    (newest : filter.sortDesc = false) (whole : ∀ read ∈ reads, read.tables.Whole filter)
    (walk : IssueRead.Walk filter after reads) :
    Keyset.Walk SearchIssue.position (after.map IssueCursor.position) (reads.map (IssueRead.read filter)) := by
  induction reads generalizing after with
  | nil => exact trivial
  | cons read rest ih =>
    obtain ⟨page, walk⟩ := walk
    have rest := ih (fun later held => whole later (List.mem_cons_of_mem read held)) walk
    rw [resume_position] at rest
    exact ⟨search_resumes sorted newest (whole read List.mem_cons_self) page, rest⟩

private theorem IssueRead.delivered_eq (filter : IssueFilter) (reads : List IssueRead) :
    Keyset.delivered (reads.map (IssueRead.read filter)) = IssueRead.delivered reads := by
  rw [Keyset.delivered, IssueRead.delivered, List.flatMap_map]
  rfl

end Issues

/-! ## What a walk returns -/

/-- A walk over the comments of an issue returns rows in the order of their creation, and
so does one over the issues of a search whose reads meet no id twice. A row that is there at all
reads is returned once, unless it comes after everything that is returned by a walk that has not
come to a short page; and until there is one, every read returns a row. -/
theorem keyset_walks_deliver (issueID : String) (filter : IssueFilter) :
    (∀ reads : List CommentRead, CommentRead.Walk issueID {} reads →
      (CommentRead.delivered reads).Pairwise CommentRow.Before ∧
      (∀ c, (∀ read ∈ reads, c ∈ read.state.getIssueComments issueID) →
        (CommentRead.delivered reads).count c = 1 ∨
          ((∀ read ∈ reads, ¬ read.Short) ∧ ∀ d ∈ CommentRead.delivered reads, d.Before c)) ∧
      ((∃ read ∈ reads, read.Short) ∨ reads.length ≤ (CommentRead.delivered reads).length)) ∧
    ∀ reads : List IssueRead, filter.sortBy = .created → filter.sortDesc = false →
      IssueRead.Walk filter none reads → (∀ read ∈ reads, read.tables.Whole filter) →
        (IssueRead.delivered reads).Pairwise SearchIssue.Before ∧
        (∀ a, (∀ read ∈ reads, a ∈ read.tables.answer filter) →
          (IssueRead.delivered reads).count a = 1 ∨
            ((∀ read ∈ reads, ¬ read.Short) ∧ ∀ b ∈ IssueRead.delivered reads, b.Before a)) ∧
        ((∃ read ∈ reads, read.Short) ∨ reads.length ≤ (IssueRead.delivered reads).length) := by
  constructor
  · intro reads walk
    have stands : ({} : CommentPageCursor).At none := rfl
    have keyset := CommentRead.Walk.keyset stands walk
    rw [← CommentRead.delivered_eq issueID]
    refine ⟨keyset.sorted.imp CommentRow.position_lt.mp, ?_, ?_⟩
    · intro c there
      have counted := keyset.count (r := c) (by simpa [CommentRead.read] using there)
      simpa [CommentRead.read_short, CommentRow.position_lt] using counted
    · simpa [CommentRead.read_short] using
        Keyset.Walk.progress (reads.map (CommentRead.read issueID))
  · intro reads sorted newest walk whole
    have keyset := IssueRead.Walk.keyset sorted newest whole walk
    rw [← IssueRead.delivered_eq filter]
    refine ⟨keyset.sorted.imp SearchIssue.position_lt.mp, ?_, ?_⟩
    · intro a there
      have counted := keyset.count (r := a) (by simpa [IssueRead.read] using there)
      simpa [Keyset.Read.Short, IssueRead.Short, IssueRead.read,
        SearchIssue.position_lt] using counted
    · simpa [Keyset.Read.Short, IssueRead.Short, IssueRead.read] using
        Keyset.Walk.progress (reads.map (IssueRead.read filter))

/-- Two comments of one second, before and after the first of them is deleted. -/
def commentReads : List CommentRead :=
  let first : CommentRow :=
    { id := "c-1", issueID := "bd-1", author := "a", text := "one", createdAt := 7 }
  let second : CommentRow :=
    { id := "c-2", issueID := "bd-1", author := "a", text := "two", createdAt := 7 }
  let state (comments : Table CommentRow.id) : Aggregates := fun p =>
    { ids := if p = .issues then ["bd-1"] else [], labels := .empty
      dependencies := .empty, events := .empty
      comments := if p = .issues then comments else .empty, counters := .empty }
  [ { state := state ⟨[first, second], by decide⟩, limit := 1, page := [first]
      dated := by intro p; cases p <;> decide },
    { state := state ⟨[second], by decide⟩, limit := 0, page := [second]
      dated := by intro p; cases p <;> decide } ]

/-- A wisp and an issue of one second, before and after an issue of that second is deleted. -/
def issueReads : List IssueRead :=
  let first : SearchIssue := { id := "bd-1", createdAt := 7 }
  let second : SearchIssue := { id := "bd-2", createdAt := 7, ephemeral := true }
  let third : SearchIssue := { id := "bd-3", createdAt := 7 }
  let tables (issues : Table SearchIssue.id) : IssueTables
    | .issues => issues
    | .wisps => ⟨[second], by decide⟩
  [ { tables := tables ⟨[third, first], by decide⟩, limit := 1, page := [first] },
    { tables := tables ⟨[third], by decide⟩, limit := 5, page := [second, third] } ]

theorem keyset_walks_deliver_changing :
    (CommentRead.delivered commentReads).count
        { id := "c-2", issueID := "bd-1", author := "a", text := "two", createdAt := 7 } = 1 ∧
      (IssueRead.delivered issueReads).count { id := "bd-3", createdAt := 7 } = 1 := by
  constructor
  · have walk : CommentRead.Walk "bd-1" {} commentReads := by
      refine ⟨?_, ?_, trivial⟩ <;> decide +kernel
    have delivers :=
      ((keyset_walks_deliver "bd-1" { sortBy := .created }).1 commentReads walk).2.1
        { id := "c-2", issueID := "bd-1", author := "a", text := "two", createdAt := 7 }
        (by decide +kernel)
    apply delivers.resolve_right
    rintro ⟨full, -⟩
    have short : ∀ read ∈ commentReads, ¬ read.page.length < commentsPageLimit read.limit := full
    revert short
    decide +kernel
  · have walk : IssueRead.Walk { sortBy := .created } none issueReads := by
      refine ⟨?_, ?_, trivial⟩ <;> decide +kernel
    have whole : ∀ read ∈ issueReads, read.tables.Whole { sortBy := .created } := by
      unfold IssueTables.Whole IssueTables.Apart
      decide +kernel
    have delivers :=
      ((keyset_walks_deliver "bd-1" { sortBy := .created }).2 issueReads rfl rfl walk whole).2.1
        { id := "bd-3", createdAt := 7 } (by decide +kernel)
    apply delivers.resolve_right
    rintro ⟨full, -⟩
    have short : ∀ read ∈ issueReads, ¬ (read.limit = 0 ∨ read.page.length < read.limit) := full
    revert short
    decide +kernel

/-- An id in both tables, whose older row stands for both. -/
def twinReads : List IssueRead :=
  let tables : IssueTables
    | .issues => ⟨[{ id := "bd-x", createdAt := 10 }, { id := "bd-y", createdAt := 7 }], by decide⟩
    | .wisps => ⟨[{ id := "bd-x", createdAt := 5 }], by decide⟩
  [{ tables, limit := 1, page := [{ id := "bd-x", createdAt := 5 }] },
    { tables, limit := 1, page := [] }]

/-- A durable row that is flagged as ephemeral, beside a wisp. -/
def ephemeralReads : List IssueRead :=
  let wisp : SearchIssue := { id := "bd-w", createdAt := 5, ephemeral := true }
  let tables : IssueTables
    | .issues => ⟨[{ id := "bd-a", createdAt := 10, ephemeral := true }], by decide⟩
    | .wisps => ⟨[wisp], by decide⟩
  [{ tables, limit := 1, page := [wisp] }, { tables, limit := 1, page := [] }]

/-- Both walks come to their end, and leave out a row that is there at every read. -/
theorem keyset_walks_lose :
    (IssueRead.Walk { sortBy := .created } none twinReads ∧
      (∀ read ∈ twinReads, { id := "bd-y", createdAt := 7 } ∈ read.tables.answer { sortBy := .created }) ∧
      (∃ read ∈ twinReads, read.limit = 0 ∨ read.page.length < read.limit) ∧
      { id := "bd-y", createdAt := 7 } ∉ IssueRead.delivered twinReads) ∧
    IssueRead.Walk { sortBy := .created, ephemeral := some true } none ephemeralReads ∧
      (∀ read ∈ ephemeralReads, { id := "bd-a", createdAt := 10, ephemeral := true } ∈
        read.tables.answer { sortBy := .created, ephemeral := some true }) ∧
      (∃ read ∈ ephemeralReads, read.limit = 0 ∨ read.page.length < read.limit) ∧
      { id := "bd-a", createdAt := 10, ephemeral := true } ∉ IssueRead.delivered ephemeralReads := by
  refine ⟨⟨⟨?_, ?_, trivial⟩, ?_⟩, ⟨?_, ?_, trivial⟩, ?_⟩ <;> decide +kernel

end Beads
