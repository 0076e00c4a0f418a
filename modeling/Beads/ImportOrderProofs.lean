import Mathlib.Data.List.Perm.Subperm
import Mathlib.Data.List.Pairwise
import Beads.Lib.Precedes
import Beads.ImportOrder

/-! The order of a chunked import. The graph that is built has the edges of `Points`, as many
times as they are recorded, and the degrees count them. A row that is emitted at a stall lies on
a cycle; every other row is emitted when nothing it points at is pending. -/
namespace Beads.Import
open Lib Relation

/-! ## The edges of the graph -/

namespace ImportOrderGraph
variable {g : ImportOrderGraph} {es es' : List (Nat × Nat)} {t u : Nat}

/-- Edges in the order in which they are added, each from the target to the dependent. -/
def addAll (g : ImportOrderGraph) (es : List (Nat × Nat)) : ImportOrderGraph :=
  es.foldl (fun g e => g.addEdge e.1 e.2) g

theorem addAll_append : g.addAll (es ++ es') = (g.addAll es).addAll es' := List.foldl_append

private theorem mem_blockers_addAll :
    t ∈ (g.addAll es).blockers u ↔ t ∈ g.blockers u ∨ (t, u) ∈ es := by
  induction es generalizing g with
  | nil => simp [addAll]
  | cons e es ih =>
    change t ∈ ((g.addEdge e.1 e.2).addAll es).blockers u ↔ _
    rw [ih]
    by_cases here : u = e.2
    · subst here
      simp [addEdge, Prod.ext_iff, or_assoc]
    · simp [addEdge, here, Prod.ext_iff]

/-- The two lists of edges and the degrees say the same. -/
structure Wired (g : ImportOrderGraph) : Prop where
  mirrored : ∀ t u, (g.dependents t).count u = (g.blockers u).count t
  degrees : ∀ u, g.indegree u = (g.blockers u).length

theorem Wired.empty : Wired .empty := ⟨fun _ _ => rfl, fun _ => rfl⟩

theorem Wired.addEdge (wired : g.Wired) (target dependent : Nat) :
    (g.addEdge target dependent).Wired := by
  constructor
  · intro t u
    by_cases left : t = target <;> by_cases right : u = dependent
    · subst left right
      simp [ImportOrderGraph.addEdge, wired.mirrored]
    · subst left
      simp [ImportOrderGraph.addEdge, wired.mirrored, right, Ne.symm right]
    · subst right
      simp [ImportOrderGraph.addEdge, wired.mirrored, left, Ne.symm left]
    · simp [ImportOrderGraph.addEdge, wired.mirrored, left, right]
  · intro u
    by_cases right : u = dependent
    · subst right
      simp [ImportOrderGraph.addEdge, wired.degrees]
    · simp [ImportOrderGraph.addEdge, wired.degrees, right]

private theorem Wired.addAll (wired : g.Wired) (es : List (Nat × Nat)) : (g.addAll es).Wired := by
  induction es generalizing g with
  | nil => exact wired
  | cons e es ih => exact ih (wired.addEdge e.1 e.2)

private theorem Wired.mem_dependents (wired : g.Wired) : u ∈ g.dependents t ↔ t ∈ g.blockers u := by
  rw [← List.count_pos_iff, ← List.count_pos_iff, wired.mirrored]

private theorem addEdgesBefore_eq (g : ImportOrderGraph) (dependent : Nat) (targets : List Nat) :
    g.addEdgesBefore dependent targets = g.addAll ((targets.filter (· ≠ dependent)).map (·, dependent)) := by
  induction targets generalizing g with
  | nil => rfl
  | cons target targets ih =>
    change (if target ≠ dependent then g.addEdge target dependent else g).addEdgesBefore dependent targets = _
    rw [ih]
    by_cases other : target ≠ dependent
    · simp [other, addAll]
    · simp [other]

/-- The edges of a record. -/
def recordEdges (indicesByID childrenBySpawnerID : String → List Nat) (i : Nat) :
    Option Dependency → List (Nat × Nat)
  | none => []
  | some dep =>
    if dep.dependsOnID = "" ∨ ¬ dep.type.AffectsReadyWork then []
    else
      let targets := indicesByID dep.dependsOnID ++
        if dep.type = .waitsFor then childrenBySpawnerID dep.dependsOnID else []
      (targets.filter (· ≠ i)).map (·, i)

private theorem addRowReadinessEdges_eq (g : ImportOrderGraph) (i : Nat) (issue : ImportRow)
    (indicesByID childrenBySpawnerID : String → List Nat) :
    g.addRowReadinessEdges i issue indicesByID childrenBySpawnerID =
      g.addAll (issue.dependencies.flatMap (recordEdges indicesByID childrenBySpawnerID i)) := by
  unfold addRowReadinessEdges
  induction issue.dependencies generalizing g with
  | nil => rfl
  | cons dep deps ih =>
    rw [List.foldl_cons, ih, List.flatMap_cons, addAll_append]
    congr 1
    cases dep with
    | none => rfl
    | some dep =>
      simp only [recordEdges]
      split
      · rfl
      · simp only [addEdgesBefore_eq]
        split
        · simp [addAll_append]
        · simp

end ImportOrderGraph

open ImportOrderGraph

section Built
variable {issues : List ImportRow} {order : KeyOrder issues} {t u : Nat} {id : String}

/-- All edges in the order in which they are added. -/
def orderEdges (issues : List ImportRow) (order : KeyOrder issues) : List (Nat × Nat) :=
  (issues.zipIdx.flatMap fun row => row.1.dependencies.flatMap
    (recordEdges (indexImportIssuesByID issues) (parentChildChildrenBySpawner issues) row.2)) ++
  order.keys.flatMap fun id => (indexImportIssuesByID issues id).zip (indexImportIssuesByID issues id).tail

private theorem foldl_addAll {ι : Type} (edges : ι → List (Nat × Nat)) (l : List ι)
    (g : ImportOrderGraph) :
    l.foldl (fun g a => g.addAll (edges a)) g = g.addAll (l.flatMap edges) := by
  induction l generalizing g with
  | nil => rfl
  | cons a l ih => rw [List.foldl_cons, ih, List.flatMap_cons, addAll_append]

theorem buildImportOrderGraph_eq (issues : List ImportRow) (order : KeyOrder issues) :
    buildImportOrderGraph issues order = ImportOrderGraph.empty.addAll (orderEdges issues order) := by
  have rows := foldl_addAll (fun row : ImportRow × Nat => row.1.dependencies.flatMap
    (recordEdges (indexImportIssuesByID issues) (parentChildChildrenBySpawner issues) row.2)) issues.zipIdx .empty
  have chains := foldl_addAll
    (fun id => (indexImportIssuesByID issues id).zip (indexImportIssuesByID issues id).tail) order.keys
  rw [orderEdges, addAll_append, ← rows, ← chains]
  simp only [buildImportOrderGraph, addRowReadinessEdges_eq]
  rfl

theorem build_wired (issues : List ImportRow) (order : KeyOrder issues) :
    (buildImportOrderGraph issues order).Wired := by
  rw [buildImportOrderGraph_eq]
  exact Wired.empty.addAll _

theorem mem_indexImportIssuesByID :
    t ∈ indexImportIssuesByID issues id ↔ ∃ row, issues[t]? = some row ∧ row.id = id ∧ id ≠ "" := by
  simp only [indexImportIssuesByID, List.mem_filter, List.mem_range, Option.any_eq_true,
    decide_eq_true_eq]
  constructor
  · rintro ⟨-, row, listed, named, rfl⟩
    exact ⟨row, listed, rfl, named⟩
  · rintro ⟨row, listed, rfl, named⟩
    exact ⟨(List.getElem?_eq_some_iff.mp listed).1, row, listed, named, rfl⟩

private theorem mem_parentChildChildrenBySpawner :
    t ∈ parentChildChildrenBySpawner issues id ↔
      ∃ row dep, issues[t]? = some row ∧ some dep ∈ row.dependencies ∧
      dep.type = .parentChild ∧ dep.dependsOnID = id ∧ id ≠ "" := by
  simp only [parentChildChildrenBySpawner, List.mem_flatMap, List.mem_range, List.mem_map,
    List.mem_filter, Option.any_eq_true, decide_eq_true_eq]
  constructor
  · rintro ⟨i, inside, record, ⟨held, dep, rfl, type, named, rfl⟩, rfl⟩
    obtain ⟨row, listed⟩ : ∃ row, issues[i]? = some row := ⟨_, List.getElem?_eq_getElem inside⟩
    rw [listed] at held
    exact ⟨row, dep, listed, held, type, rfl, named⟩
  · rintro ⟨row, dep, listed, held, type, rfl, named⟩
    refine ⟨t, (List.getElem?_eq_some_iff.mp listed).1, some dep, ⟨?_, dep, rfl, type, named, rfl⟩,
      rfl⟩
    rw [listed]
    exact held

private theorem sorted_indexImportIssuesByID (issues : List ImportRow) (id : String) :
    (indexImportIssuesByID issues id).Pairwise (· < ·) := List.pairwise_lt_range.filter _

/-- The pairs of neighbours in a list that grows. -/
theorem mem_zip_tail {l : List Nat} (sorted : l.Pairwise (· < ·)) :
    (t, u) ∈ l.zip l.tail ↔ t ∈ l ∧ u ∈ l ∧ t < u ∧ ∀ m ∈ l, t < m → u ≤ m := by
  induction l with
  | nil => simp
  | cons a l ih =>
    obtain ⟨above, sorted'⟩ := List.pairwise_cons.mp sorted
    cases l with
    | nil =>
      simp only [List.tail_cons, List.zip_nil_right, List.not_mem_nil, List.mem_singleton,
        false_iff]
      rintro ⟨rfl, rfl, lt, -⟩
      exact lt.false
    | cons b l =>
      have next : a < b := above b List.mem_cons_self
      obtain ⟨above', -⟩ := List.pairwise_cons.mp sorted'
      rw [List.tail_cons, List.zip_cons_cons, List.mem_cons,
        show (b :: l).zip l = (b :: l).zip (b :: l).tail from rfl, ih sorted', Prod.mk.injEq]
      grind

private theorem mem_recordEdges {i : Nat} {record : Option Dependency}
    {indices children : String → List Nat} :
    (t, u) ∈ recordEdges indices children i record ↔ u = i ∧ t ≠ i ∧ ∃ dep, record = some dep ∧
      dep.dependsOnID ≠ "" ∧ dep.type.AffectsReadyWork ∧
      (t ∈ indices dep.dependsOnID ∨ dep.type = .waitsFor ∧ t ∈ children dep.dependsOnID) := by
  cases record with
  | none => simp [recordEdges]
  | some dep =>
    simp only [recordEdges]
    split
    · grind
    · split <;> simp <;> grind

private theorem mem_orderEdges_rows :
    (t, u) ∈ issues.zipIdx.flatMap (fun row => row.1.dependencies.flatMap
    (recordEdges (indexImportIssuesByID issues) (parentChildChildrenBySpawner issues) row.2)) ↔
      ∃ dep, Readiness issues u dep ∧ t ≠ u ∧ (t ∈ indexImportIssuesByID issues dep.dependsOnID ∨
        dep.type = .waitsFor ∧ t ∈ parentChildChildrenBySpawner issues dep.dependsOnID) := by
  simp only [List.mem_flatMap, mem_recordEdges, Prod.exists, List.mk_mem_zipIdx_iff_getElem?]
  constructor
  · rintro ⟨row, i, listed, record, held, rfl, other, dep, rfl, named, affects, targets⟩
    exact ⟨dep, ⟨row, listed, held, named, affects⟩, other, targets⟩
  · rintro ⟨dep, ⟨row, listed, held, named, affects⟩, other, targets⟩
    exact ⟨row, u, listed, some dep, held, rfl, other, dep, rfl, named, affects, targets⟩

private theorem duplicate_iff :
    Duplicate issues t u ↔ t < u ∧ ∃ id, t ∈ indexImportIssuesByID issues id ∧
    u ∈ indexImportIssuesByID issues id := by
  simp only [Duplicate, mem_indexImportIssuesByID]
  apply and_congr_right
  intro _
  constructor
  · rintro ⟨row, row', there, here, same, named⟩
    exact ⟨row.id, ⟨row, there, rfl, named⟩, row', here, same.symm, named⟩
  · rintro ⟨id, ⟨row, there, rfl, named⟩, row', here, same, -⟩
    exact ⟨row, row', there, here, same.symm, named⟩

private theorem indexed_once {id' : String} (left : t ∈ indexImportIssuesByID issues id)
    (right : t ∈ indexImportIssuesByID issues id') : id = id' := by
  rw [mem_indexImportIssuesByID] at left right
  grind

private theorem mem_orderEdges_chains : (t, u) ∈ order.keys.flatMap (fun id =>
    (indexImportIssuesByID issues id).zip (indexImportIssuesByID issues id).tail) ↔
      Duplicate issues t u ∧ ∀ m, t < m → ¬ Duplicate issues m u := by
  simp only [List.mem_flatMap, mem_zip_tail (sorted_indexImportIssuesByID issues _), duplicate_iff]
  constructor
  · rintro ⟨id, -, left, right, lt, nearest⟩
    refine ⟨⟨lt, id, left, right⟩, ?_⟩
    rintro m after ⟨before, id', inside, right'⟩
    rw [← indexed_once right right'] at inside
    have := nearest m inside after
    omega
  · rintro ⟨⟨lt, id, left, right⟩, nearest⟩
    refine ⟨id, (order.complete id).mpr (List.ne_nil_of_mem left), left, right, lt, ?_⟩
    intro m inside after
    by_contra before
    exact nearest m after ⟨by omega, id, inside, right⟩

theorem Readiness.given {dep : Dependency} (record : Readiness issues u dep) :
    dep.dependsOnID ≠ "" := by
  obtain ⟨row, -, -, given, -⟩ := record
  exact given

/-- The graph has the edges that it is meant to have. -/
theorem mem_blockers_build :
    t ∈ (buildImportOrderGraph issues order).blockers u ↔ Points issues u t := by
  rw [buildImportOrderGraph_eq, mem_blockers_addAll, orderEdges, List.mem_append,
    mem_orderEdges_rows, mem_orderEdges_chains]
  constructor
  · rintro (none | ⟨dep, record, other, named | ⟨waits, child⟩⟩ | ⟨twins, last⟩)
    · cases none
    · obtain ⟨row, listed, target, -⟩ := mem_indexImportIssuesByID.mp named
      exact .named record other listed target
    · obtain ⟨row, dep', listed, held, type, target, -⟩ := mem_parentChildChildrenBySpawner.mp child
      exact .child record other waits listed held type target
    · exact .chained twins last
  · intro points
    right
    cases points with
    | named record other listed target =>
      exact .inl ⟨_, record, other,
        .inl (mem_indexImportIssuesByID.mpr ⟨_, listed, target, record.given⟩)⟩
    | child record other waits listed held type target =>
      exact .inl ⟨_, record, other, .inr ⟨waits,
        mem_parentChildChildrenBySpawner.mpr ⟨_, _, listed, held, type, target, record.given⟩⟩⟩
    | chained twins last => exact .inr ⟨twins, last⟩

theorem Points.inside (points : Points issues u t) : u < issues.length ∧ t < issues.length := by
  cases points with
  | named record _ listed _ =>
    obtain ⟨row, here, -⟩ := record
    exact ⟨(List.getElem?_eq_some_iff.mp here).1, (List.getElem?_eq_some_iff.mp listed).1⟩
  | child record _ _ listed _ _ _ =>
    obtain ⟨row, here, -⟩ := record
    exact ⟨(List.getElem?_eq_some_iff.mp here).1, (List.getElem?_eq_some_iff.mp listed).1⟩
  | chained twins _ =>
    obtain ⟨-, row, row', there, here, -⟩ := twins
    exact ⟨(List.getElem?_eq_some_iff.mp here).1, (List.getElem?_eq_some_iff.mp there).1⟩

end Built

/-! ## Emission -/

section Release
variable {g : ImportOrderGraph}

/-- A row is released when its degree has been counted down to nothing, once. -/
theorem release_foldl (emitted : Nat → Bool) (ds : List Nat) (indegree : Nat → Int)
    (queue : List Nat) (bounded : ∀ x, (ds.count x : Int) ≤ indegree x) :
    ∃ new : List Nat, new.Nodup ∧
      (∀ x, x ∈ new ↔ x ∈ ds ∧ indegree x = ds.count x ∧ emitted x = false) ∧
      ds.foldl (fun (indegree, queue) j =>
        let indegree := Function.update indegree j (indegree j - 1)
        (indegree, if indegree j = 0 ∧ ¬ emitted j then queue ++ [j] else queue)) (indegree, queue) =
      ((fun x => indegree x - ds.count x), queue ++ new) := by
  induction ds generalizing indegree queue with
  | nil => exact ⟨[], List.nodup_nil, by simp, by simp⟩
  | cons j ds ih =>
    have below : ∀ x, (ds.count x : Int) ≤ Function.update indegree j (indegree j - 1) x := by
      intro x
      have := bounded x
      by_cases here : x = j
      · subst here
        simp only [List.count_cons_self, Function.update_self] at this ⊢
        omega
      · simpa [here, Ne.symm here] using this
    have rest (x : Nat) : Function.update indegree j (indegree j - 1) x - ds.count x =
        indegree x - (j :: ds).count x := by
      by_cases here : x = j
      · subst here
        simp only [Function.update_self, List.count_cons_self]
        omega
      · simp [here, Ne.symm here]
    obtain ⟨new, distinct, members, result⟩ :=
      ih (Function.update indegree j (indegree j - 1))
        (if indegree j - 1 = 0 ∧ ¬ emitted j then queue ++ [j] else queue)
        below
    rw [List.foldl_cons]
    simp only [Function.update_self] at result ⊢
    by_cases free : indegree j - 1 = 0 ∧ ¬ emitted j
    · have last : j ∉ ds := by
        intro again
        have := below j
        have := List.count_pos_iff.mpr again
        simp only [Function.update_self] at *
        omega
      refine ⟨j :: new, ?_, ?_, ?_⟩
      · rw [List.nodup_cons, members]
        exact ⟨fun held => last held.1, distinct⟩
      · intro x
        rw [List.mem_cons, members, List.mem_cons]
        by_cases here : x = j
        · subst here
          have none := List.count_eq_zero_of_not_mem last
          simp only [List.count_cons_self, none]
          simp only [Bool.not_eq_true] at free
          simp [free.2]
          omega
        · simp [here, Ne.symm here]
      · rw [if_pos free] at result ⊢
        rw [result]
        simp [rest]
    · refine ⟨new, distinct, ?_, ?_⟩
      · intro x
        rw [members, List.mem_cons]
        by_cases here : x = j
        · subst here
          simp only [List.count_cons_self, Function.update_self, true_or, true_and]
          constructor
          · rintro ⟨-, same, pending⟩
            exact ⟨by omega, pending⟩
          · rintro ⟨same, pending⟩
            have more : indegree x - 1 ≠ 0 := fun zero => free ⟨zero, by simp [pending]⟩
            exact ⟨List.count_pos_iff.mp (by omega), by omega, pending⟩
        · simp [here, Ne.symm here]
      · rw [if_neg free] at result ⊢
        rw [result]
        simp [rest]

end Release

section Emission
variable {g : ImportOrderGraph} {n i : Nat} {s s' : Progress}

/-- The edges of the graph lead from rows to rows. -/
def Inside (g : ImportOrderGraph) (n : Nat) : Prop := ∀ t u, t ∈ g.blockers u → t < n ∧ u < n

/-- What holds between two turns: the degrees count what is pending, and the queue holds the rows
that wait for nothing. -/
structure Running (g : ImportOrderGraph) (n : Nat) (s : Progress) : Prop where
  distinct : s.ordered.Nodup
  inside : ∀ x ∈ s.ordered, x < n
  emitted : ∀ x, s.emitted x = true ↔ x ∈ s.ordered
  degrees : ∀ x, s.indegree x = (g.blockers x).countP (· ∉ s.ordered)
  once : s.queue.Nodup
  queued : ∀ x, x ∈ s.queue ↔ x < n ∧ x ∉ s.ordered ∧ ∀ t ∈ g.blockers x, t ∈ s.ordered

private theorem running_start (wired : g.Wired) : Running g n (g.start n) := by
  have degrees (x : Nat) : g.indegree x = (g.blockers x).countP (· ∉ ([] : List Nat)) := by
    rw [wired.degrees]
    simp
  refine ⟨List.nodup_nil, by simp [start], by simp [start], degrees, List.nodup_range.filter _, ?_⟩
  intro x
  simp [start, wired.degrees, List.eq_nil_iff_forall_not_mem]

/-- A row that is emitted is one less to wait for, as often as it is waited for. -/
theorem countP_pending (l ordered : List Nat) (fresh : i ∉ ordered) :
    l.countP (· ∉ ordered ++ [i]) + l.count i = l.countP (· ∉ ordered) := by
  induction l with
  | nil => rfl
  | cons a l ih =>
    rw [List.countP_cons, List.countP_cons, List.count_cons, ← ih]
    by_cases here : a = i
    · simp [here, fresh]
      omega
    · simp [here]
      omega

private theorem countP_pending_eq_zero {l ordered : List Nat} :
    l.countP (· ∉ ordered) = 0 ↔ ∀ t ∈ l, t ∈ ordered := by
  simp

/-- A row is released exactly when the row that is taken was the last it waited for. -/
theorem Running.released_iff (running : Running g n s) (wired : g.Wired) (fresh : i ∉ s.ordered)
    (x : Nat) :
    (x ∈ g.dependents i ∧ s.indegree x = (g.dependents i).count x ∧ x ∉ s.ordered ++ [i]) ↔
      i ∈ g.blockers x ∧ x ∉ s.ordered ++ [i] ∧ ∀ t ∈ g.blockers x, t ∈ s.ordered ++ [i] := by
  have counts := countP_pending (g.blockers x) s.ordered fresh
  rw [wired.mem_dependents, running.degrees, wired.mirrored, ← countP_pending_eq_zero]
  apply and_congr_right
  intro _
  rw [and_comm]
  apply and_congr_right
  intro _
  omega

/-- What is in the queue after a row has been taken. -/
theorem Running.queued_next (running : Running g n s) (within : Inside g n) (x : Nat) :
    ((x ∈ s.queue ∧ x ≠ i) ∨
      i ∈ g.blockers x ∧ x ∉ s.ordered ++ [i] ∧ ∀ t ∈ g.blockers x, t ∈ s.ordered ++ [i]) ↔
    x < n ∧ x ∉ s.ordered ++ [i] ∧ ∀ t ∈ g.blockers x, t ∈ s.ordered ++ [i] := by
  rw [running.queued]
  constructor
  · rintro (⟨⟨inside, waiting, done⟩, other⟩ | ⟨blocked, waiting, done⟩)
    · refine ⟨inside, by simp [waiting, other], ?_⟩
      intro t held
      exact List.mem_append_left _ (done t held)
    · exact ⟨(within i x blocked).2, waiting, done⟩
  · rintro ⟨inside, waiting, done⟩
    by_cases blocked : i ∈ g.blockers x
    · exact .inr ⟨blocked, waiting, done⟩
    · refine .inl ⟨⟨inside, ?_, ?_⟩, ?_⟩
      · exact fun held => waiting (List.mem_append_left _ held)
      · intro t held
        rcases List.mem_append.mp (done t held) with before | here
        · exact before
        · exact absurd (List.mem_singleton.mp here ▸ held) blocked
      · rintro rfl
        exact waiting (List.mem_append_right _ (List.mem_singleton_self x))

/-- What a turn does to the state when it takes a pending row. The queue that is left holds the
other rows that wait for nothing. -/
theorem Running.take (running : Running g n s) (wired : g.Wired) (within : Inside g n) (row : i < n)
    (fresh : i ∉ s.ordered) (queue : List Nat) (once : queue.Nodup)
    (left : ∀ x, x ∈ queue ↔ x ∈ s.queue ∧ x ≠ i) :
    Running g n (g.take s i queue) ∧ (g.take s i queue).ordered = s.ordered ++ [i] := by
  have pending : ¬ s.emitted i = true := fun held => fresh ((running.emitted i).mp held)
  have bounded (x : Nat) : ((g.dependents i).count x : Int) ≤ s.indegree x := by
    have := countP_pending (g.blockers x) s.ordered fresh
    rw [wired.mirrored, running.degrees]
    omega
  obtain ⟨new, distinct, members, result⟩ :=
    release_foldl (Function.update s.emitted i true) (g.dependents i) s.indegree queue bounded
  have emitted (x : Nat) : Function.update s.emitted i true x = true ↔ x ∈ s.ordered ++ [i] := by
    by_cases here : x = i
    · simp [here]
    · simp [here, running.emitted]
  have released (x : Nat) := running.released_iff wired fresh x
  simp only [← Bool.not_eq_true, emitted, released] at members
  have after : g.take s i queue =
      { indegree := fun x => s.indegree x - (g.dependents i).count x, emitted := Function.update s.emitted i true,
        queue := queue ++ new, ordered := s.ordered ++ [i] } := by
    simp only [ImportOrderGraph.take, if_neg pending, release]
    rw [result]
  rw [after]
  refine ⟨⟨?_, ?_, emitted, ?_, ?_, ?_⟩, rfl⟩
  · refine List.nodup_append.mpr ⟨running.distinct, List.nodup_singleton i, ?_⟩
    rintro x held y here rfl
    exact fresh (List.mem_singleton.mp here ▸ held)
  · intro x held
    rcases List.mem_append.mp held with before | here
    · exact running.inside x before
    · exact List.mem_singleton.mp here ▸ row
  · intro x
    have := countP_pending (g.blockers x) s.ordered fresh
    change s.indegree x - _ = ((g.blockers x).countP (· ∉ s.ordered ++ [i]) : Nat)
    rw [running.degrees, wired.mirrored]
    omega
  · refine List.nodup_append.mpr ⟨once, distinct, ?_⟩
    rintro x waiting y held rfl
    have done := ((running.queued x).mp ((left x).mp waiting).1).2.2
    exact fresh (done i ((members x).mp held).1)
  · intro x
    rw [List.mem_append, left, members]
    exact running.queued_next within x

/-! ## Turns -/

/-- The rows that have not been emitted. -/
def pendingRows (n : Nat) (ordered : List Nat) : List Nat := (List.range n).filter (· ∉ ordered)

theorem mem_pendingRows {x : Nat} {ordered : List Nat} :
    x ∈ pendingRows n ordered ↔ x < n ∧ x ∉ ordered := by
  simp [pendingRows]

theorem Running.pending_iff (running : Running g n s) (x : Nat) :
    (!s.emitted x) = true ↔ x ∉ s.ordered := by
  rw [Bool.not_eq_true', ← Bool.not_eq_true, running.emitted]

/-- At a stall every pending row waits for another. -/
theorem Running.nextBlocker_pending (running : Running g n s) (within : Inside g n)
    (stall : s.queue = []) :
    ∀ v ∈ pendingRows n s.ordered, ∃ b ∈ pendingRows n s.ordered,
      g.nextBlocker s.emitted v = some b := by
  intro v held
  obtain ⟨inside, pending⟩ := mem_pendingRows.mp held
  obtain ⟨t, blocks, late⟩ : ∃ t ∈ g.blockers v, t ∉ s.ordered := by
    by_contra none
    have queued := (running.queued v).mpr ⟨inside, pending, by simpa using none⟩
    rw [stall] at queued
    cases queued
  have found : (g.nextBlocker s.emitted v).isSome :=
    List.find?_isSome.mpr ⟨t, blocks, (running.pending_iff t).mpr late⟩
  obtain ⟨b, first⟩ := Option.isSome_iff_exists.mp found
  have chosen := List.find?_some first
  have free := (running.pending_iff b).mp chosen
  exact ⟨b, mem_pendingRows.mpr ⟨(within b v (List.mem_of_find?_eq_some first)).1, free⟩, first⟩

private theorem Running.exists_pending (running : Running g n s) (more : s.ordered.length < n) :
    ∃ x ∈ List.range n, (!s.emitted x) = true := by
  by_contra all
  have sub : List.range n ⊆ s.ordered := by
    intro x held
    by_contra pending
    exact all ⟨x, held, (running.pending_iff x).mpr pending⟩
  have short := (List.subperm_of_subset List.nodup_range sub).length_le
  rw [List.length_range] at short
  omega

private theorem Running.first_pending (running : Running g n s) (more : s.ordered.length < n) :
    (List.range n).findIdx (fun i => !s.emitted i) ∈ pendingRows n s.ordered := by
  have bound := List.findIdx_lt_length.mpr (running.exists_pending more)
  have holds := List.findIdx_getElem (w := bound)
  rw [List.getElem_range, running.pending_iff] at holds
  rw [List.length_range] at bound
  exact mem_pendingRows.mpr ⟨bound, holds⟩

/-- The walk at a stall closes a cycle of pending rows. -/
theorem Running.stalled (running : Running g n s) (within : Inside g n) (stall : s.queue = [])
    (more : s.ordered.length < n) :
    ∃ c, c < n ∧ c ∉ s.ordered ∧ g.nextCycleParticipant n s.emitted = some c ∧
      TransGen (fun u t => t ∈ g.blockers u) c c := by
  have enough : (pendingRows n s.ordered).length < n + 1 := by
    have := List.length_filter_le (· ∉ s.ordered) (List.range n)
    rw [List.length_range] at this
    exact Nat.lt_succ_of_le this
  obtain ⟨c, held, result, cycle⟩ :=
    revisit_closes (running.nextBlocker_pending within stall) (running.first_pending more) enough
  obtain ⟨inside, pending⟩ := mem_pendingRows.mp held
  refine ⟨c, inside, pending, result, cycle.lift id ?_⟩
  intro a b link
  exact List.mem_of_find?_eq_some link

/-- At a stall every pending row leads to a cycle. -/
theorem Running.leads (running : Running g n s) (within : Inside g n) (stall : s.queue = [])
    {x : Nat} (held : x ∈ pendingRows n s.ordered) :
    ∃ c, ReflTransGen (fun u t => t ∈ g.blockers u) x c ∧
      TransGen (fun u t => t ∈ g.blockers u) c c := by
  classical
  -- The walk stays among the pending rows that the row leads to.
  let pool :=
    (pendingRows n s.ordered).filter fun v => ReflTransGen (fun u t => t ∈ g.blockers u) x v
  have closed : ∀ v ∈ pool, ∃ b ∈ pool, g.nextBlocker s.emitted v = some b := by
    intro v inside
    obtain ⟨pending, leads⟩ := List.mem_filter.mp inside
    obtain ⟨b, pending', next⟩ := running.nextBlocker_pending within stall v pending
    refine ⟨b, List.mem_filter.mpr ⟨pending', decide_eq_true ?_⟩, next⟩
    exact (of_decide_eq_true leads).tail (List.mem_of_find?_eq_some next)
  obtain ⟨c, inside, -, cycle⟩ :=
    revisit_closes closed (List.mem_filter.mpr ⟨held, decide_eq_true .refl⟩) (Nat.lt_succ_self _)
  exact ⟨c, of_decide_eq_true (List.mem_filter.mp inside).2,
    cycle.lift id fun a b => List.mem_of_find?_eq_some⟩

/-- The row that a turn emits: the head of the queue, or where the queue is empty the row on
which the walk along pending blockers closes. -/
inductive Next (g : ImportOrderGraph) (n : Nat) (s : Progress) (i : Nat) : Prop
  | free (done : ∀ t ∈ g.blockers i, t ∈ s.ordered)
  | forced (stall : s.queue = []) (cycle : TransGen (fun u t => t ∈ g.blockers u) i i)

theorem Running.turn (running : Running g n s) (wired : g.Wired) (within : Inside g n)
    (more : s.ordered.length < n) :
    ∃ i s', g.turn n s = some s' ∧ i ∉ s.ordered ∧ Next g n s i ∧ s'.ordered = s.ordered ++ [i] ∧
      Running g n s' := by
  cases waiting : s.queue with
  | nil =>
    obtain ⟨c, inside, pending, closes, cycle⟩ := running.stalled within waiting more
    obtain ⟨running', ordered⟩ := running.take wired within inside pending [] List.nodup_nil
      (by simp [waiting])
    refine ⟨c, _, ?_, pending, .forced waiting cycle, ordered, running'⟩
    rw [ImportOrderGraph.turn, waiting, closes]
    rfl
  | cons i queue =>
    have head : i ∈ s.queue := waiting ▸ List.mem_cons_self
    obtain ⟨inside, pending, done⟩ := (running.queued i).mp head
    have once := running.once
    rw [waiting, List.nodup_cons] at once
    obtain ⟨running', ordered⟩ := running.take wired within inside pending _ once.2 (by
      intro x
      rw [waiting, List.mem_cons]
      grind)
    refine ⟨i, _, ?_, pending, .free done, ordered, running'⟩
    rw [ImportOrderGraph.turn, waiting]

/-! ## Runs -/

theorem ImportOrderGraph.Reached.running (reached : Reached g n s) (wired : g.Wired)
    (within : Inside g n) :
    Running g n s := by
  induction reached with
  | start => exact running_start wired
  | turn before more step running =>
    obtain ⟨i, s', result, -, -, -, running'⟩ := running.turn wired within more
    rw [step, Option.some.injEq] at result
    exact result ▸ running'

/-- The loop ends with every row emitted. -/
theorem loop_spec (reached : Reached g n s) (wired : g.Wired) (within : Inside g n) (fuel : Nat)
    (enough : n ≤ s.ordered.length + fuel) :
    ∃ last, g.loop n fuel s = some last ∧ Reached g n last ∧ n ≤ last.ordered.length := by
  induction fuel generalizing s with
  | zero =>
    refine ⟨s, ?_, reached, enough⟩
    rw [loop, if_neg (by omega)]
  | succ fuel ih =>
    rw [loop]
    by_cases more : s.ordered.length < n
    · obtain ⟨i, s', step, -, -, ordered, -⟩ :=
        (reached.running wired within).turn wired within more
      have lengths : s'.ordered.length = s.ordered.length + 1 := by simp [ordered]
      obtain ⟨last, result, reached', complete⟩ := ih (reached.turn more step) (by omega)
      refine ⟨last, ?_, reached', complete⟩
      rw [if_pos more, step]
      exact result
    · exact ⟨s, if_neg more, reached, by omega⟩

private theorem Running.perm (running : Running g n s) (complete : n ≤ s.ordered.length) :
    s.ordered.Perm (List.range n) := by
  have sub : s.ordered ⊆ List.range n := fun x held => List.mem_range.mpr (running.inside x held)
  exact (List.subperm_of_subset running.distinct sub).perm_of_length_le (by simpa using complete)

/-- Rows follow what they must follow, when no turn emits a row with some of that pending. -/
theorem ImportOrderGraph.Reached.follows (wired : g.Wired) (within : Inside g n)
    (after : Nat → Nat → Prop) (kept : ∀ s i, Reached g n s → s.ordered.length < n → Next g n s i →
      (∀ x ∈ s.ordered, ∀ t, after x t → Precedes s.ordered t x) → ∀ t, after i t → t ∈ s.ordered)
    (reached : Reached g n s) : ∀ x ∈ s.ordered, ∀ t, after x t → Precedes s.ordered t x := by
  induction reached with
  | start => simp [ImportOrderGraph.start]
  | @turn s s' before more step ih =>
    obtain ⟨i, last, result, -, next, ordered, -⟩ :=
      (before.running wired within).turn wired within more
    rw [step, Option.some.injEq] at result
    subst result
    rw [ordered]
    intro x held t follows
    rcases List.mem_append.mp held with earlier | here
    · exact (ih x earlier t follows).trans (List.sublist_append_left _ _)
    · cases List.mem_singleton.mp here
      have first := kept s i before more next ih t follows
      exact List.Sublist.append (List.singleton_sublist.mpr first) (List.Sublist.refl [i])

end Emission

/-! ## The order of the rows -/

section Order
variable {issues : List ImportRow} {order : KeyOrder issues}

theorem build_inside (issues : List ImportRow) (order : KeyOrder issues) :
    Inside (buildImportOrderGraph issues order) issues.length := by
  intro t u held
  exact (mem_blockers_build.mp held).inside.symm

theorem onCycle_iff {u : Nat} :
    TransGen (fun u t => t ∈ (buildImportOrderGraph issues order).blockers u) u u ↔
      OnCycle issues u := by
  simp only [mem_blockers_build]
  rfl

private theorem short_points (short : issues.length < 2) {u t : Nat} : ¬ Points issues u t := by
  intro points
  have inside := points.inside
  have same : t = u := by omega
  cases points with
  | named _ other _ _ => exact other same
  | child _ other _ _ _ _ _ => exact other same
  | chained twins _ => exact (twins.1.ne same)

/-- The positions that are returned are those of the last state of the loop. -/
theorem importOrder_spec (issues : List ImportRow) (order : KeyOrder issues)
    (long : ¬ issues.length < 2) :
    ∃ last, importOrder issues order = some last.ordered ∧
      (buildImportOrderGraph issues order).Reached issues.length last ∧
      last.ordered.Perm (List.range issues.length) := by
  obtain ⟨last, result, reached, complete⟩ :=
    loop_spec (.start (g := buildImportOrderGraph issues order) (n := issues.length))
      (build_wired issues order) (build_inside issues order) issues.length (by simp [start])
  refine ⟨last, ?_, reached,
    (reached.running (build_wired issues order) (build_inside issues order)).perm complete⟩
  rw [importOrder, if_neg long, topologicalFileOrder, result]
  rfl

private theorem importOrder_orders (issues : List ImportRow) (order : KeyOrder issues) :
    ∃ positions, importOrder issues order = some positions ∧
      positions.Perm (List.range issues.length) ∧
      ∀ u t, Points issues u t → ¬ OnCycle issues u → Precedes positions t u := by
  by_cases short : issues.length < 2
  · exact ⟨_, if_pos short, .refl _, fun u t points => absurd points (short_points short)⟩
  · obtain ⟨last, result, reached, perm⟩ := importOrder_spec issues order short
    refine ⟨_, result, perm, ?_⟩
    intro u t points free
    -- A row on no cycle is never emitted at a stall, so what it points at has gone before.
    have follows := reached.follows (build_wired issues order) (build_inside issues order)
      (fun u t => Points issues u t ∧ ¬ OnCycle issues u) (by
        rintro s i - - next - t ⟨points, free⟩
        cases next with
        | free done => exact done t (mem_blockers_build.mpr points)
        | forced _ cycle => exact absurd (onCycle_iff.mp cycle) free)
    exact follows u (perm.mem_iff.mpr (List.mem_range.mpr points.inside.1)) t ⟨points, free⟩

private theorem rows_of_range (issues : List ImportRow) :
    (List.range issues.length).filterMap (fun i => issues[i]?) = issues := by
  induction issues using List.reverseRecOn with
  | nil => rfl
  | append_singleton rows row ih =>
    have before : (List.range rows.length).filterMap (fun i => (rows ++ [row])[i]?) =
        (List.range rows.length).filterMap fun i => rows[i]? := by
      apply List.filterMap_congr
      intro i inside
      exact List.getElem?_append_left (List.mem_range.mp inside)
    rw [List.length_append, List.length_singleton, List.range_succ, List.filterMap_append, before,
      ih]
    simp

/-- The rows are rearranged so that a row on no cycle comes after all that it points at. -/
theorem orderImportIssuesForChunking_orders (issues : List ImportRow) (order : KeyOrder issues) :
    ∃ positions ordered, importOrder issues order = some positions ∧
      orderImportIssuesForChunking issues order = some ordered ∧
      positions.Perm (List.range issues.length) ∧
        ordered = positions.filterMap (fun i => issues[i]?) ∧
      ordered.Perm issues ∧
      (∀ u t, Points issues u t → ¬ OnCycle issues u → Precedes positions t u) ∧
      ((∀ u, ¬ OnCycle issues u) → ∀ u t, Points issues u t → Precedes positions t u) := by
  have rows {positions : List Nat} (perm : positions.Perm (List.range issues.length)) :
      (positions.filterMap fun i => issues[i]?).Perm issues := by
    have moved := perm.filterMap fun i => issues[i]?
    rwa [rows_of_range] at moved
  obtain ⟨positions, result, perm, ordered⟩ := importOrder_orders issues order
  refine ⟨positions, _, result, ?_, perm, rfl, rows perm, ordered, ?_⟩
  · rw [orderImportIssuesForChunking, result]
    rfl
  · intro acyclic u t points
    exact ordered u t points (acyclic u)

/-! ## Duplicate ids -/

theorem Duplicate.inside {t u : Nat} (twins : Duplicate issues t u) :
    t < issues.length ∧ u < issues.length := by
  obtain ⟨-, row, row', there, here, -⟩ := twins
  exact ⟨(List.getElem?_eq_some_iff.mp there).1, (List.getElem?_eq_some_iff.mp here).1⟩

theorem Duplicate.between {t p u : Nat} (twins : Duplicate issues t u)
    (nearer : Duplicate issues p u) (lt : t < p) :
    Duplicate issues t p := by
  obtain ⟨-, row, row', there, here, same, named⟩ := twins
  obtain ⟨-, mid, row'', between, here', same', -⟩ := nearer
  rw [here, Option.some.injEq] at here'
  subst here'
  exact ⟨lt, row, mid, there, between, same.trans same'.symm, named⟩

/-- The row that the chain of an id puts before a row. -/
theorem Duplicate.exists_chained {t u : Nat} (twins : Duplicate issues t u) :
    ∃ p, (t = p ∨ Duplicate issues t p) ∧ Points issues u p := by
  by_cases nearer : ∃ m, t < m ∧ Duplicate issues m u
  · obtain ⟨m, lt, twins'⟩ := nearer
    have closer : u - m < u - t := by
      have := twins'.1
      omega
    obtain ⟨p, here | before, points⟩ := twins'.exists_chained
    · exact ⟨p, .inr (here ▸ twins.between twins' lt), points⟩
    · have := before.1
      obtain ⟨-, row, row', there, between, same, named⟩ := twins.between twins' lt
      obtain ⟨-, mid, last, between', end_, same', -⟩ := before
      rw [between, Option.some.injEq] at between'
      subst between'
      exact ⟨p, .inr ⟨by omega, row, last, there, end_, same.trans same', named⟩, points⟩
  · refine ⟨t, .inl rfl, .chained twins ?_⟩
    intro m lt twins'
    exact nearer ⟨m, lt, twins'⟩
termination_by u - t

/-- A row that is emitted at a stall is on a cycle, so the earlier rows of its id are not pending.
-/
theorem follows_duplicates (off : ChainsOffCycles issues) {s : Progress}
    (reached : (buildImportOrderGraph issues order).Reached issues.length s) :
    ∀ u ∈ s.ordered, ∀ t, Duplicate issues t u → Precedes s.ordered t u := by
  refine reached.follows (build_wired issues order) (build_inside issues order)
    (fun u t => Duplicate issues t u) ?_
  intro s i reached more next before t twins
  have within := build_inside issues order
  have running := reached.running (build_wired issues order) within
  cases next with
  | free done =>
    -- The row before it under its id has been emitted, and with it all earlier ones.
    obtain ⟨p, here | earlier, points⟩ := twins.exists_chained
    · exact here ▸ done p (mem_blockers_build.mpr points)
    · exact (before p (done p (mem_blockers_build.mpr points)) t earlier).mem.1
  | forced stall cycle =>
    by_contra pending
    obtain ⟨c, leads, circle⟩ :=
      running.leads within stall (mem_pendingRows.mpr ⟨twins.inside.1, pending⟩)
    simp only [mem_blockers_build] at leads
    exact off t i twins (onCycle_iff.mp cycle) c leads (onCycle_iff.mp circle)

/-- The import keeps the file order of the rows of one id, if of any two of them the later lies on
no cycle or the earlier leads to none. -/
theorem duplicates_in_file_order (issues : List ImportRow) (order : KeyOrder issues) :
    ∃ positions, importOrder issues order = some positions ∧
      (ChainsOffCycles issues → ∀ t u, Duplicate issues t u → Precedes positions t u) := by
  by_cases short : issues.length < 2
  · refine ⟨_, if_pos short, fun _ t u twins => ?_⟩
    have := twins.inside
    have := twins.1
    omega
  · obtain ⟨last, result, reached, perm⟩ := importOrder_spec issues order short
    refine ⟨_, result, fun off t u twins => ?_⟩
    exact follows_duplicates off reached u (perm.mem_iff.mpr (List.mem_range.mpr twins.inside.2)) t
      twins

end Order

/-- A waiter, and two rows of one id of which the first waits for the spawner of the second. -/
def spawnedTwins : List ImportRow :=
  [⟨"w", [some ⟨"s", .waitsFor⟩]⟩, ⟨"a", [some ⟨"s", .waitsFor⟩]⟩, ⟨"a", [some ⟨"s", .parentChild⟩]⟩]

/-- The walk from the waiter enters the cycle of the two rows at the later one. -/
theorem spawnedTwins_order : importOrder spawnedTwins (.ofIDs spawnedTwins) = some [2, 0, 1] := by
  decide

theorem later_duplicate_first :
    ¬ ∀ (issues : List ImportRow) (order : KeyOrder issues) (positions : List Nat),
    importOrder issues order = some positions → ∀ t u, Duplicate issues t u →
      Precedes positions t u := by
  intro keeps
  have twins : Duplicate spawnedTwins 1 2 := ⟨by decide, _, _, rfl, rfl, rfl, by decide⟩
  exact absurd (keeps spawnedTwins (.ofIDs spawnedTwins) _ spawnedTwins_order 1 2 twins) (by decide)

end Beads.Import
