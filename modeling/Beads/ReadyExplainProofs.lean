import Beads.CycleReportProofs
import Beads.Lib.FirstPaths
import Beads.ReadyExplain

/-! The cycles of `ready --explain` and the canonical cycle enumeration. Both take the same walk
through the same graph; they differ in how a cycle is written down and in what the cycles are sorted
by. The walk comes to an id along the first simple path that leads there, so it enters a cycle where
that path does, which need not be at the lowest id. -/
namespace Beads
open Lib

/-! ## The two graphs -/

namespace Ready
variable {add : List String → String → List String} {dependencies : List Dependency}
  {issues : List Issue}
  {a b : String}

theorem collect_concat (dependency : Dependency) :
    collect add (dependencies ++ [dependency]) = link add (collect add dependencies) dependency := by
  rw [collect, List.foldl_append]
  rfl

theorem neighbors_link_self (graph : AdjacencyMap) (dependency : Dependency) :
    (link add graph dependency).neighbors dependency.issueId =
      add (graph.neighbors dependency.issueId) dependency.dependsOnId := by
  have found := Table.find?_put_self (t := graph)
    (r := (dependency.issueId, add (graph.neighbors dependency.issueId) dependency.dependsOnId))
  rw [AdjacencyMap.neighbors, link, found]
  rfl

theorem neighbors_link_of_ne (graph : AdjacencyMap) {dependency : Dependency}
    (other : a ≠ dependency.issueId) :
    (link add graph dependency).neighbors a = graph.neighbors a := by
  have kept := Table.find?_put_of_ne (t := graph)
    (r := (dependency.issueId, add (graph.neighbors dependency.issueId) dependency.dependsOnId)) other
  rw [AdjacencyMap.neighbors, link, kept]
  rfl

theorem edge_collect (adds : ∀ targets target id, id ∈ add targets target ↔ id ∈ targets ∨ id = target) :
    (collect add dependencies).Edge a b ↔
      ∃ d ∈ dependencies, d.issueId = a ∧ d.dependsOnId = b := by
  induction dependencies using List.reverseRecOn with
  | nil => simp [collect, AdjacencyMap.Edge, AdjacencyMap.neighbors, Table.find?, Table.empty]
  | append_singleton front last ih =>
    have more : (collect add (front ++ [last])).Edge a b ↔
        (collect add front).Edge a b ∨ last.issueId = a ∧ last.dependsOnId = b := by
      rw [collect_concat]
      unfold AdjacencyMap.Edge
      by_cases same : a = last.issueId
      · subst same
        rw [neighbors_link_self, adds, eq_comm (a := b)]
        simp
      · rw [neighbors_link_of_ne _ same]
        simp [Ne.symm same]
    rw [more, ih]
    simp [or_and_right, exists_or]

private theorem key_collect (id : String) :
    (∃ row ∈ collect add dependencies, row.1 = id) ↔ ∃ d ∈ dependencies, d.issueId = id := by
  induction dependencies using List.reverseRecOn with
  | nil =>
    constructor
    · rintro ⟨row, none, -⟩
      exact absurd none List.not_mem_nil
    · rintro ⟨d, none, -⟩
      exact absurd none List.not_mem_nil
  | append_singleton front last ih =>
    rw [collect_concat]
    simp only [link, Table.put, Table.mem_insert, Table.mem_delete]
    simp only [List.mem_append, List.mem_singleton, or_and_right, exists_or, exists_eq_left, ← ih]
    by_cases here : last.issueId = id
    · simp [here]
    · simp only [here, or_false]
      constructor
      · rintro ⟨row, ⟨held, -⟩, key⟩
        exact ⟨row, held, key⟩
      · rintro ⟨row, held, key⟩
        refine ⟨row, ⟨held, ?_⟩, key⟩
        rw [key]
        exact Ne.symm here

/-- What is not added again stays free of duplicates. -/
theorem nodup_collect (keeps : ∀ targets target, targets.Nodup → (add targets target).Nodup)
    (id : String) : ((collect add dependencies).neighbors id).Nodup := by
  induction dependencies using List.reverseRecOn with
  | nil => exact List.nodup_nil
  | append_singleton front last ih =>
    rw [collect_concat]
    by_cases same : id = last.issueId
    · subst same
      rw [neighbors_link_self]
      exact keeps _ _ ih
    · rw [neighbors_link_of_ne _ same]
      exact ih

private theorem edge_blockingGraph :
    (blockingGraph issues).Edge a b ↔ ∃ d ∈ blocking issues, d.issueId = a ∧ d.dependsOnId = b :=
  edge_collect fun targets target id => by simp

theorem alike_graphs (issues : List Issue) :
    (dependencyGraph issues).Alike (blockingGraph issues) where
  keys id := (key_collect id).trans (key_collect id).symm
  edges a b := by
    rw [edge_blockingGraph]
    apply edge_collect
    intro targets target id
    split
    · next held =>
      constructor
      · exact .inl
      · rintro (known | rfl)
        · exact known
        · exact held
    · simp

private theorem nodup_neighbors (issues : List Issue) (id : String) :
    ((dependencyGraph issues).neighbors id).Nodup := by
  apply nodup_collect
  intro targets target nodup
  split
  · exact nodup
  · next fresh =>
    rw [List.nodup_append]
    refine ⟨nodup, List.nodup_singleton target, ?_⟩
    rintro x held y here rfl
    rw [List.mem_singleton] at here
    exact fresh (here ▸ held)

/-! ## The walk -/

private theorem sort_neighbors (sorters : Sorters) (issues : List Issue) :
    (fun node => sorters.ids.sort compareStrings ((dependencyGraph issues).neighbors node)) =
      (blockingGraph issues).adjacency := by
  rw [← (alike_graphs issues).adjacency]
  funext node
  have nodup := (List.perm_insertionSort (· ≤ ·) _).nodup_iff.mpr (nodup_neighbors issues node)
  rw [AdjacencyMap.adjacency_eq, List.dedup_eq_self.mpr nodup]
  exact sorters.ids.sort_threeWay _

private theorem sort_nodes (sorters : Sorters) (issues : List Issue) :
    sorters.ids.sort compareStrings ((dependencyGraph issues).rows.map Prod.fst) = (blockingGraph issues).roots := by
  rw [← (alike_graphs issues).roots]
  exact sorters.ids.sort_threeWay _

end Ready

/-! ## Where a cycle is entered -/

namespace AdjacencyMap
variable {graph : AdjacencyMap} {goal : String} {ids : List String}

/-- A path along edges that comes to no id twice. -/
structure SimplePath (graph : AdjacencyMap) (goal : String) (ids : List String) : Prop where
  chain : ids.IsChain graph.Edge
  nodup : ids.Nodup
  last : ids.getLast? = some goal

/-- The walk enters a cycle along the first simple path to an id; an edge from there leads back onto
the path. -/
def Entered (graph : AdjacencyMap) (cycle : List String) : Prop :=
  ∃ path u v, graph.SimplePath u path ∧ (∀ other, graph.SimplePath u other → path ≤ other) ∧
    graph.Edge u v ∧ v ∈ path ∧ cycle = path.drop (path.idxOf v)

/-- Every id on a path to an id with an edge has an edge. -/
theorem leaves_of_isChain (chain : ids.IsChain graph.Edge) (last : ids.getLast? = some goal)
    (goes : ∃ b, graph.Edge goal b) : ∀ a ∈ ids, ∃ b, graph.Edge a b := by
  induction ids with
  | nil => cases last
  | cons a rest ih =>
    cases rest with
    | nil =>
      obtain rfl : a = goal := Option.some.inj last
      exact List.forall_mem_singleton.mpr goes
    | cons b rest =>
      obtain ⟨edge, chain⟩ := List.isChain_cons_cons.mp chain
      rw [List.getLast?_cons_cons] at last
      exact List.forall_mem_cons.mpr ⟨⟨b, edge⟩, ih chain last⟩

theorem SimplePath.simple (path : graph.SimplePath goal ids) (goes : ∃ b, graph.Edge goal b) :
    DepthFirst.Simple graph.adjacency graph.roots ids where
  root := by
    have leaves := leaves_of_isChain path.chain path.last goes
    cases ids with
    | nil => exact absurd path.last (by simp)
    | cons a rest =>
      obtain ⟨b, edge⟩ := leaves a List.mem_cons_self
      obtain ⟨row, held, key, -⟩ := edge_iff.mp edge
      exact ⟨a, mem_roots.mpr ⟨row, held, key⟩, rfl⟩
  chain := path.chain.imp fun _ _ edge => mem_adjacency.mpr edge
  nodup := path.nodup

private theorem simplePath_of_simple (simple : DepthFirst.Simple graph.adjacency graph.roots ids)
    (last : ids.getLast? = some goal) : graph.SimplePath goal ids where
  chain := simple.chain.imp fun _ _ edge => mem_adjacency.mp edge
  nodup := simple.nodup
  last := last

private theorem entered_iff {cycle : List String} :
    (∃ path, DepthFirst.First (· < ·) graph.adjacency graph.roots path ∧
      DepthFirst.Closes graph.adjacency path cycle) ↔ graph.Entered cycle := by
  constructor
  · rintro ⟨path, ⟨simple, first⟩, u, v, last, edge, back, shape⟩
    have edge := mem_adjacency.mp edge
    refine ⟨path, u, v, simplePath_of_simple simple last, ?_, edge, back, shape⟩
    intro other otherPath
    exact not_lt.mp (first other (otherPath.simple ⟨v, edge⟩) (otherPath.last.trans last.symm))
  · rintro ⟨path, u, v, simplePath, first, edge, back, shape⟩
    refine ⟨path, ⟨simplePath.simple ⟨v, edge⟩, ?_⟩, u, v, simplePath.last, mem_adjacency.mpr edge,
      back, shape⟩
    intro other simple last
    exact not_lt.mpr (first other (simplePath_of_simple simple (last.trans simplePath.last)))

private theorem Entered.nodup {cycle : List String} (entered : graph.Entered cycle) :
    cycle.Nodup := by
  obtain ⟨path, u, v, simplePath, -, -, -, rfl⟩ := entered
  exact simplePath.nodup.sublist (List.drop_sublist _ _)

private theorem lt_adjacency (graph : AdjacencyMap) (node : String) :
    (graph.adjacency node).Pairwise (· < ·) :=
  (sorted_adjacency node).imp₂ (fun _ _ => lt_of_le_of_ne) (nodup_adjacency node)

private theorem lt_roots (graph : AdjacencyMap) : graph.roots.Pairwise (· < ·) := by
  have sorted : graph.roots.Pairwise (· ≤ ·) := List.pairwise_insertionSort ..
  exact sorted.imp₂ (fun _ _ => lt_of_le_of_ne) nodup_roots

/-- The cycles that the walk enters, each found once, in whatever form they are written down. -/
theorem enumerate_entered (graph : AdjacencyMap) : ∃ segs : List (List String), segs.Nodup ∧
    (∀ cycle, cycle ∈ segs ↔ graph.Entered cycle) ∧
    ∀ record : List String → List String,
      (DepthFirst.enumerate graph.adjacency record graph.roots : Tx _).Returns (segs.map record) := by
  have pooled : ∀ a, ∀ b ∈ graph.adjacency a, b ∈ graph.roots ++ graph.targets := fun a b edge =>
    List.mem_append_right _ (mem_targets (mem_adjacency.mp edge))
  obtain ⟨segs, mem, once, returns⟩ :=
    DepthFirst.enumerate_first (fun _ _ => lt_asymm) pooled graph.lt_adjacency
    graph.lt_roots fun a root => List.mem_append_left graph.targets root
  refine ⟨segs, once.of_map _, ?_, fun record => returns record⟩
  intro cycle
  rw [mem, entered_iff]

end AdjacencyMap

/-! ## The lowest id first -/

/-- The first of the ids is the lowest. -/
def StartsLowest (ids : List String) : Prop := ∀ lowest ∈ ids.head?, ∀ id ∈ ids, lowest ≤ id

private theorem startsLowest_rotateToLowest (ids : List String) :
    StartsLowest (rotateToLowest ids) := by
  intro lowest head id held
  exact head_rotateToLowest head id ((rotateToLowest_isRotated ids).mem_iff.mp held)

private theorem StartsLowest.rotateToLowest_eq {ids : List String} (starts : StartsLowest ids)
    (nodup : ids.Nodup) :
    rotateToLowest ids = ids := by
  cases ids with
  | nil => rfl
  | cons first rest =>
    have bounds := lowest_of_foldl (first :: rest) (first :: rest).length
    have early : lowestIndex (first :: rest) ≤ (first :: rest).length - 1 := bounds.1
    have within : lowestIndex (first :: rest) < (first :: rest).length := by
      rw [List.length_cons] at early ⊢
      omega
    have least : (first :: rest).getD (lowestIndex (first :: rest)) "" ≤ first :=
      bounds.2 0 (by simp)
    rw [List.getD_eq_getElem _ _ within] at least
    have same : (first :: rest)[lowestIndex (first :: rest)] = (first :: rest)[0] :=
      le_antisymm least (starts first rfl _ (List.getElem_mem within))
    have zero : lowestIndex (first :: rest) = 0 := nodup.getElem_inj_iff.mp same
    rw [rotateToLowest, zero, List.drop_zero, List.take_zero, List.append_nil]

/-! ## The two lists -/

namespace Ready
variable {issues : List Issue}

private theorem compareCycles_weakOrder (cycles : List (List String)) :
    WeakOrder compareCycles cycles :=
  (threeWay_weakOrder (cycles.map cycleKey)).comap

theorem sorted_cycles (sorter : Sorter (List String)) (cycles : List (List String)) :
    (sorter.sort compareCycles cycles).Pairwise fun c d => cycleKey c ≤ cycleKey d :=
  (sorter.sorted compareCycles cycles (compareCycles_weakOrder cycles)).imp threeWay_nonpos.mp

/-- When every way of sorting the cycles as they are gives the canonical list. -/
theorem sort_eq_canonical_iff {segs : List (List String)} (simple : ∀ c ∈ segs, c.Nodup) :
    (∀ sorter : Sorter (List String),
      sorter.sort compareCycles segs = (segs.map rotateToLowest).insertionSort (· ≤ ·)) ↔
      (∀ c ∈ segs, StartsLowest c) ∧ ∀ c ∈ segs, ∀ d ∈ segs, c < d → cycleKey c < cycleKey d := by
  have perm := List.perm_insertionSort (· ≤ ·) (segs.map rotateToLowest)
  constructor
  · intro same
    constructor
    · intro c held
      have listed : c ∈ segs.map rotateToLowest := by
        rw [← perm.mem_iff, ← same .stable]
        exact (Sorter.stable.perm compareCycles segs).mem_iff.mpr held
      obtain ⟨d, -, rfl⟩ := List.mem_map.mp listed
      exact startsLowest_rotateToLowest d
    · intro c left d right less
      by_contra order
      -- A sort that puts `d` before `c`, where the keys allow it.
      have sub : [d, c].Sublist ((Sorter.favouring d).sort compareCycles segs) :=
        Sorter.favouring_sublist less.ne' right left (threeWay_nonpos.mpr (not_lt.mp order))
      rw [same] at sub
      have sorted := (List.pairwise_insertionSort (· ≤ ·) (segs.map rotateToLowest)).sublist sub
      exact less.not_ge (List.pairwise_pair.mp sorted)
  · rintro ⟨lowest, order⟩ sorter
    have same : segs.map rotateToLowest = segs := by
      rw [List.map_congr_left fun c held => (lowest c held).rotateToLowest_eq (simple c held),
        List.map_id']
    rw [same] at perm ⊢
    have sorted : (sorter.sort compareCycles segs).Pairwise (· ≤ ·) := by
      apply (sorted_cycles sorter segs).imp_of_mem
      intro c d left right le
      by_contra greater
      have mem := fun c => (sorter.perm compareCycles segs).mem_iff (a := c)
      exact (order d ((mem d).mp right) c ((mem c).mp left) (not_le.mp greater)).not_ge le
    have both := (sorter.perm compareCycles segs).trans perm.symm
    exact both.eq_of_pairwise' sorted (List.pairwise_insertionSort (· ≤ ·) segs)

/-- The cycles that the walk enters, as each of the two lists them. -/
theorem cycles_spec (issues : List Issue) : ∃ segs : List (List String), segs.Nodup ∧
    (∀ cycle, cycle ∈ segs ↔ (blockingGraph issues).Entered cycle) ∧
    (canonicalCyclePaths (blockingGraph issues)).Returns ((segs.map rotateToLowest).insertionSort (· ≤ ·)) ∧
    ∀ sorters, (detectCycles sorters issues).Returns (sorters.cycles.sort compareCycles segs) := by
  obtain ⟨segs, nodup, mem, returns⟩ := (blockingGraph issues).enumerate_entered
  refine ⟨segs, nodup, mem, Call.returns_bind.mpr ⟨_, returns rotateToLowest, Call.ends_ofExcept⟩,
    ?_⟩
  intro sorters
  have walked := returns fun cycle => cycle
  rw [List.map_id', ← sort_neighbors sorters issues, ← sort_nodes sorters issues] at walked
  exact Call.returns_bind.mpr ⟨segs, walked, Call.ends_ofExcept⟩

/-- What a ready explanation returns, with its cycles named. -/
theorem build_returns {sorters : Sorters} {readyIssues candidates : List Issue}
    {cycles : List (List String)}
    (detected : (detectCycles sorters candidates).Returns cycles) :
    (build sorters readyIssues candidates).Returns
      ⟨readyIssues.map explainReady, explainBlocked candidates, cycles⟩ :=
  Call.returns_bind.mpr ⟨cycles, detected, Call.ends_ofExcept⟩

/-- The explanation lists what the canonical enumeration lists, however ties are sorted, exactly
when every cycle is entered at its lowest id and the keys are in the order of the cycles. -/
theorem build_eq_canonical_iff (readyIssues candidates : List Issue) :
    (∀ sorters, ∃ explanation, (build sorters readyIssues candidates).Returns explanation ∧
        (canonicalCyclePaths (blockingGraph candidates)).Returns explanation.cycles) ↔
      (∀ cycle, (blockingGraph candidates).Entered cycle → StartsLowest cycle) ∧
        ∀ c d, (blockingGraph candidates).Entered c → (blockingGraph candidates).Entered d →
          c < d → cycleKey c < cycleKey d := by
  obtain ⟨segs, -, mem, canonical, detected⟩ := cycles_spec candidates
  have simple : ∀ c ∈ segs, c.Nodup := fun c held => ((mem c).mp held).nodup
  have lists : (∀ sorters, ∃ explanation, (build sorters readyIssues candidates).Returns explanation ∧
      (canonicalCyclePaths (blockingGraph candidates)).Returns explanation.cycles) ↔
      ∀ sorter : Sorter (List String),
        sorter.sort compareCycles segs = (segs.map rotateToLowest).insertionSort (· ≤ ·) := by
    constructor
    · intro all sorter
      obtain ⟨explanation, returns, same⟩ := all ⟨.stable, sorter⟩
      rw [Except.ok.inj (returns.unique (build_returns (detected ⟨.stable, sorter⟩)))] at same
      exact Except.ok.inj (same.unique canonical)
    · intro all sorters
      refine ⟨_, build_returns (detected sorters), ?_⟩
      rw [all sorters.cycles]
      exact canonical
  rw [lists, sort_eq_canonical_iff simple]
  simp only [mem]
  apply and_congr_right'
  exact ⟨fun order c d left right => order c left d right,
    fun order c left d right => order c d left right⟩

/-- A ready explanation lists the cycles of the canonical enumeration, one for one, but writes each
from the id at which the walk enters it: turned to their lowest ids and sorted, they are the
canonical list. -/
theorem build_cycles_canonical (readyIssues candidates : List Issue) :
    ∃ canonical, (canonicalCyclePaths (blockingGraph candidates)).Returns canonical ∧
      (∀ sorters, ∃ explanation, (build sorters readyIssues candidates).Returns explanation ∧
        (explanation.cycles.map rotateToLowest).insertionSort (· ≤ ·) = canonical ∧
        explanation.cycles.Nodup ∧
        (∀ cycle, cycle ∈ explanation.cycles ↔ (blockingGraph candidates).Entered cycle) ∧
        explanation.cycles.Pairwise fun c d => cycleKey c ≤ cycleKey d) ∧
      ((∀ sorters, ∃ explanation, (build sorters readyIssues candidates).Returns explanation ∧
          (canonicalCyclePaths (blockingGraph candidates)).Returns explanation.cycles) ↔
        (∀ cycle, (blockingGraph candidates).Entered cycle → StartsLowest cycle) ∧
          ∀ c d, (blockingGraph candidates).Entered c → (blockingGraph candidates).Entered d →
            c < d → cycleKey c < cycleKey d) := by
  obtain ⟨segs, nodup, mem, canonical, detected⟩ := cycles_spec candidates
  refine ⟨_, canonical, ?_, build_eq_canonical_iff readyIssues candidates⟩
  intro sorters
  have perm := sorters.cycles.perm compareCycles segs
  refine ⟨_, build_returns (detected sorters), ?_, perm.nodup_iff.mpr nodup, ?_, sorted_cycles _ _⟩
  · have mapped := perm.map rotateToLowest
    have both :=
      (List.perm_insertionSort (· ≤ ·) _).trans (mapped.trans (List.perm_insertionSort (· ≤ ·) _).symm)
    exact both.eq_of_pairwise' (List.pairwise_insertionSort _ _) (List.pairwise_insertionSort _ _)
  · intro cycle
    rw [perm.mem_iff, mem]

/-- Three issues: `a` depends on `c`, and `c` and `b` depend on each other. -/
def enteredLate : List Issue :=
  let issue (id target : String) : Issue :=
    ⟨id, "", .open, 0, "task", [], [⟨id, target, .blocks⟩], 0, 0, []⟩
  [issue "a" "c", issue "c" "b", issue "b" "c"]

/-- The walk enters the cycle at `c`, and `b` is lower. -/
theorem build_cycles_enteredLate :
    ¬ ∀ sorters readyIssues candidates, ∃ explanation,
      (build sorters readyIssues candidates).Returns explanation ∧
      (canonicalCyclePaths (blockingGraph candidates)).Returns explanation.cycles := by
  intro all
  obtain ⟨explanation, returns, canonical⟩ := all ⟨.stable, .stable⟩ [] enteredLate
  have detected : (detectCycles ⟨.stable, .stable⟩ enteredLate).Returns [["c", "b"]] := ⟨4, by rfl⟩
  have rotated : (canonicalCyclePaths (blockingGraph enteredLate)).Returns [["b", "c"]] :=
    ⟨4, by rfl⟩
  have same := Except.ok.inj (returns.unique (build_returns detected))
  rw [same] at canonical
  have lists := Except.ok.inj (canonical.unique rotated)
  simp at lists

end Ready

end Beads
