import Mathlib.Data.List.Cycle
import Mathlib.Data.List.GetD
import Beads.CycleProofs

/-! The cycle report. The enumeration records a cycle per back edge of one depth-first
walk; every recorded cycle is written in the order in which the walk found its ids, so
two of them are rotations of each other only if they are the same. Roots and neighbors
are sorted, which leaves nothing of the order of the map and of its lists. -/
namespace Beads
open Lib Relation

/-! ## The walk does not depend on the order of the graph -/

namespace AdjacencyMap
variable {graph graph' : AdjacencyMap} {a b : String}

/-- The same keys and the same edges, in any order and any number. -/
structure Alike (graph graph' : AdjacencyMap) : Prop where
  keys : ∀ id, (∃ row ∈ graph, row.1 = id) ↔ ∃ row ∈ graph', row.1 = id
  edges : ∀ a b, graph.Edge a b ↔ graph'.Edge a b

theorem adjacency_eq (node : String) :
    graph.adjacency node = ((graph.neighbors node).insertionSort (· ≤ ·)).dedup :=
  (List.pairwise_insertionSort (· ≤ ·) _).destutter_eq_dedup

theorem mem_adjacency : b ∈ graph.adjacency a ↔ graph.Edge a b := by
  rw [adjacency_eq, List.mem_dedup, List.mem_insertionSort]
  exact Iff.rfl

theorem nodup_adjacency (node : String) : (graph.adjacency node).Nodup := by
  rw [adjacency_eq]
  exact List.nodup_dedup _

theorem sorted_adjacency (node : String) : (graph.adjacency node).Pairwise (· ≤ ·) := by
  rw [adjacency_eq]
  exact (List.pairwise_insertionSort (· ≤ ·) _).sublist (List.dedup_sublist _)

theorem mem_roots : a ∈ graph.roots ↔ ∃ row ∈ graph, row.1 = a := by
  rw [roots, List.mem_insertionSort]
  exact List.mem_map

theorem nodup_roots : graph.roots.Nodup := (List.perm_insertionSort ..).nodup_iff.mpr graph.distinct

/-- Sorted lists without duplicates are equal when they have the same elements. -/
theorem eq_of_sorted {l l' : List String} (nodup : l.Nodup) (nodup' : l'.Nodup)
    (sorted : l.Pairwise (· ≤ ·))
    (sorted' : l'.Pairwise (· ≤ ·)) (same : ∀ id, id ∈ l ↔ id ∈ l') : l = l' :=
  ((List.perm_ext_iff_of_nodup nodup nodup').mpr same).eq_of_pairwise' sorted sorted'

theorem Alike.adjacency (alike : graph.Alike graph') : graph.adjacency = graph'.adjacency := by
  funext node
  refine eq_of_sorted (nodup_adjacency _) (nodup_adjacency _) (sorted_adjacency _)
    (sorted_adjacency _) ?_
  intro id
  rw [mem_adjacency, mem_adjacency]
  exact alike.edges node id

theorem Alike.roots (alike : graph.Alike graph') : graph.roots = graph'.roots := by
  refine eq_of_sorted nodup_roots nodup_roots (List.pairwise_insertionSort ..)
    (List.pairwise_insertionSort ..) ?_
  intro id
  rw [mem_roots, mem_roots]
  exact alike.keys id

end AdjacencyMap

/-! ## The lowest id first -/

/-- After some rounds of the loop of `rotateToLowest` the index is one of a lowest id so far. -/
theorem lowest_of_foldl (path : List String) (rounds : Nat) :
    let lowest := (List.range rounds).foldl
      (fun lowest i => if path.getD i "" < path.getD lowest "" then i else lowest) 0
    lowest ≤ rounds - 1 ∧ ∀ i < rounds, path.getD lowest "" ≤ path.getD i "" := by
  induction rounds with
  | zero => exact ⟨Nat.le_refl _, fun i none => absurd none (Nat.not_lt_zero _)⟩
  | succ rounds ih =>
    obtain ⟨early, least⟩ := ih
    simp only [List.range_succ, List.foldl_append, List.foldl_cons, List.foldl_nil]
    split
    · next lower =>
      refine ⟨by omega, fun i within => ?_⟩
      rcases Nat.lt_succ_iff_lt_or_eq.mp within with before | rfl
      · exact lower.le.trans (least i before)
      · exact le_refl _
    · next higher =>
      refine ⟨by omega, fun i within => ?_⟩
      rcases Nat.lt_succ_iff_lt_or_eq.mp within with before | rfl
      · exact least i before
      · exact not_lt.mp higher

private theorem rotateToLowest_eq_rotate (path : List String) :
    rotateToLowest path = path.rotate (lowestIndex path) := by
  obtain ⟨early, -⟩ := lowest_of_foldl path path.length
  refine (List.rotate_eq_drop_append_take ?_).symm
  exact early.trans (Nat.sub_le _ _)

theorem head_rotateToLowest {path : List String} {id : String}
    (head : (rotateToLowest path).head? = some id) :
    ∀ other ∈ path, id ≤ other := by
  intro other listed
  obtain ⟨early, least⟩ := lowest_of_foldl path path.length
  have positive : 0 < path.length := List.length_pos_of_mem listed
  have within : lowestIndex path < path.length := by
    have early : lowestIndex path ≤ path.length - 1 := early
    omega
  have first : path.getD (lowestIndex path) "" = id := by
    rw [rotateToLowest, List.head?_append, List.head?_drop, List.getElem?_eq_getElem within] at head
    rw [List.getD_eq_getElem _ _ within]
    exact Option.some.inj head
  obtain ⟨i, bound, rfl⟩ := List.getElem_of_mem listed
  rw [← first, ← List.getD_eq_getElem _ "" bound]
  exact least i bound

/-! ## The reported cycles -/

/-- The ids of a cycle of the graph, from one of them along edges back to it. -/
structure AdjacencyMap.SimpleCycle (graph : AdjacencyMap) (ids : List String) : Prop where
  nonempty : ids ≠ []
  nodup : ids.Nodup
  closed : Cycle.Chain graph.Edge (ids : Cycle String)

variable {graph : AdjacencyMap} {ids seg : List String}

theorem rotateToLowest_isRotated (path : List String) : rotateToLowest path ~r path := by
  rw [rotateToLowest_eq_rotate]
  exact List.IsRotated.symm ⟨_, rfl⟩

private theorem simpleCycle_of_closed (closed : DepthFirst.Closed graph.adjacency seg)
    (nodup : seg.Nodup) :
    graph.SimpleCycle seg := by
  obtain ⟨chain, u, v, last, head, edge⟩ := closed
  have edges : ∀ a b, DepthFirst.Step graph.adjacency a b → graph.Edge a b :=
    fun a b step => AdjacencyMap.mem_adjacency.mp step
  have nonempty : seg ≠ [] := by
    rintro rfl
    cases head
  refine ⟨nonempty, nodup, (Cycle.chain_ne_nil _ nonempty).mpr ?_⟩
  rw [List.getLast?_eq_getLast_of_ne_nil nonempty] at last
  refine List.isChain_cons.mpr ⟨fun first here => ?_, chain.imp edges⟩
  rw [Option.mem_def, head] at here
  cases here
  rw [Option.some.inj last]
  exact edges u v edge

private theorem AdjacencyMap.SimpleCycle.rotate (cycle : graph.SimpleCycle seg)
    (rotated : ids ~r seg) :
    graph.SimpleCycle ids where
  nonempty empty := cycle.nonempty (List.isRotated_nil_iff'.mp (empty ▸ rotated)).symm
  nodup := rotated.nodup_iff.mpr cycle.nodup
  closed := by
    rw [Cycle.coe_eq_coe.mpr rotated]
    exact cycle.closed

/-- A chain of edges from an id to another. -/
theorem transGen_of_isChain {r : String → String → Prop} {a b : String} {rest : List String}
    (chain : (a :: (rest ++ [b])).IsChain r) : TransGen r a b := by
  induction rest generalizing a with
  | nil => exact .single (List.isChain_pair.mp chain)
  | cons next rest ih =>
    obtain ⟨edge, tail⟩ := List.isChain_cons_cons.mp chain
    exact (ih tail).head edge

private theorem AdjacencyMap.SimpleCycle.transGen (cycle : graph.SimpleCycle ids) :
    ∃ id, TransGen graph.Edge id id := by
  cases ids with
  | nil => exact absurd rfl cycle.nonempty
  | cons id rest => exact ⟨id, transGen_of_isChain ((Cycle.chain_coe_cons _ _ _).mp cycle.closed)⟩

/-- Lists taken in order from a list without duplicates are equal when they have the
same elements. -/
theorem eq_of_perm_of_sublist {l a b : List String} (nodup : l.Nodup) (left : a.Sublist l)
    (right : b.Sublist l) (perm : a.Perm b) : a = b := by
  induction l generalizing a b with
  | nil => rw [List.sublist_nil.mp left, List.sublist_nil.mp right]
  | cons first rest ih =>
    obtain ⟨fresh, nodup⟩ := List.nodup_cons.mp nodup
    cases left with
    | cons _ left =>
      cases right with
      | cons _ right => exact ih nodup left right perm
      | cons_cons _ right => exact absurd (left.subset (perm.mem_iff.mpr List.mem_cons_self)) fresh
    | cons_cons _ left =>
      cases right with
      | cons _ right => exact absurd (right.subset (perm.mem_iff.mp List.mem_cons_self)) fresh
      | cons_cons _ right => rw [ih nodup left right ((List.perm_cons _).mp perm)]

/-- The cycles of the walk, before they are rotated. -/
theorem enumerate_graph (graph : AdjacencyMap) :
    ∃ visited segs, (DepthFirst.enumerate graph.adjacency rotateToLowest graph.roots : Tx _).Returns
        (segs.map rotateToLowest) ∧
      visited.Nodup ∧ (∀ seg ∈ segs, seg.Sublist visited ∧ graph.SimpleCycle seg) ∧ segs.Nodup ∧
      (segs = [] → ∀ id, ¬ TransGen graph.Edge id id) := by
  have pooled : ∀ a, ∀ b ∈ graph.adjacency a, b ∈ graph.roots ++ graph.targets := fun a b edge =>
    List.mem_append_right _ (AdjacencyMap.mem_targets (AdjacencyMap.mem_adjacency.mp edge))
  obtain ⟨visited, segs, returns, nodup, found, distinct, none⟩ :=
    DepthFirst.enumerate_spec pooled AdjacencyMap.nodup_adjacency rotateToLowest fun a root =>
      List.mem_append_left graph.targets root
  refine ⟨visited, segs, returns, nodup, fun seg listed => ?_, distinct.of_map _,
    fun empty id cycle => ?_⟩
  · obtain ⟨sub, closed⟩ := found seg listed
    exact ⟨sub, simpleCycle_of_closed closed (sub.nodup nodup)⟩
  · obtain ⟨next, edge, -⟩ := TransGen.head'_iff.mp cycle
    obtain ⟨row, held, key, -⟩ := AdjacencyMap.edge_iff.mp edge
    have walk : TransGen (DepthFirst.Step graph.adjacency) id id :=
      cycle.lift (fun a => a) fun a b edge => AdjacencyMap.mem_adjacency.mpr edge
    exact none empty id (AdjacencyMap.mem_roots.mpr ⟨row, held, key⟩) walk

/-- Rotated, the cycles of the walk are still different from each other. -/
theorem nodup_map_rotateToLowest {visited : List String} {segs : List (List String)}
    (nodup : visited.Nodup)
    (inside : ∀ seg ∈ segs, seg.Sublist visited) (distinct : segs.Nodup) :
    (segs.map rotateToLowest).Nodup := by
  refine distinct.map_on fun a here b there same => ?_
  refine eq_of_perm_of_sublist nodup (inside a here) (inside b there) ?_
  have rotated : a ~r b := by
    refine (rotateToLowest_isRotated a).symm.trans ?_
    rw [same]
    exact rotateToLowest_isRotated b
  exact rotated.perm

/-- The enumeration ends, with a list that is empty exactly when the graph has no cycle.
Its entries are simple cycles of the graph with the lowest id first, no entry occurs
twice, and a graph with the same keys and edges has the same list. -/
theorem canonicalCyclePaths_spec (graph : AdjacencyMap) :
    ∃ cycles, (canonicalCyclePaths graph).Returns cycles ∧
      (cycles = [] ↔ ∀ id, ¬ TransGen graph.Edge id id) ∧
      (∀ ids ∈ cycles, graph.SimpleCycle ids ∧ ∀ lowest ∈ ids.head?, ∀ id ∈ ids, lowest ≤ id) ∧
      cycles.Nodup ∧
      ∀ graph', graph.Alike graph' → (canonicalCyclePaths graph').Returns cycles := by
  obtain ⟨visited, segs, returns, nodup, found, distinct, none⟩ := enumerate_graph graph
  have perm := List.perm_insertionSort (· ≤ ·) (segs.map rotateToLowest)
  have sorted : (canonicalCyclePaths graph).Returns
      ((segs.map rotateToLowest).insertionSort (· ≤ ·)) :=
    Call.returns_bind.mpr ⟨_, returns, Call.ends_ofExcept⟩
  have cycles : ∀ ids ∈ (segs.map rotateToLowest).insertionSort (· ≤ ·), graph.SimpleCycle ids ∧
      ∀ lowest ∈ ids.head?, ∀ id ∈ ids, lowest ≤ id := by
    intro ids listed
    obtain ⟨seg, here, rfl⟩ := List.mem_map.mp (perm.mem_iff.mp listed)
    have rotated := rotateToLowest_isRotated seg
    refine ⟨(found seg here).2.rotate rotated, fun lowest head id held => ?_⟩
    exact head_rotateToLowest head id (rotated.mem_iff.mp held)
  refine ⟨_, sorted, ⟨fun empty => none ?_, fun acyclic => ?_⟩, cycles, ?_, ?_⟩
  · rw [empty] at perm
    exact List.map_eq_nil_iff.mp (List.nil_perm.mp perm)
  · refine List.eq_nil_iff_forall_not_mem.mpr fun ids listed => ?_
    obtain ⟨id, cycle⟩ := (cycles ids listed).1.transGen
    exact acyclic id cycle
  · refine perm.nodup_iff.mpr (nodup_map_rotateToLowest nodup (fun seg here => (found seg here).1) distinct)
  · intro graph' alike
    have same : canonicalCyclePaths graph' = canonicalCyclePaths graph := by
      rw [canonicalCyclePaths, canonicalCyclePaths, alike.adjacency, alike.roots]
    rw [same]
    exact sorted

end Beads
