import Beads.Cycles
import Beads.DependencyEditor

/-! The edge-cycle finder. An edge lies on a cycle exactly when its target reaches its
source, which the breadth-first search decides; the path it returns passes no id
twice and is closed by the edge. -/
namespace Beads
open Lib Relation

namespace AdjacencyMap
variable {graph : AdjacencyMap} {a b : String}

theorem edge_iff : graph.Edge a b ↔ ∃ row ∈ graph, row.1 = a ∧ b ∈ row.2 := by
  unfold Edge neighbors
  cases found : graph.find? a with
  | none =>
    simp only [Option.map_none, Option.getD_none, List.not_mem_nil, false_iff]
    rintro ⟨row, held, same, -⟩
    exact Table.find?_eq_none.mp found row held same
  | some row =>
    obtain ⟨held, same⟩ := Table.find?_eq_some.mp found
    constructor
    · exact fun listed => ⟨row, held, same, listed⟩
    · rintro ⟨other, there, equal, listed⟩
      rw [Table.eq_of_key there held (equal.trans same.symm)] at listed
      exact listed

/-- All neighbors of all nodes. -/
def targets (graph : AdjacencyMap) : List String := graph.rows.flatMap Prod.snd

theorem mem_targets (edge : graph.Edge a b) : b ∈ graph.targets := by
  obtain ⟨row, held, -, listed⟩ := edge_iff.mp edge
  exact List.mem_flatMap.mpr ⟨row, held, listed⟩

theorem Named.edge (named : graph.Named) (edge : graph.Edge a b) : a ≠ "" ∧ b ≠ "" := by
  obtain ⟨row, held, rfl, listed⟩ := edge_iff.mp edge
  obtain ⟨key, others⟩ := named row held
  exact ⟨key, fun empty => others (empty ▸ listed)⟩

variable {edges : List (String × String)}

private theorem edge_ofEdges : (ofEdges edges).Edge a b ↔ (a, b) ∈ edges := by
  rw [edge_iff]
  constructor
  · rintro ⟨row, held, rfl, listed⟩
    obtain ⟨id, -, rfl⟩ := List.mem_map.mp held
    obtain ⟨e, kept, rfl⟩ := List.mem_map.mp listed
    obtain ⟨here, same⟩ := List.mem_filter.mp kept
    rwa [← of_decide_eq_true same]
  · intro here
    refine ⟨_, List.mem_map.mpr ⟨a, List.mem_dedup.mpr (List.mem_map_of_mem here), rfl⟩, rfl, ?_⟩
    exact List.mem_map.mpr ⟨(a, b), List.mem_filter.mpr ⟨here, decide_eq_true rfl⟩, rfl⟩

private theorem named_ofEdges (named : ∀ e ∈ edges, e.1 ≠ "" ∧ e.2 ≠ "") :
    (ofEdges edges).Named := by
  intro row held
  obtain ⟨id, listed, rfl⟩ := List.mem_map.mp held
  obtain ⟨e, here, rfl⟩ := List.mem_map.mp (List.mem_dedup.mp listed)
  refine ⟨(named e here).1, fun empty => ?_⟩
  obtain ⟨other, kept, same⟩ := List.mem_map.mp empty
  exact (named other (List.mem_filter.mp kept).1).2 same

end AdjacencyMap

/-- The edge begins a walk that ends where it began. -/
def OnCycle (r : String → String → Prop) (u v : String) : Prop :=
  ∃ rest, (u :: v :: rest).IsChain r ∧ (v :: rest).getLast? = some u

private theorem onCycle_iff {r : String → String → Prop} {u v : String} :
    OnCycle r u v ↔ r u v ∧ ReflTransGen r v u := by
  constructor
  · rintro ⟨rest, chain, last⟩
    obtain ⟨edge, tail⟩ := List.isChain_cons_cons.mp chain
    refine ⟨edge, List.relationReflTransGen_of_exists_isChain_cons rest tail ?_⟩
    rw [List.getLast?_eq_getLast_of_ne_nil (by simp)] at last
    exact Option.some.inj last
  · rintro ⟨edge, path⟩
    obtain ⟨rest, chain, last⟩ := List.exists_isChain_cons_of_relationReflTransGen path
    refine ⟨rest, List.isChain_cons_cons.mpr ⟨edge, chain⟩, ?_⟩
    rw [List.getLast?_eq_getLast_of_ne_nil (by simp), last]

variable {graph : AdjacencyMap}

theorem reachPath_spec (named : graph.Named) (goal : String) {start : String}
    (nonempty : start ≠ "") :
    ∃ found, (reachPath graph start goal).Returns found ∧
      ((found = none ∧ ¬ ReflTransGen graph.Edge start goal) ∨
        ∃ path, found = some path ∧ Breadth.SimplePath graph.Edge start goal path) :=
  Breadth.reachPath_spec (fun _ _ edge => AdjacencyMap.mem_targets edge) nonempty
    fun _ _ edge => (named.edge edge).2

/-- The ids of a cycle that starts with the edge: no id but the first occurs twice. -/
structure CycleFrom (r : String → String → Prop) (u v : String) (ids : List String) : Prop where
  chain : ids.IsChain r
  begins : ∃ rest, ids = u :: v :: rest
  closes : ids.getLast? = some u
  nodup : ids.tail.Nodup

/-- What the loop over the edges finds. -/
theorem findCycleThroughEdges_spec (named : graph.Named) (edges : List (String × String))
    (contained : ∀ e ∈ edges, graph.Edge e.1 e.2) :
    ∃ found, (findCycleThroughEdges graph edges).Returns found ∧
      ((found = none ∧ ∀ e ∈ edges, ¬ OnCycle graph.Edge e.1 e.2) ∨
        ∃ ids, found = some ids ∧ ∃ e ∈ edges, CycleFrom graph.Edge e.1 e.2 ids) := by
  induction edges with
  | nil =>
    exact ⟨none, Call.ends_ofExcept, Or.inl ⟨rfl, fun e none => absurd none List.not_mem_nil⟩⟩
  | cons first rest ih =>
    obtain ⟨source, target⟩ := first
    obtain ⟨edge, others⟩ := List.forall_mem_cons.mp contained
    obtain ⟨sourceNamed, targetNamed⟩ := named.edge edge
    rw [findCycleThroughEdges, if_neg (not_or.mpr ⟨sourceNamed, targetNamed⟩)]
    by_cases loop : source = target
    · subst loop
      rw [if_pos rfl]
      refine ⟨_, Call.ends_ofExcept, Or.inr ⟨_, rfl, _, List.mem_cons_self, ?_⟩⟩
      exact ⟨List.isChain_cons_cons.mpr ⟨edge, .singleton _⟩, ⟨[], rfl⟩, rfl,
        List.nodup_singleton _⟩
    · rw [if_neg loop]
      obtain ⟨found, searched, result⟩ := reachPath_spec named source targetNamed
      rcases result with ⟨rfl, apart⟩ | ⟨path, rfl, simple⟩
      · -- The edge is on no cycle; the search goes on with the next one.
        obtain ⟨later, ends, result⟩ := ih others
        refine ⟨later, Call.returns_bind.mpr ⟨none, searched, ends⟩, ?_⟩
        rcases result with ⟨rfl, none⟩ | ⟨ids, rfl, e, listed, cycle⟩
        · refine Or.inl ⟨rfl, List.forall_mem_cons.mpr ⟨fun cycle => apart (onCycle_iff.mp cycle).2, none⟩⟩
        · exact Or.inr ⟨ids, rfl, e, List.mem_cons_of_mem _ listed, cycle⟩
      · refine ⟨some (source :: path), Call.returns_bind.mpr ⟨_, searched, Call.ends_ofExcept⟩, ?_⟩
        refine Or.inr ⟨_, rfl, _, List.mem_cons_self, ?_⟩
        obtain ⟨next, tail, rfl⟩ : ∃ next tail, path = next :: tail := by
          cases path with
          | nil => cases simple.head
          | cons next tail => exact ⟨next, tail, rfl⟩
        obtain rfl := Option.some.inj simple.head
        refine ⟨List.isChain_cons_cons.mpr ⟨edge, simple.chain⟩, ⟨tail, rfl⟩, ?_, simple.nodup⟩
        rw [List.getLast?_cons_cons]
        exact simple.last

/-! ## The rendered cycle -/

/-- Two ids or more are rendered with a separator. -/
theorem intercalate_ne_empty (a b : String) (rest : List String) :
    " → ".intercalate (a :: b :: rest) ≠ "" := by
  intro empty
  have long := congrArg String.length (String.intercalate_cons_cons.symm.trans empty)
  rw [String.length_append, String.length_append] at long
  have separator : (" → " : String).length = 3 := by decide
  have none : ("" : String).length = 0 := by decide
  omega

private theorem reflTransGen_ofEdges {edges : List (String × String)} {a b : String} :
    ReflTransGen (AdjacencyMap.ofEdges edges).Edge a b ↔ b ∈ Graph.reachable edges a := by
  have same : (AdjacencyMap.ofEdges edges).Edge = Graph.Edge edges := by
    funext a b
    exact propext AdjacencyMap.edge_ofEdges
  rw [Graph.mem_reachable, same]

/-- What the finder makes of a list of pairs: nothing, or two ids and more. -/
def Answers (edges pairs : List (String × String)) (found : Option (List String)) : Prop :=
  (found = none ∧ ¬ CycleThroughEdges edges pairs) ∨
    ∃ a b rest, found = some (a :: b :: rest) ∧ CycleThroughEdges edges pairs

/-- Where the first pair is on no cycle the finder goes on with the next one. -/
private theorem Answers.later {edges rest : List (String × String)} {source target : String}
    {found : Option (List String)}
    (apart : ¬ (source ≠ "" ∧ target ≠ "" ∧
      (source = target ∨ source ∈ Graph.reachable edges target)))
    (answers : Answers edges rest found) : Answers edges ((source, target) :: rest) found := by
  rcases answers with ⟨rfl, none⟩ | ⟨a, b, tail, rfl, pair, listed, here⟩
  · refine .inl ⟨rfl, ?_⟩
    rintro ⟨pair, listed, here⟩
    rcases List.mem_cons.mp listed with rfl | listed
    · exact apart here
    · exact none ⟨pair, listed, here⟩
  · exact .inr ⟨a, b, tail, rfl, pair, List.mem_cons_of_mem _ listed, here⟩

private theorem findCycleThroughEdges_answers {edges : List (String × String)}
    (named : ∀ e ∈ edges, e.1 ≠ "" ∧ e.2 ≠ "") (pairs : List (String × String)) :
    ∃ found, (findCycleThroughEdges (.ofEdges edges) pairs).Returns found ∧
      Answers edges pairs found := by
  induction pairs with
  | nil =>
    exact ⟨none, Call.ends_ofExcept,
      .inl ⟨rfl, fun ⟨_, listed, _⟩ => absurd listed List.not_mem_nil⟩⟩
  | cons first rest ih =>
    obtain ⟨source, target⟩ := first
    obtain ⟨found, ends, answers⟩ := ih
    rw [findCycleThroughEdges]
    by_cases unnamed : source = "" ∨ target = ""
    · rw [if_pos unnamed]
      exact ⟨found, ends, answers.later fun here => unnamed.elim here.1 here.2.1⟩
    · rw [if_neg unnamed]
      obtain ⟨sourceNamed, targetNamed⟩ := not_or.mp unnamed
      by_cases loop : source = target
      · rw [if_pos loop]
        exact ⟨_, Call.ends_ofExcept, .inr ⟨source, source, [], rfl, _, List.mem_cons_self,
          sourceNamed, targetNamed, .inl loop⟩⟩
      · rw [if_neg loop]
        obtain ⟨path?, searched, outcome⟩ :=
          reachPath_spec (AdjacencyMap.named_ofEdges named) source targetNamed
        rcases outcome with ⟨rfl, apart⟩ | ⟨path, rfl, simple⟩
        · refine ⟨found, Call.returns_bind.mpr ⟨none, searched, ends⟩, answers.later fun here => ?_⟩
          exact here.2.2.elim loop fun back => apart (reflTransGen_ofEdges.mpr back)
        · refine ⟨some (source :: path), Call.returns_bind.mpr ⟨_, searched, Call.ends_ofExcept⟩,
            .inr ?_⟩
          cases path with
          | nil => cases simple.head
          | cons next tail =>
            cases simple.head
            have last := simple.last
            rw [List.getLast?_eq_getLast_of_ne_nil (by simp)] at last
            have back := List.relationReflTransGen_of_exists_isChain_cons tail simple.chain
              (Option.some.inj last)
            exact ⟨source, target, tail, rfl, _, List.mem_cons_self, sourceNamed, targetNamed,
              .inr (reflTransGen_ofEdges.mp back)⟩

/-- The search finds a cycle through one of the pairs exactly if there is one, whether or not the
pairs are edges. -/
theorem cycleThroughEdges_iff {edges : List (String × String)}
    (named : ∀ e ∈ edges, e.1 ≠ "" ∧ e.2 ≠ "") (pairs : List (String × String)) :
    ∃ text, (cycleThroughEdgesInGraph (.ofEdges edges) pairs).Returns text ∧
      (text ≠ "" ↔ CycleThroughEdges edges pairs) := by
  obtain ⟨found, ends, answers⟩ := findCycleThroughEdges_answers named pairs
  rcases answers with ⟨rfl, apart⟩ | ⟨a, b, rest, rfl, cycle⟩
  · exact ⟨"", Call.returns_bind.mpr ⟨none, ends, Call.ends_ofExcept⟩,
      iff_of_false (fun other => other rfl) apart⟩
  · exact ⟨_, Call.returns_bind.mpr ⟨_, ends, Call.ends_ofExcept⟩,
      iff_of_true (intercalate_ne_empty a b rest) cycle⟩

/-- The finder ends. It returns the empty text exactly when no given edge lies on a
cycle, and otherwise the ids of a closed walk that starts with a given edge and in
which no id but the first occurs twice. -/
theorem cycleThroughEdgesInGraph_spec (graph : AdjacencyMap) (edges : List (String × String))
    (named : graph.Named) (contained : ∀ e ∈ edges, graph.Edge e.1 e.2) :
    ∃ text, (cycleThroughEdgesInGraph graph edges).Returns text ∧
      (text = "" ↔ ∀ e ∈ edges, ¬ OnCycle graph.Edge e.1 e.2) ∧
      (text ≠ "" → ∃ ids, text = " → ".intercalate ids ∧
        ∃ e ∈ edges, CycleFrom graph.Edge e.1 e.2 ids) := by
  obtain ⟨found, ends, result⟩ := findCycleThroughEdges_spec named edges contained
  rcases result with ⟨rfl, acyclic⟩ | ⟨ids, rfl, e, listed, cycle⟩
  · refine ⟨"", Call.returns_bind.mpr ⟨none, ends, Call.ends_ofExcept⟩,
      ⟨fun _ => acyclic, fun _ => rfl⟩, ?_⟩
    exact fun other => absurd rfl other
  · refine ⟨" → ".intercalate ids, Call.returns_bind.mpr ⟨_, ends, Call.ends_ofExcept⟩, ?_,
      fun _ => ⟨ids, rfl, e, listed, cycle⟩⟩
    obtain ⟨rest, rfl⟩ := cycle.begins
    refine ⟨fun empty => absurd empty (intercalate_ne_empty _ _ _),
      fun none => absurd ?_ (none e listed)⟩
    refine ⟨rest, cycle.chain, ?_⟩
    rw [← List.getLast?_cons_cons (a := e.1)]
    exact cycle.closes

/-- Two ids that point at each other. -/
def twoIds : AdjacencyMap := ⟨[("bd-1", ["bd-2"]), ("bd-2", ["bd-1"])], by decide⟩

/-- Their cycle is found through either edge. -/
theorem cycleThroughEdgesInGraph_spec_twoIds :
    ∃ text, (cycleThroughEdgesInGraph twoIds [("bd-2", "bd-1")]).Returns text ∧ text ≠ "" := by
  obtain ⟨text, returns, empty, -⟩ :=
    cycleThroughEdgesInGraph_spec twoIds [("bd-2", "bd-1")] (by decide)
    (by decide)
  refine ⟨text, returns, fun none => empty.mp none _ (List.mem_singleton.mpr rfl) ?_⟩
  exact ⟨["bd-2"], by simp only [List.isChain_cons_cons, List.isChain_singleton]; decide, rfl⟩

end Beads
