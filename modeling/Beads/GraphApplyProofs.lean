import Beads.GraphApply
import Beads.SchedulingProofs
import Beads.RowEffects

/-! What the validation of a graph plan finds out about cycles, and what is left to the
transaction. The edges that the transaction writes are the entries of the plan; the store that
it starts from adds nothing to them when the nodes of the plan come out as new rows. -/
namespace Beads
open Lib Lib.Graph Relation

namespace GraphApplyPlan
variable {plan : GraphApplyPlan}

/-! ## The relations a plan declares -/

section Entries
variable (plan)

/-- The parent keys. -/
def parentEntries : List (String × String × DependencyType) :=
  (plan.nodes.filter fun node => node.effectiveParentKey ≠ "").map fun node =>
    (node.key, node.effectiveParentKey, .parentChild)

/-- The edge list. -/
def edgeEntries : List (String × String × DependencyType) :=
  plan.edges.map fun edge => (edge.fromKey, edge.toKey, edge.depType)

/-- The inline dependencies. -/
def depEntries : List (String × String × DependencyType) :=
  plan.nodes.flatMap fun node => node.deps.map fun dep =>
    (node.key, dep.target, graphApplyDependencyType dep.type)

/-- Everything a plan declares between its nodes. -/
def entries : List (String × String × DependencyType) :=
  plan.parentEntries ++ plan.edgeEntries ++ plan.depEntries

/-- The relation of the entries of some types. -/
def Declares (types : DependencyType → Prop) (a b : String) : Prop :=
  ∃ type, types type ∧ (a, b, type) ∈ plan.entries

/-- The part that the validation looks at: parent keys and blocking edges. -/
def Local (a b : String) : Prop :=
  (a, b, .parentChild) ∈ plan.parentEntries ∨ ∃ type, type.Blocking ∧ (a, b, type) ∈ plan.edgeEntries

/-- All references are keys of nodes of the plan. -/
structure Keyed : Prop where
  parents : ∀ node ∈ plan.nodes, node.parentId = "" ∧
    (node.effectiveParentKey ≠ "" → node.effectiveParentKey ∈ plan.keys)
  deps : ∀ node ∈ plan.nodes, ∀ dep ∈ node.deps, dep.target ∈ plan.keys
  edges : ∀ edge ∈ plan.edges, edge.fromId = "" ∧ edge.toId = "" ∧ edge.fromKey ∈ plan.keys ∧ edge.toKey ∈ plan.keys

end Entries

theorem mem_parentEntries {a b : String} {type : DependencyType} :
    (a, b, type) ∈ plan.parentEntries ↔
    ∃ node ∈ plan.nodes, node.effectiveParentKey ≠ "" ∧ node.key = a ∧ node.effectiveParentKey = b ∧
      type = .parentChild := by
  constructor
  · intro entry
    obtain ⟨node, kept, same⟩ := List.mem_map.mp entry
    obtain ⟨held, given⟩ := List.mem_filter.mp kept
    cases same
    exact ⟨node, held, of_decide_eq_true given, rfl, rfl, rfl⟩
  · rintro ⟨node, held, given, rfl, rfl, rfl⟩
    exact List.mem_map_of_mem (List.mem_filter.mpr ⟨held, decide_eq_true given⟩)

theorem mem_edgeEntries {a b : String} {type : DependencyType} : (a, b, type) ∈ plan.edgeEntries ↔
    ∃ edge ∈ plan.edges, edge.fromKey = a ∧ edge.toKey = b ∧ edge.depType = type := by
  simp [edgeEntries]

theorem mem_depEntries {a b : String} {type : DependencyType} : (a, b, type) ∈ plan.depEntries ↔
    ∃ node ∈ plan.nodes, ∃ dep ∈ node.deps, node.key = a ∧ dep.target = b ∧
      graphApplyDependencyType dep.type = type := by
  simp [depEntries]

theorem mem_entries {entry : String × String × DependencyType} : entry ∈ plan.entries ↔
    entry ∈ plan.parentEntries ∨ entry ∈ plan.edgeEntries ∨ entry ∈ plan.depEntries := by
  simp [entries]

theorem key_mem {node : GraphApplyNode} (held : node ∈ plan.nodes) : node.key ∈ plan.keys :=
  List.mem_map_of_mem held

theorem Keyed.entry (keyed : plan.Keyed) {a b : String} {type : DependencyType}
    (entry : (a, b, type) ∈ plan.entries) :
    a ∈ plan.keys ∧ b ∈ plan.keys := by
  rcases mem_entries.mp entry with parent | edge | dep
  · obtain ⟨node, held, given, rfl, rfl, -⟩ := mem_parentEntries.mp parent
    exact ⟨key_mem held, (keyed.parents node held).2 given⟩
  · obtain ⟨e, held, rfl, rfl, -⟩ := mem_edgeEntries.mp edge
    exact (keyed.edges e held).2.2
  · obtain ⟨node, held, d, listed, rfl, rfl, -⟩ := mem_depEntries.mp dep
    exact ⟨key_mem held, keyed.deps node held d listed⟩

/-! ## Validation -/

private theorem checkNode_ok {seen seen' : List String × List String} {item : GraphApplyNode × Nat}
    (ok : plan.checkNode seen item = .ok seen') :
    item.1.key ≠ "" ∧ item.1.key ∉ seen.1 ∧ seen'.1 = item.1.key :: seen.1 := by
  rw [checkNode, guard_eq_ok, guard_eq_ok, guard_eq_ok, guard_eq_ok, guard_eq_ok, bind_eq_ok] at ok
  obtain ⟨named, fresh, -, -, -, _, -, rest⟩ := ok
  refine ⟨named, fresh, ?_⟩
  rw [← Except.ok.inj rest]

/-- The keys that the checks of the nodes have seen are named and different. -/
theorem checkNodes_ok {items : List (GraphApplyNode × Nat)} {seen seen' : List String × List String}
    (ok : items.foldlM plan.checkNode seen = .ok seen') (nodup : seen.1.Nodup)
    (named : "" ∉ seen.1) :
    seen'.1 = (items.map fun item => item.1.key).reverse ++ seen.1 ∧ seen'.1.Nodup ∧
      "" ∉ seen'.1 := by
  induction items generalizing seen with
  | nil =>
    obtain rfl : seen = seen' := Except.ok.inj ok
    exact ⟨rfl, nodup, named⟩
  | cons first rest ih =>
    rw [List.foldlM_cons, bind_eq_ok] at ok
    obtain ⟨mid, head, tail⟩ := ok
    obtain ⟨nonempty, fresh, grown⟩ := checkNode_ok head
    have nodup' : mid.1.Nodup := by
      rw [grown]
      exact List.nodup_cons.mpr ⟨fresh, nodup⟩
    have named' : "" ∉ mid.1 := by
      rw [grown, List.mem_cons, not_or]
      exact ⟨nonempty.symm, named⟩
    obtain ⟨whole, rest'⟩ := ih tail nodup' named'
    refine ⟨?_, rest'⟩
    rw [whole, grown]
    simp

/-- An accepted plan has different keys, none of them empty, and no cycle was found. -/
theorem validatePlan_returns (valid : plan.validatePlan.Returns ()) :
    plan.keys.Nodup ∧ "" ∉ plan.keys ∧ (plan.validateLocalCycles plan.keys.reverse).Returns () := by
  obtain ⟨-, rest⟩ := Call.returns_guard valid
  obtain ⟨seen, nodes, rest⟩ := Call.returns_bind.mp rest
  obtain ⟨_, -, cycles⟩ := Call.returns_bind.mp rest
  obtain ⟨whole, nodup, named⟩ :=
    checkNodes_ok (Call.returns_ofExcept.mp nodes) List.nodup_nil List.not_mem_nil
  have same : seen.1 = plan.keys.reverse := by
    rw [whole, List.append_nil, keys, show (fun item : GraphApplyNode × Nat => item.1.key) =
      GraphApplyNode.key ∘ Prod.fst from rfl, ← List.map_map, List.zipIdx_map_fst]
  rw [same] at nodup named cycles
  exact ⟨List.nodup_reverse.mp nodup, fun held => named (List.mem_reverse.mpr held), cycles⟩

private theorem mem_localAdj {known : List String} {a b : String} (keyed : plan.Keyed)
    (named : "" ∉ plan.keys)
    (same : ∀ key, key ∈ known ↔ key ∈ plan.keys) : b ∈ plan.localAdj known a ↔ plan.Local a b := by
  rw [localAdj, List.mem_append, List.mem_map, List.mem_map]
  apply or_congr
  · rw [mem_parentEntries]
    constructor
    · rintro ⟨node, kept, rfl⟩
      obtain ⟨held, kept⟩ := List.mem_filter.mp kept
      obtain ⟨rfl, given, -⟩ := of_decide_eq_true kept
      exact ⟨node, held, given, rfl, rfl, rfl⟩
    · rintro ⟨node, held, given, rfl, rfl, -⟩
      refine ⟨node, List.mem_filter.mpr ⟨held, decide_eq_true ⟨rfl, given, ?_⟩⟩, rfl⟩
      exact ⟨(same _).mpr (key_mem held), (same _).mpr ((keyed.parents node held).2 given)⟩
  · constructor
    · rintro ⟨edge, kept, rfl⟩
      obtain ⟨held, kept⟩ := List.mem_filter.mp kept
      obtain ⟨rfl, ⟨-, blocking⟩, -⟩ := of_decide_eq_true kept
      exact ⟨_, blocking, mem_edgeEntries.mpr ⟨edge, held, rfl, rfl, rfl⟩⟩
    · rintro ⟨type, blocking, entry⟩
      obtain ⟨edge, held, rfl, rfl, rfl⟩ := mem_edgeEntries.mp entry
      obtain ⟨fromId, toId, source, target⟩ := keyed.edges edge held
      refine ⟨edge, List.mem_filter.mpr ⟨held, decide_eq_true ⟨rfl, ⟨?_, blocking⟩, ?_⟩⟩, rfl⟩
      · rintro (none | none | given | given)
        · exact named (none ▸ source)
        · exact named (none ▸ target)
        · exact given fromId
        · exact given toId
      · exact ⟨(same _).mpr source, (same _).mpr target⟩

/-- The check for cycles that the validation makes is exact for what it looks at. -/
theorem validateLocalCycles_returns {known : List String} (keyed : plan.Keyed)
    (named : "" ∉ plan.keys)
    (same : ∀ key, key ∈ known ↔ key ∈ plan.keys)
    (passed : (plan.validateLocalCycles known).Returns ()) :
    Acyclic plan.Local := by
  have sorted : ∀ key, key ∈ known.insertionSort (· ≤ ·) ↔ key ∈ plan.keys := by
    intro key
    rw [List.mem_insertionSort, same]
  have step : ∀ a b, CycleCheck.Step (fun _ => false)
      (plan.localAdj known) a b ↔ plan.Local a b := by
    intro a b
    rw [← mem_localAdj keyed named same]
    exact ⟨fun step => step.2.2, fun held => ⟨rfl, rfl, held⟩⟩
  have inside : ∀ a b, CycleCheck.Step (fun _ => false) (plan.localAdj known) a b →
      a ∈ known.insertionSort (· ≤ ·) ∧ b ∈ known.insertionSort (· ≤ ·) := by
    intro a b here
    rw [sorted, sorted]
    rcases (step a b).mp here with parent | ⟨type, -, edge⟩
    · exact keyed.entry (mem_entries.mpr (Or.inl parent))
    · exact keyed.entry (mem_entries.mpr (Or.inr (Or.inl edge)))
  rcases CycleCheck.check_spec inside with ⟨⟨found, refused⟩, -⟩ | ⟨-, acyclic⟩
  · obtain ⟨outcome, first, rest⟩ := Call.returns_bind.mp passed
    obtain rfl : outcome = .error found := Except.ok.inj (first.unique refused.outcome)
    exact absurd rest Call.not_returns_throw
  · exact acyclic.mono fun a b here => (step a b).mpr here

end GraphApplyPlan

/-! ## The nodes under their ids -/

private theorem foldl_update_of_not_mem {placed : List (GraphApplyNode × String)} {key : String}
    (other : ∀ item ∈ placed, item.1.key ≠ key) (ids : String → String) :
    placed.foldl (fun ids item => Function.update ids item.1.key item.2) ids key = ids key := by
  induction placed generalizing ids with
  | nil => rfl
  | cons first rest ih =>
    rw [List.foldl_cons, ih fun item held => other item (List.mem_cons_of_mem _ held)]
    exact Function.update_of_ne (other first List.mem_cons_self).symm _ _

private theorem foldl_update_of_mem {placed : List (GraphApplyNode × String)}
    {item : GraphApplyNode × String}
    (nodup : (placed.map fun item => item.1.key).Nodup) (held : item ∈ placed)
    (ids : String → String) :
    placed.foldl (fun ids item => Function.update ids item.1.key item.2) ids item.1.key = item.2 := by
  induction placed generalizing ids with
  | nil => exact absurd held List.not_mem_nil
  | cons first rest ih =>
    obtain ⟨fresh, nodup⟩ := List.nodup_cons.mp nodup
    rw [List.foldl_cons]
    rcases List.mem_cons.mp held with rfl | later
    · rw [foldl_update_of_not_mem, Function.update_self]
      intro other held same
      exact fresh (List.mem_map.mpr ⟨other, held, same⟩)
    · exact ih nodup later _

namespace GraphApplyPlan
variable {plan : GraphApplyPlan} {placed : List (GraphApplyNode × String)} {a b : String}

/-- Every node was given an id, and the plan has passed the checks of its keys. -/
structure Placement (plan : GraphApplyPlan) (placed : List (GraphApplyNode × String)) : Prop where
  keyed : plan.Keyed
  nodup : plan.keys.Nodup
  unnamed : "" ∉ plan.keys
  nodes : placed.map Prod.fst = plan.nodes
  named : ∀ item ∈ placed, item.2 ≠ ""

namespace Placement

theorem keyToId_eq (placement : Placement plan placed) {item : GraphApplyNode × String}
    (held : item ∈ placed) :
    keyToId placed item.1.key = item.2 := by
  apply foldl_update_of_mem _ held
  have nodup := placement.nodup
  rw [keys, ← placement.nodes, List.map_map] at nodup
  exact nodup

theorem node_mem (placement : Placement plan placed) {item : GraphApplyNode × String}
    (held : item ∈ placed) :
    item.1 ∈ plan.nodes := by
  rw [← placement.nodes]
  exact List.mem_map_of_mem held

theorem exists_item (placement : Placement plan placed) {node : GraphApplyNode}
    (held : node ∈ plan.nodes) :
    ∃ item ∈ placed, item.1 = node := by
  rw [← placement.nodes] at held
  exact List.mem_map.mp held

theorem keyToId_ne (placement : Placement plan placed) (known : a ∈ plan.keys) :
    keyToId placed a ≠ "" := by
  obtain ⟨node, held, rfl⟩ := List.mem_map.mp known
  obtain ⟨item, listed, rfl⟩ := placement.exists_item held
  rw [placement.keyToId_eq listed]
  exact placement.named item listed

private theorem resolveEdgeRef_eq (placement : Placement plan placed) (known : a ∈ plan.keys) :
    resolveEdgeRef a "" (keyToId placed) = keyToId placed a := by
  have nonempty : a ≠ "" := fun none => placement.unnamed (none ▸ known)
  simp [resolveEdgeRef, nonempty]

theorem pair_eq (placement : Placement plan placed) {edge : GraphApplyEdge}
    (held : edge ∈ plan.edges) :
    edge.pair (keyToId placed) = (keyToId placed edge.fromKey, keyToId placed edge.toKey) := by
  obtain ⟨fromId, toId, source, target⟩ := placement.keyed.edges edge held
  rw [GraphApplyEdge.pair, fromId, toId, placement.resolveEdgeRef_eq source,
    placement.resolveEdgeRef_eq target]

theorem parentIn_eq (placement : Placement plan placed) {node : GraphApplyNode}
    (held : node ∈ plan.nodes) (given : node.effectiveParentKey ≠ "") :
    node.parentIn (keyToId placed) = keyToId placed node.effectiveParentKey ∧
      node.parentIn (keyToId placed) ≠ "" := by
  have same : node.parentIn (keyToId placed) = keyToId placed node.effectiveParentKey :=
    if_pos given
  rw [same]
  exact ⟨rfl, placement.keyToId_ne ((placement.keyed.parents node held).2 given)⟩

theorem parentIn_given (placement : Placement plan placed) {node : GraphApplyNode}
    (held : node ∈ plan.nodes)
    (resolved : node.parentIn (keyToId placed) ≠ "") : node.effectiveParentKey ≠ "" := by
  intro none
  rw [GraphApplyNode.parentIn, if_neg (not_not.mpr none)] at resolved
  exact resolved (placement.keyed.parents node held).1

/-- The parent-child pairs are those of the parent keys. -/
theorem mem_parentDepPairs (placement : Placement plan placed) {pair : String × String} :
    pair ∈ plan.parentDepPairs (keyToId placed) ↔
      ∃ a b, (a, b, .parentChild) ∈ plan.parentEntries ∧
        pair = (keyToId placed a, keyToId placed b) := by
  rw [parentDepPairs, List.mem_filter, List.mem_map, decide_eq_true_iff]
  constructor
  · rintro ⟨⟨node, held, rfl⟩, -, resolved⟩
    have given := placement.parentIn_given held resolved
    refine ⟨node.key, node.effectiveParentKey,
      mem_parentEntries.mpr ⟨node, held, given, rfl, rfl, rfl⟩, ?_⟩
    rw [GraphApplyNode.parentPair, (placement.parentIn_eq held given).1]
  · rintro ⟨a, b, entry, rfl⟩
    obtain ⟨node, held, given, rfl, rfl, -⟩ := mem_parentEntries.mp entry
    obtain ⟨same, resolved⟩ := placement.parentIn_eq held given
    refine ⟨⟨node, held, ?_⟩, placement.keyToId_ne (key_mem held), ?_⟩
    · rw [GraphApplyNode.parentPair, same]
    · rw [← same]
      exact resolved

end Placement

/-! ## The edges that are written -/

/-- The dependency is an entry of the plan, under the ids of its nodes. -/
def Writes (plan : GraphApplyPlan) (placed : List (GraphApplyNode × String)) (dep : Dependency)
    (a b : String) : Prop :=
  (a, b, dep.type) ∈ plan.entries ∧ dep.issueId = keyToId placed a ∧ dep.dependsOnId = keyToId placed b

theorem newGraphEdgeDependency_ok {pair : String × String} {type : DependencyType}
    {gate spawnerKey spawnerId : String}
    {known : List String} {ids : String → String} {dep : Dependency}
    (ok : newGraphEdgeDependency pair type gate spawnerKey spawnerId known ids = .ok dep) :
    dep.issueId = pair.1 ∧ dep.dependsOnId = pair.2 ∧ dep.type = type := by
  unfold newGraphEdgeDependency at ok
  split at ok
  · cases ok
    exact ⟨rfl, rfl, rfl⟩
  · split at ok
    · cases ok
    · cases ok
      exact ⟨rfl, rfl, rfl⟩

private theorem checkParentPairs_ok {ids : String → String} {item : GraphApplyEdge × Nat}
    (ok : plan.checkParentPairs ids item = .ok ())
    (repeated : item.1.pair ids ∈ plan.parentDepPairs ids) :
    item.1.depType = .parentChild := by
  rw [checkParentPairs, guard_eq_ok, not_and, not_not] at ok
  exact ok.1 repeated

/-- What an edge of the plan comes to when it is not refused. -/
theorem edgeAdd_ok {item : GraphApplyEdge × Nat} {add : Option PlannedAdd}
    (ok : plan.edgeAdd placed item = .ok add) :
    plan.checkParentPairs (keyToId placed) item = .ok () ∧
      ((item.1.pair (keyToId placed) ∈ plan.parentDepPairs (keyToId placed) ∧ add = none) ∨
        ∃ dep, add = some ⟨dep, .addEdge (item.1.pair (keyToId placed)).1 (item.1.pair (keyToId placed)).2⟩ ∧
          dep.issueId = (item.1.pair (keyToId placed)).1 ∧
            dep.dependsOnId = (item.1.pair (keyToId placed)).2 ∧
          dep.type = item.1.depType) := by
  rw [edgeAdd, bind_eq_ok] at ok
  obtain ⟨_, checked, rest⟩ := ok
  refine ⟨checked, ?_⟩
  split at rest
  · next repeated => exact Or.inl ⟨repeated, (Except.ok.inj rest).symm⟩
  · obtain ⟨dep, made, rest⟩ := bind_eq_ok.mp rest
    exact Or.inr ⟨_, (Except.ok.inj rest).symm, newGraphEdgeDependency_ok made⟩

theorem depAdd_ok {id key : String} {dep : GraphApplyNodeDep} {add : Option PlannedAdd}
    (ok : depAdd placed id key dep = .ok add) (named : keyToId placed dep.target ≠ "") :
    ∃ made, add = some ⟨made, .addDep key dep.target⟩ ∧ made.issueId = id ∧
      made.dependsOnId = keyToId placed dep.target ∧
        made.type = graphApplyDependencyType dep.type := by
  rw [depAdd, if_neg named, if_neg named] at ok
  obtain ⟨made, built, rest⟩ := bind_eq_ok.mp ok
  exact ⟨_, (Except.ok.inj rest).symm, newGraphEdgeDependency_ok built⟩

section Adds
variable {add : Except GraphApplyErr (Option PlannedAdd)}

theorem mem_parentAdds {add : PlannedAdd} : add ∈ parentAdds placed ↔
    ∃ item ∈ placed, item.1.parentIn (keyToId placed) ≠ "" ∧
      add = ⟨⟨item.2, item.1.parentIn (keyToId placed), .parentChild, .empty⟩, .addParent item.1.key⟩ := by
  rw [parentAdds, List.mem_map]
  constructor
  · rintro ⟨item, kept, rfl⟩
    obtain ⟨held, given⟩ := List.mem_filter.mp kept
    exact ⟨item, held, of_decide_eq_true given, rfl⟩
  · rintro ⟨item, held, given, rfl⟩
    exact ⟨item, List.mem_filter.mpr ⟨held, decide_eq_true given⟩, rfl⟩

private theorem mem_phaseAdds {phase : DependencyType → Prop} [DecidablePred phase] :
    add ∈ plan.phaseAdds placed phase ↔
    (∃ item ∈ plan.edges.zipIdx, phase item.1.depType ∧ plan.edgeAdd placed item = add) ∨
      ∃ item ∈ placed, ∃ dep ∈ item.1.deps, phase (graphApplyDependencyType dep.type) ∧
        depAdd placed item.2 item.1.key dep = add := by
  simp only [phaseAdds, List.mem_append, List.mem_map, List.mem_filter, List.mem_flatMap,
    decide_eq_true_eq, and_assoc]

/-- An edge or an inline dependency belongs to one of the two phases. -/
theorem mem_adds : add ∈ plan.adds placed ↔ (∃ made ∈ parentAdds placed, .ok (some made) = add) ∨
    (∃ item ∈ plan.edges.zipIdx, plan.edgeAdd placed item = add) ∨
      ∃ item ∈ placed, ∃ dep ∈ item.1.deps, depAdd placed item.2 item.1.key dep = add := by
  rw [adds, List.mem_append, List.mem_append, List.mem_map, mem_phaseAdds, mem_phaseAdds]
  constructor
  · rintro ((parent | ⟨item, held, -, same⟩ | ⟨item, held, dep, listed, -, same⟩) | ⟨item, held, -, same⟩ |
      ⟨item, held, dep, listed, -, same⟩)
    · exact Or.inl parent
    · exact Or.inr (Or.inl ⟨item, held, same⟩)
    · exact Or.inr (Or.inr ⟨item, held, dep, listed, same⟩)
    · exact Or.inr (Or.inl ⟨item, held, same⟩)
    · exact Or.inr (Or.inr ⟨item, held, dep, listed, same⟩)
  · rintro (parent | ⟨item, held, same⟩ | ⟨item, held, dep, listed, same⟩)
    · exact Or.inl (Or.inl parent)
    · by_cases child : item.1.depType = .parentChild
      · exact Or.inl (Or.inr (Or.inl ⟨item, held, child, same⟩))
      · exact Or.inr (Or.inl ⟨item, held, child, same⟩)
    · by_cases child : graphApplyDependencyType dep.type = .parentChild
      · exact Or.inl (Or.inr (Or.inr ⟨item, held, dep, listed, child, same⟩))
      · exact Or.inr (Or.inr ⟨item, held, dep, listed, child, same⟩)

end Adds

theorem mem_edges_of_zipIdx {item : GraphApplyEdge × Nat} (held : item ∈ plan.edges.zipIdx) :
    item.1 ∈ plan.edges := by
  have first := List.mem_map_of_mem (f := Prod.fst) held
  rwa [List.zipIdx_map_fst] at first

namespace Placement

/-- Only entries of the plan are written. -/
theorem writes_of_mem (placement : Placement plan placed) {made : PlannedAdd}
    (held : .ok (some made) ∈ plan.adds placed) : ∃ a b, plan.Writes placed made.dep a b := by
  rcases mem_adds.mp held with
    ⟨parent, listed, same⟩ | ⟨item, listed, ok⟩ | ⟨item, listed, dep, inline, ok⟩
  · cases same
    obtain ⟨item, child, resolved, rfl⟩ := mem_parentAdds.mp listed
    have node := placement.node_mem child
    have given := placement.parentIn_given node resolved
    refine ⟨item.1.key, item.1.effectiveParentKey, ?_, (placement.keyToId_eq child).symm,
      (placement.parentIn_eq node given).1⟩
    exact mem_entries.mpr (Or.inl (mem_parentEntries.mpr ⟨item.1, node, given, rfl, rfl, rfl⟩))
  · have edge := mem_edges_of_zipIdx listed
    rcases (edgeAdd_ok ok).2 with ⟨-, none⟩ | ⟨_, some_, source, target, type⟩
    · cases none
    · cases some_
      rw [placement.pair_eq edge] at source target
      refine ⟨item.1.fromKey, item.1.toKey, mem_entries.mpr (Or.inr (Or.inl ?_)), source, target⟩
      exact mem_edgeEntries.mpr ⟨item.1, edge, rfl, rfl, type.symm⟩
  · have node := placement.node_mem listed
    obtain ⟨_, some_, source, target, type⟩ := depAdd_ok ok
      (placement.keyToId_ne (placement.keyed.deps item.1 node dep inline))
    cases some_
    rw [← placement.keyToId_eq listed] at source
    refine ⟨item.1.key, dep.target, mem_entries.mpr (Or.inr (Or.inr ?_)), source, target⟩
    exact mem_depEntries.mpr ⟨item.1, node, dep, inline, rfl, rfl, type.symm⟩

/-- The edge of a parent key is written. -/
theorem parent_written (placement : Placement plan placed) {a b : String}
    (entry : (a, b, .parentChild) ∈ plan.parentEntries) :
    ∃ made, .ok (some made) ∈ plan.adds placed ∧
      made.dep.type = .parentChild ∧ made.dep.issueId = keyToId placed a ∧
        made.dep.dependsOnId = keyToId placed b := by
  obtain ⟨node, held, given, rfl, rfl, -⟩ := mem_parentEntries.mp entry
  obtain ⟨item, listed, rfl⟩ := placement.exists_item held
  obtain ⟨same, resolved⟩ := placement.parentIn_eq held given
  refine ⟨_, mem_adds.mpr (Or.inl ⟨_, mem_parentAdds.mpr ⟨item, listed, resolved, rfl⟩, rfl⟩), rfl,
    ?_, same⟩
  exact (placement.keyToId_eq listed).symm

/-- If nothing is refused, every entry of the plan is written. -/
theorem mem_of_entry (placement : Placement plan placed)
    (clean : ∀ add ∈ plan.adds placed, ∃ made, add = .ok made)
    {a b : String} {type : DependencyType} (entry : (a, b, type) ∈ plan.entries) :
    ∃ made, .ok (some made) ∈ plan.adds placed ∧ made.dep.type = type ∧
      made.dep.issueId = keyToId placed a ∧
      made.dep.dependsOnId = keyToId placed b := by
  rcases mem_entries.mp entry with parent | edge | dep
  · obtain ⟨_, _, _, _, _, rfl⟩ := mem_parentEntries.mp parent
    exact placement.parent_written parent
  · obtain ⟨e, held, rfl, rfl, rfl⟩ := mem_edgeEntries.mp edge
    obtain ⟨i, listed⟩ : ∃ i, (e, i) ∈ plan.edges.zipIdx := by
      rw [← List.zipIdx_map_fst 0 plan.edges] at held
      obtain ⟨item, listed, rfl⟩ := List.mem_map.mp held
      exact ⟨item.2, listed⟩
    have here : plan.edgeAdd placed (e, i) ∈ plan.adds placed :=
      mem_adds.mpr (Or.inr (Or.inl ⟨(e, i), listed, rfl⟩))
    obtain ⟨add, ok⟩ := clean _ here
    obtain ⟨checked, repeated | ⟨made, rfl, source, target, type⟩⟩ := edgeAdd_ok ok
    · -- The node has the edge already, as the edge of its parent key.
      rw [checkParentPairs_ok checked repeated.1]
      obtain ⟨a, b, parent, same⟩ := placement.mem_parentDepPairs.mp repeated.1
      rw [placement.pair_eq held] at same
      obtain ⟨source, target⟩ := Prod.mk.inj same
      rw [source, target]
      exact placement.parent_written parent
    · rw [placement.pair_eq held] at source target
      rw [ok] at here
      exact ⟨_, here, type, source, target⟩
  · obtain ⟨node, held, d, inline, rfl, rfl, rfl⟩ := mem_depEntries.mp dep
    obtain ⟨item, listed, rfl⟩ := placement.exists_item held
    have here : depAdd placed item.2 item.1.key d ∈ plan.adds placed :=
      mem_adds.mpr (Or.inr (Or.inr ⟨item, listed, d, inline, rfl⟩))
    obtain ⟨add, ok⟩ := clean _ here
    obtain ⟨made, rfl, source, target, type⟩ := depAdd_ok ok
      (placement.keyToId_ne (placement.keyed.deps item.1 held d inline))
    rw [ok] at here
    rw [placement.keyToId_eq listed]
    exact ⟨_, here, type, source, target⟩

end Placement

end GraphApplyPlan
end Beads
