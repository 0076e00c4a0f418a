import Beads.GraphApplyProofs

/-! The edges that the transaction of a graph plan writes. They close no cycle, as each of them is
only written where it closes none; and where one is refused because of a cycle, the entries of the
plan have that cycle, if its nodes are new to the store. -/
namespace Beads
open Lib Lib.Graph Relation

namespace Store
variable {s t : Store} {c : Coordinator} {dep : Dependency} {opts : AddDependencyOpts}

/-! ## One edge -/

/-- An accepted add puts the edge into the graph, if it was not there. -/
theorem addDependency_related {types : DependencyType → Prop}
    (returns : (s.addDependency c dep opts).Returns t) (x y : String) : t.Related types x y ↔
      s.Related types x y ∨ (types dep.type ∧ (dep.issueId, dep.dependsOnId) = (x, y)) := by
  rcases (addDependency_returns returns).2 with ⟨d, held, key, type, rfl⟩ | ⟨u, added⟩
  · rw [setMetadata_related]
    refine (or_iff_left_of_imp ?_).symm
    rintro ⟨chosen, same⟩
    exact ⟨_, d, held, type ▸ chosen, key.trans same⟩
  · rw [related_of_cleared added.cleared, added.inserted.related_iff, Dep.key, depTarget_id]

private theorem runUntilQuiet_never_refused {statement : Store → Plane → List String → Store × Nat}
    {ids : IDs} {e : Err} :
    ¬ (runUntilQuiet statement ids s).Ends (.error e) := by
  unfold runUntilQuiet
  split
  · intro ends
    cases (Call.ends_ofExcept (r := .ok s)).unique ends
  · rintro ⟨n, run⟩
    obtain ⟨t, -, same⟩ := Option.map_eq_some_iff.mp run
    cases same

/-- What a refusal because of a cycle, or of an edge onto itself, says. -/
def Justified (s : Store) (dep : Dependency) (e : Err) : Prop :=
  (e = .dependencyCycle → dep.type.IsSchedulingEdge ∧ ReflTransGen s.Scheduling dep.dependsOnId dep.issueId) ∧
    ∀ id, e = .selfDependency id → dep.issueId = dep.dependsOnId

private theorem checkDependencyCycle_ensures :
    (s.checkDependencyCycle dep cycleDetectionTables).Ensures (fun _ => True)
    (s.Justified dep) := by
  unfold checkDependencyCycle
  apply Call.Ensures.guard
  · exact fun same => ⟨by simp, fun _ _ => same⟩
  · intro _
    apply Call.Ensures.ite
    · exact fun _ => Call.Ensures.pure trivial
    · intro scheduling
      apply Call.Ensures.ite
      · intro cycle
        apply Call.Ensures.throw
        exact ⟨fun _ => ⟨not_not.mp scheduling, wouldCreateSchedulingCycle_iff.mp cycle⟩, by simp⟩
      · exact fun _ => Call.Ensures.pure trivial

/-- A refusal that has nothing to do with cycles. -/
theorem justified_of_ne {e : Err} (cycle : e ≠ .dependencyCycle)
    (self : ∀ id, e ≠ .selfDependency id) :
    s.Justified dep e :=
  ⟨fun same => absurd same cycle, fun id same => absurd same (self id)⟩

private theorem checkBlockingHierarchy_ensures :
    (s.checkBlockingHierarchy dep cycleDetectionTables).Ensures (fun _ => True)
    (s.Justified dep) := by
  unfold checkBlockingHierarchy
  apply Call.Ensures.ite
  · exact fun _ => Call.Ensures.pure trivial
  · intro _
    apply Call.Ensures.ite
    · exact fun _ => Call.Ensures.pure trivial
    · intro _
      apply Call.Ensures.guard
      · exact fun _ => justified_of_ne (by simp) (by simp)
      · intro _
        apply Call.Ensures.ite
        · exact fun _ => Call.Ensures.throw (justified_of_ne (by simp) (by simp))
        · exact fun _ => Call.Ensures.pure trivial

private theorem dependencyTargetType_ensures :
    (Call.ofExcept (s.dependencyTargetType dep opts)).Ensures (fun _ => True)
    (s.Justified dep) := by
  refine ⟨fun _ _ => trivial, ?_⟩
  intro e ends
  have refused := Call.ends_ofExcept.unique ends
  unfold dependencyTargetType at refused
  split at refused
  · cases refused
  · split at refused
    · cases refused
    · split at refused
      · cases refused
      · cases refused
        exact justified_of_ne (by simp) (by simp)

/-- The adds that the transaction makes. -/
theorem validateAddDependency_ensures (tables : opts.depTables = []) :
    (s.validateAddDependency dep opts).Ensures (fun _ => True) (s.Justified dep) := by
  have cycle : (if opts.skipCycleCheck = false then s.checkDependencyCycle dep cycleDetectionTables
      else pure ()).Ensures (fun _ => True) (s.Justified dep) :=
    Call.Ensures.ite (fun _ => checkDependencyCycle_ensures) fun _ => Call.Ensures.pure trivial
  unfold validateAddDependency
  rw [if_pos tables]
  apply Call.Ensures.guard
  · exact fun _ => justified_of_ne (by simp) (by simp)
  · intro _
    apply Call.Ensures.bind dependencyTargetType_ensures
    intro targetType _
    apply Call.Ensures.ite
    · exact fun _ => Call.Ensures.bind checkBlockingHierarchy_ensures fun _ _ => cycle
    · exact fun _ => cycle

private theorem insertDep_ensures {p : Plane} {d : Dep} :
    (s.insertDep p d).Ensures (fun _ => True) (s.Justified dep) := by
  unfold insertDep
  apply Call.Ensures.ite
  · exact fun _ => Call.Ensures.throw (justified_of_ne (by simp) (by simp))
  · intro _
    split
    · exact Call.Ensures.pure trivial
    · exact Call.Ensures.throw (justified_of_ne (by simp) (by simp))

private theorem refreshAfterAdd_never_refused {source : Node} {target : Target}
    {type : DependencyType} {prechecked : Option DepTargetPrecheck} {e : Err} :
    ¬ (s.refreshAfterAdd source target type prechecked).Ends (.error e) := by
  unfold refreshAfterAdd
  split
  · exact runUntilQuiet_never_refused
  · split
    · exact runUntilQuiet_never_refused
    · exact runUntilQuiet_never_refused

/-- A refused add was refused for a reason. -/
theorem addDependency_refused {e : Err} (tables : opts.depTables = [])
    (refused : (s.addDependency c dep opts).Ends (.error e)) : s.Justified dep e := by
  suffices ensures :
      (s.addDependency c dep opts).Ensures (fun _ => True) (s.Justified dep) from ensures.2 e refused
  unfold addDependency
  apply Call.Ensures.bind (validateAddDependency_ensures tables)
  intro _ _
  extract_lets p target
  split
  · apply Call.Ensures.ite
    · exact fun _ => Call.Ensures.pure trivial
    · exact fun _ => Call.Ensures.throw (justified_of_ne (by simp) (by simp))
  · apply Call.Ensures.bind insertDep_ensures
    intro inserted _
    have refreshed : ∀ touched : Store, (touched.refreshAfterAdd (p, dep.issueId) target dep.type
        opts.precheckedTarget).Ensures (fun _ => True) (s.Justified dep) := by
      intro touched
      exact ⟨fun _ _ => trivial, fun e ends => absurd ends refreshAfterAdd_never_refused⟩
    have touches : (inserted.touchDependencyCoordination c dep.dependsOnId p).Ensures
        (fun _ => True)
        (s.Justified dep) := by
      unfold touchDependencyCoordination
      apply Call.Ensures.ite
      · exact fun _ => Call.Ensures.throw (justified_of_ne (by simp) (by simp))
      · exact fun _ => Call.Ensures.pure trivial
    apply Call.Ensures.ite
    · exact fun _ => Call.Ensures.bind touches fun touched _ => refreshed touched
    · intro _
      exact Call.Ensures.bind (Call.Ensures.pure trivial) fun touched (_ : True) => refreshed
        touched

/-! ## All edges -/

/-- The pairs that were kept are edges of the store, and close no cycle among themselves. -/
structure Tracked (done : Store × List (String × String)) : Prop where
  stored : ∀ pair ∈ done.2, done.1.Scheduling pair.1 pair.2
  acyclic : Acyclic (Edge done.2)

/-- The options of the transaction. -/
def addOpts (dep : Dependency) : AddDependencyOpts where
  isCrossPrefix := extractPrefix dep.issueId ≠ extractPrefix dep.dependsOnId

theorem applyAdd_returns {done done' : Store × List (String × String)}
    {add : Except GraphApplyErr (Option PlannedAdd)}
    (returns : (applyAdd c done add).Returns done') : (add = .ok none ∧ done' = done) ∨
      ∃ made, add = .ok (some made) ∧
        (done.1.addDependency c made.dep (addOpts made.dep)).Returns done'.1 ∧
        done'.2 = if made.dep.type.IsSchedulingEdge then done.2 ++ [(made.dep.issueId, made.dep.dependsOnId)]
          else done.2 := by
  obtain ⟨made, ok, rest⟩ := Call.returns_bind.mp returns
  have ok := Call.returns_ofExcept.mp ok
  cases made with
  | none => exact Or.inl ⟨ok, (Call.returns_pure.mp rest).symm⟩
  | some made =>
    obtain ⟨added, wrote, rest⟩ := Call.returns_bind.mp rest
    obtain rfl := Call.returns_pure.mp rest
    exact Or.inr ⟨made, ok, Call.returns_mapError wrote, rfl⟩

private theorem edge_append {pairs : List (String × String)} {u v : String} :
    Edge (pairs ++ [(u, v)]) = AddEdge (Edge pairs) u v := by
  funext a b
  simp [Edge, AddEdge]

/-- An edge is only added where it closes no cycle. -/
theorem Tracked.applyAdd {done done' : Store × List (String × String)}
    {add : Except GraphApplyErr (Option PlannedAdd)} (tracked : Tracked done)
    (returns : (applyAdd c done add).Returns done') : Tracked done' := by
  rcases applyAdd_returns returns with ⟨-, rfl⟩ | ⟨made, -, added, kept⟩
  · exact tracked
  · have related : ∀ x y, done'.1.Scheduling x y ↔ done.1.Scheduling x y ∨
        (made.dep.type.IsSchedulingEdge ∧ (made.dep.issueId, made.dep.dependsOnId) = (x, y)) :=
      addDependency_related added
    have before : ∀ pair ∈ done.2, done'.1.Scheduling pair.1 pair.2 :=
      fun pair held => (related _ _).mpr (Or.inl (tracked.stored pair held))
    by_cases scheduling : made.dep.type.IsSchedulingEdge
    · rw [if_pos scheduling] at kept
      constructor
      · rw [kept]
        intro pair held
        rcases List.mem_append.mp held with old | new
        · exact before pair old
        · rw [List.mem_singleton.mp new]
          exact (related _ _).mpr (Or.inr ⟨scheduling, rfl⟩)
      · rw [kept, edge_append, acyclic_addEdge tracked.acyclic]
        intro back
        apply (addDependency_returns added).1.cycle rfl scheduling
        apply wouldCreateSchedulingCycle_iff.mpr
        exact ReflTransGen.mono (fun a b held => tracked.stored (a, b) held) _ _ back
    · rw [if_neg scheduling] at kept
      refine ⟨?_, ?_⟩
      · rw [kept]
        exact before
      · rw [kept]
        exact tracked.acyclic

/-- When all edges are added, each of them is kept. -/
theorem applyAdds_returns {adds : List (Except GraphApplyErr (Option PlannedAdd))}
    {done done' : Store × List (String × String)}
    (returns : (adds.foldlM (applyAdd c) done).Returns done') :
    (∀ pair ∈ done.2, pair ∈ done'.2) ∧ (∀ add ∈ adds, ∃ made, add = .ok made) ∧
      ∀ made, .ok (some made) ∈ adds → made.dep.type.IsSchedulingEdge →
        (made.dep.issueId, made.dep.dependsOnId) ∈ done'.2 := by
  induction adds generalizing done with
  | nil =>
    obtain rfl := Call.returns_pure.mp returns
    simp
  | cons first rest ih =>
    rw [List.foldlM_cons] at returns
    obtain ⟨mid, head, tail⟩ := Call.returns_bind.mp returns
    obtain ⟨later, clean, kept⟩ := ih tail
    rcases applyAdd_returns head with ⟨rfl, rfl⟩ | ⟨made, rfl, -, grown⟩
    · refine ⟨later, List.forall_mem_cons.mpr ⟨⟨none, rfl⟩, clean⟩, ?_⟩
      intro made held scheduling
      rcases List.mem_cons.mp held with impossible | held
      · cases impossible
      · exact kept made held scheduling
    · refine ⟨?_, List.forall_mem_cons.mpr ⟨⟨some made, rfl⟩, clean⟩, ?_⟩
      · intro pair held
        apply later
        rw [grown]
        split
        · exact List.mem_append_left _ held
        · exact held
      · intro other held scheduling
        rcases List.mem_cons.mp held with same | held
        · cases same
          apply later
          rw [grown, if_pos scheduling]
          exact List.mem_append_right _ List.mem_cons_self
        · exact kept other held scheduling

end Store

/-! ## Refusals -/

namespace GraphApplyErr

/-- The error of an add, if it is one. -/
def added : GraphApplyErr → Option Err
  | .addParent _ e | .addEdge _ _ e | .addDep _ _ e => some e
  | _ => none

/-- The refusals because of a cycle. -/
def IsCycle : GraphApplyErr → Prop
  | .localCycle _ | .blockingCycle _ _ _ | .reversesParent _ _ _ | .finalCycle => True
  | e => e.added = some .dependencyCycle

/-- The refusals because of a path from a parent to its child. -/
def IsParentPath : GraphApplyErr → Prop
  | .parentPath _ _ _ => True
  | _ => False

/-- The refusals of an edge from an issue onto itself. -/
def IsSelf (e : GraphApplyErr) : Prop := ∃ id, e.added = some (.selfDependency id)

/-- The refusals that no edge is the reason of. -/
def IsPlain : GraphApplyErr → Prop
  | .plan _ | .create _ | .update _ _ | .duplicatesParent _ _ _ _ | .unresolvedSpawner _ _ _
  | .missingTarget _ _ => True
  | _ => False

end GraphApplyErr

namespace GraphApplyPlan
variable {plan : GraphApplyPlan} {placed : List (GraphApplyNode × String)} {s : Store}
  {c : Coordinator}

/-- A refusal is explained by what the plan declares. -/
structure Explained (plan : GraphApplyPlan) (e : GraphApplyErr) : Prop where
  cycle : e.IsCycle → ¬ Acyclic (plan.Declares DependencyType.IsSchedulingEdge)
  parentPath : e.IsParentPath → ¬ Acyclic (plan.Declares DependencyType.AffectsReadyWork)
  self : e.IsSelf → ∃ key, plan.Declares (fun _ => True) key key

theorem explained_of_plain {e : GraphApplyErr} (plain : e.IsPlain) : Explained plan e := by
  refine ⟨fun given => ?_, fun given => ?_, fun given => ?_⟩
  · cases e <;> cases plain
    all_goals cases given
  · cases e <;> cases plain
    all_goals cases given
  · obtain ⟨id, given⟩ := given
    cases e <;> cases plain
    all_goals cases given

/-- The nodes of the plan are new rows: no two of them have one id, and no edge of the store
starts at one. -/
structure Anew (plan : GraphApplyPlan) (placed : List (GraphApplyNode × String)) (s : Store) :
    Prop extends
    Placement plan placed where
  distinct : ∀ a ∈ plan.keys, ∀ b ∈ plan.keys, keyToId placed a = keyToId placed b → a = b
  unused : ∀ a ∈ plan.keys, ∀ p, ∀ d ∈ s.deps p, d.issueId ≠ keyToId placed a

namespace Anew

/-- A path between nodes of the plan, over pairs that it declares, is one of the plan. -/
theorem reaches (anew : Anew plan placed s) {r : String → String → Prop}
    {types : DependencyType → Prop} {a b : String}
    (follows : ∀ x ∈ plan.keys, ∀ y, r (keyToId placed x) y →
      ∃ z, plan.Declares types x z ∧ y = keyToId placed z)
    (source : a ∈ plan.keys) (target : b ∈ plan.keys)
    (path : ReflTransGen r (keyToId placed a) (keyToId placed b)) :
    ReflTransGen (plan.Declares types) a b := by
  have lifted : ∀ x, x ∈ plan.keys → ∀ y, r (keyToId placed x) y →
      ∃ z, z ∈ plan.keys ∧ plan.Declares types x z ∧ y = keyToId placed z := by
    intro x held y step
    obtain ⟨z, declares, same⟩ := follows x held y step
    obtain ⟨type, chosen, entry⟩ := declares
    exact ⟨z, (anew.keyed.entry entry).2, ⟨type, chosen, entry⟩, same⟩
  obtain ⟨z, held, reaches, same⟩ := reaches_lift lifted source path
  rw [anew.distinct b target z held same]
  exact reaches

private theorem dependencyRecords_nil (anew : Anew plan placed s) {follow : DependencyType → Prop}
    [DecidablePred follow]
    {a : String} (known : a ∈ plan.keys) : s.dependencyRecords follow (keyToId placed a) = [] := by
  rw [Store.dependencyRecords, List.map_eq_nil_iff, List.filter_eq_nil_iff]
  intro d held
  simp [anew.unused a known _ d held]

/-- What the walks follow from a node of the plan is what was planned. -/
theorem mem_plannedNext (anew : Anew plan placed s) {planned : List (String × String)}
    {follow types : DependencyType → Prop} [DecidablePred follow]
    (declared : ∀ pair ∈ planned, ∃ a b, plan.Declares types a b ∧
      pair = (keyToId placed a, keyToId placed b)) :
    ∀ x ∈ plan.keys, ∀ y, y ∈ s.plannedNext planned follow (keyToId placed x) →
      ∃ z, plan.Declares types x z ∧ y = keyToId placed z := by
  intro x known y held
  rw [Store.plannedNext, anew.dependencyRecords_nil known, List.append_nil] at held
  obtain ⟨pair, kept, rfl⟩ := List.mem_map.mp held
  obtain ⟨listed, source⟩ := List.mem_filter.mp kept
  obtain ⟨a, b, declares, rfl⟩ := declared pair listed
  obtain ⟨type, chosen, entry⟩ := declares
  rw [← anew.distinct a (anew.keyed.entry entry).1 x known (of_decide_eq_true source)]
  exact ⟨b, ⟨type, chosen, entry⟩, rfl⟩

end Anew

theorem AffectsReadyWork.parentChild : DependencyType.AffectsReadyWork .parentChild := by decide

private theorem mem_readyPairs (placement : Placement plan placed) :
    ∀ pair ∈ plan.readyPairs (keyToId placed), ∃ a b,
      plan.Declares DependencyType.AffectsReadyWork a b ∧
      pair = (keyToId placed a, keyToId placed b) := by
  intro pair held
  rcases List.mem_append.mp held with parent | edge
  · obtain ⟨a, b, entry, same⟩ := placement.mem_parentDepPairs.mp parent
    exact ⟨a, b, ⟨_, AffectsReadyWork.parentChild, mem_entries.mpr (Or.inl entry)⟩, same⟩
  · obtain ⟨e, kept, rfl⟩ := List.mem_map.mp edge
    obtain ⟨listed, kept⟩ := List.mem_filter.mp kept
    refine ⟨e.fromKey, e.toKey, ⟨e.depType, (of_decide_eq_true kept).1, ?_⟩,
      placement.pair_eq listed⟩
    exact mem_entries.mpr (Or.inr (Or.inl (mem_edgeEntries.mpr ⟨e, listed, rfl, rfl, rfl⟩)))

/-- A search that refuses what it was made for, if it finds a path. -/
theorem search_ensures {next : String → List String} {start goal : String} {e : GraphApplyErr}
    (reason : ReflTransGen (fun a b => b ∈ next a) start goal → Explained plan e) :
    (do
      let hasPath ← PathSearch.hasPath next start goal
      if hasPath then throw e :
      Call GraphApplyErr Unit).Ensures (fun _ => True) (Explained plan) := by
  constructor
  · exact fun _ _ => trivial
  · intro e' ends
    rcases Call.ends_bind_error_cases ends with ⟨n, run⟩ | ⟨hasPath, found, ends⟩
    · obtain ⟨_, -, same⟩ := Option.map_eq_some_iff.mp run
      cases same
    · cases hasPath with
      | false => cases (Call.ends_ofExcept (r := .ok ())).unique ends
      | true =>
        obtain rfl : e = e' := Except.error.inj (Call.ends_ofExcept.unique ends)
        exact reason (PathSearch.hasPath_sound found)

/-- A path from a parent to its child, with the step from the child to the parent, is a cycle. -/
theorem validateParentBlockingPaths_ensures (anew : Anew plan placed s) :
    (plan.validateParentBlockingPaths s (keyToId placed)).Ensures (fun _ => True)
    (Explained plan) := by
  apply Call.Ensures.foldlM (fun _ => True) _ _ trivial
  intro _ node held _
  apply Call.Ensures.ite
  · exact fun _ => Call.Ensures.pure trivial
  · intro resolved
    have given := anew.parentIn_given held (not_not.mp resolved).2
    have known := (anew.keyed.parents node held).2 given
    apply search_ensures
    intro path
    rw [GraphApplyNode.parentPair, (anew.parentIn_eq held given).1] at path
    have back :=
      anew.reaches (anew.mem_plannedNext (mem_readyPairs anew.toPlacement)) known (key_mem held) path
    refine ⟨by simp [GraphApplyErr.IsCycle, GraphApplyErr.added], fun _ acyclic => ?_,
      by simp [GraphApplyErr.IsSelf, GraphApplyErr.added]⟩
    apply acyclic node.key
    refine TransGen.head' ⟨.parentChild, AffectsReadyWork.parentChild, ?_⟩ back
    exact mem_entries.mpr (Or.inl (mem_parentEntries.mpr ⟨node, held, given, rfl, rfl, rfl⟩))

/-- A refusal because of a cycle is explained by a cycle. -/
theorem explained_of_cycle {e : GraphApplyErr} (named : e.IsCycle) (direct : e.added = none)
    {key : String}
    (cycle : TransGen (plan.Declares DependencyType.IsSchedulingEdge) key key) :
    Explained plan e := by
  refine ⟨fun _ acyclic => acyclic key cycle, fun given => ?_, fun given => ?_⟩
  · cases e <;> cases given
    cases named
  · obtain ⟨id, given⟩ := given
    rw [direct] at given
    cases given

theorem Declares.edge {edge : GraphApplyEdge} {types : DependencyType → Prop}
    (held : edge ∈ plan.edges)
    (chosen : types edge.depType) : plan.Declares types edge.fromKey edge.toKey :=
  ⟨edge.depType, chosen, mem_entries.mpr (Or.inr (Or.inl (mem_edgeEntries.mpr ⟨edge, held, rfl, rfl, rfl⟩)))⟩

private theorem mem_blockingEdges {ids : String → String} {item : GraphApplyEdge × Nat}
    (held : item ∈ plan.blockingEdges ids) :
    item.1 ∈ plan.edges ∧ item.1.depType.IsSchedulingEdge := by
  obtain ⟨listed, kept⟩ := List.mem_filter.mp held
  exact ⟨mem_edges_of_zipIdx listed, Or.inl (of_decide_eq_true kept).1⟩

private theorem validateBlockingCycles_ensures (anew : Anew plan placed s) :
    (plan.validateBlockingCycles s (keyToId placed)).Ensures (fun _ => True) (Explained plan) := by
  unfold validateBlockingCycles
  extract_lets checks
  split
  · next edge i found =>
    obtain ⟨held, scheduling⟩ := mem_blockingEdges (List.mem_of_find?_eq_some found)
    obtain ⟨-, -, source, target⟩ := anew.keyed.edges edge held
    have same : (edge.pair (keyToId placed)).1 = (edge.pair (keyToId placed)).2 := by
      simpa using List.find?_some found
    rw [anew.pair_eq held] at same
    have loop := Declares.edge held scheduling
    rw [← anew.distinct _ source _ target same] at loop
    exact Call.Ensures.throw (explained_of_cycle trivial rfl (.single loop))
  · apply Call.Ensures.foldlM (fun _ => True) _ _ trivial
    intro _ item listed _
    obtain ⟨held, scheduling⟩ := mem_blockingEdges listed
    obtain ⟨-, -, source, target⟩ := anew.keyed.edges item.1 held
    apply search_ensures
    intro path
    rw [anew.pair_eq held] at path
    have declared : ∀ pair ∈ checks.map (fun item => item.1.pair (keyToId placed)),
        ∃ a b, plan.Declares DependencyType.IsSchedulingEdge a b ∧ pair = (keyToId placed a, keyToId placed b) := by
      intro pair planned
      obtain ⟨other, listed, rfl⟩ := List.mem_map.mp planned
      obtain ⟨held, scheduling⟩ := mem_blockingEdges listed
      exact ⟨_, _, Declares.edge held scheduling, anew.pair_eq held⟩
    have back := anew.reaches (anew.mem_plannedNext declared) target source path
    exact explained_of_cycle trivial rfl (TransGen.head' (Declares.edge held scheduling) back)

/-- An edge that blocks the other way round closes a cycle with the parent key. -/
theorem checkParentPairs_error (anew : Anew plan placed s) {item : GraphApplyEdge × Nat}
    {e : GraphApplyErr}
    (listed : item ∈ plan.edges.zipIdx)
    (refused : plan.checkParentPairs (keyToId placed) item = .error e) :
    Explained plan e := by
  have held := mem_edges_of_zipIdx listed
  unfold checkParentPairs at refused
  extract_lets pair at refused
  split at refused
  · cases refused
    exact explained_of_plain trivial
  · split at refused
    · next reverse =>
      cases refused
      obtain ⟨a, b, entry, same⟩ := anew.mem_parentDepPairs.mp reverse.1
      have known := anew.keyed.entry (mem_entries.mpr (Or.inl entry))
      obtain ⟨-, -, source, target⟩ := anew.keyed.edges item.1 held
      rw [show pair = _ from anew.pair_eq held, Prod.swap_prod_mk, Prod.mk.injEq] at same
      have edge : plan.Declares DependencyType.IsSchedulingEdge item.1.fromKey item.1.toKey :=
        Declares.edge held (Or.inl reverse.2)
      rw [anew.distinct _ target a known.1 same.1, anew.distinct _ source b known.2 same.2] at edge
      have parent : plan.Declares DependencyType.IsSchedulingEdge a b :=
        ⟨.parentChild, Or.inr rfl, mem_entries.mpr (Or.inl entry)⟩
      exact explained_of_cycle trivial rfl ((TransGen.single parent).tail edge)
    · cases refused

/-! ## The run -/

/-- The scheduling edges that start at nodes of the plan are entries, and so are the pairs kept. -/
structure Within (plan : GraphApplyPlan) (placed : List (GraphApplyNode × String))
    (done : Store × List (String × String)) : Prop where
  stored : ∀ a ∈ plan.keys, ∀ y, done.1.Scheduling (keyToId placed a) y →
    ∃ b, plan.Declares DependencyType.IsSchedulingEdge a b ∧ y = keyToId placed b
  kept : ∀ pair ∈ done.2, ∃ a b, plan.Declares DependencyType.IsSchedulingEdge a b ∧
    pair = (keyToId placed a, keyToId placed b)

theorem Anew.within (anew : Anew plan placed s) : Within plan placed (s, []) := by
  constructor
  · rintro a known y ⟨p, d, held, -, key⟩
    exact absurd (congrArg Prod.fst key) (anew.unused a known p d held)
  · simp

/-- The errors of the planned adds wrap those of the store. -/
theorem blame_added (placement : Placement plan placed) {made : PlannedAdd}
    (held : .ok (some made) ∈ plan.adds placed) (e : Err) : (made.blame e).added = some e := by
  rcases mem_adds.mp held with
    ⟨parent, listed, same⟩ | ⟨item, -, ok⟩ | ⟨item, listed, dep, inline, ok⟩
  · cases same
    obtain ⟨item, -, -, rfl⟩ := mem_parentAdds.mp listed
    rfl
  · rcases (edgeAdd_ok ok).2 with ⟨-, none⟩ | ⟨_, some_, -⟩
    · cases none
    · cases some_
      rfl
  · have known := placement.keyed.deps item.1 (placement.node_mem listed) dep inline
    obtain ⟨_, some_, -⟩ := depAdd_ok ok (placement.keyToId_ne known)
    cases some_
    rfl

private theorem explained_of_added {e : GraphApplyErr} {inner : Err} (added : e.added = some inner)
    (cycle : inner = .dependencyCycle → ¬ Acyclic (plan.Declares DependencyType.IsSchedulingEdge))
    (self : ∀ id, inner = .selfDependency id → ∃ key, plan.Declares (fun _ => True) key key) :
    Explained plan e := by
  refine ⟨fun given => cycle ?_, fun given => ?_, ?_⟩
  · cases e <;> cases added
    all_goals exact Option.some.inj given
  · cases e <;> cases added
    all_goals cases given
  · rintro ⟨id, same⟩
    exact self id (Option.some.inj (added.symm.trans same))

private theorem explained_of_built {pair : String × String} {type : DependencyType}
    {gate spawnerKey spawnerId : String}
    {known : List String} {ids : String → String} {e : GraphApplyErr}
    (refused : newGraphEdgeDependency pair type gate spawnerKey spawnerId known ids = .error e) :
    Explained plan e := by
  unfold newGraphEdgeDependency at refused
  split at refused
  · cases refused
  · split at refused
    · cases refused
      exact explained_of_plain trivial
    · cases refused

/-- An entry that cannot even be planned. -/
theorem explained_of_unplanned (anew : Anew plan placed s) {e : GraphApplyErr}
    (held : .error e ∈ plan.adds placed) :
    Explained plan e := by
  rcases mem_adds.mp held with
    ⟨_, -, same⟩ | ⟨item, listed, refused⟩ | ⟨item, listed, dep, inline, refused⟩
  · cases same
  · unfold edgeAdd at refused
    extract_lets ids edge pair at refused
    cases checked : plan.checkParentPairs ids item with
    | error e' =>
      rw [checked] at refused
      cases refused
      exact checkParentPairs_error anew listed checked
    | ok _ =>
      rw [checked] at refused
      change (if pair ∈ plan.parentDepPairs ids then pure none else _) = _ at refused
      split at refused
      · cases refused
      · cases built : newGraphEdgeDependency pair edge.depType edge.gate edge.spawnerKey edge.spawnerId
          plan.keys ids with
        | error e' =>
          rw [built] at refused
          cases refused
          exact explained_of_built built
        | ok dep =>
          rw [built] at refused
          cases refused
  · have named := anew.keyToId_ne (anew.keyed.deps item.1 (anew.node_mem listed) dep inline)
    rw [depAdd, if_neg named, if_neg named] at refused
    cases built : newGraphEdgeDependency (item.2, keyToId placed dep.target)
      (graphApplyDependencyType dep.type) "" "" ""
        [] fun _ => "" with
    | error e' =>
      rw [built] at refused
      cases refused
      exact explained_of_built built
    | ok made =>
      rw [built] at refused
      cases refused

/-- A refused edge would have closed a cycle of the plan, or leads from a node to itself. -/
theorem explained_of_refused (anew : Anew plan placed s) {done : Store × List (String × String)}
    (within : Within plan placed done) {made : PlannedAdd}
    (listed : .ok (some made) ∈ plan.adds placed) {e : Err}
    (justified : done.1.Justified made.dep e) : Explained plan (made.blame e) := by
  obtain ⟨a, b, entry, source, target⟩ := anew.writes_of_mem listed
  have known := anew.keyed.entry entry
  rw [Store.Justified, source, target] at justified
  apply explained_of_added (blame_added anew.toPlacement listed e)
  · rintro same acyclic
    obtain ⟨scheduling, path⟩ := justified.1 same
    have back := anew.reaches within.stored known.2 known.1 path
    exact acyclic a (TransGen.head' ⟨_, scheduling, entry⟩ back)
  · intro id same
    have loop := anew.distinct a known.1 b known.2 (justified.2 id same)
    rw [← loop] at entry
    exact ⟨a, _, trivial, entry⟩

/-- One edge. -/
theorem applyAdd_ensures (anew : Anew plan placed s) {done : Store × List (String × String)}
    {add : Except GraphApplyErr (Option PlannedAdd)} (listed : add ∈ plan.adds placed)
    (within : Within plan placed done) :
    (Store.applyAdd c done add).Ensures (Within plan placed) (Explained plan) := by
  constructor
  · intro done' returns
    rcases Store.applyAdd_returns returns with ⟨-, rfl⟩ | ⟨made, rfl, added, kept⟩
    · exact within
    · obtain ⟨a, b, entry, source, target⟩ := anew.writes_of_mem listed
      have known := anew.keyed.entry entry
      constructor
      · intro x held y step
        rcases (Store.addDependency_related added _ _).mp step with old | ⟨scheduling, same⟩
        · exact within.stored x held y old
        · rw [source, target, Prod.mk.injEq] at same
          rw [← anew.distinct a known.1 x held same.1]
          exact ⟨b, ⟨_, scheduling, entry⟩, same.2.symm⟩
      · intro pair held
        rw [kept] at held
        split at held
        · next scheduling =>
          rcases List.mem_append.mp held with old | new
          · exact within.kept pair old
          · rw [List.mem_singleton.mp new, source, target]
            exact ⟨a, b, ⟨_, scheduling, entry⟩, rfl⟩
        · exact within.kept pair held
  · intro e ends
    rcases Call.ends_bind_error_cases ends with unplanned | ⟨made, planned, ends⟩
    · rw [Call.ends_ofExcept.unique unplanned] at listed
      exact explained_of_unplanned anew listed
    · have planned := Call.returns_ofExcept.mp planned
      rw [planned] at listed
      cases made with
      | none => cases (Call.ends_ofExcept (r := .ok done)).unique ends
      | some made =>
        rcases Call.ends_bind_error_cases ends with refused | ⟨t, -, ends⟩
        · obtain ⟨inner, unwritten, rfl⟩ := Call.ends_mapError_error refused
          exact explained_of_refused anew within listed (Store.addDependency_refused rfl unwritten)
        · cases (Call.ends_ofExcept (r := .ok _)).unique ends

/-- The gate at the end finds only cycles of the plan. -/
theorem explained_of_gate (anew : Anew plan placed s) {done : Store × List (String × String)}
    (within : Within plan placed done)
    (found : CycleThroughEdges (done.1.edges DependencyType.IsSchedulingEdge cycleDetectionTables) done.2) :
    Explained plan .finalCycle := by
  obtain ⟨pair, held, -, -, cycle⟩ := found
  obtain ⟨a, b, ⟨type, scheduling, entry⟩, rfl⟩ := within.kept pair held
  have known := anew.keyed.entry entry
  have back : ReflTransGen (plan.Declares DependencyType.IsSchedulingEdge) b a := by
    rcases cycle with same | reaches
    · rw [anew.distinct a known.1 b known.2 same]
    · exact anew.reaches within.stored known.2 known.1
        (Store.wouldCreateSchedulingCycle_iff.mp reaches)
  exact explained_of_cycle trivial rfl (TransGen.head' ⟨type, scheduling, entry⟩ back)

/-- Every refusal of the edges is explained by the plan. -/
theorem applyEdges_ensures (anew : Anew plan placed s) :
    (s.applyEdges c plan placed).Ensures (fun _ => True) (Explained plan) := by
  unfold Store.applyEdges
  apply Call.Ensures.bind (validateParentBlockingPaths_ensures anew)
  intro _ _
  apply Call.Ensures.bind (validateBlockingCycles_ensures anew)
  intro _ _
  have checked : (Call.ofExcept (plan.edges.zipIdx.forM (plan.checkParentPairs (keyToId placed)))).Ensures
      (fun _ => True) (Explained plan) := by
    refine ⟨fun _ _ => trivial, ?_⟩
    intro e ends
    obtain ⟨item, listed, refused⟩ := exists_of_forM_error (Call.ends_ofExcept.unique ends)
    exact checkParentPairs_error anew listed refused
  apply Call.Ensures.bind checked
  intro _ _
  apply Call.Ensures.bind (Call.Ensures.foldlM (Within plan placed) _
    (fun done add listed within => applyAdd_ensures anew listed within) anew.within)
  intro done within
  apply Call.Ensures.guard
  · exact fun found => explained_of_gate anew within found
  · exact fun _ => Call.Ensures.pure trivial

/-- A plan whose edges are all accepted declares no cycle. -/
theorem acyclic_of_applyEdges (placement : Placement plan placed) {t : Store}
    (returns : (s.applyEdges c plan placed).Returns t) :
    Acyclic (plan.Declares DependencyType.IsSchedulingEdge) := by
  unfold Store.applyEdges at returns
  obtain ⟨_, -, returns⟩ := Call.returns_bind.mp returns
  obtain ⟨_, -, returns⟩ := Call.returns_bind.mp returns
  obtain ⟨_, -, returns⟩ := Call.returns_bind.mp returns
  obtain ⟨done, added, -⟩ := Call.returns_bind.mp returns
  have start : Store.Tracked (s, []) := ⟨by simp, fun a cycle => by
    obtain ⟨b, edge, -⟩ := TransGen.head'_iff.mp cycle
    exact absurd edge List.not_mem_nil⟩
  have tracked := Call.inv_of_foldlM Store.Tracked
    (fun done add _ tracked done' returns => tracked.applyAdd returns) start added
  obtain ⟨-, clean, kept⟩ := Store.applyAdds_returns added
  apply tracked.acyclic.comap (keyToId placed)
  rintro a b ⟨type, scheduling, entry⟩
  obtain ⟨made, listed, rfl, source, target⟩ := placement.mem_of_entry clean entry
  have held := kept made listed scheduling
  rw [source, target] at held
  exact held

end GraphApplyPlan

end Beads
