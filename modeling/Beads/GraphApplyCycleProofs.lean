import Beads.GraphApplyEdgeProofs

/-! Cycles of a graph plan, from its validation to the end of its transaction. -/
namespace Beads
open Lib Lib.Graph Relation

/-! ## Creating the nodes -/

namespace Store
variable {s t : Store} {c : Coordinator} {ctx : BatchContext}

private theorem insertIssueIfNew_not_stale {opts : BatchCreateOptions} {p : Plane} {issue : Row}
    {r : Store × Bool}
    (fresh : opts.rejectStaleUpserts = false)
    (returns : (s.insertIssueIfNew opts p issue).Returns r) : r.2 = false := by
  unfold insertIssueIfNew at returns
  split at returns
  · rw [← Call.returns_pure.mp returns]
  · split at returns
    · rw [← Call.returns_pure.mp returns]
    · split at returns
      · exact absurd returns Call.not_returns_throw
      · split at returns
        · next stale => exact absurd (fresh.symm.trans stale.1) (by simp)
        · rw [← Call.returns_pure.mp returns]

/-- Without the stale guard every issue of a batch is accepted, under an id. -/
theorem createIssue_accepted {issue : NewIssue} {r : Store × Option NewIssue}
    (unguarded : ctx.opts.rejectStaleUpserts = false)
    (returns : (s.createIssue ctx issue).Returns r) :
    ∃ made, r.2 = some made ∧ made.row.id ≠ "" ∧ made.dependencies = issue.dependencies := by
  unfold createIssue at returns
  obtain ⟨prepared, -, returns⟩ := Call.returns_bind.mp returns
  obtain ⟨id, assigned, returns⟩ := Call.returns_bind.mp returns
  have named := assignCreateIssueId_named (Call.returns_ofExcept.mp assigned)
  extract_lets created insert checked at returns
  obtain ⟨-, returns⟩ := Call.returns_guard returns
  simp only [checked] at returns
  split at returns
  · split at returns
    · rw [← Call.returns_pure.mp returns]
      exact ⟨created, rfl, named, rfl⟩
    · obtain ⟨_, refused, -⟩ := Call.returns_bind.mp returns
      exact absurd refused Call.not_returns_throw
  · obtain ⟨written, inserted, returns⟩ := Call.returns_bind.mp returns
    rw [← Call.returns_pure.mp returns]
    dsimp only
    rw [insertIssueIfNew_not_stale unguarded inserted]
    exact ⟨created, rfl, named, rfl⟩

/-- The issues of a batch without edges, after their rows were written. -/
structure LandedBare (batch issues : List NewIssue) : Prop where
  length : issues.length = batch.length
  named : ∀ issue ∈ issues, issue.row.id ≠ ""
  bare : ∀ issue ∈ issues, issue.dependencies = []

private theorem createRows_bare {batch done : List NewIssue} {sofar : List NewIssue}
    {r : Store × List NewIssue}
    (unguarded : ctx.opts.rejectStaleUpserts = false)
    (bare : ∀ issue ∈ batch, issue.dependencies = []) (landed : LandedBare done sofar)
    (returns : (batch.foldlM (fun ((t, accepted) : Store × List NewIssue) issue => do
      let (written, created) ← t.createIssue ctx issue
      return (written, accepted ++ created.toList)) (s,
        sofar)).Returns r) : LandedBare (done ++ batch) r.2 := by
  induction batch generalizing s done sofar with
  | nil =>
    rw [← Call.returns_pure.mp returns, List.append_nil]
    exact landed
  | cons first rest ih =>
    rw [List.foldlM_cons] at returns
    obtain ⟨mid, head, tail⟩ := Call.returns_bind.mp returns
    obtain ⟨written, created, step⟩ := Call.returns_bind.mp head
    obtain ⟨made, accepted, named, kept⟩ := createIssue_accepted unguarded created
    have same := Call.returns_pure.mp step
    rw [accepted] at same
    obtain rfl : (written.1, sofar ++ [made]) = mid := same
    have next : LandedBare (done ++ [first]) (sofar ++ [made]) := by
      refine ⟨by simp [landed.length], ?_, ?_⟩
      · intro issue held
        rcases List.mem_append.mp held with old | new
        · exact landed.named issue old
        · rw [List.mem_singleton.mp new]
          exact named
      · intro issue held
        rcases List.mem_append.mp held with old | new
        · exact landed.bare issue old
        · rw [List.mem_singleton.mp new, kept]
          exact bare first List.mem_cons_self
    have later := ih (fun issue held => bare issue (List.mem_cons_of_mem _ held)) next tail
    rwa [List.append_assoc, List.singleton_append] at later

/-- A batch without edges has none that cross the planes. -/
theorem filterMixedBucketDependencies_bare {opts : BatchCreateOptions} {batch : List NewIssue}
    (strict : opts.skipDependencyValidationErrors = false)
    (bare : ∀ issue ∈ batch, issue.dependencies = []) :
    filterMixedBucketDependencies opts batch = .ok batch := by
  unfold filterMixedBucketDependencies
  split
  · rfl
  · apply mapM_eq_self
    intro issue held
    rw [strict, bare issue held]
    rfl

private theorem landBatch_bare {batch : List NewIssue} {r : Store × List NewIssue}
    (unguarded : ctx.opts.rejectStaleUpserts = false)
    (strict : ctx.opts.skipDependencyValidationErrors = false)
    (bare : ∀ issue ∈ batch, issue.dependencies = [])
    (returns : (s.landBatch ctx batch).Returns r) :
    LandedBare batch r.2 := by
  unfold landBatch at returns
  obtain ⟨issues, filtered, returns⟩ := Call.returns_bind.mp returns
  have same := Call.returns_ofExcept.mp filtered
  rw [filterMixedBucketDependencies_bare strict bare] at same
  cases same
  have none : LandedBare [] [] := ⟨rfl, by simp, by simp⟩
  exact createRows_bare unguarded bare none returns

private theorem persistDependencies_bare {opts : BatchCreateOptions} {issues : List NewIssue}
    (bare : ∀ issue ∈ issues, issue.dependencies = []) :
    s.persistDependencies c opts issues = pure (s, []) := by
  have none : s.pendingDependencies issues = [] := by
    rw [pendingDependencies, List.flatMap_eq_nil_iff]
    intro issue held
    rw [bare issue held]
    rfl
  rw [persistDependencies, none]
  rfl

/-- The nodes of a plan are created under ids, and no edge changes. -/
theorem createPlanned_returns {plan : GraphApplyPlan} {r : Store × List String}
    (returns : (s.createPlanned ctx c plan).Returns r) :
    r.1.deps = s.deps ∧ r.2.length = plan.nodes.length ∧ ∀ id ∈ r.2, id ≠ "" := by
  unfold createPlanned at returns
  extract_lets ctx batch at returns
  obtain ⟨⟨rows, issues⟩, wrote, returns⟩ := Call.returns_bind.mp returns
  obtain ⟨created, batched, returns⟩ := Call.returns_bind.mp returns
  obtain rfl := Call.returns_pure.mp returns
  have bare : ∀ issue ∈ batch, issue.dependencies = [] := by
    intro issue held
    obtain ⟨node, -, rfl⟩ := List.mem_map.mp held
    rfl
  have landed := landBatch_bare rfl rfl bare wrote
  refine ⟨?_, ?_, ?_⟩
  · obtain ⟨⟨written, ids⟩, first, recomputed⟩ := Call.returns_bind.mp batched
    obtain ⟨⟨rows', issues'⟩, wrote', rest⟩ := Call.returns_bind.mp first
    obtain ⟨⟨persisted, _⟩, kept, rest⟩ := Call.returns_bind.mp rest
    have landed' := landBatch_bare rfl rfl bare wrote'
    rw [persistDependencies_bare landed'.bare] at kept
    have same := (Prod.mk.inj (Call.returns_pure.mp kept)).1
    have same' := (Prod.mk.inj (Call.returns_pure.mp rest)).1
    have cleared := recomputeIsBlocked_cleared recomputed
    calc created.deps = written.deps := show created.cleared.deps = written.cleared.deps by rw [cleared]
      _ = rows'.deps := by rw [← same', ← same]
      _ = s.deps := (landBatch_settles.of_returns wrote').deps
  · rw [List.length_map, landed.length, List.length_map]
  · intro id held
    obtain ⟨issue, listed, rfl⟩ := List.mem_map.mp held
    exact landed.named issue listed

private theorem writeUpdates_deps {cfg : Config} {n : Node} {old : Row} {u : IssueUpdates}
    (returns : (s.writeUpdates cfg n old u).Returns t) : t.deps = s.deps := by
  unfold writeUpdates at returns
  extract_lets written at returns
  split at returns
  · rw [← Call.returns_pure.mp returns]
    rfl
  · split at returns
    · rw [← Call.returns_pure.mp returns]
      rfl
    · have cleared := recomputeIsBlocked_cleared returns
      exact show t.cleared.deps = written.cleared.deps by rw [cleared]

private theorem updateIssue_deps {cfg : Config} {id : String} {updates : IssueUpdates}
    (returns : (s.updateIssue cfg c id updates).Returns t) : t.deps = s.deps := by
  unfold updateIssue at returns
  split at returns
  · exact absurd returns Call.not_returns_throw
  · next old found =>
    obtain ⟨⟨⟩, -, rest⟩ := Call.returns_bind.mp returns
    extract_lets u at rest
    split at rest
    · rw [← Call.returns_pure.mp rest]
    · have finish : ∀ v : Store, v.deps = s.deps → (do
          u.validateScalar cfg
          if ∃ name ∈ u.other, name ∉ IssueUpdates.allowedOther then throw Err.invalidField
          v.writeUpdates cfg (s.routed id, id) old u).Returns t → t.deps = s.deps := by
        intro v same written
        obtain ⟨_, -, written⟩ := Call.returns_bind.mp written
        obtain ⟨-, written⟩ := Call.returns_guard written
        exact (writeUpdates_deps written).trans same
      split at rest
      · obtain ⟨checked, policy, rest⟩ := Call.returns_bind.mp rest
        exact finish checked (enforceClosePolicy_settles.of_returns policy).2 rest
      · obtain ⟨checked, same, rest⟩ := Call.returns_bind.mp rest
        obtain rfl := Call.returns_pure.mp same
        exact finish _ rfl rest

private theorem updatePlanned_deps {cfg : Config} {updates : GraphApplyNode → Option IssueUpdates}
    {placed : List (GraphApplyNode × String)}
    (returns : (s.updatePlanned cfg c updates placed).Returns t) :
    t.deps = s.deps := by
  apply Call.inv_of_foldlM (fun u : Store => u.deps = s.deps) _ rfl returns
  intro u item _ same v step
  split at step
  · rw [← Call.returns_pure.mp step]
    exact same
  · exact (updateIssue_deps (Call.returns_mapError step)).trans same

/-- The nodes of the plan come out as new rows of their own. -/
def CreatesAnew (s : Store) (ctx : BatchContext) (c : Coordinator) (plan : GraphApplyPlan) : Prop :=
  ∀ r, (s.createPlanned ctx c plan).Returns r → r.2.Nodup ∧ ∀ id ∈ r.2, ∀ p, ¬ s.Holds (p, id)

end Store

/-! ## Validation and application -/

namespace GraphApplyPlan
variable {plan : GraphApplyPlan} {s : Store} {ctx : BatchContext} {c : Coordinator}
  {r : Store × List String}

private theorem placement_of_created (keyed : plan.Keyed) (nodup : plan.keys.Nodup)
    (unnamed : "" ∉ plan.keys)
    (created : (s.createPlanned ctx c plan).Returns r) : Placement plan (plan.nodes.zip r.2) := by
  obtain ⟨-, length, named⟩ := Store.createPlanned_returns created
  refine ⟨keyed, nodup, unnamed, List.map_fst_zip length.ge, ?_⟩
  intro item held
  exact named item.2 (List.of_mem_zip held).2

/-- New rows have no edges, whatever is stored beside them. -/
theorem anew_of_created (placement : Placement plan (plan.nodes.zip r.2))
    (created : (s.createPlanned ctx c plan).Returns r) (keys : s.ForeignKeys)
    (anew : s.CreatesAnew ctx c plan)
    {t : Store} (same : t.deps = s.deps) : Anew plan (plan.nodes.zip r.2) t := by
  obtain ⟨-, length, -⟩ := Store.createPlanned_returns created
  obtain ⟨distinct, new⟩ := anew r created
  have item_of : ∀ a ∈ plan.keys, ∃ item ∈ plan.nodes.zip r.2, item.1.key = a ∧
      keyToId (plan.nodes.zip r.2) a = item.2 := by
    intro a known
    obtain ⟨node, held, rfl⟩ := List.mem_map.mp known
    obtain ⟨item, listed, rfl⟩ := placement.exists_item held
    exact ⟨item, listed, rfl, placement.keyToId_eq listed⟩
  refine { placement with distinct := ?_, unused := ?_ }
  · intro a left b right one
    obtain ⟨first, listed, rfl, id⟩ := item_of a left
    obtain ⟨second, listed', rfl, id'⟩ := item_of b right
    rw [← List.map_snd_zip length.le] at distinct
    rw [List.inj_on_of_nodup_map distinct listed listed' (id.symm.trans (one.trans id'))]
  · intro a known p d held source
    obtain ⟨item, listed, -, id⟩ := item_of a known
    rw [same] at held
    apply new item.2 (List.of_mem_zip listed).2 p
    rw [← id, ← source]
    exact (keys p d held).1

private theorem updatePlanned_ensures {cfg : Config}
    {updates : GraphApplyNode → Option IssueUpdates} {placed : List (GraphApplyNode × String)} :
    (s.updatePlanned cfg c updates placed).Ensures (fun t => t.deps = s.deps) (Explained plan) := by
  have ensures : (s.updatePlanned cfg c updates placed).Ensures (fun _ => True)
      (Explained plan) := by
    apply Call.Ensures.foldlM (fun _ => True) _ _ trivial
    intro t item _ _
    split
    · exact Call.Ensures.pure trivial
    · apply Call.Ensures.mapError
      exact ⟨fun _ _ => trivial, fun e _ => explained_of_plain trivial⟩
  exact ⟨fun t returns => Store.updatePlanned_deps returns, ensures.2⟩

end GraphApplyPlan

/-- The validation of a plan looks for cycles in the parent keys and the blocking edges. What it
does not look at is left to the transaction: a plan that declares a cycle is never applied, and
one whose nodes are new is refused for a cycle only if it declares one. -/
theorem graphApply_cycles (plan : GraphApplyPlan) (keyed : plan.Keyed) (issueExists : String → Bool)
    (valid : (plan.validate issueExists).Returns ()) :
    Acyclic plan.Local ∧ ∀ (s : Store) (ctx : BatchContext) (c : Coordinator),
      (∀ result, (s.executeGraphApply ctx c plan).Returns result →
        Acyclic (plan.Declares DependencyType.IsSchedulingEdge)) ∧
      (s.ForeignKeys → s.CreatesAnew ctx c plan →
        ∀ e, (s.executeGraphApply ctx c plan).Ends (.error e) →
        plan.Explained e) := by
  obtain ⟨_, checked, -⟩ := Call.returns_bind.mp valid
  obtain ⟨nodup, unnamed, cycles⟩ := GraphApplyPlan.validatePlan_returns checked
  refine ⟨GraphApplyPlan.validateLocalCycles_returns keyed unnamed (fun _ => List.mem_reverse) cycles, ?_⟩
  intro s ctx c
  constructor
  · intro result returns
    obtain ⟨r, created, rest⟩ := Call.returns_bind.mp returns
    have placement :=
      GraphApplyPlan.placement_of_created keyed nodup unnamed (Call.returns_mapError created)
    obtain ⟨merged, -, rest⟩ := Call.returns_bind.mp rest
    obtain ⟨linked, applied, -⟩ := Call.returns_bind.mp rest
    exact GraphApplyPlan.acyclic_of_applyEdges placement applied
  · intro keys anew
    suffices ensures :
        (s.executeGraphApply ctx c plan).Ensures (fun _ => True) plan.Explained from ensures.2
    have creates : ((s.createPlanned ctx c plan).mapError .create).Ensures
        (fun r => (s.createPlanned ctx c plan).Returns r) plan.Explained :=
      ⟨fun r returns => Call.returns_mapError returns, fun e ends => by
        obtain ⟨inner, -, rfl⟩ := Call.ends_mapError_error ends
        exact GraphApplyPlan.explained_of_plain trivial⟩
    apply Call.Ensures.bind creates
    intro r created
    have placement := GraphApplyPlan.placement_of_created keyed nodup unnamed created
    apply Call.Ensures.bind GraphApplyPlan.updatePlanned_ensures
    intro merged same
    have same := same.trans (Store.createPlanned_returns created).1
    apply Call.Ensures.bind
      (GraphApplyPlan.applyEdges_ensures (GraphApplyPlan.anew_of_created placement created keys anew same))
    intro linked _
    apply Call.Ensures.bind GraphApplyPlan.updatePlanned_ensures
    exact fun _ _ => Call.Ensures.pure trivial

/-- Two nodes, the first of which is blocked by the second. -/
def pairPlan : GraphApplyPlan where
  nodes := [{ key := "a", title := "first", row := { id := "bd-a" } },
    { key := "b", title := "second", row := { id := "bd-b" } }]
  edges := [{ fromKey := "a", toKey := "b" }]

/-- Two nodes that name each other as inline dependencies. -/
def inlineCycle : GraphApplyPlan where
  nodes := [{ key := "a", title := "first", row := { id := "bd-a" }, deps := [{ target := "b" }] },
    { key := "b", title := "second", row := { id := "bd-b" }, deps := [{ target := "a" }] }]

/-- The context of a database with the prefix `bd`. -/
def bdContext : BatchContext where configPrefix := "bd"

theorem graphApply_cycles_pairPlan :
    Acyclic pairPlan.Local ∧ ∀ e,
      (Store.empty.executeGraphApply bdContext Store.oneShard pairPlan).Ends (.error e) →
      pairPlan.Explained e := by
  have keyed : pairPlan.Keyed := ⟨by decide, by decide, by decide⟩
  have valid : (pairPlan.validate fun _ => false).Returns () := ⟨4, by decide +kernel⟩
  have found := graphApply_cycles pairPlan keyed (fun _ => false) valid
  refine ⟨found.1, (found.2 Store.empty bdContext Store.oneShard).2 ?_ ?_⟩
  · exact fun p d held => absurd held List.not_mem_nil
  · intro r returns
    obtain ⟨r', returns', ids⟩ :=
      Call.returns_of_value? (n := 8) (p := fun r => r.2 = ["bd-a", "bd-b"])
      (c := Store.empty.createPlanned bdContext Store.oneShard pairPlan) (by decide +kernel)
    obtain rfl : r = r' := Except.ok.inj (returns.unique returns')
    rw [ids]
    refine ⟨by decide, ?_⟩
    rintro id - p ⟨row, held, -⟩
    exact absurd held List.not_mem_nil

theorem inlineCycle_refused : inlineCycle.Keyed ∧ (inlineCycle.validate fun _ => false).Returns () ∧
    ¬ Acyclic (inlineCycle.Declares DependencyType.IsSchedulingEdge) ∧
      ∃ e, (Store.empty.executeGraphApply bdContext Store.oneShard inlineCycle).Ends (.error e) ∧
        e.IsCycle := by
  refine ⟨⟨by decide, by decide, by decide⟩, ⟨4, by decide +kernel⟩, ?_, ?_⟩
  · intro acyclic
    have there : inlineCycle.Declares DependencyType.IsSchedulingEdge "a" "b" :=
      ⟨.blocks, by decide, by decide⟩
    have back : inlineCycle.Declares DependencyType.IsSchedulingEdge "b" "a" :=
      ⟨.blocks, by decide, by decide⟩
    exact acyclic "a" ((TransGen.single there).tail back)
  · exact ⟨.addDep "b" "a" .dependencyCycle, Call.ends_of_error? (n := 8) (by decide +kernel), rfl⟩

end Beads
