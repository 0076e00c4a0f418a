import Beads.CreateProofs
import Beads.DependencyEditor

/-! Every sequence of calls keeps the scheduling graph acyclic. A checked edge is
inserted only if its target does not reach its source; a bulk request inserts
edges that may close a cycle, but every new edge is among the pairs of the gate
at its end; removals and deletions only take edges away. -/
namespace Beads
open Lib Lib.Graph Relation

namespace Store
variable {s t u : Store} {c : Coordinator}

/-! ## Single edges -/

private theorem addDependency_scheduling {dep : Dependency} {opts : AddDependencyOpts}
    (acyclic : Acyclic s.Scheduling) (checked : opts.skipCycleCheck = false)
    (both : opts.depTables = [])
    (returns : (s.addDependency c dep opts).Returns t) : Acyclic t.Scheduling := by
  obtain ⟨validated, ⟨d, -, -, -, rfl⟩ | ⟨u, added⟩⟩ := addDependency_returns returns
  · rwa [Scheduling, setMetadata_related]
  · rw [Scheduling, related_of_cleared added.cleared]
    refine added.inserted.acyclic acyclic fun scheduling reaches => ?_
    have apart := validated.cycle checked scheduling
    rw [checkTables, if_pos both, wouldCreateSchedulingCycle_iff] at apart
    exact apart (depTarget_id ▸ reaches)

private theorem removeDependency_scheduling {issueId dependsOnId : String}
    (acyclic : Acyclic s.Scheduling)
    (returns : (s.removeDependency issueId dependsOnId).Returns t) : Acyclic t.Scheduling := by
  unfold removeDependency at returns
  extract_lets p at returns
  split at returns
  · rwa [← Call.returns_pure.mp returns]
  · rw [Scheduling, related_of_cleared (recomputeIsBlocked_cleared returns)]
    exact acyclic.mono fun _ _ => related_delete

/-! ## Bulk requests -/

/-- Every scheduling edge is an old one or one of the pairs. -/
def GrownBy (s t : Store) (pairs : List (String × String)) : Prop :=
  ∀ a b, t.Scheduling a b → s.Scheduling a b ∨ (a, b) ∈ pairs

theorem GrownBy.addDependency {pairs : List (String × String)} {dep : Dependency}
    {opts : AddDependencyOpts} (grown : GrownBy s t pairs)
    (listed : dep.type.IsSchedulingEdge → (dep.issueId, dep.dependsOnId) ∈ pairs)
    (returns : (t.addDependency c dep opts).Returns u) : GrownBy s u pairs := by
  intro a b edge
  obtain ⟨-, ⟨d, -, -, -, rfl⟩ | ⟨v, added⟩⟩ := addDependency_returns returns
  · rw [Scheduling, setMetadata_related] at edge
    exact grown a b edge
  · rw [Scheduling, related_of_cleared added.cleared] at edge
    rcases added.inserted.related_iff.mp edge with old | ⟨scheduling, key⟩
    · exact grown a b old
    · rw [Dep.key, depTarget_id] at key
      exact Or.inr (key ▸ listed scheduling)

theorem mem_schedulingPairs {edges : List DependencyEdge} (edge : DependencyEdge)
    (held : edge ∈ edges) (scheduling : edge.type.IsSchedulingEdge) :
    (edge.issueId, edge.dependsOnId) ∈ schedulingPairs edges :=
  List.mem_map.mpr ⟨edge, List.mem_filter.mpr ⟨held, decide_eq_true scheduling⟩, rfl⟩

private theorem validate_settles {request : AddDependenciesRequest} :
    request.validate.Settles fun _ =>
    ∀ edge ∈ request.edges, edge.issueId ≠ "" ∧ edge.dependsOnId ≠ "" := by
  have one : ∀ edge : DependencyEdge, edge.validate.Settles fun _ =>
      edge.issueId ≠ "" ∧ edge.dependsOnId ≠ "" := fun edge => by
    unfold DependencyEdge.validate
    refine Call.settles_guard fun named => Call.settles_guard fun _ =>
      Call.settles_ite (fun _ => Call.settles_throw) fun _ => Call.settles_pure ?_
    exact not_or.mp named
  have many : ∀ edges : List DependencyEdge,
      (edges.foldlM (fun _ (edge : DependencyEdge) => edge.validate) ()).Settles fun _ =>
        ∀ edge ∈ edges, edge.issueId ≠ "" ∧ edge.dependsOnId ≠ "" := fun edges => by
    induction edges with
    | nil => exact Call.settles_pure fun _ none => (List.not_mem_nil none).elim
    | cons first rest ih =>
      rw [List.foldlM_cons]
      refine Call.settles_bind (one first) fun _ head => ih.mono fun _ tail edge member => ?_
      rcases List.mem_cons.mp member with rfl | later
      · exact head
      · exact tail edge later
  unfold AddDependenciesRequest.validate
  exact Call.settles_guard fun _ => Call.settles_guard fun _ => many request.edges

/-- The gate leaves no pair on a cycle. -/
theorem checkAddedEdges_settles {edges : List DependencyEdge} :
    (s.checkAddedEdgesForCycles edges).Settles fun _ => ∀ pair ∈ schedulingPairs edges,
      pair.1 ≠ "" → pair.2 ≠ "" → ¬ ReflTransGen s.Scheduling pair.2 pair.1 := by
  unfold checkAddedEdgesForCycles
  extract_lets pairs
  refine Call.settles_ite (fun empty => Call.settles_pure fun pair member => ?_) fun _ =>
    Call.settles_ite (fun _ => Call.settles_throw) fun clear => Call.settles_pure ?_
  · rw [show schedulingPairs edges = [] from empty] at member
    exact (List.not_mem_nil member).elim
  · intro pair member source target reaches
    refine clear ⟨pair, member, source, target, Or.inr ?_⟩
    exact wouldCreateSchedulingCycle_iff.mpr reaches

private theorem addDependencies_scheduling {request : AddDependenciesRequest}
    (acyclic : Acyclic s.Scheduling)
    (returns : (s.addDependencies c request).Returns t) : Acyclic t.Scheduling := by
  unfold addDependencies at returns
  obtain ⟨_, valid, rest⟩ := Call.returns_bind.mp returns
  have named := validate_settles.of_returns valid
  unfold executeAddDependencies at rest
  extract_lets hierarchy others at rest
  obtain ⟨added, adds, rest⟩ := Call.returns_bind.mp rest
  obtain ⟨_, gate, last⟩ := Call.returns_bind.mp rest
  have apart := checkAddedEdges_settles.of_returns gate
  rw [← Call.returns_pure.mp last]
  have grown : GrownBy s added (schedulingPairs request.edges) := by
    refine Call.inv_of_foldlM (fun u => GrownBy s u (schedulingPairs request.edges)) ?_
      (fun _ _ edge => Or.inl edge) adds
    intro u edge member sofar v step
    have held : edge ∈ request.edges := by
      rcases List.mem_append.mp member with first | second
      · exact (List.mem_filter.mp first).1
      · exact (List.mem_filter.mp second).1
    exact sofar.addDependency (mem_schedulingPairs _ held) step
  refine acyclic.of_new _ grown fun a b _ listed reaches => ?_
  obtain ⟨edge, member, same⟩ := List.mem_map.mp listed
  obtain ⟨source, target⟩ := named edge (List.mem_filter.mp member).1
  obtain ⟨rfl, rfl⟩ := Prod.mk.inj same
  exact apart _ listed source target reaches

/-! ## Batches and deletions -/

private theorem createIssues_scheduling {ctx : BatchContext} {batch : List NewIssue}
    (acyclic : Acyclic s.Scheduling) (returns : (s.createIssues ctx c batch).Returns t) :
    Acyclic t.Scheduling := by
  unfold createIssues at returns
  obtain ⟨⟨written, ids⟩, writes, recompute⟩ := Call.returns_bind.mp returns
  obtain ⟨landed, -, persisted, -, rows, edges, -⟩ := writeBatch_settles.of_returns writes
  rw [Scheduling, related_of_cleared (recomputeIsBlocked_cleared recompute)]
  refine edges.acyclic _ (fun _ scheduling => scheduling) ?_
  rwa [related_of_deps rows.deps]

theorem Deleted.scheduling {gone : Set Node} (deleted : Deleted s t gone)
    (acyclic : Acyclic s.Scheduling) :
    Acyclic t.Scheduling :=
  acyclic.mono fun _ _ ⟨q, d, held, chosen, key⟩ => ⟨q, d, deleted.deps q d held, chosen, key⟩

private theorem deleteIssue_scheduling {id : String} (acyclic : Acyclic s.Scheduling)
    (returns : (s.deleteIssue id).Returns t) : Acyclic t.Scheduling := by
  unfold deleteIssue at returns
  extract_lets n affected at returns
  obtain ⟨u, deletes, recompute⟩ := Call.returns_bind.mp returns
  rw [Scheduling, related_of_cleared (recomputeIsBlocked_cleared recompute)]
  exact (deleteIssueRow_settles.of_returns deletes).scheduling acyclic

private theorem deleteResolvedSet_scheduling {set : IDs} (acyclic : Acyclic s.Scheduling)
    (returns : (s.deleteResolvedSet set).Returns t) : Acyclic t.Scheduling := by
  unfold deleteResolvedSet at returns
  split at returns
  · rwa [← Call.returns_pure.mp returns]
  · extract_lets affected at returns
    obtain ⟨u, deletes, recompute⟩ := Call.returns_bind.mp returns
    rw [Scheduling, related_of_cleared (recomputeIsBlocked_cleared recompute)]
    exact (deleteBatches_deleted _).scheduling
      (((deleteWisps_settles _).of_returns deletes).scheduling acyclic)

private theorem deleteIssues_scheduling {ids : List String} {cascade force dryRun : Bool}
    (acyclic : Acyclic s.Scheduling)
    (returns : (s.deleteIssues ids cascade force dryRun).Returns t) :
    Acyclic t.Scheduling := by
  have run : ∀ set, (if dryRun = true then pure s else s.deleteResolvedSet set : Tx Store).Returns t →
      Acyclic t.Scheduling := fun set returns => by
    split at returns
    · rwa [← Call.returns_pure.mp returns]
    · exact deleteResolvedSet_scheduling acyclic returns
  unfold deleteIssues at returns
  split at returns
  · rwa [← Call.returns_pure.mp returns]
  · obtain ⟨set, -, rest⟩ := Call.returns_bind.mp returns
    extract_lets jump at rest
    split at rest
    · split at rest
      · obtain ⟨_, refused, -⟩ := Call.returns_bind.mp rest
        exact absurd refused Call.not_returns_throw
      · exact run set rest
    · exact run set rest

end Store

/-! ## Runs -/

/-- The calls that change edges. The cycle check of a single add is on and, as no
caller names tables for it, walks both. -/
inductive GraphCall where
  | add (c : Coordinator) (dep : Dependency) (opts : AddDependencyOpts)
      (checked : opts.skipCycleCheck = false) (both : opts.depTables = [])
  | addBulk (c : Coordinator) (request : AddDependenciesRequest)
  | create (ctx : BatchContext) (c : Coordinator) (batch : List NewIssue)
  | remove (issueId dependsOnId : String)
  | delete (id : String)
  | deleteMany (ids : List String) (cascade force dryRun : Bool)

namespace GraphCall

/-- The body of the call. -/
def run : GraphCall → Store → Tx Store
  | .add c dep opts _ _, s => s.addDependency c dep opts
  | .addBulk c request, s => s.addDependencies c request
  | .create ctx c batch, s => s.createIssues ctx c batch
  | .remove issueId dependsOnId, s => s.removeDependency issueId dependsOnId
  | .delete id, s => s.deleteIssue id
  | .deleteMany ids cascade force dryRun, s => s.deleteIssues ids cascade force dryRun

private theorem run_scheduling (call : GraphCall) {s t : Store} (acyclic : Acyclic s.Scheduling)
    (returns : (call.run s).Returns t) : Acyclic t.Scheduling := by
  cases call with
  | add c dep opts checked both => exact Store.addDependency_scheduling acyclic checked both returns
  | addBulk c request => exact Store.addDependencies_scheduling acyclic returns
  | create ctx c batch => exact Store.createIssues_scheduling acyclic returns
  | remove issueId dependsOnId => exact Store.removeDependency_scheduling acyclic returns
  | delete id => exact Store.deleteIssue_scheduling acyclic returns
  | deleteMany ids cascade force dryRun => exact Store.deleteIssues_scheduling acyclic returns

end GraphCall

/-- One call, accepted or refused. -/
def GraphStep (s t : Store) : Prop := ∃ call : GraphCall, (call.run s).Leaves s t

namespace Store

/-- Every sequence of calls keeps an acyclic scheduling graph acyclic, and a
refused bulk add leaves the store as it was. -/
theorem runs_keep_scheduling_acyclic (s : Store) (acyclic : Acyclic s.Scheduling) :
    (∀ t, ReflTransGen GraphStep s t → Acyclic t.Scheduling) ∧
      ∀ t c request e, ReflTransGen GraphStep s t → (t.addDependencies c request).Ends (.error e) →
        ∀ u, ((GraphCall.addBulk c request).run t).Leaves t u → u = t := by
  refine ⟨fun t run => ?_, fun t c request e _ refused u leaves => leaves.eq_of_refused refused⟩
  induction run with
  | refl => exact acyclic
  | tail _ step ih =>
    obtain ⟨call, returns | ⟨-, rfl⟩⟩ := step
    · exact call.run_scheduling ih returns
    · exact ih

/-- The run that blocks the epic of `smallEpic`. -/
theorem runs_keep_scheduling_acyclic_smallEpic :
    ∃ t, ReflTransGen GraphStep smallEpic t ∧ (∃ d ∈ t.deps .issues, d.key = ("bd-1", "bd-3")) ∧
      Acyclic t.Scheduling := by
  obtain ⟨t, returns, edge⟩ : ∃ t,
      (smallEpic.addDependency oneShard ⟨"bd-1", "bd-3", .blocks, .empty⟩ {}).Returns t ∧
        ∃ d ∈ t.deps .issues, d.key = ("bd-1", "bd-3") :=
    Call.returns_of_value? (n := 4) (by decide)
  have run : ReflTransGen GraphStep smallEpic t :=
    .single ⟨.add oneShard ⟨"bd-1", "bd-3", .blocks, .empty⟩ {} rfl rfl, Or.inl returns⟩
  exact ⟨t, run, edge, (runs_keep_scheduling_acyclic smallEpic (by decide)).1 t run⟩

end Store
end Beads
