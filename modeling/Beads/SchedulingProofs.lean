import Beads.DependencyProofs

/-! The scheduling graph across single edge changes. A check that walks both edge
tables decides reachability in the graph, and an edge whose target does not
reach its source closes no cycle. Recomputing flags leaves the graph alone. -/
namespace Beads
open Lib Lib.Graph Relation

namespace Store
variable {s t : Store} {p : Plane} {d : Dep} {types : DependencyType → Prop} {a b : String}

/-! ## Reachability -/

theorem wouldCreateSchedulingCycle_iff :
    s.WouldCreateSchedulingCycle a b cycleDetectionTables ↔ ReflTransGen s.Scheduling b a := by
  rw [WouldCreateSchedulingCycle, mem_reachable, show cycleDetectionTables = Plane.all from rfl,
    edge_edges]
  rfl

theorem isAncestor_iff :
    s.IsAncestor a b cycleDetectionTables ↔ ReflTransGen s.ParentChild a b := by
  rw [IsAncestor, mem_reachable, show cycleDetectionTables = Plane.all from rfl, edge_edges]
  rfl

theorem related_of_deps (same : t.deps = s.deps) : t.Related types = s.Related types := by
  funext a b
  rw [Related, Related, same]

theorem related_of_cleared (same : t.cleared = s.cleared) : t.Related types = s.Related types :=
  related_of_deps (show t.cleared.deps = s.cleared.deps by rw [same])

/-! ## A new edge -/

namespace Inserted

theorem related_iff (inserted : Inserted s t p d) :
    t.Related types a b ↔ s.Related types a b ∨ (types d.type ∧ d.key = (a, b)) := by
  constructor
  · rintro ⟨q, e, held, chosen, key⟩
    rcases (inserted.deps q e).mp held with old | ⟨rfl, rfl⟩
    · exact Or.inl ⟨q, e, old, chosen, key⟩
    · exact Or.inr ⟨chosen, key⟩
  · rintro (⟨q, e, old, chosen, key⟩ | ⟨chosen, key⟩)
    · exact ⟨q, e, (inserted.deps q e).mpr (Or.inl old), chosen, key⟩
    · exact ⟨p, d, (inserted.deps p d).mpr (Or.inr ⟨rfl, rfl⟩), chosen, key⟩

theorem related_eq (inserted : Inserted s t p d) (chosen : types d.type) :
    t.Related types = AddEdge (s.Related types) d.issueId d.target.id := by
  funext a b
  refine propext (inserted.related_iff.trans (or_congr_right ?_))
  rw [Dep.key, Prod.mk.injEq, and_iff_right chosen, eq_comm, @eq_comm _ d.target.id]

theorem related_eq_of_not (inserted : Inserted s t p d) (other : ¬ types d.type) :
    t.Related types = s.Related types := by
  funext a b
  exact propext (inserted.related_iff.trans (or_iff_left fun both => other both.1))

/-- An edge whose target does not reach its source closes no cycle. -/
theorem acyclic (inserted : Inserted s t p d) (before : Acyclic (s.Related types))
    (apart : types d.type → ¬ ReflTransGen (s.Related types) d.target.id d.issueId) :
    Acyclic (t.Related types) := by
  by_cases chosen : types d.type
  · rw [inserted.related_eq chosen]
    exact (acyclic_addEdge before).mpr (apart chosen)
  · rwa [inserted.related_eq_of_not chosen]

end Inserted

/-! ## The single-edge calls -/

private theorem refreshAfterAdd_cleared {source : Node} {target : Target} {type : DependencyType}
    {pre : Option DepTargetPrecheck}
    (returns : (s.refreshAfterAdd source target type pre).Returns t) :
    t.cleared = s.cleared := by
  unfold refreshAfterAdd at returns
  extract_lets affected at returns
  split at returns
  · exact (markIsBlocked_cleared returns).trans markDirect_cleared
  · split at returns
    · exact recomputeIsBlocked_cleared returns
    · exact markIsBlocked_cleared returns

theorem setMetadata_related {key : String × String} {metadata : Metadata} :
    (s.setMetadata p key metadata).Related types = s.Related types := by
  have kept : ∀ q (old : Dep), let new :=
    if q = p ∧ old.key = key then { old with metadata := metadata }
      else old; new.type = old.type ∧ new.key = old.key := fun q old => by
    dsimp only
    split
    · exact ⟨rfl, rfl⟩
    · exact ⟨rfl, rfl⟩
  funext a b
  refine propext ⟨?_, ?_⟩
  · rintro ⟨q, e, held, chosen, same⟩
    obtain ⟨old, stored, rfl⟩ := mem_setMetadata.mp held
    exact ⟨q, old, stored, (kept q old).1 ▸ chosen, (kept q old).2.symm.trans same⟩
  · rintro ⟨q, old, stored, chosen, same⟩
    exact ⟨q, _, mem_setMetadata.mpr ⟨old, stored, rfl⟩, (kept q old).1.symm ▸ chosen,
      (kept q old).2.trans same⟩

/-- What an accepted add of a new edge leaves behind: the edge, with the cell of the
parent rewritten for a parent-child edge, and then nothing but flags. -/
structure Added (s u t : Store) (c : Coordinator) (dep : Dependency) (opts : AddDependencyOpts) :
    Prop where
  source : s.Holds (s.writeTable dep opts, dep.issueId)
  fresh : ∀ d ∈ s.deps (s.writeTable dep opts), d.key ≠ (dep.issueId, dep.dependsOnId)
  inserted : Inserted s u (s.writeTable dep opts)
    ⟨dep.issueId, s.depTarget dep opts, dep.type, dep.metadata⟩
  coordination : ∀ q n, u.coordination q n =
    if dep.type = .parentChild ∧ q = s.writeTable dep opts ∧ n = c.shard dep.dependsOnId then
      c.freshRowLock q n
    else s.coordination q n
  cleared : t.cleared = u.cleared

theorem insertDep_coordination (returns : (s.insertDep p d).Returns t) :
    t.coordination = s.coordination := by
  unfold insertDep at returns
  split at returns
  · exact absurd returns Call.not_returns_throw
  · split at returns
    · rw [← Call.returns_pure.mp returns]
      rfl
    · exact absurd returns Call.not_returns_throw

private theorem touchDependencyCoordination_coordination {c : Coordinator} {parentId : String}
    (returns : (s.touchDependencyCoordination c parentId p).Returns t) (q : Plane) (n : Nat) :
    t.coordination q n =
      if q = p ∧ n = c.shard parentId then c.freshRowLock q n else s.coordination q n := by
  unfold touchDependencyCoordination at returns
  split at returns
  · exact absurd returns Call.not_returns_throw
  · rw [← Call.returns_pure.mp returns]
    by_cases plane : q = p
    · subst plane
      by_cases cell : n = c.shard parentId
      · simp only [Function.update_self, cell, and_self, ↓reduceIte]
      · simp only [Function.update_self, ne_eq, cell, not_false_eq_true, Function.update_of_ne,
          and_false, ↓reduceIte]
    · simp only [ne_eq, plane, not_false_eq_true, Function.update_of_ne, false_and, ↓reduceIte]

/-- An accepted add has passed the checks, and the edge was there before or is new. -/
theorem addDependency_returns {c : Coordinator} {dep : Dependency} {opts : AddDependencyOpts}
    (returns : (s.addDependency c dep opts).Returns t) : Validated s dep opts ∧
      ((∃ d ∈ s.deps (s.writeTable dep opts), d.key = (dep.issueId, dep.dependsOnId) ∧
          d.type = dep.type ∧ t = s.setMetadata (s.writeTable dep opts) d.key dep.metadata) ∨
        ∃ u, Added s u t c dep opts) := by
  unfold addDependency at returns
  obtain ⟨_, checked, rest⟩ := Call.returns_bind.mp returns
  refine ⟨validateAddDependency_settles.of_returns checked, ?_⟩
  extract_lets p target at rest
  split at rest
  · next d found =>
    obtain ⟨held, same⟩ := Table.find?_eq_some.mp found
    split at rest
    · next type => exact Or.inl ⟨d, held, same, type, (Call.returns_pure.mp rest).symm⟩
    · exact absurd rest Call.not_returns_throw
  · next none =>
    have fresh := Table.find?_eq_none.mp none
    obtain ⟨u, wrote, rest⟩ := Call.returns_bind.mp rest
    obtain ⟨inserted, source, -⟩ := insertDep_settles.of_returns wrote
    have unchanged := insertDep_coordination wrote
    refine Or.inr ?_
    split at rest
    · next child =>
      obtain ⟨v, touched, rest⟩ := Call.returns_bind.mp rest
      obtain ⟨-, rows, deps⟩ := touchDependencyCoordination_settles.of_returns touched
      refine ⟨v, source, fresh, ⟨rows.trans inserted.rows, fun q e => by rw [deps, inserted.deps]⟩,
        fun q n => ?_, refreshAfterAdd_cleared rest⟩
      rw [touchDependencyCoordination_coordination touched, unchanged]
      simp only [child, true_and]
      rfl
    · next other =>
      refine ⟨u, source, fresh, inserted, fun q n => ?_, refreshAfterAdd_cleared rest⟩
      rw [unchanged, if_neg fun all => other all.1]

/-- Three open issues without edges. -/
def threeIssues : Store where
  rows
    | .issues => ⟨[{ id := "bd-1" }, { id := "bd-2" }, { id := "bd-3" }], by decide⟩
    | .wisps => Table.empty
  deps _ := Table.empty

theorem threeIssues_edgeless (p : Plane) (d : Dep) : d ∉ threeIssues.deps p := List.not_mem_nil

end Store
end Beads
