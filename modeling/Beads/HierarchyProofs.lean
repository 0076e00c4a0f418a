import Beads.SchedulingProofs

/-! Blocking edges and the hierarchy. An add refuses a blocking edge between an
issue and one of its ancestors, but a parent-child edge that is added later is
not checked against the blocking edges that are there. What a new parent-child
edge relates is known, so it is known which additions keep the two apart. -/
namespace Beads
open Lib Lib.Graph Relation

namespace Store
variable {s t u : Store} {a b : String}

/-- A blocks or conditional-blocks edge, in either table. -/
def BlocksOn (s : Store) : String → String → Prop := s.Related DependencyType.Blocking

/-- Neither of two ids is an ancestor of the other. -/
def Unrelated (s : Store) (a b : String) : Prop :=
  ¬ TransGen s.ParentChild a b ∧ ¬ TransGen s.ParentChild b a

/-- No blocking edge connects an issue with an ancestor or a descendant. -/
def HierarchyFree (s : Store) : Prop := ∀ a b, s.BlocksOn a b → s.Unrelated a b

/-- No blocking edge runs between the child with its descendants and the parent
with its ancestors. -/
def NoneAcross (s : Store) (child parent : String) : Prop :=
  ∀ a b, ReflTransGen s.ParentChild a child → ReflTransGen s.ParentChild parent b →
    ¬ s.BlocksOn a b ∧ ¬ s.BlocksOn b a

/-- An add walks the hierarchy for the edge: its endpoints differ, both tables are
walked, and the target's issue type is known. -/
def HierarchyChecked (s : Store) (dep : Dependency) (opts : AddDependencyOpts) : Prop :=
  dep.issueId ≠ dep.dependsOnId ∧ opts.depTables = [] ∧
    ∃ type, s.dependencyTargetType dep opts = .ok type ∧ type ≠ ""

private theorem Validated.unrelated {dep : Dependency} {opts : AddDependencyOpts}
    (validated : Validated s dep opts) (blocking : dep.type.Blocking)
    (checked : s.HierarchyChecked dep opts) : s.Unrelated dep.issueId dep.dependsOnId := by
  obtain ⟨differ, both, type, known, named⟩ := checked
  have apart := validated.hierarchy type known named blocking differ
  rw [checkTables, if_pos both, isAncestor_iff, isAncestor_iff] at apart
  exact ⟨fun up => apart.1 up.to_reflTransGen, fun down => apart.2 down.to_reflTransGen⟩

/-! ## One call -/

theorem HierarchyFree.mono (free : s.HierarchyFree)
    (blocks : ∀ a b, t.BlocksOn a b → s.BlocksOn a b)
    (parents : ∀ a b, t.ParentChild a b → s.ParentChild a b) : t.HierarchyFree := by
  intro a b edge
  obtain ⟨up, down⟩ := free a b (blocks a b edge)
  exact ⟨fun path => up (TransGen.mono parents _ _ path),
    fun path => down (TransGen.mono parents _ _ path)⟩

private theorem HierarchyFree.of_cleared (free : s.HierarchyFree) (same : t.cleared = s.cleared) :
    t.HierarchyFree := by
  refine free.mono (fun a b edge => ?_) fun a b edge => ?_
  · rwa [BlocksOn, related_of_cleared same] at edge
  · rwa [ParentChild, related_of_cleared same] at edge

/-- A new parent-child edge keeps the two apart exactly if no blocking edge runs
across it. -/
theorem Inserted.hierarchyFree_parentChild {p : Plane} {d : Dep} (inserted : Inserted s t p d)
    (child : d.type = .parentChild) (free : s.HierarchyFree) :
    t.HierarchyFree ↔ s.NoneAcross d.issueId d.target.id := by
  have blocks : t.BlocksOn = s.BlocksOn := inserted.related_eq_of_not fun blocking =>
    blocking.ne_parentChild child
  have parents : t.ParentChild = AddEdge s.ParentChild d.issueId d.target.id :=
    inserted.related_eq child
  have across : ∀ {x y}, ReflTransGen s.ParentChild x d.issueId →
      ReflTransGen s.ParentChild d.target.id y → TransGen t.ParentChild x y := by
    intro x y below above
    rw [parents]
    exact TransGen.trans_right (addEdge_of_reaches below)
      (TransGen.head' (Or.inr ⟨rfl, rfl⟩) (addEdge_of_reaches above))
  constructor
  · intro still x y below above
    rw [← blocks]
    exact ⟨fun edge => (still x y edge).1 (across below above),
      fun edge => (still y x edge).2 (across below above)⟩
  · intro none x y edge
    rw [blocks] at edge
    obtain ⟨up, down⟩ := free x y edge
    constructor
    · intro path
      rw [parents] at path
      rcases transGen_addEdge path with old | ⟨below, above⟩
      · exact up old
      · exact (none x y below above).1 edge
    · intro path
      rw [parents] at path
      rcases transGen_addEdge path with old | ⟨below, above⟩
      · exact down old
      · exact (none y x below above).2 edge

/-- A new edge of another type keeps them apart if it is not a blocking edge
between relatives. -/
theorem Inserted.hierarchyFree_other {p : Plane} {d : Dep} (inserted : Inserted s t p d)
    (other : d.type ≠ .parentChild) (free : s.HierarchyFree)
    (unrelated : d.type.Blocking → s.Unrelated d.issueId d.target.id) : t.HierarchyFree := by
  have parents : t.ParentChild = s.ParentChild := inserted.related_eq_of_not other
  intro x y edge
  rw [Unrelated, parents]
  rcases inserted.related_iff.mp edge with old | ⟨blocking, key⟩
  · exact free x y old
  · obtain ⟨rfl, rfl⟩ := Prod.mk.inj key
    exact unrelated blocking

end Store

/-! ## Runs -/

/-- The calls on single edges. -/
inductive EdgeCall where
  | add (c : Coordinator) (dep : Dependency) (opts : AddDependencyOpts)
  | remove (issueId dependsOnId : String)

namespace EdgeCall

/-- The body of the call. -/
def run : EdgeCall → Store → Tx Store
  | .add c dep opts, s => s.addDependency c dep opts
  | .remove issueId dependsOnId, s => s.removeDependency issueId dependsOnId

/-- No blocking edge runs across a parent-child edge that is added, and a blocking
edge that is added is checked against the hierarchy or needs no check. -/
def Safe (s : Store) : EdgeCall → Prop
  | .add _ dep opts =>
    (dep.type = .parentChild → s.NoneAcross dep.issueId dep.dependsOnId) ∧
      (dep.type.Blocking → s.HierarchyChecked dep opts ∨ s.Unrelated dep.issueId dep.dependsOnId)
  | .remove _ _ => True

private theorem run_hierarchyFree (call : EdgeCall) {s t : Store} (safe : call.Safe s)
    (free : s.HierarchyFree) (returns : (call.run s).Returns t) : t.HierarchyFree := by
  cases call with
  | add c dep opts =>
    obtain ⟨validated, ⟨d, -, -, -, rfl⟩ | ⟨u, added⟩⟩ :=
      Store.addDependency_returns returns
    · refine free.mono (fun a b edge => ?_) fun a b edge => ?_
      · rwa [Store.BlocksOn, Store.setMetadata_related] at edge
      · rwa [Store.ParentChild, Store.setMetadata_related] at edge
    · refine Store.HierarchyFree.of_cleared ?_ added.cleared
      by_cases child : dep.type = .parentChild
      · refine (added.inserted.hierarchyFree_parentChild child free).mpr ?_
        rw [Store.depTarget_id]
        exact safe.1 child
      · refine added.inserted.hierarchyFree_other child free fun blocking => ?_
        rw [Store.depTarget_id]
        exact (safe.2 blocking).elim (validated.unrelated blocking) fun apart => apart
  | remove issueId dependsOnId =>
    change (s.removeDependency issueId dependsOnId).Returns t at returns
    unfold Store.removeDependency at returns
    extract_lets p at returns
    split at returns
    · rwa [← Call.returns_pure.mp returns]
    · refine Store.HierarchyFree.of_cleared ?_ (recomputeIsBlocked_cleared returns)
      exact free.mono (fun _ _ => Store.related_delete) fun _ _ => Store.related_delete

end EdgeCall

/-- One accepted call. -/
def EdgeStep (s t : Store) : Prop := ∃ call : EdgeCall, (call.run s).Returns t

/-- One accepted call that meets the condition. -/
def SafeStep (s t : Store) : Prop := ∃ call : EdgeCall, call.Safe s ∧ (call.run s).Returns t

namespace Store

/-- From a store without edges, accepted calls that meet the condition never put a
blocking edge between an issue and one of its ancestors or descendants. -/
theorem safe_runs_keep_hierarchyFree (s : Store) (edgeless : ∀ p d, d ∉ s.deps p) (t : Store)
    (run : ReflTransGen SafeStep s t) : t.HierarchyFree := by
  induction run with
  | refl =>
    rintro a b ⟨p, d, held, -⟩
    exact absurd held (edgeless p d)
  | tail _ step ih =>
    obtain ⟨call, safe, returns⟩ := step
    exact call.run_hierarchyFree safe ih returns

theorem safe_runs_keep_hierarchyFree_threeIssues :
    ∃ t, ReflTransGen SafeStep threeIssues t ∧ t.FlaggedAt (.issues, "bd-1") ∧ t.HierarchyFree := by
  obtain ⟨t, returns, flagged⟩ : ∃ t,
      (threeIssues.addDependency oneShard ⟨"bd-1", "bd-2", .blocks, .empty⟩ {}).Returns t ∧
        t.FlaggedAt (.issues, "bd-1") :=
    Call.returns_of_value? (n := 4) (by decide)
  have run : ReflTransGen SafeStep threeIssues t := by
    refine .single ⟨.add oneShard ⟨"bd-1", "bd-2", .blocks, .empty⟩ {}, ⟨?_, ?_⟩, returns⟩
    · exact fun child => nomatch child
    · exact fun _ => Or.inl ⟨by decide, rfl, "task", rfl, by decide⟩
  exact ⟨t, run, flagged, safe_runs_keep_hierarchyFree threeIssues threeIssues_edgeless t run⟩

/-- The hierarchy grows around a blocking edge: the first issue waits for the
second, and then becomes its grandchild. -/
theorem runs_lose_hierarchyFree :
    (∀ p d, d ∉ threeIssues.deps p) ∧ ∃ t, ReflTransGen EdgeStep threeIssues t ∧
      ¬ t.HierarchyFree := by
  obtain ⟨t, returns, edge, ancestor⟩ : ∃ t, (do
      let blocked ← threeIssues.addDependency oneShard ⟨"bd-1", "bd-2", .blocks, .empty⟩ {}
      let child ← blocked.addDependency oneShard ⟨"bd-1", "bd-3", .parentChild, .empty⟩ {}
      child.addDependency oneShard ⟨"bd-3", "bd-2", .parentChild, .empty⟩ {} : Tx Store).Returns t ∧
        (∃ d ∈ t.deps .issues, d.type.Blocking ∧ d.key = ("bd-1", "bd-2")) ∧
          t.IsAncestor "bd-1" "bd-2" cycleDetectionTables :=
    Call.returns_of_value? (n := 4) (by decide)
  obtain ⟨blocked, first, rest⟩ := Call.returns_bind.mp returns
  obtain ⟨child, second, third⟩ := Call.returns_bind.mp rest
  have run : ReflTransGen EdgeStep threeIssues t :=
    ((ReflTransGen.single ⟨.add _ _ _, first⟩).tail ⟨.add _ _ _, second⟩).tail ⟨.add _ _ _, third⟩
  refine ⟨threeIssues_edgeless, t, run, fun free => (free "bd-1" "bd-2" ⟨.issues, edge⟩).1 ?_⟩
  rcases reflTransGen_iff_eq_or_transGen.mp (isAncestor_iff.mp ancestor) with same | path
  · exact absurd same (by decide)
  · exact path

end Store
end Beads
