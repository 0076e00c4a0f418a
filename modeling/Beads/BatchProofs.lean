import Beads.BatchApply
import Beads.ConvergenceProofs
import Beads.SchedulingRuns

/-! The order of the items of a batch of edges does not matter, as long as the
flags are correct before it and no waits-for edge that is there already is given
another gate. Every check of an item is monotone in the graph or about rows that
the batch leaves alone, and the gate at the end makes the graph checks of all
items for the graph that all items produce; so a batch is accepted exactly when
`Acceptable` holds of its items as a set. The edges it stores depend on that set
only (`Applied`), and an acyclic parent relation has one correct flag assignment. -/
namespace Beads
open Lib Lib.Graph Lib.Propagation Relation

namespace Store
variable {s t u : Store} {c : Coordinator} {dep : Dependency} {opts : AddDependencyOpts}

/-! ## When an add is accepted -/

private theorem checkDependencyCycle_accepts {tables : List Plane} :
    (s.checkDependencyCycle dep tables).Returns () ↔ dep.issueId ≠ dep.dependsOnId ∧
      (dep.type.IsSchedulingEdge →
        ¬ s.WouldCreateSchedulingCycle dep.issueId dep.dependsOnId tables) := by
  refine ⟨fun returns => checkDependencyCycle_settles.of_returns returns,
    fun ⟨distinct, apart⟩ => ?_⟩
  unfold checkDependencyCycle
  rw [if_neg distinct]
  by_cases scheduling : dep.type.IsSchedulingEdge
  · rw [if_neg (not_not.mpr scheduling), if_neg (apart scheduling)]
    exact Call.ends_ofExcept
  · rw [if_pos scheduling]
    exact Call.ends_ofExcept

theorem checkBlockingHierarchy_accepts {tables : List Plane} :
    (s.checkBlockingHierarchy dep tables).Returns () ↔
      (dep.type.Blocking → dep.issueId ≠ dep.dependsOnId →
        ¬ s.IsAncestor dep.issueId dep.dependsOnId tables ∧
          ¬ s.IsAncestor dep.dependsOnId dep.issueId tables) := by
  refine ⟨fun returns => checkBlockingHierarchy_settles.of_returns returns, fun free => ?_⟩
  unfold checkBlockingHierarchy
  by_cases blocking : dep.type.Blocking
  · rw [if_neg (not_not.mpr blocking)]
    by_cases same : dep.issueId = dep.dependsOnId
    · rw [if_pos same]
      exact Call.ends_ofExcept
    · obtain ⟨up, down⟩ := free blocking same
      rw [if_neg same, if_neg up, if_neg down]
      exact Call.ends_ofExcept
  · rw [if_pos blocking]
    exact Call.ends_ofExcept

/-- The source row is there, and so is the row of a target that is not external. -/
def EndpointsHeld (s : Store) (dep : Dependency) (opts : AddDependencyOpts) : Prop :=
  s.Holds (opts.sourceTable.getD (s.routed dep.issueId), dep.issueId) ∧
    ∃ type, s.dependencyTargetType dep opts = .ok type

private theorem validateAddDependency_returns
    (returns : (s.validateAddDependency dep opts).Returns ()) :
    s.EndpointsHeld dep opts := by
  unfold validateAddDependency at returns
  extract_lets tables jump at returns
  obtain ⟨held, rest⟩ := Call.returns_guard returns
  obtain ⟨type, read, -⟩ := Call.returns_bind.mp rest
  exact ⟨not_not.mp held, type, Call.returns_ofExcept.mp read⟩

private theorem validateAddDependency_accepts (both : opts.depTables = [])
    (distinct : dep.issueId ≠ dep.dependsOnId) (held : s.EndpointsHeld dep opts)
    (hierarchy : ∀ type, s.dependencyTargetType dep opts = .ok type → type ≠ "" →
      dep.type.Blocking →
      ¬ ReflTransGen s.ParentChild dep.issueId dep.dependsOnId ∧
        ¬ ReflTransGen s.ParentChild dep.dependsOnId dep.issueId)
    (cycle : opts.skipCycleCheck = false → dep.type.IsSchedulingEdge →
      ¬ ReflTransGen s.Scheduling dep.dependsOnId dep.issueId) :
    (s.validateAddDependency dep opts).Returns () := by
  obtain ⟨source, type, read⟩ := held
  unfold validateAddDependency
  simp only [if_pos both, if_neg (not_not.mpr source)]
  refine Call.returns_bind.mpr ⟨type, Call.returns_ofExcept.mpr read, ?_⟩
  have last : (if opts.skipCycleCheck = false then s.checkDependencyCycle dep cycleDetectionTables
      else pure () : Tx Unit).Returns () := by
    split
    · next checked =>
      refine checkDependencyCycle_accepts.mpr ⟨distinct, fun scheduling closes => ?_⟩
      exact cycle checked scheduling (wouldCreateSchedulingCycle_iff.mp closes)
    · exact Call.ends_ofExcept
  split
  · next known =>
    refine Call.returns_bind.mpr ⟨(), checkBlockingHierarchy_accepts.mpr fun blocking _ => ?_, last⟩
    rw [isAncestor_iff, isAncestor_iff]
    exact hierarchy type read known blocking
  · exact last

private theorem insertDep_accepts {p : Plane} {d : Dep} (source : s.Holds (p, d.issueId))
    (target : s.TargetKey p d.target)
    (fresh : ∀ e ∈ s.deps p, e.key ≠ d.key) : ∃ t, (s.insertDep p d).Returns t := by
  unfold insertDep
  rw [if_neg (not_not.mpr ⟨source, target⟩), dif_pos fresh]
  exact ⟨_, Call.ends_ofExcept⟩

/-- What a new edge has to satisfy: its target key, and for a parent-child edge a parent
that has a coordination cell. -/
def NewEdgeAllowed (s : Store) (dep : Dependency) (opts : AddDependencyOpts) : Prop :=
  s.TargetKey (s.writeTable dep opts) (s.depTarget dep opts) ∧ (dep.type = .parentChild → dep.dependsOnId ≠ "")

/-- An add whose checks pass is accepted if the edge is there with its type, or may be inserted. -/
theorem addDependency_accepts (before : s.FlagsCorrect)
    (valid : (s.validateAddDependency dep opts).Returns ())
    (source : s.Holds (s.writeTable dep opts, dep.issueId)) (plain : opts.precheckedTarget = none)
    (types : ∀ d ∈ s.deps (s.writeTable dep opts), d.key = (dep.issueId, dep.dependsOnId) →
      d.type = dep.type)
    (allowed : (∀ d ∈ s.deps (s.writeTable dep opts), d.key ≠ (dep.issueId, dep.dependsOnId)) →
      s.NewEdgeAllowed dep opts) : ∃ t, (s.addDependency c dep opts).Returns t := by
  cases found : (s.deps (s.writeTable dep opts)).find? (dep.issueId, dep.dependsOnId) with
  | some existing =>
    obtain ⟨held, key⟩ := Table.find?_eq_some.mp found
    refine ⟨s.setMetadata (s.writeTable dep opts) existing.key dep.metadata, ?_⟩
    unfold addDependency
    refine Call.returns_bind.mpr ⟨(), valid, ?_⟩
    simp only [found, if_pos (types existing held key)]
    exact Call.ends_ofExcept
  | none =>
    have fresh := Table.find?_eq_none.mp found
    obtain ⟨target, named⟩ := allowed fresh
    obtain ⟨t, wrote⟩ := insertDep_accepts (p := s.writeTable dep opts)
      (d := ⟨dep.issueId, s.depTarget dep opts, dep.type, dep.metadata⟩) source target (by
        intro e held same
        exact fresh e held (same.trans (congrArg (dep.issueId, ·) depTarget_id)))
    obtain ⟨inserted, -⟩ := insertDep_settles.of_returns wrote
    obtain ⟨u, touched, landed⟩ : ∃ u, (if dep.type = .parentChild then
        t.touchDependencyCoordination c dep.dependsOnId (s.writeTable dep opts) else pure t : Tx Store).Returns u ∧
          Inserted s u (s.writeTable dep opts) ⟨dep.issueId, s.depTarget dep opts, dep.type, dep.metadata⟩ := by
      split
      · next child =>
        refine ⟨_, by rw [touchDependencyCoordination, if_neg (named child)]; exact Call.ends_ofExcept, ?_⟩
        exact ⟨inserted.rows, inserted.deps⟩
      · exact ⟨t, Call.ends_ofExcept, inserted⟩
    obtain ⟨v, refreshed, -⟩ := landed.refreshAfterAdd before
      (fun child => depTarget_id ▸ named child) opts.precheckedTarget
      (fun row read => by rw [plain] at read; cases read)
    refine ⟨v, ?_⟩
    unfold addDependency
    refine Call.returns_bind.mpr ⟨(), valid, ?_⟩
    simp only [found]
    refine Call.returns_bind.mpr ⟨t, wrote, ?_⟩
    by_cases child : dep.type = .parentChild
    · rw [if_pos child] at touched
      simp only [if_pos child]
      exact Call.returns_bind.mpr ⟨u, touched, refreshed⟩
    · rw [if_neg child] at touched
      simp only [if_neg child]
      rw [← Call.returns_pure.mp touched] at refreshed
      exact refreshed

/-- An accepted add has passed its checks, and a new edge was allowed. -/
theorem addDependency_allowed (returns : (s.addDependency c dep opts).Returns t) :
    s.EndpointsHeld dep opts ∧
      ((∀ d ∈ s.deps (s.writeTable dep opts), d.key ≠ (dep.issueId, dep.dependsOnId)) →
        s.NewEdgeAllowed dep opts) := by
  unfold addDependency at returns
  obtain ⟨_, checked, rest⟩ := Call.returns_bind.mp returns
  refine ⟨validateAddDependency_returns checked, fun fresh => ?_⟩
  extract_lets p target at rest
  split at rest
  · next d found =>
    obtain ⟨held, same⟩ := Table.find?_eq_some.mp found
    exact absurd same (fresh d held)
  · obtain ⟨u, wrote, rest⟩ := Call.returns_bind.mp rest
    obtain ⟨-, -, key⟩ := insertDep_settles.of_returns wrote
    refine ⟨key, fun child => ?_⟩
    simp only [if_pos child] at rest
    obtain ⟨v, touched, -⟩ := Call.returns_bind.mp rest
    exact (touchDependencyCoordination_settles.of_returns touched).1

/-! ## What a set of items leaves behind -/

variable {skip : Bool} {item : DepAddItem} {items : List DepAddItem} {done : Set DepAddItem}

/-- The edge as the item leaves it: the one that is there with new metadata, or a new one. -/
def landed (s : Store) (item : DepAddItem) : Dep :=
  match (s.deps (s.routed item.source)).find? item.pair with
  | some old => { old with metadata := item.metadata }
  | none =>
    ⟨item.source, s.depTarget item.dependency (s.depAddOpts true item), item.type, item.metadata⟩

theorem landed_key : (s.landed item).key = item.pair := by
  unfold landed
  split
  · next old found => exact (Table.find?_eq_some.mp found).2
  · exact congrArg (item.source, ·) depTarget_id

/-- Items with distinct endpoints have been applied: nothing else has changed but flags. -/
structure Applied (s t : Store) (done : Set DepAddItem) : Prop where
  rows : t.cleared.rows = s.cleared.rows
  deps : ∀ p d, d ∈ t.deps p ↔
    (d ∈ s.deps p ∧ ∀ item ∈ done, ¬ (s.routed item.source = p ∧ d.key = item.pair)) ∨
      ∃ item ∈ done, s.routed item.source = p ∧ d = s.landed item
  types : ∀ item ∈ done, (s.landed item).type = item.type

namespace Applied

theorem refl (s : Store) : Applied s s ∅ :=
  ⟨rfl, fun p d => by simp, fun _ none => none.elim⟩

theorem content (applied : Applied s t done) (n : Node) :
    (t.row? n).map (fun r => { r with isBlocked := false }) =
      (s.row? n).map fun r => { r with isBlocked := false } := by
  rw [← row?_cleared, ← row?_cleared, row?, row?, applied.rows]

theorem column (applied : Applied s t done) {α : Type} (f : Row → α)
    (blind : ∀ r : Row, f { r with isBlocked := false } = f r) (n : Node) :
    (t.row? n).map f = (s.row? n).map f := by
  have same := congrArg (Option.map f) (applied.content n)
  simpa only [Option.map_map, Function.comp_def, blind] using same

private theorem status?_eq (applied : Applied s t done) (n : Node) : t.status? n = s.status? n :=
  applied.column Row.status (fun _ => rfl) n

theorem holds_iff (applied : Applied s t done) (n : Node) : t.Holds n ↔ s.Holds n := by
  have held (v : Store) : v.Holds n ↔ ((v.row? n).map Row.id).isSome = true := by
    rw [Option.isSome_map, Option.isSome_iff_exists]
    simp only [row?_eq_some]
    rfl
  rw [held, held, applied.column Row.id (fun _ => rfl)]

theorem routed_eq (applied : Applied s t done) (id : String) : t.routed id = s.routed id :=
  congrArg Plane.ofWisp (decide_eq_decide.mpr (applied.holds_iff _))

theorem depAddOpts_eq (applied : Applied s t done) (skip : Bool) (item : DepAddItem) :
    t.depAddOpts skip item = s.depAddOpts skip item := by
  rw [depAddOpts, depAddOpts, applied.routed_eq]

theorem depTarget_eq (applied : Applied s t done) (dep : Dependency) (opts : AddDependencyOpts) :
    t.depTarget dep opts = s.depTarget dep opts := by
  have kind : t.classifyDepTarget dep opts.isCrossPrefix = s.classifyDepTarget dep opts.isCrossPrefix :=
    if_congr Iff.rfl rfl (if_congr (applied.holds_iff _) rfl rfl)
  rw [depTarget, depTarget, kind]

private theorem targetKey_iff (applied : Applied s t done) (p : Plane) (target : Target) :
    t.TargetKey p target ↔ s.TargetKey p target := by
  cases target with
  | external ref => exact Iff.rfl
  | node n =>
    obtain ⟨plane, id⟩ := n
    cases plane with
    | issues => exact applied.holds_iff _
    | wisps => exact imp_congr_right fun _ => applied.holds_iff _

private theorem dependencyTargetType_eq (applied : Applied s t done) (dep : Dependency)
    (opts : AddDependencyOpts) :
    t.dependencyTargetType dep opts = s.dependencyTargetType dep opts := by
  have types := applied.column Row.issueType (fun _ => rfl)
    (opts.targetTable.getD (s.routed dep.dependsOnId), dep.dependsOnId)
  simp only [dependencyTargetType, applied.routed_eq]
  split
  · rfl
  · split
    · rfl
    · cases left : t.row? (opts.targetTable.getD (s.routed dep.dependsOnId), dep.dependsOnId) <;>
        cases right : s.row? (opts.targetTable.getD (s.routed dep.dependsOnId), dep.dependsOnId) <;>
        simp_all

theorem endpointsHeld_iff (applied : Applied s t done) (dep : Dependency)
    (opts : AddDependencyOpts) :
    t.EndpointsHeld dep opts ↔ s.EndpointsHeld dep opts := by
  simp only [EndpointsHeld, applied.routed_eq, applied.holds_iff, applied.dependencyTargetType_eq]

theorem newEdgeAllowed_iff (applied : Applied s t done) (dep : Dependency)
    (opts : AddDependencyOpts) :
    t.NewEdgeAllowed dep opts ↔ s.NewEdgeAllowed dep opts := by
  simp only [NewEdgeAllowed, writeTable, applied.routed_eq, applied.targetKey_iff,
    applied.depTarget_eq]

/-- The graph has grown by the items of a type. -/
theorem related_iff (applied : Applied s t done) {types : DependencyType → Prop} {a b : String} :
    t.Related types a b ↔ s.Related types a b ∨
      ∃ item ∈ done, types item.type ∧ item.pair = (a, b) := by
  constructor
  · rintro ⟨p, d, held, chosen, key⟩
    rcases (applied.deps p d).mp held with ⟨old, -⟩ | ⟨item, member, -, rfl⟩
    · exact Or.inl ⟨p, d, old, chosen, key⟩
    · rw [applied.types item member] at chosen
      exact Or.inr ⟨item, member, chosen, landed_key.symm.trans key⟩
  · rintro (⟨p, d, held, chosen, key⟩ | ⟨item, member, chosen, pair⟩)
    · by_cases again : ∃ item ∈ done, s.routed item.source = p ∧ d.key = item.pair
      · obtain ⟨item, member, rfl, same⟩ := again
        have found : (s.deps (s.routed item.source)).find? item.pair = some d :=
          Table.find?_eq_some.mpr ⟨held, same⟩
        refine ⟨_, s.landed item, (applied.deps _ _).mpr (Or.inr ⟨item, member, rfl, rfl⟩), ?_, ?_⟩
        · rwa [landed, found]
        · rw [landed_key, ← same, key]
      · refine ⟨p, d, (applied.deps p d).mpr (Or.inl ⟨held, fun item member both => ?_⟩), chosen,
          key⟩
        exact again ⟨item, member, both⟩
    · refine ⟨_, s.landed item, (applied.deps _ _).mpr (Or.inr ⟨item, member, rfl, rfl⟩), ?_, ?_⟩
      · rwa [applied.types item member]
      · rw [landed_key, pair]

/-- Edges onto endpoints that no item had are as they were. -/
theorem mem_of_key (applied : Applied s t done) (fresh : ∀ x ∈ done, x.pair ≠ item.pair) {p : Plane}
    {d : Dep} (key : d.key = item.pair) : d ∈ t.deps p ↔ d ∈ s.deps p := by
  rw [applied.deps]
  constructor
  · rintro (⟨old, -⟩ | ⟨x, member, -, rfl⟩)
    · exact old
    · exact absurd (landed_key.symm.trans key) (fresh x member)
  · exact fun old => Or.inl ⟨old, fun x member both => fresh x member (both.2.symm.trans key)⟩

end Applied

/-- What an item has to satisfy whatever the graph looks like. -/
structure Admissible (s : Store) (item : DepAddItem) : Prop where
  distinct : item.source ≠ item.target
  held : s.EndpointsHeld item.dependency (s.depAddOpts true item)
  types : ∀ d ∈ s.deps (s.routed item.source), d.key = item.pair → d.type = item.type
  allowed : (∀ d ∈ s.deps (s.routed item.source), d.key ≠ item.pair) →
    s.NewEdgeAllowed item.dependency (s.depAddOpts true item)

/-- The item gives no waits-for edge that is there another gate. -/
def KeepsGate (s : Store) (item : DepAddItem) : Prop :=
  ∀ d ∈ s.deps (s.routed item.source), d.key = item.pair → d.type = .waitsFor →
    (item.metadata.AnyChildren ↔ d.metadata.AnyChildren) ∧ (item.metadata.AlsoBlocks ↔ d.metadata.AlsoBlocks)

private theorem Admissible.landed_type (admissible : Admissible s item) :
    (s.landed item).type = item.type := by
  unfold landed
  split
  · next old found =>
    obtain ⟨held, key⟩ := Table.find?_eq_some.mp found
    exact admissible.types old held key
  · rfl

/-- One more item. -/
theorem Applied.insert (applied : Applied s t done) (fresh : ∀ x ∈ done, x.pair ≠ item.pair)
    (typed : (s.landed item).type = item.type) (rows : u.cleared.rows = t.cleared.rows)
    (deps : ∀ p d, d ∈ u.deps p ↔
      (d ∈ t.deps p ∧ ¬ (s.routed item.source = p ∧ d.key = item.pair)) ∨
        (s.routed item.source = p ∧ d = s.landed item)) : Applied s u (insert item done) where
  rows := rows.trans applied.rows
  deps p d := by
    rw [deps, applied.deps]
    constructor
    · rintro (⟨⟨old, others⟩ | ⟨x, member, plane, rfl⟩, this⟩ | ⟨plane, rfl⟩)
      · refine Or.inl ⟨old, fun x member => ?_⟩
        rcases Set.mem_insert_iff.mp member with rfl | member
        · exact this
        · exact others x member
      · exact Or.inr ⟨x, Set.mem_insert_of_mem _ member, plane, rfl⟩
      · exact Or.inr ⟨item, Set.mem_insert _ _, plane, rfl⟩
    · rintro (⟨old, others⟩ | ⟨x, member, plane, rfl⟩)
      · refine Or.inl ⟨Or.inl ⟨old, fun x member => others x (Set.mem_insert_of_mem _ member)⟩, ?_⟩
        exact others item (Set.mem_insert _ _)
      · rcases Set.mem_insert_iff.mp member with rfl | member
        · exact Or.inr ⟨plane, rfl⟩
        · refine Or.inl ⟨Or.inr ⟨x, member, plane, rfl⟩, fun both => ?_⟩
          exact fresh x member (landed_key.symm.trans both.2)
  types x member := by
    rcases Set.mem_insert_iff.mp member with rfl | member
    · exact typed
    · exact applied.types x member

/-- An accepted item was admissible, and its edge is there. -/
theorem applyDepAdd_returns (applied : Applied s t done) (fresh : ∀ x ∈ done, x.pair ≠ item.pair)
    (returns : (t.applyDepAdd c skip item).Returns u) :
    Admissible s item ∧ Applied s u (insert item done) := by
  unfold applyDepAdd at returns
  obtain ⟨distinct, returns⟩ := Call.returns_guard returns
  have plane : t.writeTable item.dependency (t.depAddOpts skip item) = s.routed item.source :=
    applied.routed_eq item.source
  obtain ⟨held, allowed⟩ := addDependency_allowed returns
  obtain ⟨-, again | ⟨v, added⟩⟩ := addDependency_returns returns
  · obtain ⟨d, stored, key, type, rfl⟩ := again
    rw [plane] at stored
    have old : d ∈ s.deps (s.routed item.source) := (applied.mem_of_key fresh key).mp stored
    have found : (s.deps (s.routed item.source)).find? item.pair = some d :=
      Table.find?_eq_some.mpr ⟨old, key⟩
    have becomes : s.landed item = { d with metadata := item.metadata } := by rw [landed, found]
    have admissible : Admissible s item := by
      refine ⟨distinct, ?_, fun e other same => ?_, fun none => absurd key (none d old)⟩
      · rwa [applied.depAddOpts_eq, applied.endpointsHeld_iff] at held
      · rw [Table.eq_of_key other old (same.trans key.symm)]
        exact type
    refine ⟨admissible, applied.insert fresh admissible.landed_type rfl fun q e => ?_⟩
    rw [plane, mem_setMetadata, becomes]
    constructor
    · rintro ⟨e, member, rfl⟩
      by_cases hit : q = s.routed item.source ∧ e.key = d.key
      · obtain ⟨rfl, same⟩ := hit
        rw [if_pos ⟨rfl, same⟩, Table.eq_of_key member stored same]
        exact Or.inr ⟨rfl, rfl⟩
      · rw [if_neg hit]
        exact Or.inl ⟨member, fun both => hit ⟨both.1.symm, both.2.trans key.symm⟩⟩
    · rintro (⟨member, other⟩ | ⟨rfl, rfl⟩)
      · exact ⟨e, member, if_neg fun hit => other ⟨hit.1.symm, hit.2.trans key⟩⟩
      · exact ⟨d, stored, if_pos ⟨rfl, rfl⟩⟩
  · rw [plane] at allowed
    have absent : ∀ d ∈ s.deps (s.routed item.source), d.key ≠ item.pair := fun d old same => by
      refine added.fresh d ?_ same
      rw [plane]
      exact (applied.mem_of_key fresh same).mpr old
    have found : (s.deps (s.routed item.source)).find? item.pair = none :=
      Table.find?_eq_none.mpr absent
    have becomes : s.landed item =
        ⟨item.source, s.depTarget item.dependency (s.depAddOpts true item), item.type, item.metadata⟩ := by
      rw [landed, found]
    have admissible : Admissible s item := by
      refine ⟨distinct, ?_, fun e other same => absurd same (absent e other), fun _ => ?_⟩
      · rwa [applied.depAddOpts_eq, applied.endpointsHeld_iff] at held
      · have new := allowed fun d stored same => added.fresh d (plane ▸ stored) same
        rwa [applied.depAddOpts_eq, applied.newEdgeAllowed_iff] at new
    refine ⟨admissible, applied.insert fresh admissible.landed_type ?_ fun q e => ?_⟩
    · rw [added.cleared]
      simp only [cleared, added.inserted.rows]
    · have edges : e ∈ u.deps q ↔ e ∈ v.deps q := by
        change e ∈ u.cleared.deps q ↔ e ∈ v.cleared.deps q
        rw [added.cleared]
      have same : t.depTarget item.dependency (t.depAddOpts skip item) =
          s.depTarget item.dependency (s.depAddOpts true item) := by
        rw [applied.depAddOpts_eq, applied.depTarget_eq]
        rfl
      rw [edges, added.inserted.deps, plane, same, becomes]
      constructor
      · rintro (old | ⟨rfl, rfl⟩)
        · refine Or.inl ⟨old, fun both => added.fresh e ?_ both.2⟩
          rw [plane, both.1]
          exact old
        · exact Or.inr ⟨rfl, rfl⟩
      · rintro (⟨old, -⟩ | ⟨rfl, rfl⟩)
        · exact Or.inl old
        · exact Or.inr ⟨rfl, rfl⟩

/-- Every item ends, circles in the graph or not, with correct flags. -/
theorem applyDepAdd_settles (applied : Applied s t done) (fresh : ∀ x ∈ done, x.pair ≠ item.pair)
    (before : t.FlagsCorrect) (gate : KeepsGate s item) :
    (t.applyDepAdd c skip item).Settles FlagsCorrect := by
  unfold applyDepAdd
  refine Call.settles_guard fun distinct => addDependency_settles (fun d held key _ _ => ?_)
    fun v _ _ inserted named => Call.settles_of_returns ?_
  · refine (setMetadata_flags_iff before held).mpr ?_
    by_cases waits : d.type = .waitsFor
    · have plane : t.writeTable item.dependency (t.depAddOpts skip item) = s.routed item.source :=
        applied.routed_eq item.source
      rw [plane] at held
      obtain ⟨any, also⟩ := gate d ((applied.mem_of_key fresh key).mp held) key waits
      have any : item.dependency.metadata.AnyChildren ↔ d.metadata.AnyChildren := any
      have also : item.dependency.metadata.AlsoBlocks ↔ d.metadata.AlsoBlocks := also
      refine Or.inr (Or.inr (Or.inr (Or.inr (Or.inr ?_))))
      simp only [joins_iff, GateBlocked, any, also]
    · exact Or.inl waits
  · exact inserted.refreshAfterAdd before (fun child => depTarget_id ▸ named child) _ fun row
      read => by cases read

variable (c skip) in
/-- An admissible item is accepted if the graph allows it. -/
theorem applyDepAdd_accepts (applied : Applied s t done) (fresh : ∀ x ∈ done, x.pair ≠ item.pair)
    (before : t.FlagsCorrect) (admissible : Admissible s item)
    (hierarchy : item.type.Blocking → ¬ IsExternalDepTarget item.source item.target →
      ¬ ReflTransGen t.ParentChild item.source item.target ∧
        ¬ ReflTransGen t.ParentChild item.target item.source)
    (cycle : item.type.IsSchedulingEdge → ¬ ReflTransGen t.Scheduling item.target item.source) :
    ∃ u, (t.applyDepAdd c skip item).Returns u := by
  have plane : t.writeTable item.dependency (t.depAddOpts skip item) = s.routed item.source :=
    applied.routed_eq item.source
  have held : t.EndpointsHeld item.dependency (t.depAddOpts skip item) := by
    rw [applied.depAddOpts_eq, applied.endpointsHeld_iff]
    exact admissible.held
  have valid : (t.validateAddDependency item.dependency (t.depAddOpts skip item)).Returns () := by
    refine validateAddDependency_accepts rfl admissible.distinct held
      (fun type read known blocking => ?_)
      fun _ => cycle
    refine hierarchy blocking fun external => known ?_
    have away : IsExternalRef item.target ∨
        (t.depAddOpts skip item).isCrossPrefix = true := external.imp_right fun differ => decide_eq_true differ
    rw [dependencyTargetType] at read
    exact (Except.ok.inj ((if_pos away).symm.trans read)).symm
  unfold applyDepAdd
  simp only [if_neg admissible.distinct]
  refine addDependency_accepts before valid held.1 rfl (fun d stored key => ?_) fun absent => ?_
  · rw [plane] at stored
    exact admissible.types d ((applied.mem_of_key fresh key).mp stored) key
  · rw [applied.depAddOpts_eq, applied.newEdgeAllowed_iff]
    refine admissible.allowed fun d old key => absent d ?_ key
    rw [plane]
    exact (applied.mem_of_key fresh key).mpr old

/-! ## When a batch is accepted -/

/-- The graph of a type once all items are in. -/
def Grown (s : Store) (items : List DepAddItem) (types : DependencyType → Prop) (a b : String) :
    Prop :=
  s.Related types a b ∨ ∃ item ∈ items, types item.type ∧ item.pair = (a, b)

/-- Every item is admissible, and the graph that all of them produce allows each. -/
structure Acceptable (s : Store) (items : List DepAddItem) : Prop where
  admissible : ∀ item ∈ items, Admissible s item
  hierarchy : ∀ item ∈ items, item.type.Blocking → ¬ IsExternalDepTarget item.source item.target →
    ¬ ReflTransGen (s.Grown items (· = .parentChild)) item.source item.target ∧
      ¬ ReflTransGen (s.Grown items (· = .parentChild)) item.target item.source
  cycle : ∀ item ∈ items, item.type.IsSchedulingEdge →
    ¬ ReflTransGen (s.Grown items DependencyType.IsSchedulingEdge) item.target item.source

private theorem Grown.congr {others : List DepAddItem} (same : ∀ x, x ∈ others ↔ x ∈ items)
    (types : DependencyType → Prop) :
    s.Grown others types = s.Grown items types := by
  funext a b
  simp only [Grown, same]

/-- Nothing of this depends on the order of the items. -/
theorem Acceptable.congr {others : List DepAddItem} (same : ∀ x, x ∈ others ↔ x ∈ items)
    (acceptable : Acceptable s items) : Acceptable s others where
  admissible item member := acceptable.admissible item ((same item).mp member)
  hierarchy item member := by
    rw [Grown.congr same]
    exact acceptable.hierarchy item ((same item).mp member)
  cycle item member := by
    rw [Grown.congr same]
    exact acceptable.cycle item ((same item).mp member)

private theorem Applied.grown (applied : Applied s t done) (sub : ∀ x ∈ done, x ∈ items)
    {types : DependencyType → Prop}
    {a b : String} (edge : t.Related types a b) : s.Grown items types a b := by
  rcases applied.related_iff.mp edge with old | ⟨item, member, chosen, pair⟩
  · exact Or.inl old
  · exact Or.inr ⟨item, sub item member, chosen, pair⟩

theorem Applied.grown_eq (applied : Applied s t {x | x ∈ items}) (types : DependencyType → Prop) :
    t.Related types = s.Grown items types := by
  funext a b
  exact propext applied.related_iff

/-- The items still to come have endpoints of their own. -/
structure Waiting (s : Store) (done : Set DepAddItem) (rest : List DepAddItem) : Prop where
  fresh : ∀ x ∈ done, ∀ y ∈ rest, x.pair ≠ y.pair
  distinct : (rest.map DepAddItem.pair).Nodup
  gates : ∀ x ∈ rest, KeepsGate s x

theorem Waiting.next {rest : List DepAddItem} (waiting : Waiting s done (item :: rest)) :
    Waiting s (insert item done) rest := by
  obtain ⟨fresh, distinct, gates⟩ := waiting
  rw [List.map_cons, List.nodup_cons] at distinct
  refine ⟨fun x member y later => ?_, distinct.2,
    fun x later => gates x (List.mem_cons_of_mem _ later)⟩
  rcases Set.mem_insert_iff.mp member with rfl | member
  · exact fun same => distinct.1 (List.mem_map.mpr ⟨y, later, same.symm⟩)
  · exact fresh x member y (List.mem_cons_of_mem _ later)

/-- Items ahead of the gate end with correct flags, and accepted ones are in. -/
theorem foldlM_applyDepAdd_settles (rest : List DepAddItem) (applied : Applied s t done)
    (before : t.FlagsCorrect) (waiting : Waiting s done rest) :
    (rest.foldlM (fun (v : Store) item => v.applyDepAdd c skip item) t).Settles fun u =>
      u.FlagsCorrect ∧ Applied s u (done ∪ {x | x ∈ rest}) ∧ ∀ x ∈ rest, Admissible s x := by
  induction rest generalizing t done with
  | nil =>
    refine Call.settles_pure ⟨before, ?_, fun _ none => (List.not_mem_nil none).elim⟩
    simpa using applied
  | cons item rest ih =>
    have fresh : ∀ x ∈ done, x.pair ≠ item.pair := fun x member =>
      waiting.fresh x member item List.mem_cons_self
    rw [List.foldlM_cons]
    refine Call.settles_bind (applyDepAdd_settles applied fresh before
      (waiting.gates item List.mem_cons_self)).returning fun v ⟨returns, correct⟩ => ?_
    obtain ⟨admissible, more⟩ := applyDepAdd_returns applied fresh returns
    refine (ih more correct waiting.next).mono fun u ⟨flags, all, others⟩ => ⟨flags, ?_, ?_⟩
    · have same : insert item done ∪ {x | x ∈ rest} = done ∪ {x | x ∈ item :: rest} := by
        ext x
        simp only [Set.mem_union, Set.mem_insert_iff, Set.mem_ofPred_eq, List.mem_cons]
        tauto
      rwa [same] at all
    · exact List.forall_mem_cons.mpr ⟨admissible, others⟩

variable (c skip) in
/-- The items of an acceptable batch are all accepted, in any order. -/
theorem foldlM_applyDepAdd_accepts (acceptable : Acceptable s items) (rest : List DepAddItem)
    (sub : ∀ x ∈ rest, x ∈ items) (inside : ∀ x ∈ done, x ∈ items) (applied : Applied s t done)
    (before : t.FlagsCorrect) (waiting : Waiting s done rest) :
    ∃ u, (rest.foldlM (fun (v : Store) item => v.applyDepAdd c skip item) t).Returns u := by
  induction rest generalizing t done with
  | nil => exact ⟨t, Call.ends_ofExcept⟩
  | cons item rest ih =>
    have fresh : ∀ x ∈ done, x.pair ≠ item.pair := fun x member =>
      waiting.fresh x member item List.mem_cons_self
    have member := sub item List.mem_cons_self
    have reach {types : DependencyType → Prop} {a b : String}
        (path : ReflTransGen (t.Related types) a b) :
        ReflTransGen (s.Grown items types) a b := ReflTransGen.mono (fun _ _ edge => applied.grown inside edge) _ _ path
    obtain ⟨v, returns⟩ := applyDepAdd_accepts c skip applied fresh before
      (acceptable.admissible item member)
      (fun blocking near => by
        obtain ⟨up, down⟩ := acceptable.hierarchy item member blocking near
        exact ⟨fun path => up (reach path), fun path => down (reach path)⟩)
      fun scheduling path => acceptable.cycle item member scheduling (reach path)
    have correct := (applyDepAdd_settles applied fresh before
      (waiting.gates item List.mem_cons_self)).of_returns returns
    obtain ⟨u, rest⟩ := ih (fun x later => sub x (List.mem_cons_of_mem _ later))
      (fun x held => (Set.mem_insert_iff.mp held).elim (fun same => same ▸ member) (inside x))
      (applyDepAdd_returns applied fresh returns).2 correct waiting.next
    exact ⟨u, by rw [List.foldlM_cons]; exact Call.returns_bind.mpr ⟨v, returns, rest⟩⟩

private theorem checkAddedEdges_accepts {edges : List DependencyEdge}
    (apart : ∀ edge ∈ edges, edge.type.IsSchedulingEdge →
      ¬ ReflTransGen t.Scheduling edge.dependsOnId edge.issueId) :
    (t.checkAddedEdgesForCycles edges).Returns () := by
  unfold checkAddedEdgesForCycles
  extract_lets pairs
  split
  · exact Call.ends_ofExcept
  · rw [if_neg]
    · exact Call.ends_ofExcept
    · rintro ⟨pair, member, -, -, closes⟩
      obtain ⟨edge, held, rfl⟩ := List.mem_map.mp member
      obtain ⟨held, scheduling⟩ := List.mem_filter.mp held
      refine apart edge held (of_decide_eq_true scheduling) ?_
      rcases closes with same | reaches
      · rw [show edge.issueId = edge.dependsOnId from same]
      · exact wouldCreateSchedulingCycle_iff.mp reaches

private theorem gateHierarchy_accepts : (t.gateHierarchy item).Returns () ↔
    (¬ IsExternalDepTarget item.source item.target → item.type.Blocking →
      item.source ≠ item.target →
      ¬ ReflTransGen t.ParentChild item.source item.target ∧
        ¬ ReflTransGen t.ParentChild item.target item.source) := by
  unfold gateHierarchy
  split
  · next away => exact ⟨fun _ near => absurd away near, fun _ => Call.ends_ofExcept⟩
  · next near =>
    rw [checkBlockingHierarchy_accepts, isAncestor_iff, isAncestor_iff]
    exact ⟨fun free _ => free, fun free => free near⟩

/-- The gate makes the graph checks of all items for the graph that they produced. -/
theorem runEndGate_accepts (named : ∀ item ∈ items, item.source ≠ "" ∧ item.target ≠ "")
    (distinct : ∀ item ∈ items, item.source ≠ item.target) : (t.runEndGate items).Returns () ↔
      ∀ item ∈ items,
        (item.type.IsSchedulingEdge → ¬ ReflTransGen t.Scheduling item.target item.source) ∧
        (item.type.Blocking → ¬ IsExternalDepTarget item.source item.target →
          ¬ ReflTransGen t.ParentChild item.source item.target ∧
            ¬ ReflTransGen t.ParentChild item.target item.source) := by
  unfold runEndGate
  constructor
  · intro returns item member
    split at returns
    · next empty => rw [empty] at member; cases member
    · obtain ⟨_, cycles, hierarchy⟩ := Call.returns_bind.mp returns
      refine ⟨fun scheduling => ?_, fun blocking near => ?_⟩
      · have listed : (item.source, item.target) ∈ schedulingPairs (items.map DepAddItem.edge) :=
          mem_schedulingPairs item.edge (List.mem_map_of_mem member) scheduling
        exact checkAddedEdges_settles.of_returns cycles _ listed (named item member).1
          (named item member).2
      · exact gateHierarchy_accepts.mp (Call.returns_checks.mp hierarchy item member) near blocking
          (distinct item member)
  · intro allowed
    split
    · exact Call.ends_ofExcept
    · refine Call.returns_bind.mpr ⟨(), checkAddedEdges_accepts fun edge held scheduling => ?_, ?_⟩
      · obtain ⟨item, member, rfl⟩ := List.mem_map.mp held
        exact (allowed item member).1 scheduling
      · refine Call.returns_checks.mpr fun item member => gateHierarchy_accepts.mpr fun near
          blocking _ => ?_
        exact (allowed item member).2 blocking near

private theorem runEndGate_settles : (t.runEndGate items).Settles fun _ => True := by
  unfold runEndGate
  refine Call.settles_ite (fun _ => Call.settles_pure trivial) fun _ =>
    Call.settles_bind checkAddedEdges_settles fun _ _ => ?_
  refine Call.settles_foldlM (fun _ => True) items (fun _ item _ _ => ?_) trivial
  unfold gateHierarchy
  exact Call.settles_ite (fun _ => Call.settles_pure trivial) fun _ =>
    checkBlockingHierarchy_settles.mono fun _ _ => trivial

variable (c skip) in
/-- A batch ends, and one that is accepted was acceptable, stored the edges of its
items and left correct flags. -/
theorem applyItems_settles (before : s.FlagsCorrect)
    (named : ∀ item ∈ items, item.source ≠ "" ∧ item.target ≠ "")
    (waiting : Waiting s ∅ items) : (s.applyItems c skip items).Settles fun t =>
      Acceptable s items ∧ Applied s t {x | x ∈ items} ∧ t.FlagsCorrect := by
  unfold applyItems
  refine Call.settles_bind (foldlM_applyDepAdd_settles items (Applied.refl s) before waiting)
    fun t ⟨flags, applied, admissible⟩ => ?_
  refine Call.settles_bind runEndGate_settles.returning fun _ ⟨gate, _⟩ => Call.settles_pure ?_
  rw [Set.empty_union] at applied
  have allowed :=
    (runEndGate_accepts named fun item member => (admissible item member).distinct).mp gate
  refine ⟨⟨admissible, fun item member => ?_, fun item member => ?_⟩, applied, flags⟩
  · rw [← applied.grown_eq]
    exact (allowed item member).2
  · rw [← applied.grown_eq]
    exact (allowed item member).1

variable (c skip) in
/-- An acceptable batch is accepted. -/
theorem applyItems_accepts (before : s.FlagsCorrect)
    (named : ∀ item ∈ items, item.source ≠ "" ∧ item.target ≠ "")
    (waiting : Waiting s ∅ items) (acceptable : Acceptable s items) :
    ∃ t, (s.applyItems c skip items).Returns t := by
  obtain ⟨t, returns⟩ := foldlM_applyDepAdd_accepts c skip acceptable items (fun _ member => member)
    (fun _ none => none.elim) (Applied.refl s) before waiting
  obtain ⟨-, applied, -⟩ :=
    (foldlM_applyDepAdd_settles items (Applied.refl s) before waiting).of_returns returns
  rw [Set.empty_union] at applied
  refine ⟨t, Call.returns_bind.mpr ⟨t, returns, Call.returns_bind.mpr ⟨(), ?_, Call.ends_ofExcept⟩⟩⟩
  refine (runEndGate_accepts named fun item member => (acceptable.admissible item member).distinct).mpr
    fun item member => ⟨?_, ?_⟩
  · rw [Scheduling, applied.grown_eq]
    exact acceptable.cycle item member
  · rw [ParentChild, applied.grown_eq]
    exact acceptable.hierarchy item member

/-! ## Order -/

theorem Acceptable.acyclic (acceptable : Acceptable s items) (before : Acyclic s.Scheduling) :
    Acyclic (s.Grown items DependencyType.IsSchedulingEdge) := by
  refine before.of_new (fun a b => ∃ item ∈ items, item.type.IsSchedulingEdge ∧ item.pair = (a, b))
    (fun _ _ edge => edge) fun a b _ listed reaches => ?_
  obtain ⟨item, member, scheduling, pair⟩ := listed
  obtain ⟨rfl, rfl⟩ := Prod.mk.inj pair
  exact acceptable.cycle item member scheduling reaches

/-- The same items leave the same edges and, without cycles, the same rows. -/
theorem Applied.same_outcome {done' : Set DepAddItem} (left : Applied s t done)
    (right : Applied s u done')
    (same : ∀ x, x ∈ done' ↔ x ∈ done) (correct : t.FlagsCorrect) (correct' : u.FlagsCorrect)
    (acyclic : Acyclic t.ParentChild) : u.rows = t.rows ∧ ∀ p d, d ∈ u.deps p ↔ d ∈ t.deps p := by
  have deps : ∀ p d, d ∈ u.deps p ↔ d ∈ t.deps p := fun p d => by
    simp only [right.deps, left.deps, same]
  have view : SameView t u := ⟨fun n => (right.status?_eq n).trans (left.status?_eq n).symm, deps⟩
  have flags : u.flags = t.flags := by
    rw [flagsCorrect_iff, rules_eq_of_view view] at correct'
    rw [correct'.eq_blocked (upward_acyclic acyclic),
      (flagsCorrect_iff.mp correct).eq_blocked (upward_acyclic acyclic)]
  refine ⟨funext fun p => Table.ext ?_, deps⟩
  rw [u.rows_eq_cleared p, t.rows_eq_cleared p, flags, right.rows, left.rows]

variable (c skip) in
/-- Both orders are accepted, with the same outcome, or both are refused. -/
theorem applyItems_order {others : List DepAddItem} (skip' : Bool) (before : s.FlagsCorrect)
    (acyclic : Acyclic s.Scheduling) (named : ∀ item ∈ items, item.source ≠ "" ∧ item.target ≠ "")
    (waiting : Waiting s ∅ items) (perm : others.Perm items) :
    (∃ t u, (s.applyItems c skip items).Returns t ∧ (s.applyItems c skip' others).Returns u ∧
        u.rows = t.rows ∧ ∀ p d, d ∈ u.deps p ↔ d ∈ t.deps p) ∨
      ∃ e f, (s.applyItems c skip items).Ends (.error e) ∧
        (s.applyItems c skip' others).Ends (.error f) := by
  have same : ∀ x, x ∈ others ↔ x ∈ items := fun x => perm.mem_iff
  have named' : ∀ item ∈ others, item.source ≠ "" ∧ item.target ≠ "" := fun item member =>
    named item ((same item).mp member)
  have waiting' : Waiting s ∅ others := ⟨fun _ none => none.elim,
    (perm.map DepAddItem.pair).nodup_iff.mpr waiting.distinct,
    fun x member => waiting.gates x ((same x).mp member)⟩
  have first := applyItems_settles c skip before named waiting
  have second := applyItems_settles c skip' before named' waiting'
  by_cases acceptable : Acceptable s items
  · obtain ⟨t, returns⟩ := applyItems_accepts c skip before named waiting acceptable
    obtain ⟨u, returns'⟩ := applyItems_accepts c skip' before named' waiting'
      (acceptable.congr same)
    obtain ⟨-, applied, correct⟩ := first.of_returns returns
    obtain ⟨-, applied', correct'⟩ := second.of_returns returns'
    have parents : Acyclic t.ParentChild := by
      have scheduling := acceptable.acyclic acyclic
      rw [← applied.grown_eq] at scheduling
      exact scheduling.mono fun a b ⟨p, d, held, child, key⟩ =>
        ⟨p, d, held, Or.inr child, key⟩
    exact Or.inl ⟨t, u, returns, returns',
      applied.same_outcome applied' same correct correct' parents⟩
  · refine Or.inr ?_
    obtain ⟨r, ends, accepted⟩ := first
    obtain ⟨r', ends', accepted'⟩ := second
    cases r with
    | ok t => exact absurd (accepted t rfl).1 acceptable
    | error e =>
      cases r' with
      | ok u => exact absurd ((accepted' u rfl).1.congr fun x => (same x).symm) acceptable
      | error f => exact ⟨e, f, ends, ends'⟩

end Store

/-! ## Planning -/

private theorem mapM_ok_iff {α β : Type} {f : α → Except Err β} {xs : List α} {ys : List β} :
    xs.mapM f = .ok ys ↔ List.Forall₂ (fun x y => f x = .ok y) xs ys := by
  induction xs generalizing ys with
  | nil =>
    rw [List.mapM_nil, List.forall₂_nil_left_iff]
    exact ⟨fun same => (Except.ok.inj same).symm, fun same => same ▸ rfl⟩
  | cons x xs ih =>
    rw [List.mapM_cons]
    constructor
    · intro done
      cases head : f x with
      | error e => rw [head] at done; cases done
      | ok y =>
        cases tail : xs.mapM f with
        | error e => rw [head, tail] at done; cases done
        | ok zs =>
          rw [head, tail] at done
          cases done
          exact .cons head (ih.mp tail)
    · rintro (_ | ⟨head, tail⟩)
      rw [head, ih.mpr tail]
      rfl

namespace DepAddItem

/-- A planned item has the endpoints of the item, which are named. -/
theorem plan_ok {item planned : DepAddItem} (ok : item.plan = .ok planned) :
    planned.pair = item.pair ∧ planned.source ≠ "" ∧ planned.target ≠ "" := by
  unfold plan at ok
  by_cases blank : item.source = "" ∨ item.target = ""
  · rw [if_pos blank] at ok
    cases ok
  · rw [if_neg blank] at ok
    by_cases same : item.source = item.target
    · rw [if_pos same] at ok
      cases ok
    · rw [if_neg same] at ok
      by_cases valid : item.type.IsValid
      · rw [if_neg (not_not.mpr valid)] at ok
        cases normal : item.normalizeApplyEdgeMetadata with
        | error e => rw [normal] at ok; cases ok
        | ok metadata =>
          rw [normal] at ok
          cases ok
          exact ⟨rfl, not_or.mp blank⟩
      · rw [if_pos valid] at ok
        cases ok

private theorem plan_all {items planned : List DepAddItem}
    (each : List.Forall₂ (fun item done => item.plan = .ok done) items planned) :
    planned.map pair = items.map pair ∧ ∀ x ∈ planned, ∃ item ∈ items, item.plan = .ok x := by
  induction each with
  | nil => exact ⟨rfl, fun _ none => (List.not_mem_nil none).elim⟩
  | @cons item done _ _ ok _ ih =>
    rw [List.map_cons, List.map_cons, ih.1, (plan_ok ok).1]
    refine ⟨rfl, fun x member => ?_⟩
    rcases List.mem_cons.mp member with rfl | later
    · exact ⟨item, List.mem_cons_self, ok⟩
    · obtain ⟨y, held, done⟩ := ih.2 x later
      exact ⟨y, List.mem_cons_of_mem _ held, done⟩

end DepAddItem

/-- The checks of a request that are not about one item. -/
def ApplyBatchRequest.Shaped (request : ApplyBatchRequest) : Prop :=
  request.actor ≠ "" ∧ request.items ≠ [] ∧ request.items.length ≤ maxApplyBatchItems

theorem ApplyBatchRequest.plan_ok_iff {request : ApplyBatchRequest} {planned : List DepAddItem} :
    request.plan = .ok planned ↔
      request.Shaped ∧ List.Forall₂ (fun item done => item.plan = .ok done) request.items planned := by
  rw [← mapM_ok_iff, Shaped]
  unfold plan
  by_cases actor : request.actor = ""
  · rw [if_pos actor]
    exact ⟨fun ok => (by cases ok), fun shaped => absurd actor shaped.1.1⟩
  · rw [if_neg actor]
    by_cases empty : request.items = []
    · rw [if_pos empty]
      exact ⟨fun ok => (by cases ok), fun shaped => absurd empty shaped.1.2.1⟩
    · rw [if_neg empty]
      by_cases long : maxApplyBatchItems < request.items.length
      · rw [if_pos long]
        exact ⟨fun ok => (by cases ok), fun shaped => absurd shaped.1.2.2 (Nat.not_le.mpr long)⟩
      · rw [if_neg long]
        exact ⟨fun ok => ⟨⟨actor, empty, Nat.not_lt.mp long⟩, ok⟩, fun shaped => shaped.2⟩

/-- A request with its items in another order plans to the items in another order. -/
theorem ApplyBatchRequest.plan_perm {request other : ApplyBatchRequest} {planned : List DepAddItem}
    (actor : other.actor = request.actor) (perm : other.items.Perm request.items)
    (ok : request.plan = .ok planned) :
    ∃ planned', other.plan = .ok planned' ∧ planned'.Perm planned := by
  obtain ⟨⟨named, nonempty, short⟩, each⟩ := plan_ok_iff.mp ok
  obtain ⟨planned', each', perm'⟩ := List.perm_comp_forall₂ perm each
  refine ⟨planned', plan_ok_iff.mpr ⟨⟨actor ▸ named, fun empty => nonempty ?_, perm.length_eq ▸ short⟩, each'⟩, perm'⟩
  rw [empty] at perm
  exact perm.nil_eq.symm

namespace Store

/-- Two requests with the same items in different orders are both accepted, with the
same outcome, or both refused, whether each item is checked against cycles or not. -/
theorem batch_order_irrelevant (s : Store) (before : s.FlagsCorrect)
    (acyclic : Acyclic s.Scheduling)
    (c : Coordinator) (request other : ApplyBatchRequest) (actor : other.actor = request.actor)
    (perm : other.items.Perm request.items) (distinct : (request.items.map DepAddItem.pair).Nodup)
    (gates : ∀ item ∈ request.items, ∀ planned, item.plan = .ok planned → s.KeepsGate planned) :
    (∃ t u, (s.applyBatch c request).Returns t ∧ (s.applyBatch c other).Returns u ∧
        u.rows = t.rows ∧ ∀ p d, d ∈ u.deps p ↔ d ∈ t.deps p) ∨
      ∃ e f, (s.applyBatch c request).Ends (.error e) ∧ (s.applyBatch c other).Ends (.error f) := by
  unfold applyBatch
  cases plan : request.plan with
  | error e =>
    cases plan' : other.plan with
    | error f =>
      exact Or.inr ⟨e, f, Call.ends_bind_error Call.ends_ofExcept,
        Call.ends_bind_error Call.ends_ofExcept⟩
    | ok planned' =>
      obtain ⟨planned, ok, -⟩ := ApplyBatchRequest.plan_perm actor.symm perm.symm plan'
      rw [plan] at ok
      cases ok
  | ok items =>
    obtain ⟨others, plan', perm'⟩ := ApplyBatchRequest.plan_perm actor perm plan
    obtain ⟨pairs, planned⟩ := DepAddItem.plan_all (ApplyBatchRequest.plan_ok_iff.mp plan).2
    have waiting : Waiting s ∅ items := by
      refine ⟨fun _ none => none.elim, pairs ▸ distinct, fun x member => ?_⟩
      obtain ⟨item, held, ok⟩ := planned x member
      exact gates item held x ok
    have named : ∀ x ∈ items, x.source ≠ "" ∧ x.target ≠ "" := fun x member => by
      obtain ⟨item, -, ok⟩ := planned x member
      exact (DepAddItem.plan_ok ok).2
    rw [plan']
    rcases applyItems_order c request.skipPerEdgeCycleCheck
        other.skipPerEdgeCycleCheck before acyclic named waiting perm' with
      ⟨t, u, first, second, outcome⟩ | ⟨e, f, first, second⟩
    · exact Or.inl ⟨t, u, Call.ends_bind_ok Call.ends_ofExcept first,
        Call.ends_bind_ok Call.ends_ofExcept second,
        outcome⟩
    · exact Or.inr ⟨e, f, Call.ends_bind_ok Call.ends_ofExcept first,
        Call.ends_bind_ok Call.ends_ofExcept second⟩

/-- The first issue is blocked by the second and is the parent of the third. -/
def blockedParent (skip : Bool) : ApplyBatchRequest :=
  ⟨"dev", [⟨"bd-1", "bd-2", .blocks, .empty⟩, ⟨"bd-3", "bd-1", .parentChild, .empty⟩], skip⟩

def parentBlocked (skip : Bool) : ApplyBatchRequest :=
  ⟨"dev", [⟨"bd-3", "bd-1", .parentChild, .empty⟩, ⟨"bd-1", "bd-2", .blocks, .empty⟩], skip⟩

theorem batch_order_irrelevant_threeIssues :
    ∃ t u, (threeIssues.applyBatch oneShard (blockedParent false)).Returns t ∧
      (threeIssues.applyBatch oneShard (parentBlocked true)).Returns u ∧ u.rows = t.rows ∧
        t.FlaggedAt (.issues, "bd-3") := by
  obtain ⟨t, accepted, flagged⟩ : ∃ t, (threeIssues.applyBatch oneShard (blockedParent false)).Returns t ∧
      t.FlaggedAt (.issues, "bd-3") := Call.returns_of_value? (n := 4) (by decide +kernel)
  rcases batch_order_irrelevant threeIssues (by decide) (by decide) oneShard (blockedParent false)
      (parentBlocked true) rfl (List.Perm.swap _ _ _) (by decide) (fun item _ planned _ d held => by
        exact absurd held (threeIssues_edgeless _ d)) with
    ⟨v, u, first, second, rows, -⟩ | ⟨e, f, refused, -⟩
  · obtain rfl := Except.ok.inj (first.unique accepted)
    exact ⟨v, u, first, second, rows, flagged⟩
  · cases refused.unique accepted

/-- An issue that is flagged for no reason, next to an epic and a closed issue. -/
def staleWaiter : Store where
  rows
    | .issues => ⟨[{ id := "bd-1", issueType := "epic" },
        { id := "bd-2", status := .closed, closedAt := some 1 },
        { id := "bd-3", isBlocked := true }], by decide⟩
    | .wisps => Table.empty
  deps _ := Table.empty

/-- The closed issue becomes a child of the epic, and the flagged one waits for its children. -/
def childThenWaiter : ApplyBatchRequest :=
  ⟨"dev", [⟨"bd-2", "bd-1", .parentChild, .empty⟩, ⟨"bd-3", "bd-1", .waitsFor, .empty⟩], false⟩

def waiterThenChild : ApplyBatchRequest :=
  ⟨"dev", [⟨"bd-3", "bd-1", .waitsFor, .empty⟩, ⟨"bd-2", "bd-1", .parentChild, .empty⟩], false⟩

/-- Only the order in which the child comes last recomputes the waiter. -/
theorem batch_order_matters_stale :
    Acyclic staleWaiter.Scheduling ∧ waiterThenChild.items.Perm childThenWaiter.items ∧
      (childThenWaiter.items.map DepAddItem.pair).Nodup ∧
      (∃ t, (staleWaiter.applyBatch oneShard childThenWaiter).Returns t ∧
        t.FlaggedAt (.issues, "bd-3")) ∧
      ∃ u, (staleWaiter.applyBatch oneShard waiterThenChild).Returns u ∧
        ¬ u.FlaggedAt (.issues, "bd-3") :=
  ⟨by decide, List.Perm.swap _ _ _, by decide, Call.returns_of_value? (n := 4) (by decide +kernel),
    Call.returns_of_value? (n := 4) (by decide +kernel)⟩

end Store
end Beads
