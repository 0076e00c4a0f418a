import Beads.RecomputeProofs

/-! What the affected-set queries return, and why it is enough. `Covers s t L`
says that every row outside `L` has the edges, the blockers and the gates in `t`
that it has in `s`, and that `L` holds the children of its rows; recomputing a
set that covers a change makes all flags correct again (`Covers.flagsCorrect`). -/
namespace Beads
open Lib Lib.Graph Lib.Worklist Lib.Propagation Relation

namespace Store
variable {s t u : Store} {L : Set Node} {n m : Node} {w w' : Frontier Plane String}

/-- The node has an edge of such a type onto the target, in the table of its plane. -/
def Onto (s : Store) (type : DependencyType → Prop) (n target : Node) : Prop :=
  s.EdgeAt n fun d => type d.type ∧ d.target = .node target

/-! ## Sets that cover a change -/

/-- A set of rows outside of which a change of the tables reaches no flag. -/
structure Covers (s t : Store) (L : Set Node) : Prop where
  status : ∀ n ∉ L, t.status? n = s.status? n
  edges : ∀ n ∉ L, ∀ d : Dep, d.issueId = n.2 → d.type.Affects → (d ∈ t.deps n.1 ↔ d ∈ s.deps n.1)
  blocker : ∀ n ∉ L, ∀ x, t.Onto DependencyType.Blocking n x → t.status? x = s.status? x
  spawner : ∀ n ∉ L, ∀ x, t.Onto (· = .waitsFor) n x → t.status? x = s.status? x
  children : ∀ n ∉ L, ∀ x, t.Onto (· = .waitsFor) n x → ∀ c, t.ParentOf c x ↔ s.ParentOf c x
  siblings : ∀ n ∉ L, ∀ x, t.Onto (· = .waitsFor) n x → ∀ c, t.ParentOf c x →
    t.status? c = s.status? c
  closed : ∀ n m, t.ParentOf n m → m ∈ L → n ∈ L

theorem hasChild_iff {spawner : Node} {c : Status → Prop} :
    s.HasChild spawner c ↔ ∃ child, s.ParentOf child spawner ∧
      s.RowAt child fun r => c r.status := by
  constructor
  · rintro ⟨p, -, cd, held, type, target, child⟩
    exact ⟨(p, cd.issueId), ⟨cd, held, rfl, type, target⟩, child⟩
  · rintro ⟨⟨p, id⟩, ⟨cd, held, rfl, type, target⟩, child⟩
    exact ⟨p, Plane.mem_all p, cd, held, type, target, child⟩

theorem hasChild_congr_of_parentOf {spawner : Node} {c : Status → Prop}
    (children : ∀ child, t.ParentOf child spawner ↔ s.ParentOf child spawner)
    (status : ∀ child, t.ParentOf child spawner → t.status? child = s.status? child) :
    t.HasChild spawner c ↔ s.HasChild spawner c := by
  rw [hasChild_iff, hasChild_iff]
  refine exists_congr fun child => ?_
  rw [← children child]
  exact and_congr_right fun edge => rowAt_status_congr (status child edge)

namespace Covers

private theorem edgeAt_iff (covers : Covers s t L) (out : n ∉ L) {c : Dep → Prop}
    (relevant : ∀ d, c d → d.type.Affects) : t.EdgeAt n c ↔ s.EdgeAt n c := by
  constructor
  · rintro ⟨d, held, source, holds⟩
    exact ⟨d, (covers.edges n out d source (relevant d holds)).mp held, source, holds⟩
  · rintro ⟨d, held, source, holds⟩
    exact ⟨d, (covers.edges n out d source (relevant d holds)).mpr held, source, holds⟩

private theorem liveBlocker_iff (covers : Covers s t L) (out : n ∉ L) :
    t.LiveBlocker n ↔ s.LiveBlocker n := by
  rw [LiveBlocker, covers.edgeAt_iff out fun d holds => Or.inl holds.1]
  refine exists_congr fun d => and_congr_right fun held => and_congr_right fun source =>
    and_congr_right fun type => ?_
  cases target : d.target with
  | external ref => exact Iff.rfl
  | node x =>
    have held' := (covers.edges n out d source (Or.inl type)).mpr held
    exact liveAt_congr (covers.blocker n out x ⟨d, held', source, type, target⟩)

private theorem heldGate_iff (covers : Covers s t L) (out : n ∉ L) :
    t.HeldGate n ↔ s.HeldGate n := by
  rw [HeldGate, covers.edgeAt_iff out fun d holds => Or.inr (Or.inl holds.1)]
  refine exists_congr fun d => and_congr_right fun held => and_congr_right fun source =>
    and_congr_right fun type => ?_
  cases target : d.target with
  | external ref => exact Iff.rfl
  | node x =>
    have held' := (covers.edges n out d source (Or.inr (Or.inl type))).mpr held
    have waits : t.Onto (· = .waitsFor) n x := ⟨d, held', source, type, target⟩
    have child : ∀ c : Status → Prop, t.HasChild x c ↔ s.HasChild x c := fun c =>
      hasChild_congr_of_parentOf (covers.children n out x waits) (covers.siblings n out x waits)
    exact gateBlocked_congr (liveAt_congr (covers.spawner n out x waits)) (child _) (child _)

theorem unaffected (covers : Covers s t L) (out : n ∉ L) :
    FlagRules.Unaffected s.rules t.rules n where
  live_iff := liveAt_congr (covers.status n out)
  direct_iff _ := or_congr (covers.liveBlocker_iff out) (covers.heldGate_iff out)
  parent_iff _ _ := covers.edgeAt_iff out fun _ holds => Or.inr (Or.inr holds.1)

/-- Correct flags, a covered change and a recomputation of the cover give
correct flags. Rows that are no longer there need no recomputation. -/
theorem flagsCorrect_of_gone {ids : IDs} {gone : Set Node} (covers : Covers s t (scope ids ∪ gone))
    (before : s.FlagsCorrect) (absent : ∀ n ∈ gone, t.row? n = none)
    (flags : ∀ n ∉ scope ids ∪ gone, n ∈ t.flags ↔ n ∈ s.flags) (done : Recomputed ids t u) :
    u.FlagsCorrect := by
  rw [flagsCorrect_iff, rules_eq_of_cleared done.cleared]
  refine FlagRules.correct_of_scope (flagsCorrect_iff.mp before) (fun n out => ?_)
    (fun n out => covers.unaffected out) (fun n m _ edge inside => covers.closed n m edge inside) ?_
  · exact (done.outside n fun inside => out (Or.inl inside)).trans (flags n out)
  · rintro n (inside | missing)
    · exact done.inside n inside
    · by_cases inside : n ∈ scope ids
      · exact done.inside n inside
      · have noRow : ∀ c : Row → Prop, ¬ t.RowAt n c := fun c row => by
          obtain ⟨r, found, -⟩ := rowAt_iff.mp row
          rw [absent n missing] at found
          cases found
        refine iff_of_false ?_ fun due => noRow _ due.1
        rw [done.outside n inside]
        exact noRow _

theorem flagsCorrect {ids : IDs} (covers : Covers s t (scope ids)) (before : s.FlagsCorrect)
    (flags : ∀ n ∉ scope ids, n ∈ t.flags ↔ n ∈ s.flags) (done : Recomputed ids t u) :
    u.FlagsCorrect := by
  refine flagsCorrect_of_gone ?_ before (fun n (none : n ∈ (∅ : Set Node)) => none.elim) ?_ done
  · rwa [Set.union_empty]
  · rwa [Set.union_empty]

end Covers

/-! ## Seeds and their expansion -/

theorem mem_sources {p : Plane} {type : DependencyType → Prop} [DecidablePred type] {target : Node}
    {id : String} : id ∈ s.sources p type target ↔ s.Onto type (p, id) target := by
  simp only [sources, List.mem_map, List.mem_filter, decide_eq_true_eq, Onto, EdgeAt]
  constructor
  · rintro ⟨d, ⟨held, type, target⟩, source⟩
    exact ⟨d, held, source, type, target⟩
  · rintro ⟨d, held, source, type, target⟩
    exact ⟨d, ⟨held, type, target⟩, source⟩

private theorem mem_parentIDs {col : Plane} {id : String} :
    id ∈ s.parentIDs n col ↔ s.ParentOf n (col, id) := by
  simp only [parentIDs, List.mem_filterMap, ParentOf, EdgeAt]
  constructor
  · rintro ⟨d, held, found⟩
    split at found
    · next chosen =>
      refine ⟨d, held, chosen.1, chosen.2, ?_⟩
      cases target : d.target with
      | external ref => rw [target] at found; cases found
      | node x =>
        rw [target, Target.column] at found
        split at found
        · next same => cases found; rw [← same]
        · cases found
    · cases found
  · rintro ⟨d, held, source, type, target⟩
    refine ⟨d, held, ?_⟩
    rw [if_pos ⟨source, type⟩, target, Target.column, if_pos rfl]

theorem loadSources_adds (type : DependencyType → Prop) [DecidablePred type] (col : Plane)
    (ids : List String) (w : Frontier Plane String) :
    w.Adds {m | ∃ id ∈ ids, s.Onto type m (col, id)} (s.loadSources type col ids w) := by
  refine (Frontier.visitAll_adds w _).congr fun m => ?_
  simp only [Set.mem_ofPred_eq, List.mem_flatMap, List.mem_map, mem_sources]
  constructor
  · rintro ⟨id, held, p, -, key, edge, rfl⟩
    exact ⟨id, held, edge⟩
  · rintro ⟨id, held, edge⟩
    exact ⟨id, held, m.1, Plane.mem_all m.1, m.2, edge, rfl⟩

theorem loadWaitersOnSpawnerIDs_adds (id : String) (w : Frontier Plane String) :
    w.Adds {m | ∃ x : Node, x.2 = id ∧ s.Onto (· = .waitsFor) m x}
      (s.loadWaitersOnSpawnerIDs [id] w) := by
  refine ((s.loadSources_adds _ .issues [id] w).trans (s.loadSources_adds _ .wisps [id] _)).congr
    fun m => ?_
  simp only [Set.mem_union, Set.mem_ofPred_eq, List.mem_singleton, exists_eq_left]
  constructor
  · rintro (edge | edge)
    · exact ⟨_, rfl, edge⟩
    · exact ⟨_, rfl, edge⟩
  · rintro ⟨⟨p, id⟩, rfl, edge⟩
    cases p with
    | issues => exact Or.inl edge
    | wisps => exact Or.inr edge

theorem loadWaitersWhoseSpawnerIsParentOf_adds (w : Frontier Plane String) (child : Node) :
    w.Adds {m | ∃ x, s.ParentOf child x ∧ s.Onto (· = .waitsFor) m x}
      (s.loadWaitersWhoseSpawnerIsParentOf w child) := by
  refine ((s.loadSources_adds _ .issues (s.parentIDs child .issues) w).trans
    (s.loadSources_adds _ .wisps (s.parentIDs child .wisps) _)).congr fun m => ?_
  simp only [Set.mem_union, Set.mem_ofPred_eq, mem_parentIDs]
  constructor
  · rintro (⟨id, parent, edge⟩ | ⟨id, parent, edge⟩)
    · exact ⟨_, parent, edge⟩
    · exact ⟨_, parent, edge⟩
  · rintro ⟨⟨p, id⟩, parent, edge⟩
    cases p with
    | issues => exact Or.inl ⟨id, parent, edge⟩
    | wisps => exact Or.inr ⟨id, parent, edge⟩

private theorem appendChildren_adds (p col : Plane) (ids : List String)
    (w : Frontier Plane String) :
    w.Adds {m | m.1 = p ∧ ∃ id ∈ ids, s.ParentOf m (col, id)} (s.appendChildren p col ids w) := by
  refine (Frontier.visitAll_adds w _).congr fun m => ?_
  simp only [Set.mem_ofPred_eq, List.mem_flatMap, List.mem_map, mem_sources]
  constructor
  · rintro ⟨id, held, key, edge, rfl⟩
    exact ⟨rfl, id, held, edge⟩
  · rintro ⟨rfl, id, held, edge⟩
    exact ⟨id, held, m.2, edge, rfl⟩

/-- What the expansion returns for seeds that all count as seen: the seeds, no
row that was seen without being a seed, and the children of whatever it returns
unless they were seen from the start. -/
structure Expanded (s : Store) (w : Frontier Plane String) (ids : IDs) : Prop where
  seeds : ∀ n : Node, n.2 ∈ w.queue n.1 → n ∈ scope ids
  fresh : ∀ n ∈ scope ids, n.2 ∈ w.queue n.1 ∨ n.2 ∉ w.seen n.1
  children : ∀ n ∈ scope ids, ∀ m, s.ParentOf m n → m ∈ scope ids ∨ m.2 ∈ w.seen m.1

theorem expandByParentChildDescendants_spec
    (queued : ∀ n : Node, n.2 ∈ w.queue n.1 → n.2 ∈ w.seen n.1) :
    Expanded s w (s.expandByParentChildDescendants w) := by
  let children : Node → Plane → List String := fun n p => s.sources p (· = .parentChild) n
  let pool : Plane → List String := fun p => (s.deps p).rows.map Dep.issueId
  have child : ∀ n m, Child children n m ↔ s.ParentOf m n := fun n m => mem_sources
  have known : ∀ n m, Child children n m → m.2 ∈ pool m.1 := by
    intro n m edge
    obtain ⟨d, held, source, -⟩ := (child n m).mp edge
    exact List.mem_map.mpr ⟨d, held, source⟩
  have enough : w.measure pool < (s.deps .issues).rows.length + (w.queue .issues).length +
      ((s.deps .wisps).rows.length + (w.queue .wisps).length) + 1 := by
    have lane : ∀ p, (pool p).countP (· ∉ w.seen p) ≤ (s.deps p).rows.length := fun p =>
      List.countP_le_length.trans (Nat.le_of_eq (List.length_map _))
    have first := lane .issues
    have second := lane .wisps
    have split : w.measure pool = (pool .issues).countP (· ∉ w.seen .issues) +
        (w.queue .issues).length + ((pool .wisps).countP (· ∉ w.seen .wisps) +
          (w.queue .wisps).length) := rfl
    omega
  obtain ⟨running, empty⟩ := run_spec (by decide : 0 < queryBatchSize) Plane.mem_all known _
    (Running.init queued) enough
  constructor
  · exact fun n held => (running.mem_taken empty n).1 held
  · exact fun n held => (running.mem_taken empty n).2.1 held
  · exact fun n held m edge => (running.mem_taken empty n).2.2.2 m held ((child n m).mpr edge)

/-- A frontier in which every seen row still waits. -/
def Loaded (w : Frontier Plane String) (X : Set Node) : Prop :=
  ∀ n : Node, (n.2 ∈ w.queue n.1 ↔ n ∈ X) ∧ (n.2 ∈ w.seen n.1 ↔ n ∈ X)

theorem loaded_seed (n : Node) : Loaded (seed n) {n} := by
  intro m
  have same : m.2 ∈ Function.update (fun _ => ([] : List String)) n.1 [n.2] m.1 ↔
      m ∈ ({n} : Set Node) := by
    rw [Set.mem_singleton_iff, Prod.ext_iff]
    by_cases lane : m.1 = n.1
    · simp [lane]
    · simp [lane]
  exact ⟨same, same⟩

theorem Loaded.adds {X Y : Set Node} (loaded : Loaded w X) (adds : w.Adds Y w') :
    Loaded w' (X ∪ Y) := by
  intro n
  rw [adds.queue, adds.seen, (loaded n).1, (loaded n).2, Set.mem_union]
  tauto

/-- A set that holds the given rows and the children of its rows. -/
theorem Loaded.expand {X : Set Node} (loaded : Loaded w X) :
    X ⊆ scope (s.expandByParentChildDescendants w) ∧
      ∀ n m, s.ParentOf n m → m ∈ scope (s.expandByParentChildDescendants w) →
        n ∈ scope (s.expandByParentChildDescendants w) := by
  have expanded := s.expandByParentChildDescendants_spec (w := w) fun n held =>
    (loaded n).2.mpr ((loaded n).1.mp held)
  refine ⟨fun n held => expanded.seeds n ((loaded n).1.mpr held), fun n m edge inside => ?_⟩
  rcases expanded.children m inside n edge with member | seen
  · exact member
  · exact expanded.seeds n ((loaded n).1.mpr ((loaded n).2.mp seen))

/-! ## The three queries -/

/-- The rows whose flag can depend on the status of a node. -/
structure StatusScope (s : Store) (x : Node) (L : Set Node) : Prop where
  self : x ∈ L
  dependers : ∀ n, s.Onto DependencyType.Blocking n x → n ∈ L
  siblings : ∀ n y, s.ParentOf x y → s.Onto (· = .waitsFor) n y → n ∈ L
  waiters : ∀ n (y : Node), y.2 = x.2 → s.Onto (· = .waitsFor) n y → n ∈ L
  closed : ∀ n m, s.ParentOf n m → m ∈ L → n ∈ L

theorem affectedByStatusChange_spec (s : Store) (x : Node) :
    StatusScope s x (scope (s.affectedByStatusChange x)) := by
  have loaded :=
    ((loaded_seed x).adds (s.loadSources_adds DependencyType.Blocking x.1 [x.2] _)).adds
    (s.loadWaitersWhoseSpawnerIsParentOf_adds _ x)
  obtain ⟨seeds, closed⟩ := (loaded.adds (s.loadWaitersOnSpawnerIDs_adds x.2 _)).expand (s := s)
  constructor
  · exact seeds (Or.inl (Or.inl (Or.inl rfl)))
  · exact fun n edge => seeds (Or.inl (Or.inl (Or.inr ⟨x.2, List.mem_singleton_self _, edge⟩)))
  · exact fun n y parent edge => seeds (Or.inl (Or.inr ⟨y, parent, edge⟩))
  · exact fun n y same edge => seeds (Or.inr ⟨y, same, edge⟩)
  · exact closed

/-- The rows whose flag can depend on an edge. -/
structure DepScope (s : Store) (source : Node) (target : String) (type : DependencyType)
    (L : Set Node) : Prop where
  self : source ∈ L
  waiters : type = .parentChild → target ≠ "" → ∀ n (y : Node), y.2 = target →
    s.Onto (· = .waitsFor) n y → n ∈ L
  closed : ∀ n m, s.ParentOf n m → m ∈ L → n ∈ L

theorem affectedByDepChange_spec (s : Store) (source : Node) (target : String)
    {type : DependencyType} (affects : type.Affects) :
    DepScope s source target type (scope (s.affectedByDepChange source target type)) := by
  unfold affectedByDepChange
  rw [if_pos affects]
  split
  · have loaded := (loaded_seed source).adds (s.loadWaitersOnSpawnerIDs_adds target _)
    obtain ⟨seeds, closed⟩ := loaded.expand (s := s)
    exact ⟨seeds (Or.inl rfl), fun _ _ n y same edge => seeds (Or.inr ⟨y, same, edge⟩), closed⟩
  · next other =>
    obtain ⟨seeds, closed⟩ := (loaded_seed source).expand (s := s)
    exact ⟨seeds rfl, fun child named => absurd ⟨child, named⟩ other, closed⟩

theorem affectedByDepChange_nil (s : Store) (source : Node) (target : String)
    {type : DependencyType} (affects : ¬ type.Affects) :
    s.affectedByDepChange source target type = fun _ => [] :=
  if_neg affects

/-- The surviving rows whose flag can depend on deleted rows. -/
structure DeletionScope (s : Store) (deleted : IDs) (L : Set Node) : Prop where
  survivors : ∀ n ∈ L, n ∉ scope deleted
  dependers : ∀ n ∉ scope deleted, ∀ x ∈ scope deleted, s.Onto DependencyType.Blocking n x → n ∈ L
  waiters : ∀ n ∉ scope deleted, ∀ x ∈ scope deleted, s.Onto (· = .waitsFor) n x → n ∈ L
  siblings : ∀ n ∉ scope deleted, ∀ x ∈ scope deleted, ∀ y, s.ParentOf x y →
    s.Onto (· = .waitsFor) n y → n ∈ L
  orphans : ∀ n ∉ scope deleted, ∀ x ∈ scope deleted, s.ParentOf n x → n ∈ L
  closed : ∀ n ∉ scope deleted, ∀ m ∈ L, s.ParentOf n m → n ∈ L

/-- A query on the durable ids followed by the one on the ephemeral ids. -/
private theorem exists_scope {deleted : IDs} {c : Node → Prop} :
    (∃ x ∈ scope deleted, c x) ↔
      (∃ id ∈ deleted .issues, c (.issues, id)) ∨ ∃ id ∈ deleted .wisps, c (.wisps, id) := by
  constructor
  · rintro ⟨⟨p, id⟩, held, holds⟩
    cases p with
    | issues => exact Or.inl ⟨id, held, holds⟩
    | wisps => exact Or.inr ⟨id, held, holds⟩
  · rintro (⟨id, held, holds⟩ | ⟨id, held, holds⟩)
    · exact ⟨(.issues, id), held, holds⟩
    · exact ⟨(.wisps, id), held, holds⟩

private theorem loadSources_scope_adds (type : DependencyType → Prop) [DecidablePred type]
    (deleted : IDs) (w : Frontier Plane String) :
    w.Adds {m | ∃ x ∈ scope deleted, s.Onto type m x}
      (s.loadSources type .wisps (deleted .wisps) (s.loadSources type .issues (deleted .issues) w)) :=
  ((s.loadSources_adds type .issues (deleted .issues) w).trans
    (s.loadSources_adds type .wisps (deleted .wisps) _)).congr fun _ => exists_scope.symm

private theorem foldl_siblings_adds (p : Plane) (ids : List String) (w : Frontier Plane String) :
    w.Adds {m | ∃ id ∈ ids, ∃ y, s.ParentOf (p, id) y ∧ s.Onto (· = .waitsFor) m y}
      ((ids.map (p, ·)).foldl s.loadWaitersWhoseSpawnerIsParentOf w) := by
  induction ids generalizing w with
  | nil => exact (Frontier.Adds.refl w).congr fun m => by simp
  | cons first rest ih =>
    exact ((s.loadWaitersWhoseSpawnerIsParentOf_adds w (p, first)).trans (ih _)).congr fun m => by
      simp

private theorem siblings_scope_adds (deleted : IDs) (w : Frontier Plane String) :
    w.Adds {m | ∃ x ∈ scope deleted, ∃ y, s.ParentOf x y ∧ s.Onto (· = .waitsFor) m y}
      (((deleted .wisps).map (Plane.wisps, ·)).foldl s.loadWaitersWhoseSpawnerIsParentOf
        (((deleted .issues).map (Plane.issues, ·)).foldl s.loadWaitersWhoseSpawnerIsParentOf w)) :=
  ((s.foldl_siblings_adds .issues (deleted .issues) w).trans
    (s.foldl_siblings_adds .wisps (deleted .wisps) _)).congr fun m =>
      (exists_scope (c := fun x => ∃ y, s.ParentOf x y ∧ s.Onto (· = .waitsFor) m y)).symm

private theorem appendChildren_both_adds (col : Plane) (ids : List String)
    (w : Frontier Plane String) :
    w.Adds {m | ∃ id ∈ ids, s.ParentOf m (col, id)}
      (s.appendChildren .wisps col ids (s.appendChildren .issues col ids w)) := by
  refine ((s.appendChildren_adds .issues col ids w).trans
    (s.appendChildren_adds .wisps col ids _)).congr fun m => ?_
  rw [Set.mem_union]
  constructor
  · rintro (⟨-, edge⟩ | ⟨-, edge⟩)
    · exact edge
    · exact edge
  · intro edge
    cases plane : m.1 with
    | issues => exact Or.inl ⟨plane, edge⟩
    | wisps => exact Or.inr ⟨plane, edge⟩

private theorem orphans_scope_adds (deleted : IDs) (w : Frontier Plane String) :
    w.Adds {m | ∃ x ∈ scope deleted, s.ParentOf m x}
      (s.appendChildren .wisps .wisps (deleted .wisps)
        (s.appendChildren .issues .wisps (deleted .wisps)
          (s.appendChildren .wisps .issues (deleted .issues)
            (s.appendChildren .issues .issues (deleted .issues) w)))) :=
  ((s.appendChildren_both_adds .issues (deleted .issues) w).trans
    (s.appendChildren_both_adds .wisps (deleted .wisps) _)).congr fun _ => exists_scope.symm

theorem affectedByDeletion_spec (s : Store) (deleted : IDs) :
    DeletionScope s deleted (scope (s.affectedByDeletion deleted)) := by
  unfold affectedByDeletion
  split
  · next empty =>
    have none : ∀ x ∉ scope deleted, ∀ y ∈ scope deleted, False := by
      rintro - - ⟨p, id⟩ held
      cases p with
      | issues => exact List.not_mem_nil (empty.1 ▸ show id ∈ deleted .issues from held)
      | wisps => exact List.not_mem_nil (empty.2 ▸ show id ∈ deleted .wisps from held)
    exact ⟨fun _ held => (List.not_mem_nil held).elim, fun n out x held => (none n out x held).elim,
      fun n out x held => (none n out x held).elim, fun n out x held => (none n out x held).elim,
      fun n out x held => (none n out x held).elim, fun _ _ _ held => (List.not_mem_nil held).elim⟩
  · extract_lets dependers waiters siblings siblings' orphans orphans'
    let start : Frontier Plane String := ⟨deleted, fun _ => []⟩
    have adds := (((s.loadSources_scope_adds DependencyType.Blocking deleted start).trans
      (s.loadSources_scope_adds (· = .waitsFor) deleted dependers)).trans
      (s.siblings_scope_adds deleted waiters)).trans (s.orphans_scope_adds deleted siblings')
    have expanded := s.expandByParentChildDescendants_spec (w := orphans') fun n held => by
      rw [adds.seen]
      rcases (adds.queue n).mp held with none | ⟨added, -⟩
      · exact (List.not_mem_nil none).elim
      · exact Or.inr added
    have queue : ∀ n : Node, n.2 ∈ orphans'.queue n.1 ↔ n ∈ _ ∧ n ∉ scope deleted := fun n =>
      (adds.queue n).trans (or_iff_right List.not_mem_nil)
    have seed : ∀ n ∉ scope deleted, n ∈ _ → n ∈ scope
        (s.expandByParentChildDescendants orphans') :=
      fun n out added => expanded.seeds n ((queue n).mpr ⟨added, out⟩)
    constructor
    · intro n held
      rcases expanded.fresh n held with waiting | unseen
      · exact ((queue n).mp waiting).2
      · exact fun gone => unseen ((adds.seen n).mpr (Or.inl gone))
    · exact fun n out x gone edge => seed n out (Or.inl (Or.inl (Or.inl ⟨x, gone, edge⟩)))
    · exact fun n out x gone edge => seed n out (Or.inl (Or.inl (Or.inr ⟨x, gone, edge⟩)))
    · exact fun n out x gone y parent edge => seed n out
        (Or.inl (Or.inr ⟨x, gone, y, parent, edge⟩))
    · exact fun n out x gone edge => seed n out (Or.inr ⟨x, gone, edge⟩)
    · intro n out m held edge
      rcases expanded.children m held n edge with member | seen
      · exact member
      · rcases (adds.seen n).mp seen with gone | added
        · exact absurd gone out
        · exact seed n out added

end Store
end Beads
