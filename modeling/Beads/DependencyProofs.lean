import Beads.AffectedProofs
import Beads.Dependencies

/-! Blocked flags across single edge changes. An edge that is added or removed
changes the flags of the affected set only (`EdgeChange.covers`). A new
blocking or waits-for edge, or a new parent of a live row, takes no flag's
reason away, so the mark-only loop and the full loop agree; a new parent of a
closed or pinned row adds no path for flags to travel. -/
namespace Beads
open Lib Lib.Graph Lib.Propagation Relation

namespace Store
variable {s t u : Store} {p : Plane} {source : Node} {target : String} {type : DependencyType}

/-! ## Graph queries -/

private theorem mem_edges {type : DependencyType → Prop} [DecidablePred type] {a b : String} :
    (a, b) ∈ s.edges type Plane.all ↔ s.Related type a b := by
  simp only [edges, List.mem_flatMap, List.mem_map, List.mem_filter, decide_eq_true_eq]
  constructor
  · rintro ⟨p, -, d, ⟨held, chosen⟩, key⟩
    exact ⟨p, d, held, chosen, key⟩
  · rintro ⟨p, d, held, chosen, key⟩
    exact ⟨p, Plane.mem_all p, d, ⟨held, chosen⟩, key⟩

theorem edge_edges {type : DependencyType → Prop} [DecidablePred type] :
    Edge (s.edges type Plane.all) = s.Related type := by
  funext a b
  exact propext mem_edges

instance (type : DependencyType → Prop) [DecidablePred type] :
    Decidable (Acyclic (s.Related type)) :=
  decidable_of_iff (Acyclic (Edge (s.edges type Plane.all))) (by rw [edge_edges])

instance : Decidable (Acyclic s.ParentChild) :=
  inferInstanceAs (Decidable (Acyclic (s.Related (· = .parentChild))))

instance : Decidable (Acyclic s.Scheduling) :=
  inferInstanceAs (Decidable (Acyclic (s.Related DependencyType.IsSchedulingEdge)))

/-! ## One edge changes -/

/-- The stores differ in one edge at most, given by its source row, resolved
target and type. -/
structure EdgeChange (s t : Store) (source : Node) (target : String) (type : DependencyType) :
    Prop where
  rows : t.rows = s.rows
  deps : ∀ q e, (e ∈ t.deps q ↔ e ∈ s.deps q) ∨
    (q = source.1 ∧ e.issueId = source.2 ∧ e.target.id = target ∧ e.type = type)

theorem status?_of_rows (same : t.rows = s.rows) (n : Node) : t.status? n = s.status? n := by
  rw [status?, status?, row?, row?, same]

theorem flags_of_rows (same : t.rows = s.rows) : t.flags = s.flags := by
  simp only [flags, FlaggedAt, RowAt, same]

private theorem liveAt_of_rows (same : t.rows = s.rows) (n : Node) : t.LiveAt n ↔ s.LiveAt n :=
  liveAt_congr (status?_of_rows same n)

namespace EdgeChange

/-- A child of a spawner that waiters outside the affected set look at has not
changed: the only change of a parent-child edge is onto the target. -/
theorem parentOf_iff (change : EdgeChange s t source target type) {c x : Node}
    (other : type = .parentChild → x.2 ≠ target) : t.ParentOf c x ↔ s.ParentOf c x := by
  refine exists_congr fun e => ?_
  rcases change.deps c.1 e with same | ⟨-, -, resolved, kind⟩
  · rw [same]
  · constructor
    · rintro ⟨-, -, parent, onto⟩
      rw [onto] at resolved
      exact absurd resolved (other (kind ▸ parent))
    · rintro ⟨-, -, parent, onto⟩
      rw [onto] at resolved
      exact absurd resolved (other (kind ▸ parent))

theorem covers (change : EdgeChange s t source target type)
    (named : type = .parentChild → target ≠ "") :
    Covers s t (scope (t.affectedByDepChange source target type)) := by
  by_cases affects : type.Affects
  · have affected := t.affectedByDepChange_spec source target affects
    constructor
    · exact fun n _ => status?_of_rows change.rows n
    · intro n out e owner _
      rcases change.deps n.1 e with same | ⟨plane, issue, -, -⟩
      · exact same
      · have here : n = source := Prod.ext plane (owner.symm.trans issue)
        exact absurd affected.self (here ▸ out)
    · exact fun _ _ x _ => status?_of_rows change.rows x
    · exact fun _ _ x _ => status?_of_rows change.rows x
    · intro n out x waits c
      refine change.parentOf_iff fun child same => out ?_
      exact affected.waiters child (named child) n x same waits
    · exact fun _ _ _ _ c _ => status?_of_rows change.rows c
    · exact affected.closed
  · rw [affectedByDepChange_nil t source target affects]
    have notChild : type ≠ .parentChild := fun same => affects (Or.inr (Or.inr same))
    constructor
    · exact fun n _ => status?_of_rows change.rows n
    · intro n _ e _ matters
      rcases change.deps n.1 e with same | ⟨-, -, -, kind⟩
      · exact same
      · exact absurd (kind ▸ matters) affects
    · exact fun _ _ x _ => status?_of_rows change.rows x
    · exact fun _ _ x _ => status?_of_rows change.rows x
    · exact fun _ _ x _ c => change.parentOf_iff fun child => absurd child notChild
    · exact fun _ _ _ _ c _ => status?_of_rows change.rows c
    · exact fun _ _ _ held => (List.not_mem_nil held).elim

/-- Correct flags, an edge change and a recomputation of the affected rows. -/
theorem flagsCorrect (change : EdgeChange s t source target type)
    (named : type = .parentChild → target ≠ "") (before : s.FlagsCorrect)
    (done : Recomputed (t.affectedByDepChange source target type) t u) : u.FlagsCorrect :=
  (change.covers named).flagsCorrect before (fun n _ => by rw [flags_of_rows change.rows]) done

end EdgeChange

/-! ## Removal -/

private theorem removal_change {key : String × String} {d : Dep} (held : d ∈ s.deps p)
    (same : d.key = key) :
    EdgeChange s (s.withDeps p ((s.deps p).delete fun e => e.key = key)) (p, key.1) key.2 d.type where
  rows := rfl
  deps q e := by
    by_cases plane : q = p
    · subst plane
      rw [withDeps_deps_self, Table.mem_delete]
      by_cases gone : e.key = key
      · by_cases stored : e ∈ s.deps q
        · have unique : e = d := Table.eq_of_key stored held (gone.trans same.symm)
          subst unique
          exact Or.inr ⟨rfl, congrArg Prod.fst same, congrArg Prod.snd same, rfl⟩
        · exact Or.inl ⟨fun both => absurd both.1 stored, fun inside => absurd inside stored⟩
      · exact Or.inl (and_iff_left gone)
    · rw [withDeps_deps_ne s p _ plane]
      exact Or.inl Iff.rfl

theorem related_delete {c : Dep → Prop} [DecidablePred c] {types : DependencyType → Prop}
    {a b : String} (edge : (s.withDeps p ((s.deps p).delete c)).Related types a b) :
    s.Related types a b := by
  obtain ⟨q, d, held, chosen, key⟩ := edge
  refine ⟨q, d, ?_, chosen, key⟩
  by_cases plane : q = p
  · subst plane
    rw [withDeps_deps_self, Table.mem_delete] at held
    exact held.1
  · rwa [withDeps_deps_ne s p _ plane] at held

private theorem removeDependency_flags (before : s.FlagsCorrect) (acyclic : Acyclic s.ParentChild)
    (named : s.ParentsNamed) (issueId dependsOnId : String) :
    (s.removeDependency issueId dependsOnId).Settles FlagsCorrect := by
  unfold removeDependency
  extract_lets p
  split
  · exact Call.settles_pure before
  · next d found =>
    obtain ⟨held, same⟩ := Table.find?_eq_some.mp found
    have still : Acyclic (s.withDeps p ((s.deps p).delete fun e =>
        e.key = (issueId, dependsOnId))).ParentChild := acyclic.mono fun _ _ => related_delete
    obtain ⟨u, returns, done⟩ := recomputeIsBlocked_of_acyclic _ (upward_acyclic still)
    have resolved : d.target.id = dependsOnId := congrArg Prod.snd same
    have target : d.type = .parentChild → dependsOnId ≠ "" := fun child =>
      resolved ▸ named p d held child
    exact Call.settles_of_returns
      ⟨u, returns, (removal_change held same).flagsCorrect target before done⟩

/-! ## Insertion -/

/-- The second store has one more edge. -/
structure Inserted (s t : Store) (p : Plane) (d : Dep) : Prop where
  rows : t.rows = s.rows
  deps : ∀ q e, e ∈ t.deps q ↔ e ∈ s.deps q ∨ (q = p ∧ e = d)

variable {d : Dep}

theorem insertDep_settles : (s.insertDep p d).Settles fun t =>
    Inserted s t p d ∧ s.Holds (p, d.issueId) ∧ s.TargetKey p d.target := by
  unfold insertDep
  refine Call.settles_ite (fun _ => Call.settles_throw) fun keys => ?_
  split
  · refine Call.settles_pure ⟨⟨rfl, fun q e => ?_⟩, not_not.mp keys⟩
    by_cases plane : q = p
    · subst plane
      rw [withDeps_deps_self, Table.mem_insert]
      simp only [true_and]
    · rw [withDeps_deps_ne s p _ plane]
      simp only [plane, false_and, or_false]
  · exact Call.settles_throw

theorem touchDependencyCoordination_settles {c : Coordinator} {parentId : String} :
    (s.touchDependencyCoordination c parentId p).Settles fun t =>
      parentId ≠ "" ∧ t.rows = s.rows ∧ t.deps = s.deps := by
  unfold touchDependencyCoordination
  exact Call.settles_ite (fun _ => Call.settles_throw) fun named =>
    Call.settles_pure ⟨named, rfl, rfl⟩

namespace Inserted

theorem change (inserted : Inserted s t p d) :
    EdgeChange s t (p, d.issueId) d.target.id d.type where
  rows := inserted.rows
  deps q e := by
    by_cases new : q = p ∧ e = d
    · obtain ⟨rfl, rfl⟩ := new
      exact Or.inr ⟨rfl, rfl, rfl, rfl⟩
    · exact Or.inl ((inserted.deps q e).trans (or_iff_left new))

theorem edgeAt_iff (inserted : Inserted s t p d) {n : Node} {c : Dep → Prop} :
    t.EdgeAt n c ↔ s.EdgeAt n c ∨ (n = (p, d.issueId) ∧ c d) := by
  constructor
  · rintro ⟨e, held, owner, holds⟩
    rcases (inserted.deps n.1 e).mp held with old | ⟨plane, rfl⟩
    · exact Or.inl ⟨e, old, owner, holds⟩
    · exact Or.inr ⟨Prod.ext plane owner.symm, holds⟩
  · rintro (⟨e, old, owner, holds⟩ | ⟨rfl, holds⟩)
    · exact ⟨e, (inserted.deps n.1 e).mpr (Or.inl old), owner, holds⟩
    · exact ⟨d, (inserted.deps p d).mpr (Or.inr ⟨rfl, rfl⟩), rfl, holds⟩

theorem liveAt_eq (inserted : Inserted s t p d) : t.LiveAt = s.LiveAt := by
  funext n
  exact propext (liveAt_of_rows inserted.rows n)

theorem hasChild_iff (inserted : Inserted s t p d) {x : Node} {c : Status → Prop} :
    t.HasChild x c ↔ s.HasChild x c ∨ (d.type = .parentChild ∧ d.target = .node x ∧
      s.RowAt (p, d.issueId) fun r => c r.status) := by
  have rowAt : ∀ n, (t.RowAt n fun r => c r.status) ↔ s.RowAt n fun r => c r.status := fun n =>
    rowAt_status_congr (status?_of_rows inserted.rows n)
  simp only [Store.hasChild_iff, ParentOf, inserted.edgeAt_iff, rowAt]
  constructor
  · rintro ⟨child, old | ⟨rfl, type, target⟩, row⟩
    · exact Or.inl ⟨child, old, row⟩
    · exact Or.inr ⟨type, target, row⟩
  · rintro (⟨child, old, row⟩ | ⟨type, target, row⟩)
    · exact ⟨child, Or.inl old, row⟩
    · exact ⟨_, Or.inr ⟨rfl, type, target⟩, row⟩

/-- A gate that holds keeps holding unless a closed child arrives. -/
theorem gateBlocked_mono (inserted : Inserted s t p d)
    (open_ : d.type = .parentChild → s.LiveAt (p, d.issueId)) {metadata : Metadata} {x : Node}
    (holds : s.GateBlocked metadata x) : t.GateBlocked metadata x := by
  rcases holds with ⟨child, notAny⟩ | ⟨also, live⟩
  · refine Or.inl ⟨inserted.hasChild_iff.mpr (Or.inl child), fun ⟨any, closed⟩ => notAny ⟨any, ?_⟩⟩
    rcases inserted.hasChild_iff.mp closed with old | ⟨type, -, r, held, same, closed⟩
    · exact old
    · obtain ⟨r', held', same', live⟩ := open_ type
      rw [Table.eq_of_key held' held (same'.trans same.symm)] at live
      exact absurd closed live.1
  · exact Or.inr ⟨also, by rwa [inserted.liveAt_eq]⟩

theorem direct_mono (inserted : Inserted s t p d)
    (open_ : d.type = .parentChild → s.LiveAt (p, d.issueId)) {n : Node}
    (direct : s.rules.direct n) : t.rules.direct n := by
  rcases direct with ⟨e, held, owner, type, joins⟩ | ⟨e, held, owner, type, joins⟩
  · refine Or.inl (inserted.edgeAt_iff.mpr (Or.inl ⟨e, held, owner, type, ?_⟩))
    rwa [inserted.liveAt_eq]
  · refine Or.inr (inserted.edgeAt_iff.mpr (Or.inl ⟨e, held, owner, type, ?_⟩))
    obtain ⟨x, target, gate⟩ := joins_iff.mp joins
    exact joins_iff.mpr ⟨x, target, inserted.gateBlocked_mono open_ gate⟩

/-- No flag loses its reason, except to the arrival of a closed child. -/
theorem supported (inserted : Inserted s t p d) (before : s.FlagsCorrect)
    (open_ : d.type = .parentChild → s.LiveAt (p, d.issueId)) : t.rules.Supported t.flags := by
  rw [flags_of_rows inserted.rows]
  intro n held
  obtain ⟨live, reason⟩ := (flagsCorrect_iff.mp before n).mp held
  refine ⟨by simpa only [rules, inserted.liveAt_eq] using live, ?_⟩
  rcases reason with direct | ⟨m, flagged, edge⟩
  · exact Or.inl (inserted.direct_mono open_ direct)
  · exact Or.inr ⟨m, flagged, inserted.edgeAt_iff.mpr (Or.inl edge)⟩

/-- A new parent of a row that cannot be flagged gives flags no new way. -/
theorem upward (inserted : Inserted s t p d)
    (still : d.type = .parentChild → ¬ s.LiveAt (p, d.issueId)) {n m : Node}
    (edge : t.rules.Upward n m) : s.rules.Upward n m := by
  obtain ⟨live, parent⟩ := edge
  have live : s.LiveAt n := by simpa only [rules, inserted.liveAt_eq] using live
  rcases inserted.edgeAt_iff.mp parent with old | ⟨rfl, type, -⟩
  · exact ⟨live, old⟩
  · exact absurd live (still type)

private theorem refresh_parentChild (inserted : Inserted s t p d) (before : s.FlagsCorrect)
    (named : d.target.id ≠ "") : ∃ u,
      (recomputeIsBlocked (t.affectedByDepChange (p, d.issueId) d.target.id d.type) t).Returns u ∧
        u.FlagsCorrect := by
  by_cases live : s.LiveAt (p, d.issueId)
  · obtain ⟨u, returns, done, -⟩ :=
      recomputeIsBlocked_of_supported _ (inserted.supported before fun _ => live)
    exact ⟨u, returns, inserted.change.flagsCorrect (fun _ => named) before done⟩
  · -- A closed child can take a reason away, but gives no flag a new way to travel.
    obtain ⟨u, returns, done⟩ := recomputeIsBlocked_of_inherited
        (t.affectedByDepChange (p, d.issueId) d.target.id d.type) (s := t) fun n m edge held => by
      have old := inserted.upward (fun _ => live) edge
      rw [flags_of_rows inserted.rows] at held ⊢
      exact (flagsCorrect_iff.mp before n).mpr ⟨old.1, Or.inr ⟨m, held, old.2⟩⟩
    exact ⟨u, returns, inserted.change.flagsCorrect (fun _ => named) before done⟩

private theorem refresh_other (inserted : Inserted s t p d) (before : s.FlagsCorrect)
    (notChild : d.type ≠ .parentChild) : ∃ u,
      (markIsBlocked (t.affectedByDepChange (p, d.issueId) d.target.id d.type) t).Returns u ∧
        u.FlagsCorrect := by
  obtain ⟨u, returns, done, -⟩ :=
    markIsBlocked_of_supported _ (inserted.supported before fun child => absurd child notChild)
  exact ⟨u, returns, inserted.change.flagsCorrect (fun child => absurd child notChild) before done⟩

end Inserted

/-! ## The direct mark -/

private theorem mem_scope_removeSource {ids : IDs} {n : Node} :
    n ∈ scope (removeSourceFromAffected source ids) ↔ n ∈ scope ids ∧ n ≠ source := by
  change n.2 ∈ Function.update ids source.1 _ n.1 ↔ n.2 ∈ ids n.1 ∧ _
  rw [ne_eq, Prod.ext_iff]
  by_cases plane : n.1 = source.1
  · simp [plane]
  · simp [plane]

theorem markDirect_cleared {target : Target} {pre : Option DepTargetPrecheck} :
    (s.markDirectBlockingDependencySource source target pre).cleared = s.cleared := by
  unfold markDirectBlockingDependencySource
  split
  · rfl
  · exact setBlocked_cleared

private theorem mem_flags_markDirect {target : Target} {pre : Option DepTargetPrecheck} {n : Node} :
    n ∈ (s.markDirectBlockingDependencySource source target pre).flags ↔ n ∈ s.flags ∨
      (n = source ∧ s.LiveAt source ∧ ∃ x, target = .node x ∧ s.TargetOpen x pre) := by
  unfold markDirectBlockingDependencySource
  split
  · simp
  · next x =>
    simp only [mem_flags_setBlocked, Target.node.injEq, exists_eq_left']
    split
    · next hit =>
      obtain ⟨plane, r, held, same, named, -, live, opened⟩ := hit
      refine ⟨fun _ => Or.inr ?_, fun _ => trivial⟩
      have here : n = source := Prod.ext plane (same.symm.trans named)
      subst here
      exact ⟨rfl, ⟨r, held, same, live⟩, opened⟩
    · next missed =>
      refine ⟨Or.inl, ?_⟩
      rintro (flagged | ⟨rfl, ⟨r, held, same, live⟩, opened⟩)
      · exact flagged
      · by_contra unflagged
        have notFlagged : r.isBlocked = false := Bool.eq_false_iff.mpr fun flag =>
          unflagged ⟨r, held, same, flag⟩
        exact missed ⟨rfl, r, held, same, same, notFlagged, live, opened⟩

namespace Inserted
variable {d : Dep} {pre : Option DepTargetPrecheck}

/-- A blocking edge whose target is not open, or whose source cannot be flagged,
changes no rule. -/
theorem correct_of_idle (inserted : Inserted s t p d) (blocking : d.type.Blocking)
    (before : s.FlagsCorrect) (idle : s.LiveAt (p, d.issueId) → ¬ d.target.Joins s.LiveAt) :
    t.rules.Correct t.flags := by
  have notChild := blocking.ne_parentChild
  have unaffected : ∀ n, FlagRules.Unaffected s.rules t.rules n := by
    intro n
    refine ⟨by simp only [rules, inserted.liveAt_eq], fun live => ?_, fun live m => ?_⟩
    · constructor
      · rintro (blocker | gate)
        · rcases inserted.edgeAt_iff.mp blocker with ⟨e, held, owner, type, joins⟩ | ⟨rfl, -, joins⟩
          · exact Or.inl ⟨e, held, owner, type, by rwa [inserted.liveAt_eq] at joins⟩
          · exact absurd (by rwa [inserted.liveAt_eq] at joins) (idle live)
        · rcases inserted.edgeAt_iff.mp gate with ⟨e, held, owner, type, joins⟩ | ⟨-, type, -⟩
          · refine Or.inr ⟨e, held, owner, type, ?_⟩
            obtain ⟨x, target, gate⟩ := joins_iff.mp joins
            refine joins_iff.mpr ⟨x, target, (gateBlocked_congr ?_ ?_ ?_).mp gate⟩
            · rw [inserted.liveAt_eq]
            · rw [inserted.hasChild_iff]; simp [notChild]
            · rw [inserted.hasChild_iff]; simp [notChild]
          · exact absurd type blocking.ne_waitsFor
      · exact inserted.direct_mono fun child => absurd child notChild
    · exact inserted.edgeAt_iff.trans (or_iff_left fun new => notChild new.2.1)
  rw [flags_of_rows inserted.rows]
  exact FlagRules.correct_of_scope (L := ∅) (flagsCorrect_iff.mp before) (fun _ _ => Iff.rfl)
    (fun n _ => unaffected n) (fun _ _ _ _ none => none.elim) fun _ none => none.elim

section Blocking
variable (inserted : Inserted s t p d) (blocking : d.type.Blocking) (before : s.FlagsCorrect)
  (honest : ∀ x, d.target = .node x → (t.TargetOpen x pre ↔ t.LiveAt x))

include honest in
/-- The direct mark flags the source if it is open and so is the target. -/
theorem mem_flags_direct {n : Node} :
    n ∈ (t.markDirectBlockingDependencySource (p, d.issueId) d.target pre).flags ↔
      n ∈ t.flags ∨ (n = (p, d.issueId) ∧ t.LiveAt (p, d.issueId) ∧ d.target.Joins t.LiveAt) := by
  refine mem_flags_markDirect.trans (or_congr_right (and_congr_right fun _ =>
    and_congr_right fun _ => ?_))
  rw [joins_iff]
  exact exists_congr fun x => and_congr_right fun same => honest x same

include inserted blocking before honest in
/-- The direct mark has a reason, like every flag that was there. -/
theorem supported_direct :
    t.rules.Supported (t.markDirectBlockingDependencySource (p, d.issueId) d.target pre).flags := by
  intro n held
  have grown : t.flags ⊆ (t.markDirectBlockingDependencySource (p, d.issueId) d.target pre).flags :=
    fun m flagged => (mem_flags_direct honest).mpr (Or.inl flagged)
  rcases (mem_flags_direct honest).mp held with flagged | ⟨rfl, live, joins⟩
  · have notChild := blocking.ne_parentChild
    exact (inserted.supported before (fun child => absurd child notChild) n flagged).mono grown
  · exact ⟨live, Or.inl (Or.inl (inserted.edgeAt_iff.mpr (Or.inr ⟨rfl, blocking, joins⟩)))⟩

include inserted blocking before honest in
/-- The source is off the list of the loop, so its own flag needs an argument: if the
direct mark leaves it out, the new edge changes no rule and the loop has nothing to do. -/
theorem flagged_source {ids : IDs} {v : Store}
    (returns : (markIsBlocked ids
      (t.markDirectBlockingDependencySource (p, d.issueId) d.target pre)).Returns v)
    (grown : (t.markDirectBlockingDependencySource (p, d.issueId) d.target pre).flags ⊆ v.flags)
    (due : t.rules.Due v.flags (p, d.issueId)) : (p, d.issueId) ∈ v.flags := by
  by_cases already :
      (p, d.issueId) ∈ (t.markDirectBlockingDependencySource (p, d.issueId) d.target pre).flags
  · exact grown already
  · have missed : ¬ (t.LiveAt (p, d.issueId) ∧ d.target.Joins t.LiveAt) := fun both =>
      already ((mem_flags_direct honest).mpr (Or.inr ⟨rfl, both⟩))
    have same : (t.markDirectBlockingDependencySource (p, d.issueId) d.target pre).flags = t.flags :=
      Set.ext fun n => (mem_flags_direct honest).trans (or_iff_left fun new => missed new.2)
    have correct := inserted.correct_of_idle blocking before (by
      rw [← inserted.liveAt_eq]
      exact fun live joins => missed ⟨live, joins⟩)
    obtain ⟨w, ends, -, unchanged⟩ := markIsBlocked_of_correct ids
      (s := t.markDirectBlockingDependencySource (p, d.issueId) d.target pre) (by
        rwa [rules_eq_of_cleared markDirect_cleared, same])
    obtain rfl := Except.ok.inj (ends.unique returns)
    rw [unchanged, same] at due ⊢
    exact (correct (p, d.issueId)).mpr due

end Blocking

private theorem refresh_blocking (inserted : Inserted s t p d) (blocking : d.type.Blocking)
    (before : s.FlagsCorrect) (honest : ∀ x, d.target = .node x →
      (t.TargetOpen x pre ↔ t.LiveAt x)) :
    ∃ u, (markIsBlocked
      (removeSourceFromAffected (p, d.issueId) (t.affectedByDepChange (p, d.issueId) d.target.id d.type))
      (t.markDirectBlockingDependencySource (p, d.issueId) d.target pre)).Returns u ∧ u.FlagsCorrect := by
  have notChild := blocking.ne_parentChild
  let source : Node := (p, d.issueId)
  let u := t.markDirectBlockingDependencySource source d.target pre
  have fixed : u.rules = t.rules := rules_eq_of_cleared markDirect_cleared
  have supported : u.rules.Supported u.flags := by
    rw [fixed]
    exact inserted.supported_direct blocking before honest
  obtain ⟨v, returns, done, grown, kept⟩ := markIsBlocked_of_supported
    (removeSourceFromAffected source (t.affectedByDepChange source d.target.id d.type)) supported
  have inside := done.inside
  rw [fixed] at kept inside
  have whole : Recomputed (t.affectedByDepChange source d.target.id d.type) t v := by
    refine ⟨done.cleared.trans markDirect_cleared, fun n out => ?_, fun n member => ?_⟩
    · have notSource : n ≠ source := fun same => out (same ▸
        (t.affectedByDepChange_spec source d.target.id (Or.inl blocking)).self)
      rw [done.outside n fun held => out (mem_scope_removeSource.mp held).1,
        mem_flags_direct honest]
      exact or_iff_left fun both => notSource both.1
    · by_cases here : n = source
      · rw [here]
        exact ⟨kept source, inserted.flagged_source blocking before honest returns grown⟩
      · exact inside n (mem_scope_removeSource.mpr ⟨member, here⟩)
  exact ⟨v, returns, inserted.change.flagsCorrect (fun child => absurd child notChild) before whole⟩

end Inserted

/-! ## Adding an edge -/

theorem checkDependencyCycle_settles {dep : Dependency} {tables : List Plane} :
    (s.checkDependencyCycle dep tables).Settles fun _ => dep.issueId ≠ dep.dependsOnId ∧
      (dep.type.IsSchedulingEdge →
        ¬ s.WouldCreateSchedulingCycle dep.issueId dep.dependsOnId tables) := by
  unfold checkDependencyCycle
  refine Call.settles_guard fun distinct => Call.settles_ite (fun other => ?_) fun scheduling => ?_
  · exact Call.settles_pure ⟨distinct, fun type => absurd type other⟩
  · exact Call.settles_ite (fun _ => Call.settles_throw) fun apart =>
      Call.settles_pure ⟨distinct, fun _ => apart⟩

theorem checkBlockingHierarchy_settles {dep : Dependency} {tables : List Plane} :
    (s.checkBlockingHierarchy dep tables).Settles fun _ =>
      dep.type.Blocking → dep.issueId ≠ dep.dependsOnId →
        ¬ s.IsAncestor dep.issueId dep.dependsOnId tables ∧
          ¬ s.IsAncestor dep.dependsOnId dep.issueId tables := by
  unfold checkBlockingHierarchy
  refine Call.settles_ite (fun other => ?_) fun _ => Call.settles_ite (fun same => ?_) fun _ => ?_
  · exact Call.settles_pure fun blocking => absurd blocking other
  · exact Call.settles_pure fun _ distinct => absurd same distinct
  · exact Call.settles_guard fun up => Call.settles_ite (fun _ => Call.settles_throw) fun down =>
      Call.settles_pure fun _ _ => ⟨up, down⟩

/-- The tables an add walks for its two graph checks. -/
def checkTables (opts : AddDependencyOpts) : List Plane :=
  if opts.depTables = [] then cycleDetectionTables else opts.depTables

/-- What the checks before an add have established. -/
structure Validated (s : Store) (dep : Dependency) (opts : AddDependencyOpts) : Prop where
  hierarchy : ∀ targetType, s.dependencyTargetType dep opts = .ok targetType → targetType ≠ "" →
    dep.type.Blocking → dep.issueId ≠ dep.dependsOnId →
      ¬ s.IsAncestor dep.issueId dep.dependsOnId (checkTables opts) ∧
        ¬ s.IsAncestor dep.dependsOnId dep.issueId (checkTables opts)
  distinct : opts.skipCycleCheck = false → dep.issueId ≠ dep.dependsOnId
  cycle : opts.skipCycleCheck = false → dep.type.IsSchedulingEdge →
    ¬ s.WouldCreateSchedulingCycle dep.issueId dep.dependsOnId (checkTables opts)

theorem validateAddDependency_settles {dep : Dependency} {opts : AddDependencyOpts} :
    (s.validateAddDependency dep opts).Settles fun _ => Validated s dep opts := by
  unfold validateAddDependency
  refine Call.settles_guard fun _ => Call.settles_bind
    (Call.settles_ofExcept fun _ read => read) fun targetType read =>
      Call.settles_when checkBlockingHierarchy_settles fun hierarchy => ?_
  have known : ∀ type, s.dependencyTargetType dep opts = .ok type → type = targetType :=
    fun type other => Except.ok.inj (other.symm.trans read)
  refine Call.settles_ite (fun checked => checkDependencyCycle_settles.mono fun _ cycle => ?_)
    fun skipped => Call.settles_pure ?_
  · exact ⟨fun type other nonempty => hierarchy (known type other ▸ nonempty), fun _ => cycle.1,
      fun _ => cycle.2⟩
  · exact ⟨fun type other nonempty => hierarchy (known type other ▸ nonempty),
      fun checked => absurd checked skipped, fun checked => absurd checked skipped⟩

/-- What an add does to the tables before the flags are refreshed: a new edge,
and for a parent-child edge a coordination cell. -/
theorem addDependency_settles {c : Coordinator} {dep : Dependency} {opts : AddDependencyOpts}
    {post : Store → Prop}
    (again : ∀ d ∈ s.deps (s.writeTable dep opts), d.key = (dep.issueId, dep.dependsOnId) →
      d.type = dep.type → Validated s dep opts →
        post (s.setMetadata (s.writeTable dep opts) d.key dep.metadata))
    (new : ∀ t, Validated s dep opts →
      (∀ d ∈ s.deps (s.writeTable dep opts), d.key ≠ (dep.issueId, dep.dependsOnId)) →
      Inserted s t (s.writeTable dep opts)
        ⟨dep.issueId, s.depTarget dep opts, dep.type, dep.metadata⟩ →
      (dep.type = .parentChild → dep.dependsOnId ≠ "") →
      (t.refreshAfterAdd (s.writeTable dep opts, dep.issueId) (s.depTarget dep opts) dep.type
        opts.precheckedTarget).Settles post) :
    (s.addDependency c dep opts).Settles post := by
  unfold addDependency
  refine Call.settles_bind validateAddDependency_settles fun _ validated => ?_
  extract_lets p target
  split
  · next d found =>
    obtain ⟨held, same⟩ := Table.find?_eq_some.mp found
    exact Call.settles_ite (fun type => Call.settles_pure (again d held same type validated))
      fun _ => Call.settles_throw
  · next none =>
    have fresh := Table.find?_eq_none.mp none
    refine Call.settles_bind insertDep_settles fun t ⟨inserted, _⟩ => ?_
    refine Call.settles_ite (fun child => ?_) fun other => ?_
    · refine Call.settles_bind touchDependencyCoordination_settles fun u ⟨named, rows, deps⟩ => ?_
      exact new u validated fresh ⟨rows.trans inserted.rows, fun q e => by rw [deps, inserted.deps]⟩
        fun _ => named
    · exact new t validated fresh inserted fun child => absurd child other

/-- A target row that the caller has read stands as it was read. -/
def PrecheckHolds (s : Store) (dep : Dependency) (opts : AddDependencyOpts) : Prop :=
  ∀ pre, opts.precheckedTarget = some pre → ∀ x, s.depTarget dep opts = .node x →
    s.status? x = some pre.status

theorem depTarget_id {dep : Dependency} {opts : AddDependencyOpts} :
    (s.depTarget dep opts).id = dep.dependsOnId := by
  unfold depTarget
  cases opts.targetKind.getD (s.classifyDepTarget dep opts.isCrossPrefix) <;> rfl

/-- The maintenance after a new edge always ends, circles or not, with correct flags. -/
theorem Inserted.refreshAfterAdd (inserted : Inserted s t p d) (before : s.FlagsCorrect)
    (named : d.type = .parentChild → d.target.id ≠ "") (pre : Option DepTargetPrecheck)
    (honest : ∀ row, pre = some row → ∀ x, d.target = .node x → s.status? x = some row.status) :
    ∃ u, (t.refreshAfterAdd (p, d.issueId) d.target d.type pre).Returns u ∧ u.FlagsCorrect := by
  unfold Store.refreshAfterAdd
  extract_lets affected
  split
  · next blocking =>
    refine inserted.refresh_blocking blocking before fun x target => ?_
    cases read : pre with
    | none => exact Iff.rfl
    | some row =>
      rw [LiveAt, rowAt_status, status?_of_rows inserted.rows, honest row read x target]
      simp only [Option.some.injEq, exists_eq_left']
      exact Iff.rfl
  · split
    · next child => exact inserted.refresh_parentChild before (named child)
    · next other => exact inserted.refresh_other before other

private theorem addDependency_flags (before : s.FlagsCorrect) {c : Coordinator} {dep : Dependency}
    {opts : AddDependencyOpts} (read : s.PrecheckHolds dep opts)
    (fresh : ∀ d ∈ s.deps (s.writeTable dep opts), d.key ≠ (dep.issueId, dep.dependsOnId)) :
    (s.addDependency c dep opts).Settles FlagsCorrect := by
  refine addDependency_settles (fun d held same => absurd same (fresh d held))
    fun t _ _ inserted named => Call.settles_of_returns ?_
  exact inserted.refreshAfterAdd before (fun child => depTarget_id ▸ named child) _ read

/-- Every accepted add of a new edge and every removal of an edge leaves all
flags of both planes correct. -/
theorem edge_changes_keep_flags (s : Store) (before : s.FlagsCorrect)
    (acyclic : Acyclic s.ParentChild) (named : s.ParentsNamed) :
    (∀ c dep opts, s.PrecheckHolds dep opts →
      (∀ d ∈ s.deps (s.writeTable dep opts), d.key ≠ (dep.issueId, dep.dependsOnId)) →
        (s.addDependency c dep opts).Settles FlagsCorrect) ∧
    ∀ issueId dependsOnId, (s.removeDependency issueId dependsOnId).Settles FlagsCorrect :=
  ⟨fun _ _ _ => addDependency_flags before, removeDependency_flags before acyclic named⟩

/-- An open epic with a child, and an open issue nothing depends on yet. -/
def smallEpic : Store where
  rows
    | .issues =>
      ⟨[{ id := "bd-1", issueType := "epic" }, { id := "bd-2" }, { id := "bd-3" }], by decide⟩
    | .wisps => Table.empty
  deps
    | .issues => ⟨[⟨"bd-2", .node (.issues, "bd-1"), .parentChild, .empty⟩], by decide⟩
    | .wisps => Table.empty

/-- The cells of one shard. -/
def oneShard : Coordinator := ⟨fun _ => 0, fun _ _ => 1⟩

/-- Blocking the epic flags the epic and its child. -/
theorem edge_changes_keep_flags_smallEpic :
    ∃ t, (smallEpic.addDependency oneShard ⟨"bd-1", "bd-3", .blocks, .empty⟩ {}).Returns t ∧
      t.FlaggedAt (.issues, "bd-2") ∧ t.FlagsCorrect := by
  obtain ⟨t, returns, flagged⟩ : ∃ t,
      (smallEpic.addDependency oneShard ⟨"bd-1", "bd-3", .blocks, .empty⟩ {}).Returns t ∧
        t.FlaggedAt (.issues, "bd-2") :=
    Call.returns_of_value? (n := 4) (by decide)
  refine ⟨t, returns, flagged, ?_⟩
  exact ((edge_changes_keep_flags smallEpic (by decide) (by decide) (by decide)).1 oneShard _ _
    (fun _ none => by cases none) (by decide)).of_returns returns

/-! ## Adding an edge again -/

section Again
variable {key : String × String} {metadata : Metadata}

/-- Some waits-for gate of the row other than the given edge holds. -/
def OtherGate (s : Store) (n : Node) (key : String × String) : Prop :=
  s.EdgeAt n fun d => d.key ≠ key ∧ d.type = .waitsFor ∧ d.target.Joins (s.GateBlocked d.metadata)

/-- New metadata makes no difference to the flag of the edge's source: the edge
is no gate, its source cannot be flagged or is blocked for another reason, or
the gate comes out the same. -/
def MetadataIrrelevant (s : Store) (p : Plane) (d : Dep) (metadata : Metadata) : Prop :=
  d.type ≠ .waitsFor ∨ ¬ s.LiveAt (p, d.issueId) ∨ s.LiveBlocker (p, d.issueId) ∨
    s.FlaggedParent (p, d.issueId) ∨ s.OtherGate (p, d.issueId) d.key ∨
    (d.target.Joins (s.GateBlocked metadata) ↔ d.target.Joins (s.GateBlocked d.metadata))

theorem mem_setMetadata {q : Plane} {e : Dep} : e ∈ (s.setMetadata p key metadata).deps q ↔
    ∃ old ∈ s.deps q, (if q = p ∧
      old.key = key then { old with metadata := metadata } else old) = e := by
  unfold setMetadata
  by_cases plane : q = p
  · subst plane
    rw [withDeps_deps_self, Table.mem_update]
    simp only [true_and]
  · rw [withDeps_deps_ne s p _ plane]
    simp only [plane, false_and, if_false, exists_eq_right]

/-- Conditions that do not look at metadata do not see the rewrite. -/
theorem setMetadata_edgeAt {n : Node} {c : Dep → Prop}
    (blind : ∀ d : Dep, c { d with metadata := metadata } ↔ c d) :
    (s.setMetadata p key metadata).EdgeAt n c ↔ s.EdgeAt n c := by
  constructor
  · rintro ⟨e, held, owner, holds⟩
    obtain ⟨old, before, rfl⟩ := mem_setMetadata.mp held
    refine ⟨old, before, ?_⟩
    split at owner
    · next hit => rw [if_pos hit] at holds; exact ⟨owner, (blind old).mp holds⟩
    · next miss => rw [if_neg miss] at holds; exact ⟨owner, holds⟩
  · rintro ⟨old, held, owner, holds⟩
    refine ⟨_, mem_setMetadata.mpr ⟨old, held, rfl⟩, ?_⟩
    split
    · exact ⟨owner, (blind old).mpr holds⟩
    · exact ⟨owner, holds⟩

private theorem setMetadata_edgeAt_ne {n : Node} {c : Dep → Prop} (other : n ≠ (p, key.1)) :
    (s.setMetadata p key metadata).EdgeAt n c ↔ s.EdgeAt n c := by
  have miss : ∀ old : Dep, old.issueId = n.2 → ¬ (n.1 = p ∧ old.key = key) := fun old owner hit =>
    other (Prod.ext hit.1 (owner.symm.trans (congrArg Prod.fst hit.2)))
  constructor
  · rintro ⟨e, held, owner, holds⟩
    obtain ⟨old, before, rfl⟩ := mem_setMetadata.mp held
    have owner' : old.issueId = n.2 := by
      split at owner
      · exact owner
      · exact owner
    rw [if_neg (miss old owner')] at holds
    exact ⟨old, before, owner', holds⟩
  · rintro ⟨old, held, owner, holds⟩
    exact ⟨old, mem_setMetadata.mpr ⟨old, held, if_neg (miss old owner)⟩, owner, holds⟩

private theorem setMetadata_hasChild {x : Node} {c : Status → Prop} :
    (s.setMetadata p key metadata).HasChild x c ↔ s.HasChild x c := by
  refine hasChild_congr_of_parentOf (fun child => ?_) fun child _ => status?_of_rows rfl child
  exact setMetadata_edgeAt fun _ => Iff.rfl

private theorem setMetadata_gateBlocked {gate : Metadata} {x : Node} :
    (s.setMetadata p key metadata).GateBlocked gate x ↔ s.GateBlocked gate x :=
  gateBlocked_congr Iff.rfl setMetadata_hasChild setMetadata_hasChild

private theorem setMetadata_joins {gate : Metadata} {target : Target} :
    target.Joins ((s.setMetadata p key metadata).GateBlocked gate) ↔
      target.Joins (s.GateBlocked gate) := by
  simp only [joins_iff, setMetadata_gateBlocked]

private theorem heldGate_split {d : Dep} (held : d ∈ s.deps p) :
    s.HeldGate (p, d.issueId) ↔ s.OtherGate (p, d.issueId) d.key ∨
      (d.type = .waitsFor ∧ d.target.Joins (s.GateBlocked d.metadata)) := by
  constructor
  · rintro ⟨e, stored, owner, type, joins⟩
    by_cases same : e.key = d.key
    · rw [Table.eq_of_key stored held same] at type joins
      exact Or.inr ⟨type, joins⟩
    · exact Or.inl ⟨e, stored, owner, same, type, joins⟩
  · rintro (⟨e, stored, owner, -, type, joins⟩ | ⟨type, joins⟩)
    · exact ⟨e, stored, owner, type, joins⟩
    · exact ⟨d, held, rfl, type, joins⟩

private theorem setMetadata_otherGate (metadata : Metadata) {d : Dep} :
    (s.setMetadata p d.key metadata).OtherGate (p, d.issueId) d.key ↔
      s.OtherGate (p, d.issueId) d.key := by
  constructor
  · rintro ⟨e, stored, owner, other, type, joins⟩
    obtain ⟨old, before, rfl⟩ := mem_setMetadata.mp stored
    have miss : ¬ (p = p ∧ old.key = d.key) := by
      rintro ⟨-, hit⟩
      rw [if_pos ⟨rfl, hit⟩] at other
      exact other hit
    rw [if_neg miss] at owner other type joins
    exact ⟨old, before, owner, other, type, setMetadata_joins.mp joins⟩
  · rintro ⟨old, before, owner, other, type, joins⟩
    exact ⟨old, mem_setMetadata.mpr ⟨old, before, if_neg fun hit => other hit.2⟩, owner, other,
      type,
      setMetadata_joins.mpr joins⟩

/-- The source of the edge still has the gates of its other edges, and this gate
under the new metadata. -/
theorem setMetadata_heldGate {d : Dep} (held : d ∈ s.deps p) :
    (s.setMetadata p d.key metadata).HeldGate (p, d.issueId) ↔ s.OtherGate (p, d.issueId) d.key ∨
      (d.type = .waitsFor ∧ d.target.Joins (s.GateBlocked metadata)) := by
  have rewritten : { d with metadata := metadata } ∈ (s.setMetadata p d.key metadata).deps p :=
    mem_setMetadata.mpr ⟨d, held, if_pos ⟨rfl, rfl⟩⟩
  rw [← setMetadata_otherGate metadata, ← setMetadata_joins]
  exact heldGate_split rewritten

private theorem setMetadata_liveBlocker {n : Node} :
    (s.setMetadata p key metadata).LiveBlocker n ↔ s.LiveBlocker n :=
  setMetadata_edgeAt fun _ => Iff.rfl

private theorem setMetadata_flaggedParent {n : Node} :
    (s.setMetadata p key metadata).FlaggedParent n ↔ s.FlaggedParent n :=
  setMetadata_edgeAt fun _ => Iff.rfl

/-- The rewrite is seen by the source of the edge alone. -/
theorem setMetadata_blockReason_ne {n : Node} (other : n ≠ (p, key.1)) :
    (s.setMetadata p key metadata).BlockReason n ↔ s.BlockReason n := by
  refine or_congr setMetadata_liveBlocker (or_congr setMetadata_flaggedParent ?_)
  exact (setMetadata_edgeAt_ne other).trans (exists_congr fun e =>
    and_congr_right fun _ => and_congr_right fun _ => and_congr_right fun _ => setMetadata_joins)

/-- What can block the source of an edge when the gate of this edge reads
`metadata`. -/
private def ReasonUnder (s : Store) (p : Plane) (d : Dep) (metadata : Metadata) : Prop :=
  s.LiveBlocker (p, d.issueId) ∨ s.FlaggedParent (p, d.issueId) ∨
    s.OtherGate (p, d.issueId) d.key ∨
      (d.type = .waitsFor ∧ d.target.Joins (s.GateBlocked metadata))

private theorem blockReason_under {d : Dep} (held : d ∈ s.deps p) :
    s.BlockReason (p, d.issueId) ↔ s.ReasonUnder p d d.metadata :=
  or_congr_right (or_congr_right (heldGate_split held))

private theorem setMetadata_blockReason {d : Dep} (held : d ∈ s.deps p) :
    (s.setMetadata p d.key metadata).BlockReason (p, d.issueId) ↔ s.ReasonUnder p d metadata :=
  or_congr setMetadata_liveBlocker (or_congr setMetadata_flaggedParent (setMetadata_heldGate held))

/-- At an open source, new metadata is irrelevant exactly when it leaves the
reason to be blocked. -/
private theorem irrelevant_iff_reason {d : Dep} (live : s.LiveAt (p, d.issueId)) :
    s.MetadataIrrelevant p d metadata ↔
      (s.ReasonUnder p d metadata ↔ s.ReasonUnder p d d.metadata) := by
  constructor
  · rintro (type | dead | reason | reason | reason | same)
    · simp only [ReasonUnder, type, false_and]
    · exact absurd live dead
    · simp only [ReasonUnder, reason, true_or]
    · simp only [ReasonUnder, reason, true_or, or_true]
    · simp only [ReasonUnder, reason, true_or, or_true]
    · rw [ReasonUnder, ReasonUnder, same]
  · intro agree
    by_contra relevant
    simp only [MetadataIrrelevant, not_or, not_not] at relevant
    obtain ⟨type, -, noBlocker, noParent, noGate, differ⟩ := relevant
    simp only [ReasonUnder, noBlocker, noParent, noGate, type, false_or, true_and] at agree
    exact differ agree

/-- Rewriting the metadata of an edge, with no recomputation after it, keeps the
flags correct exactly when the new metadata makes no difference. -/
theorem setMetadata_flags_iff {d : Dep} (before : s.FlagsCorrect) (held : d ∈ s.deps p) :
    (s.setMetadata p d.key metadata).FlagsCorrect ↔ s.MetadataIrrelevant p d metadata := by
  constructor
  · intro correct
    by_cases live : s.LiveAt (p, d.issueId)
    · rw [irrelevant_iff_reason live, ← setMetadata_blockReason held, ← blockReason_under held]
      obtain ⟨r, stored, same, open_⟩ := live
      have old := before p r stored
      have new := correct p r stored
      simp only [open_, true_and] at old new
      rw [show r.id = d.issueId from same] at old new
      exact new.symm.trans old
    · exact Or.inr (Or.inl live)
  · intro irrelevant q r stored
    rw [before q r stored]
    refine and_congr_right fun open_ => ?_
    by_cases here : (q, r.id) = (p, d.issueId)
    · have live : s.LiveAt (p, d.issueId) := here ▸ ⟨r, stored, rfl, open_⟩
      rw [here, setMetadata_blockReason held, blockReason_under held]
      exact ((irrelevant_iff_reason live).mp irrelevant).symm
    · exact (setMetadata_blockReason_ne here).symm

/-- Adding an edge again with its own type rewrites its metadata and nothing
else; the flags are correct for the stored metadata exactly when the rewrite
makes no difference to them. -/
theorem readd_keeps_flags_iff (s : Store) (before : s.FlagsCorrect) (c : Coordinator)
    (dep : Dependency) (opts : AddDependencyOpts) (d : Dep)
    (held : d ∈ s.deps (s.writeTable dep opts)) (same : d.key = (dep.issueId, dep.dependsOnId)) :
    (s.addDependency c dep opts).Settles fun t =>
      t.FlagsCorrect ↔ s.MetadataIrrelevant (s.writeTable dep opts) d dep.metadata := by
  refine addDependency_settles (fun e stored key _ _ => ?_) fun t _ fresh => ?_
  · rw [Table.eq_of_key stored held (key.trans same.symm)]
    exact setMetadata_flags_iff before held
  · exact absurd same (fresh d held)

/-- A waiter on an epic with one closed and one open child, with no gate kind
recorded: the gate waits for all children. -/
def waiterOnEpic : Store where
  rows
    | .issues => ⟨[{ id := "bd-1", issueType := "epic" },
        { id := "bd-2", status := .closed, closedAt := some 1 }, { id := "bd-3" },
        { id := "bd-4", isBlocked := true }], by decide⟩
    | .wisps => Table.empty
  deps
    | .issues => ⟨[⟨"bd-2", .node (.issues, "bd-1"), .parentChild, .empty⟩,
        ⟨"bd-3", .node (.issues, "bd-1"), .parentChild, .empty⟩,
        ⟨"bd-4", .node (.issues, "bd-1"), .waitsFor, .empty⟩], by decide⟩
    | .wisps => Table.empty

/-- Asking for the edge again with an any-children gate opens the gate but
leaves the waiter flagged. -/
theorem readd_loses_flags :
    waiterOnEpic.FlagsCorrect ∧
      ∃ t, (waiterOnEpic.addDependency oneShard
        ⟨"bd-4", "bd-1", .waitsFor, ⟨[("gate", "any-children")]⟩⟩ {}).Returns t ∧
        (∃ d ∈ t.deps .issues, d.key = ("bd-4", "bd-1") ∧ d.metadata.AnyChildren) ∧
        ¬ t.FlagsCorrect := by
  refine ⟨by decide, ?_⟩
  obtain ⟨t, returns, stored, wrong⟩ : ∃ t, (waiterOnEpic.addDependency oneShard
      ⟨"bd-4", "bd-1", .waitsFor, ⟨[("gate", "any-children")]⟩⟩ {}).Returns t ∧
      (∃ d ∈ t.deps .issues, d.key = ("bd-4", "bd-1") ∧ d.metadata.AnyChildren) ∧ ¬ t.FlagsCorrect :=
    Call.returns_of_value? (n := 1) (by decide)
  exact ⟨t, returns, stored, wrong⟩

/-- The same with both children open. -/
def waiterOnOpenEpic : Store where
  rows
    | .issues => ⟨[{ id := "bd-1", issueType := "epic" }, { id := "bd-2" }, { id := "bd-3" },
        { id := "bd-4", isBlocked := true }], by decide⟩
    | .wisps => Table.empty
  deps := waiterOnEpic.deps

/-- There the gate of any child holds as the gate of all children did, so the waiter is
flagged rightly. -/
theorem readd_keeps_flags_iff_openEpic :
    ∃ t, (waiterOnOpenEpic.addDependency oneShard
        ⟨"bd-4", "bd-1", .waitsFor, ⟨[("gate", "any-children")]⟩⟩ {}).Returns t ∧
      (∃ d ∈ t.deps .issues, d.key = ("bd-4", "bd-1") ∧ d.metadata.AnyChildren) ∧
        t.FlagsCorrect := by
  obtain ⟨t, returns, stored⟩ : ∃ t, (waiterOnOpenEpic.addDependency oneShard
      ⟨"bd-4", "bd-1", .waitsFor, ⟨[("gate", "any-children")]⟩⟩ {}).Returns t ∧
      ∃ d ∈ t.deps .issues, d.key = ("bd-4", "bd-1") ∧ d.metadata.AnyChildren :=
    Call.returns_of_value? (n := 1) (by decide)
  have same : (Target.node (.issues, "bd-1")).Joins
      (waiterOnOpenEpic.GateBlocked ⟨[("gate", "any-children")]⟩) ↔
      (Target.node (.issues, "bd-1")).Joins (waiterOnOpenEpic.GateBlocked .empty) := by decide
  refine ⟨t, returns, stored, ((readd_keeps_flags_iff waiterOnOpenEpic (by decide) oneShard _ _
    ⟨"bd-4", .node (.issues, "bd-1"), .waitsFor, .empty⟩ (by decide) (by decide)).of_returns returns).mpr ?_⟩
  exact .inr (.inr (.inr (.inr (.inr same))))

end Again

end Store
end Beads
