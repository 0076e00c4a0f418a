import Beads.LifecycleProofs
import Beads.Delete

/-! Blocked flags across deletions. The affected set is read before anything is
deleted and leaves the deleted rows out; together with them it covers the
change (`Deleted.covers`), and the deleted rows are gone. Deleting rows gives
flags no new way to travel, so the loop ends on any parent-child relation. -/
namespace Beads
open Lib Lib.Graph Lib.Propagation Relation

namespace Store
variable {s t u : Store} {n m : Node} {p : Plane}

/-- Some rows are gone, and with them at most the edges they are an endpoint of. -/
structure Deleted (s t : Store) (gone : Set Node) : Prop where
  kept : ∀ n ∉ gone, t.row? n = s.row? n
  absent : ∀ n ∈ gone, t.row? n = none
  deps : ∀ q, ∀ d ∈ t.deps q, d ∈ s.deps q
  cascade : ∀ q, ∀ d ∈ s.deps q, d ∉ t.deps q →
    (q, d.issueId) ∈ gone ∨ ∃ x ∈ gone, d.target = .node x

namespace Deleted
variable {gone gone' : Set Node}

theorem refl (s : Store) : Deleted s s ∅ where
  kept _ _ := rfl
  absent _ none := none.elim
  deps _ _ held := held
  cascade _ _ held cut := absurd held cut

theorem trans (first : Deleted s t gone) (second : Deleted t u gone') :
    Deleted s u (gone ∪ gone') where
  kept n out := (second.kept n fun held => out (Or.inr held)).trans
    (first.kept n fun held => out (Or.inl held))
  absent n held := by
    by_cases later : n ∈ gone'
    · exact second.absent n later
    · rw [second.kept n later]
      exact first.absent n (held.resolve_right later)
  deps q d held := first.deps q d (second.deps q d held)
  cascade q d held cut := by
    by_cases survives : d ∈ t.deps q
    · rcases second.cascade q d survives cut with source | ⟨x, inside, target⟩
      · exact Or.inl (Or.inr source)
      · exact Or.inr ⟨x, Or.inr inside, target⟩
    · rcases first.cascade q d held survives with source | ⟨x, inside, target⟩
      · exact Or.inl (Or.inl source)
      · exact Or.inr ⟨x, Or.inl inside, target⟩

theorem congr (deleted : Deleted s t gone) (same : ∀ n, n ∈ gone ↔ n ∈ gone') :
    Deleted s t gone' := by
  rwa [Set.ext same] at deleted

theorem status? (deleted : Deleted s t gone) (out : n ∉ gone) : t.status? n = s.status? n := by
  rw [Store.status?, deleted.kept n out]
  rfl

theorem edgeAt (deleted : Deleted s t gone) {c : Dep → Prop} (edge : t.EdgeAt n c) :
    s.EdgeAt n c := by
  obtain ⟨d, held, owner, holds⟩ := edge
  exact ⟨d, deleted.deps n.1 d held, owner, holds⟩

private theorem mem_flags (deleted : Deleted s t gone) (out : n ∉ gone) :
    n ∈ t.flags ↔ n ∈ s.flags := by
  rw [mem_flags_iff, mem_flags_iff, deleted.kept n out]

private theorem not_gone_of_rowAt (deleted : Deleted s t gone) {c : Row → Prop}
    (row : t.RowAt n c) :
    n ∉ gone := by
  intro held
  obtain ⟨r, found, -⟩ := rowAt_iff.mp row
  rw [deleted.absent n held] at found
  cases found

/-- The affected set, read before the deletion, and the deleted rows cover it. -/
theorem covers {set : IDs} {L : Set Node} (deleted : Deleted s t (scope set))
    (affected : DeletionScope s set L) : Covers s t (L ∪ scope set) := by
  -- An edge of an outside row onto a deleted row puts the row into the set.
  have target : ∀ n ∉ L ∪ scope set, ∀ (type : DependencyType → Prop) (x : Node),
      (∀ n ∉ scope set, ∀ x ∈ scope set, s.Onto type n x → n ∈ L) → s.Onto type n x →
        x ∉ scope set := fun n out type x reach edge gone =>
    out (Or.inl (reach n (fun held => out (Or.inr held)) x gone edge))
  constructor
  · exact fun n out => deleted.status? fun held => out (Or.inr held)
  · intro n out d owner affects
    refine ⟨deleted.deps n.1 d, fun held => by_contra fun cut => ?_⟩
    rcases deleted.cascade n.1 d held cut with source | ⟨x, gone, onto⟩
    · exact out (Or.inr (by rw [owner] at source; exact source))
    · rcases affects with type | type | type
      · exact target n out _ x affected.dependers ⟨d, held, owner, type, onto⟩ gone
      · exact target n out _ x affected.waiters ⟨d, held, owner, type, onto⟩ gone
      · exact target n out (· = .parentChild) x affected.orphans ⟨d, held, owner, type, onto⟩ gone
  · exact fun n out x edge => deleted.status?
      (target n out _ x affected.dependers (deleted.edgeAt edge))
  · exact fun n out x edge => deleted.status?
      (target n out _ x affected.waiters (deleted.edgeAt edge))
  · intro n out x edge c
    refine ⟨deleted.edgeAt, ?_⟩
    rintro ⟨d, held, owner, type, onto⟩
    refine ⟨d, by_contra fun cut => ?_, owner, type, onto⟩
    have waits := deleted.edgeAt edge
    rcases deleted.cascade c.1 d held cut with source | ⟨y, gone, onto'⟩
    · have child : c ∈ scope set := by rw [owner] at source; exact source
      exact out (Or.inl (affected.siblings n (fun held => out (Or.inr held)) c child x
        ⟨d, held, owner, type, onto⟩ waits))
    · have same : x = y := Target.node.inj (onto.symm.trans onto')
      exact target n out _ x affected.waiters waits (same ▸ gone)
  · intro n out x edge c parent
    refine deleted.status? fun gone => out (Or.inl ?_)
    exact affected.siblings n (fun held => out (Or.inr held)) c gone x (deleted.edgeAt parent)
      (deleted.edgeAt edge)
  · intro n m edge inside
    by_cases gone : n ∈ scope set
    · exact Or.inr gone
    · rcases inside with member | parent
      · exact Or.inl (affected.closed n gone m member (deleted.edgeAt edge))
      · exact Or.inl (affected.orphans n gone m parent (deleted.edgeAt edge))

theorem recompute {set : IDs} (deleted : Deleted s t (scope set)) (before : s.FlagsCorrect) :
    (recomputeIsBlocked (s.affectedByDeletion set) t).Settles FlagsCorrect := by
  have inherited : ∀ n m, t.rules.Upward n m → m ∈ t.flags → n ∈ t.flags := by
    rintro n m ⟨live, edge⟩ flagged
    have here := deleted.not_gone_of_rowAt live
    rw [deleted.mem_flags here]
    refine (flagsCorrect_iff.mp before n).mpr
      ⟨(liveAt_congr (deleted.status? here)).mp live, Or.inr ?_⟩
    exact ⟨m, (deleted.mem_flags (deleted.not_gone_of_rowAt flagged)).mp flagged,
      deleted.edgeAt edge⟩
  obtain ⟨u, returns, done⟩ := recomputeIsBlocked_of_inherited _ inherited
  have covers := deleted.covers (s.affectedByDeletion_spec set)
  exact Call.settles_of_returns ⟨u, returns, covers.flagsCorrect_of_gone before deleted.absent
    (fun n out => deleted.mem_flags fun held => out (Or.inr held)) done⟩

end Deleted

/-! ## What the statements delete -/

@[simp]
theorem deleteRows_rows_self (s : Store) (p : Plane) (ids : List String) :
    (s.deleteRows p ids).rows p = (s.rows p).delete fun r => r.id ∈ ids :=
  Function.update_self ..

private theorem deleteRows_rows_ne (s : Store) {p q : Plane} (ids : List String) (differ : q ≠ p) :
    (s.deleteRows p ids).rows q = s.rows q :=
  Function.update_of_ne differ ..

theorem deleteRows_deleted (p : Plane) (ids : List String) :
    Deleted s (s.deleteRows p ids) (nodes p ids) where
  kept n out := by
    refine Option.ext fun r => ?_
    rw [row?_eq_some, row?_eq_some]
    refine and_congr_left fun same => ?_
    by_cases plane : n.1 = p
    · have survives : r.id ∉ ids := fun held => out ⟨plane, same ▸ held⟩
      subst plane
      rw [deleteRows_rows_self, Table.mem_delete]
      exact and_iff_left survives
    · rw [deleteRows_rows_ne s ids plane]
  absent n held := by
    obtain ⟨rfl, member⟩ := held
    refine Table.find?_eq_none.mpr fun r inside same => ?_
    rw [deleteRows_rows_self, Table.mem_delete] at inside
    exact inside.2 (same ▸ member)
  deps q d held := (Table.mem_delete.mp held).1
  cascade q d held cut := by
    have hit : Cascades p (fun id => id ∈ ids ∧ s.Holds (p, id)) q d := by
      by_contra miss
      exact cut (Table.mem_delete.mpr ⟨held, miss⟩)
    rcases hit with ⟨rfl, member, -⟩ | ⟨-, id, column, member, -⟩
    · exact Or.inl ⟨rfl, member⟩
    · refine Or.inr ⟨(p, id), ⟨rfl, member⟩, ?_⟩
      cases onto : d.target with
      | external ref => rw [onto] at column; cases column
      | node x =>
        rw [onto, Target.column] at column
        split at column
        · next same => cases column; rw [← same]
        · cases column

private theorem deleteWispFromDependencies_deleted {id : String}
    (absent : s.row? (.wisps, id) = none) :
    Deleted s (s.deleteWispFromDependencies id) {(.wisps, id)} where
  kept _ _ := rfl
  absent n held := by
    rw [Set.mem_singleton_iff.mp held]
    exact absent
  deps q d held := by
    unfold deleteWispFromDependencies at held
    by_cases plane : q = .issues
    · subst plane
      rw [withDeps_deps_self, Table.mem_delete] at held
      exact held.1
    · rwa [withDeps_deps_ne s _ _ plane] at held
  cascade q d held cut := by
    unfold deleteWispFromDependencies at cut
    by_cases plane : q = .issues
    · subst plane
      rw [withDeps_deps_self, Table.mem_delete] at cut
      exact Or.inr ⟨_, rfl, by_contra fun other => cut ⟨held, other⟩⟩
    · rw [withDeps_deps_ne s _ _ plane] at cut
      exact absurd held cut

theorem deleteIssueRow_settles : (s.deleteIssueRow n).Settles fun t => Deleted s t {n} := by
  unfold deleteIssueRow
  refine Call.settles_ite (fun _ => Call.settles_throw) fun _ => ?_
  obtain ⟨p, id⟩ := n
  have one : ∀ m : Node, m ∈ nodes p [id] ↔ m ∈ ({(p, id)} : Set Node) := fun m => by
    rw [Set.mem_singleton_iff, Prod.ext_iff]
    simp [nodes]
  have first := (deleteRows_deleted (s := s) p [id]).congr one
  cases p with
  | issues => exact Call.settles_pure first
  | wisps =>
    have both := first.trans (deleteWispFromDependencies_deleted (first.absent _ rfl))
    exact Call.settles_pure (both.congr fun m => or_self_iff)

theorem deleteWisps_settles (ids : List String) :
    (ids.foldlM (fun s id => Store.deleteIssueRow s (.wisps, id)) s).Settles fun t =>
      Deleted s t (nodes .wisps ids) := by
  induction ids generalizing s with
  | nil => exact Call.settles_pure ((Deleted.refl s).congr fun n => by simp [nodes])
  | cons first rest ih =>
    rw [List.foldlM_cons]
    refine Call.settles_bind deleteIssueRow_settles fun t head => ?_
    refine ih.mono fun u tail => (head.trans tail).congr fun n => ?_
    simp only [nodes, Set.mem_union, Set.mem_singleton_iff, Set.mem_ofPred_eq, List.mem_cons,
      Prod.ext_iff]
    tauto

theorem deleteBatches_deleted (all : List (List String)) :
    Deleted s (all.foldl (fun s batch => s.deleteRows p batch) s)
      {n | n.1 = p ∧ ∃ batch ∈ all, n.2 ∈ batch} := by
  induction all generalizing s with
  | nil => exact (Deleted.refl s).congr fun n => by simp
  | cons first rest ih =>
    refine ((deleteRows_deleted p first).trans ih).congr fun n => ?_
    simp only [nodes, Set.mem_union, Set.mem_ofPred_eq, List.mem_cons, exists_eq_or_imp]
    tauto

/-! ## Deletions keep the flags correct -/

private theorem scope_deletedIn (p : Plane) (ids : List String) :
    scope (deletedIn p ids) = nodes p ids := by
  ext n
  change n.2 ∈ Function.update (fun _ => []) p ids n.1 ↔ n.1 = p ∧ n.2 ∈ ids
  by_cases plane : n.1 = p
  · simp [plane]
  · simp [plane]

private theorem deleteIssue_flags (before : s.FlagsCorrect) (id : String) :
    (s.deleteIssue id).Settles FlagsCorrect := by
  unfold deleteIssue
  extract_lets n affected
  refine Call.settles_bind deleteIssueRow_settles fun t deleted => ?_
  refine Deleted.recompute (deleted.congr fun m => ?_) before
  rw [scope_deletedIn, Set.mem_singleton_iff, Prod.ext_iff]
  simp [nodes, n]

theorem deleteResolvedSet_flags (before : s.FlagsCorrect) (set : IDs) :
    (s.deleteResolvedSet set).Settles FlagsCorrect := by
  unfold deleteResolvedSet
  refine Call.settles_ite (fun _ => Call.settles_pure before) fun _ => ?_
  extract_lets affected
  refine Call.settles_bind (deleteWisps_settles (set .wisps)) fun t wisps => ?_
  refine Deleted.recompute ((wisps.trans (deleteBatches_deleted _)).congr ?_) before
  rintro ⟨p, id⟩
  have positive : 0 < deleteBatchSize := by decide
  rw [Set.mem_union, Set.mem_ofPred_eq, mem_batches positive]
  cases p with
  | issues => simp [nodes, scope]
  | wisps => simp [nodes, scope]

private theorem resolveDeletionSet_settles (ids : List String) (cascade : Bool) :
    (s.resolveDeletionSet ids cascade).Settles fun _ => True := by
  have closure : (s.findAllDependents ids).Settles fun _ => True :=
    Call.settles_ite (fun _ => Call.settles_throw) fun _ => Call.settles_pure trivial
  have anything : ∀ {α : Type} (a : α), (pure a : Tx α).Settles fun _ => True := fun _ =>
    Call.settles_pure trivial
  unfold resolveDeletionSet
  refine Call.settles_ite (fun _ => ?_) fun _ => ?_
  · exact Call.settles_bind closure fun _ _ => Call.settles_bind (anything _) fun _ _ => anything _
  · exact Call.settles_bind (anything _) fun _ _ => anything _

private theorem deleteIssues_flags (before : s.FlagsCorrect) (ids : List String)
    (cascade force dryRun : Bool) :
    (s.deleteIssues ids cascade force dryRun).Settles FlagsCorrect := by
  have run : ∀ set : IDs, (if dryRun = true then pure s else s.deleteResolvedSet set).Settles
      FlagsCorrect := fun set =>
    Call.settles_ite (fun _ => Call.settles_pure before) fun _ => deleteResolvedSet_flags before set
  unfold deleteIssues
  refine Call.settles_ite (fun _ => Call.settles_pure before) fun _ => ?_
  refine Call.settles_bind (resolveDeletionSet_settles ids cascade) fun set _ => ?_
  extract_lets rest
  refine Call.settles_ite (fun _ => ?_) fun _ => run set
  split
  · exact Call.settles_bind Call.settles_throw fun _ (never : False) => never.elim
  · exact Call.settles_bind Call.settles_unit fun _ _ => run set

/-- Single, bulk and cascade deletes leave every surviving row's flag correct. -/
theorem deletions_keep_flags (s : Store) (before : s.FlagsCorrect) :
    (∀ id, (s.deleteIssue id).Settles FlagsCorrect) ∧
      (∀ set, (s.deleteResolvedSet set).Settles FlagsCorrect) ∧
      ∀ ids cascade force dryRun, (s.deleteIssues ids cascade force dryRun).Settles FlagsCorrect :=
  ⟨deleteIssue_flags before, deleteResolvedSet_flags before, deleteIssues_flags before⟩

/-- The epic of `smallEpic`, blocked by the third issue, with its child. -/
def blockedEpic : Store where
  rows
    | .issues => ⟨[{ id := "bd-1", issueType := "epic", isBlocked := true },
        { id := "bd-2", isBlocked := true }, { id := "bd-3" }], by decide⟩
    | .wisps => Table.empty
  deps
    | .issues => ⟨[⟨"bd-2", .node (.issues, "bd-1"), .parentChild, .empty⟩,
        ⟨"bd-1", .node (.issues, "bd-3"), .blocks, .empty⟩], by decide⟩
    | .wisps => Table.empty

/-- Deleting the blocker frees the epic and its child. -/
theorem deletions_keep_flags_blockedEpic :
    ∃ t, (blockedEpic.deleteIssues ["bd-3"] false true false).Returns t ∧
      ¬ t.FlaggedAt (.issues, "bd-2") ∧ t.FlagsCorrect := by
  obtain ⟨t, returns, flagged⟩ : ∃ t,
      (blockedEpic.deleteIssues ["bd-3"] false true false).Returns t ∧
        ¬ t.FlaggedAt (.issues, "bd-2") :=
    Call.returns_of_value? (n := 4) (by decide)
  refine ⟨t, returns, flagged, ?_⟩
  exact ((deletions_keep_flags blockedEpic (by decide)).2.2 _ _ _ _).of_returns returns

end Store
end Beads
