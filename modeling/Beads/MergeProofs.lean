import Beads.DependencyProofs
import Beads.Merge

/-! The recomputation after a merge. Whatever a merge has changed in the durable
tables, all at once, is in the diff, and the affected sets of the listed rows
and edges together cover it (`Diff.Lists.covers`): the single-row and the
single-edge argument each look at one thing that a flag outside depends on. -/
namespace Beads
open Lib Lib.Graph Lib.Propagation Relation

/-- The diff names every row of `issues` and every row of `dependencies` in which
two stores differ. -/
structure Diff.Lists (diff : Diff) (s t : Store) : Prop where
  issues : ∀ id, t.row? (.issues, id) ≠ s.row? (.issues, id) → id ∈ diff.issues
  dependencies : ∀ key, (t.deps .issues).find? key ≠ (s.deps .issues).find? key →
    ((s.deps .issues).find? key, (t.deps .issues).find? key) ∈ diff.dependencies

namespace Store
variable {s t u : Store} {diff : Diff} {n : Node}

/-- The ephemeral tables of two stores agree. -/
def SameWisps (s t : Store) : Prop := t.rows .wisps = s.rows .wisps ∧ t.deps .wisps = s.deps .wisps

theorem mem_mergeAffected : n ∈ scope (t.mergeAffected diff) ↔
    (∃ id ∈ diff.issues, n ∈ scope (t.affectedByStatusChange (.issues, id))) ∨
      ∃ e ∈ changedDependencyEdges diff,
        n ∈ scope (t.affectedByDepChange (.issues, e.issueId) e.target e.type) := by
  refine List.mem_eraseDups.trans (List.mem_append.trans (or_congr ?_ ?_))
  · exact List.mem_flatMap
  · exact List.mem_flatMap

end Store

namespace Diff.Lists
open Store
variable {s t u : Store} {diff : Diff} (lists : diff.Lists s t)
include lists

/-- A changed edge is listed on the sides it has. -/
theorem mem_changed {d : Dep} (moved : ¬ (d ∈ t.deps .issues ↔ d ∈ s.deps .issues)) :
    ⟨d.issueId, d.target.id, d.type⟩ ∈ changedDependencyEdges diff := by
  have either : d ∈ t.deps .issues ∨ d ∈ s.deps .issues := by
    by_contra none
    exact moved (iff_of_false (fun held => none (Or.inl held)) fun held => none (Or.inr held))
  have differ : (t.deps .issues).find? d.key ≠ (s.deps .issues).find? d.key := by
    intro same
    have found :
        ∀ v : Store, (v.deps .issues).find? d.key = some d ↔ d ∈ v.deps .issues := fun v => by
      rw [Table.find?_eq_some, and_iff_left rfl]
    rw [← found, ← found, same] at moved
    exact moved Iff.rfl
  have listed := lists.dependencies d.key differ
  refine List.mem_flatMap.mpr ⟨_, listed, List.mem_map.mpr ⟨d, List.mem_append.mpr ?_, rfl⟩⟩
  rcases either with held | held
  · exact Or.inr (Option.mem_toList.mpr (Table.find?_eq_some.mpr ⟨held, rfl⟩))
  · exact Or.inl (Option.mem_toList.mpr (Table.find?_eq_some.mpr ⟨held, rfl⟩))

variable (wisps : SameWisps s t)
include wisps

theorem row?_eq {n : Node} (kept : n.1 = .issues → n.2 ∉ diff.issues) : t.row? n = s.row? n := by
  obtain ⟨p, id⟩ := n
  cases p with
  | issues => exact by_contra fun differ => kept rfl (lists.issues id differ)
  | wisps => rw [row?, wisps.1]; rfl

/-- An affecting edge that has changed puts its source into the set. -/
theorem mem_of_edge {n : Node} {d : Dep} (owner : d.issueId = n.2)
    (moved : ¬ (d ∈ t.deps n.1 ↔ d ∈ s.deps n.1)) : n.1 = .issues ∧
      ⟨n.2, d.target.id, d.type⟩ ∈ changedDependencyEdges diff := by
  obtain ⟨p, id⟩ := n
  cases p with
  | issues => exact ⟨rfl, owner ▸ lists.mem_changed moved⟩
  | wisps => exact absurd (by rw [wisps.2]) moved

/-- A row whose status has changed puts everything that looks at it into the set. -/
theorem status_scope {x : Node} (changed : t.status? x ≠ s.status? x) :
    ∃ L ⊆ scope (t.mergeAffected diff), StatusScope t x L := by
  have differ : t.row? x ≠ s.row? x := fun same => changed (by rw [status?, status?, same])
  obtain ⟨p, id⟩ := x
  cases p with
  | issues =>
    refine ⟨_, fun m held => ?_, t.affectedByStatusChange_spec (.issues, id)⟩
    exact mem_mergeAffected.mpr (Or.inl ⟨id, lists.issues id differ, held⟩)
  | wisps => exact absurd (lists.row?_eq wisps fun plane => by cases plane) differ

theorem covers (named : s.ParentsNamed) (named' : t.ParentsNamed) :
    Covers s t (scope (t.mergeAffected diff)) := by
  have status : ∀ n ∉ scope (t.mergeAffected diff), ∀ x,
      (∀ L, StatusScope t x L → n ∈ L) → t.status? x = s.status? x := by
    intro n out x looks
    by_contra changed
    obtain ⟨L, sub, scope⟩ := lists.status_scope wisps changed
    exact out (sub (looks L scope))
  constructor
  · exact fun n out => status n out n fun L scope => scope.self
  · intro n out d owner affects
    by_contra moved
    obtain ⟨plane, listed⟩ := lists.mem_of_edge wisps owner moved
    refine out (mem_mergeAffected.mpr (Or.inr ⟨_, listed, ?_⟩))
    have here : n = (.issues, n.2) := Prod.ext plane rfl
    exact here ▸ (t.affectedByDepChange_spec (.issues, n.2) d.target.id affects).self
  · exact fun n out x edge => status n out x fun L scope => scope.dependers n edge
  · exact fun n out x edge => status n out x fun L scope => scope.waiters n x rfl edge
  · intro n out x waits c
    refine exists_congr fun d => ?_
    by_cases relevant : d.issueId = c.2 ∧ d.type = .parentChild ∧ d.target = .node x
    · rw [and_iff_left relevant, and_iff_left relevant]
      obtain ⟨owner, child, onto⟩ := relevant
      by_contra moved
      obtain ⟨-, listed⟩ := lists.mem_of_edge wisps owner moved
      have target : d.target.id ≠ "" := by
        by_contra empty
        exact moved (iff_of_false (fun held => named' c.1 d held child empty)
          fun held => named c.1 d held child empty)
      refine out (mem_mergeAffected.mpr (Or.inr ⟨_, listed, ?_⟩))
      have same : x.2 = d.target.id := by rw [onto]; rfl
      exact (t.affectedByDepChange_spec (.issues, c.2) d.target.id
        (Or.inr (Or.inr child))).waiters child target n x same waits
    · exact iff_of_false (fun held => relevant held.2) fun held => relevant held.2
  · exact fun n out x waits c parent => status n out c fun L scope => scope.siblings n x parent
      waits
  · intro n m parent inside
    rcases mem_mergeAffected.mp inside with ⟨id, listed, member⟩ | ⟨e, listed, member⟩
    · exact mem_mergeAffected.mpr (Or.inl ⟨id, listed,
        (t.affectedByStatusChange_spec (.issues, id)).closed n m parent member⟩)
    · refine mem_mergeAffected.mpr (Or.inr ⟨e, listed, ?_⟩)
      by_cases affects : e.type.Affects
      · exact (t.affectedByDepChange_spec _ e.target affects).closed n m parent member
      · rw [t.affectedByDepChange_nil _ e.target affects] at member
        exact (List.not_mem_nil member).elim

private theorem flags_iff {n : Node} (out : n ∉ scope (t.mergeAffected diff)) :
    n ∈ t.flags ↔ n ∈ s.flags := by
  obtain ⟨p, id⟩ := n
  rw [mem_flags_iff, mem_flags_iff, lists.row?_eq wisps fun plane listed => out ?_]
  obtain rfl : p = .issues := plane
  have self := (t.affectedByStatusChange_spec (.issues, id)).self
  exact mem_mergeAffected.mpr (Or.inl ⟨id, listed, self⟩)

end Diff.Lists

namespace Store
variable {s t u : Store} {diff : Diff}

theorem mergeAffected_flags (before : s.FlagsCorrect) (acyclic : Acyclic t.ParentChild)
    (named : s.ParentsNamed) (named' : t.ParentsNamed) (wisps : SameWisps s t)
    (lists : diff.Lists s t) :
    (recomputeIsBlocked (t.mergeAffected diff) t).Settles FlagsCorrect := by
  obtain ⟨u, returns, done⟩ :=
    recomputeIsBlocked_of_acyclic (t.mergeAffected diff) (upward_acyclic acyclic)
  exact Call.settles_of_returns ⟨u, returns, (lists.covers wisps named named').flagsCorrect before
    (fun n out => lists.flags_iff wisps out) done⟩

/-- A recomputation of every row needs no correct flags to start from. -/
theorem recomputeIsBlockedForAll_flags (acyclic : Acyclic t.ParentChild) :
    t.recomputeIsBlockedForAll.Settles FlagsCorrect := by
  obtain ⟨u, returns, done⟩ := recomputeIsBlocked_of_acyclic (fun p => (t.rows p).rows.map Row.id)
    (upward_acyclic acyclic)
  refine Call.settles_of_returns ⟨u, returns, ?_⟩
  rw [flagsCorrect_iff, rules_eq_of_cleared done.cleared]
  intro n
  by_cases row : ∃ r, t.row? n = some r
  · obtain ⟨r, found⟩ := row
    obtain ⟨held, same⟩ := row?_eq_some.mp found
    exact done.inside n (List.mem_map.mpr ⟨r, held, same⟩)
  · have noRow : ∀ c : Row → Prop, ¬ t.RowAt n c := fun c holds =>
      row ((rowAt_iff.mp holds).imp fun _ found => found.1)
    have out : n ∉ scope (fun p => (t.rows p).rows.map Row.id) := fun inside => by
      obtain ⟨r, held, same⟩ := List.mem_map.mp inside
      exact row ⟨r, row?_eq_some.mpr ⟨held, same⟩⟩
    rw [done.outside n out]
    exact iff_of_false (noRow _) fun due => noRow _ due.1

/-- Two recomputations that make the flags of one store correct agree. -/
theorem flags_unique {v : Store} (acyclic : Acyclic t.ParentChild) (left : u.cleared = t.cleared)
    (right : v.cleared = t.cleared) (first : u.FlagsCorrect) (second : v.FlagsCorrect) :
    u.flags = v.flags := by
  rw [flagsCorrect_iff, rules_eq_of_cleared left] at first
  rw [flagsCorrect_iff, rules_eq_of_cleared right] at second
  rw [first.eq_blocked (upward_acyclic acyclic), second.eq_blocked (upward_acyclic acyclic)]

end Store

/-- What the version control promises about a commit and the working set: a diff
lists every difference, and a clean working set on that commit has none. -/
structure Versions.Reports (v : Versions) (s t : Store) (fromCommit : String) : Prop where
  diff : ∀ diff ∈ v.diff fromCommit, diff.Lists s t
  clean : v.head = fromCommit → v.dirty = some 0 →
    t.rows .issues = s.rows .issues ∧ t.deps .issues = s.deps .issues

namespace Store

private theorem SameWisps.flagsCorrect_of_clean (wisps : SameWisps s t)
    (rows : t.rows .issues = s.rows .issues)
    (deps : t.deps .issues = s.deps .issues) (before : s.FlagsCorrect) : t.FlagsCorrect := by
  have sameRows : t.rows = s.rows := funext fun p => by cases p; exacts [rows, wisps.1]
  have sameDeps : t.deps = s.deps := funext fun p => by cases p; exacts [deps, wisps.2]
  exact flagsCorrect_of_view ⟨status?_of_rows sameRows, fun p d => by rw [sameDeps]⟩
    (flags_of_rows sameRows) before

theorem recomputeIsBlockedAfterMergeScoped_flags (before : s.FlagsCorrect)
    (acyclic : Acyclic t.ParentChild) (named : s.ParentsNamed) (named' : t.ParentsNamed)
    (wisps : SameWisps s t) {v : Versions} {fromCommit : String}
    (reports : v.Reports s t fromCommit) :
    (t.recomputeIsBlockedAfterMergeScoped v fromCommit).Settles FlagsCorrect := by
  have all := recomputeIsBlockedForAll_flags acyclic
  unfold recomputeIsBlockedAfterMergeScoped
  refine Call.settles_ite (fun _ => all) fun _ => Call.settles_ite (fun _ => Call.settles_throw)
    fun _ => Call.settles_ite (fun clean => Call.settles_pure ?_) fun _ => ?_
  · obtain ⟨rows, deps⟩ := reports.clean clean.1 clean.2
    exact wisps.flagsCorrect_of_clean rows deps before
  · unfold mergeAffectedSets
    split
    · exact all
    · next ids chosen =>
      split at chosen
      · cases chosen
      · next diff found =>
        split at chosen
        · cases chosen
        · cases chosen
          exact mergeAffected_flags before acyclic named named' wisps (reports.diff diff found)

/-- The entry point: a marker of an unfinished pass takes the place of the commit, or
makes the pass a full one. -/
theorem recomputeIsBlockedAfterMerge_flags (before : s.FlagsCorrect)
    (acyclic : Acyclic t.ParentChild)
    (named : s.ParentsNamed) (named' : t.ParentsNamed) (wisps : SameWisps s t) {v : Versions}
    {pending fromCommit : String}
    (reports : v.Reports s t (if pending ≠ "" then pending else fromCommit)) :
    (t.recomputeIsBlockedAfterMerge v pending fromCommit).Settles FlagsCorrect := by
  unfold recomputeIsBlockedAfterMerge
  split
  · next marked =>
    rw [if_pos marked] at reports
    split
    · exact recomputeIsBlockedAfterMergeScoped_flags before acyclic named named' wisps reports
    · exact Call.settles_ite (fun _ => recomputeIsBlockedForAll_flags acyclic) fun never =>
        absurd rfl never
  · next unmarked =>
    rw [if_neg unmarked] at reports
    exact recomputeIsBlockedAfterMergeScoped_flags before acyclic named named' wisps reports

/-- After a merge of the durable tables the recomputation that a diff scopes makes
all flags correct, agrees with the recomputation of everything, and so does the
pass that chooses between them. -/
theorem merge_recompute_correct (s t : Store) (before : s.FlagsCorrect)
    (acyclic : Acyclic t.ParentChild)
    (named : s.ParentsNamed) (named' : t.ParentsNamed) (wisps : SameWisps s t) :
    (∀ diff : Diff, diff.Lists s t →
      (recomputeIsBlocked (t.mergeAffected diff) t).Settles fun u => u.FlagsCorrect ∧
        ∀ v, t.recomputeIsBlockedForAll.Returns v → v.flags = u.flags) ∧
    t.recomputeIsBlockedForAll.Settles FlagsCorrect ∧
    ∀ (v : Versions) fromCommit, v.Reports s t fromCommit →
      (t.recomputeIsBlockedAfterMergeScoped v fromCommit).Settles FlagsCorrect := by
  have all := recomputeIsBlockedForAll_flags acyclic
  refine ⟨fun diff lists => ?_, all, fun v fromCommit reports => ?_⟩
  · have narrow := (mergeAffected_flags before acyclic named named' wisps lists).returning
    refine narrow.mono fun u settled => ⟨settled.2, fun v full => ?_⟩
    exact flags_unique acyclic (recomputeIsBlocked_cleared full)
      (recomputeIsBlocked_cleared settled.1)
      (all.of_returns full) settled.2
  · exact recomputeIsBlockedAfterMergeScoped_flags before acyclic named named' wisps reports

/-- `smallEpic` after a merge brought in an edge that blocks the epic. -/
def mergedEpic : Store where
  rows := smallEpic.rows
  deps
    | .issues => ⟨[⟨"bd-1", .node (.issues, "bd-3"), .blocks, .empty⟩,
        ⟨"bd-2", .node (.issues, "bd-1"), .parentChild, .empty⟩], by decide⟩
    | .wisps => smallEpic.deps .wisps

/-- The diff of the merge: one edge that has only a new side. -/
def mergedEdge : Diff := ⟨[], [(none, some ⟨"bd-1", .node (.issues, "bd-3"), .blocks, .empty⟩)]⟩

private theorem mergedEdge_lists : mergedEdge.Lists smallEpic mergedEpic where
  issues _ differ := absurd rfl differ
  dependencies key differ := by
    by_cases new : key = ("bd-1", "bd-3")
    · subst new
      decide
    · refine absurd ?_ differ
      simp only [Table.find?, mergedEpic, smallEpic, List.find?, Dep.key, Target.id]
      split
      · next same => exact absurd (of_decide_eq_true same).symm new
      · rfl

/-- The epic and its child are blocked once the merge is recomputed. -/
theorem merge_recompute_correct_mergedEpic :
    ∃ t, (recomputeIsBlocked (mergedEpic.mergeAffected mergedEdge) mergedEpic).Returns t ∧
      t.FlaggedAt (.issues, "bd-2") ∧ t.FlagsCorrect := by
  obtain ⟨t, returns, flagged⟩ : ∃ t,
      (recomputeIsBlocked (mergedEpic.mergeAffected mergedEdge) mergedEpic).Returns t ∧
        t.FlaggedAt (.issues, "bd-2") :=
    Call.returns_of_value? (n := 4) (by decide)
  refine ⟨t, returns, flagged, ?_⟩
  exact (((merge_recompute_correct smallEpic mergedEpic (by decide) (by decide) (by decide) (by decide)
    ⟨rfl, rfl⟩).1 mergedEdge mergedEdge_lists).of_returns returns).1

end Store
end Beads
