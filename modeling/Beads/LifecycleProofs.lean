import Beads.AffectedProofs
import Beads.DependencyProofs
import Beads.Lifecycle

/-! Blocked flags across status changes of one row. Whatever the new status is,
the affected set of the row covers the change (`StatusScope.covers`). The
generic update recomputes it only when the row crosses between open and closed
or pinned. That leaves one pair of statuses open: a gate for any children counts
closed children and not pinned ones, so a swap of the two may change it. -/
namespace Beads
open Lib Lib.Graph Lib.Propagation Relation

namespace Store
variable {s t u : Store} {x n m : Node}

/-! ## Writing one row -/

/-- The stores differ in one row at most, and not in its flag. -/
structure RowWrite (s t : Store) (x : Node) : Prop where
  deps : t.deps = s.deps
  others : ∀ n, n ≠ x → t.status? n = s.status? n
  flags : t.flags = s.flags

section UpdateRow
variable {f : Row → Row} {keeps : ∀ r, (f r).id = r.id}

theorem mem_updateRow {r : Row} {p : Plane} : r ∈ (s.updateRow x f keeps).rows p ↔
    ∃ old ∈ s.rows p, (if p = x.1 ∧ old.id = x.2 then f old else old) = r := by
  unfold updateRow
  by_cases plane : p = x.1
  · subst plane
    rw [withRows_rows_self, Table.mem_update]
    simp only [true_and]
  · rw [withRows_rows_ne s x.1 _ plane]
    simp only [plane, false_and, if_false, exists_eq_right]

theorem row?_updateRow : (s.updateRow x f keeps).row? n =
    if n = x then (s.row? n).map f else s.row? n := by
  have written :
      ∀ old : Row, old.id = n.2 → ((n.1 = x.1 ∧ old.id = x.2) ↔ n = x) := fun old same => by
    rw [same, Prod.ext_iff]
  refine Option.ext fun r => ?_
  rw [row?_eq_some, mem_updateRow]
  constructor
  · rintro ⟨⟨old, held, rfl⟩, same⟩
    have name : old.id = n.2 := by
      split at same
      · rwa [keeps] at same
      · exact same
    rw [row?_eq_some.mpr ⟨held, name⟩]
    simp only [written old name]
    split <;> rfl
  · intro found
    split at found
    · next here =>
      obtain ⟨old, row, rfl⟩ := Option.map_eq_some_iff.mp found
      obtain ⟨held, name⟩ := row?_eq_some.mp row
      exact ⟨⟨old, held, if_pos ((written old name).mpr here)⟩, (keeps old).trans name⟩
    · next other =>
      obtain ⟨held, name⟩ := row?_eq_some.mp found
      exact ⟨⟨r, held, if_neg fun hit => other ((written r name).mp hit)⟩, name⟩

theorem updateRow_write (quiet : ∀ r, (f r).isBlocked = r.isBlocked) :
    RowWrite s (s.updateRow x f keeps) x where
  deps := rfl
  others n other := by rw [status?, row?_updateRow, if_neg other]; rfl
  flags := by
    ext n
    rw [mem_flags_iff, mem_flags_iff, row?_updateRow]
    split
    · simp only [Option.map_eq_some_iff]
      constructor
      · rintro ⟨_, ⟨r, found, rfl⟩, flagged⟩
        exact ⟨r, found, by rwa [quiet] at flagged⟩
      · rintro ⟨r, found, flagged⟩
        exact ⟨f r, ⟨r, found, rfl⟩, by rwa [quiet]⟩
    · exact Iff.rfl

theorem updateRow_status? :
    (s.updateRow x f keeps).status? x = (s.row? x).map fun r => (f r).status := by
  rw [status?, row?_updateRow, if_pos rfl, Option.map_map]
  rfl

end UpdateRow

/-! ## A status write is covered by the affected set -/

theorem edgeAt_of_deps (same : t.deps = s.deps) {c : Dep → Prop} : t.EdgeAt n c ↔ s.EdgeAt n c := by
  rw [EdgeAt, EdgeAt, same]

theorem parentOf_of_deps (same : t.deps = s.deps) : t.ParentOf n m ↔ s.ParentOf n m :=
  edgeAt_of_deps same

theorem StatusScope.covers {L : Set Node} (affected : StatusScope s x L) (write : RowWrite s t x) :
    Covers s t L where
  status n out := write.others n fun same => out (same ▸ affected.self)
  edges n _ d _ _ := by rw [write.deps]
  blocker n out y edge := write.others y fun same =>
    out (affected.dependers n (same ▸ (edgeAt_of_deps write.deps).mp edge))
  spawner n out y edge := write.others y fun same =>
    out (affected.waiters n y (congrArg Prod.snd same) ((edgeAt_of_deps write.deps).mp edge))
  children _ _ _ _ _ := parentOf_of_deps write.deps
  siblings n out y edge c child := write.others c fun same =>
    out (affected.siblings n y (same ▸ (parentOf_of_deps write.deps).mp child)
      ((edgeAt_of_deps write.deps).mp edge))
  closed n m edge inside := affected.closed n m ((parentOf_of_deps write.deps).mp edge) inside

private theorem StatusScope.of_deps {L : Set Node} (affected : StatusScope t x L)
    (same : s.deps = t.deps) :
    StatusScope s x L where
  self := affected.self
  dependers n edge := affected.dependers n ((edgeAt_of_deps same).mp edge)
  siblings n y parent edge :=
    affected.siblings n y ((parentOf_of_deps same).mp parent) ((edgeAt_of_deps same).mp edge)
  waiters n y named edge := affected.waiters n y named ((edgeAt_of_deps same).mp edge)
  closed n m edge inside := affected.closed n m ((parentOf_of_deps same).mp edge) inside

/-- The parent-child relation only depends on the edges. -/
theorem parentChild_of_deps (same : t.deps = s.deps) : t.ParentChild = s.ParentChild := by
  funext a b
  rw [ParentChild, ParentChild, Related, Related, same]

/-- Any write of one row followed by a recomputation of what it affects. -/
theorem RowWrite.recompute (write : RowWrite s t x) (before : s.FlagsCorrect)
    (acyclic : Acyclic s.ParentChild) :
    (recomputeIsBlocked (s.affectedByStatusChange x) t).Settles FlagsCorrect := by
  have still : Acyclic t.ParentChild := by rwa [parentChild_of_deps write.deps]
  obtain ⟨u, returns, done⟩ := recomputeIsBlocked_of_acyclic _ (upward_acyclic still)
  have covers := (s.affectedByStatusChange_spec x).covers write
  exact Call.settles_of_returns
    ⟨u, returns, covers.flagsCorrect before (fun n _ => by rw [write.flags]) done⟩

/-! ## Close and reopen -/

theorem closeIssue_flags (before : s.FlagsCorrect) (acyclic : Acyclic s.ParentChild) (cfg : Config)
    (id reason session : String) : (s.closeIssue cfg id reason session).Settles FlagsCorrect := by
  unfold closeIssue
  extract_lets n affected
  split
  · exact Call.settles_throw
  · refine Call.settles_ite (fun _ => Call.settles_pure before) fun _ =>
      RowWrite.recompute ?_ before acyclic
    exact updateRow_write fun _ => rfl

theorem reopenIssue_flags (before : s.FlagsCorrect) (acyclic : Acyclic s.ParentChild) (cfg : Config)
    (id : String) : (s.reopenIssue cfg id).Settles FlagsCorrect := by
  unfold reopenIssue
  extract_lets n
  split
  · exact Call.settles_throw
  · refine Call.settles_ite (fun _ => Call.settles_pure before) fun _ =>
      RowWrite.recompute ?_ before acyclic
    exact updateRow_write fun _ => rfl

/-! ## The generic update -/

theorem status?_eq_iff_liveAt {st : Status} (found : s.status? n = some st) :
    s.LiveAt n ↔ st.Live := by
  rw [LiveAt, rowAt_status, found]
  simp only [Option.some.injEq, exists_eq_left']

namespace RowWrite

theorem liveAt_ne (write : RowWrite s t x) (other : n ≠ x) : t.LiveAt n ↔ s.LiveAt n :=
  liveAt_congr (write.others n other)

private theorem rowAt_ne (write : RowWrite s t x) (other : n ≠ x) {c : Status → Prop} :
    (t.RowAt n fun r => c r.status) ↔ s.RowAt n fun r => c r.status :=
  rowAt_status_congr (write.others n other)

theorem hasChild_imp (write : RowWrite s t x) {spawner : Node} {c : Status → Prop}
    (here : (s.RowAt x fun r => c r.status) → t.RowAt x fun r => c r.status)
    (child : s.HasChild spawner c) : t.HasChild spawner c := by
  obtain ⟨y, parent, row⟩ := hasChild_iff.mp child
  refine hasChild_iff.mpr ⟨y, (parentOf_of_deps write.deps).mpr parent, ?_⟩
  by_cases same : y = x
  · subst same
    exact here row
  · exact (write.rowAt_ne same).mpr row

theorem symm (write : RowWrite s t x) : RowWrite t s x where
  deps := write.deps.symm
  others n other := (write.others n other).symm
  flags := write.flags.symm

private theorem hasChild_iff_of_row (write : RowWrite s t x) {spawner : Node} {c : Status → Prop}
    (here : (t.RowAt x fun r => c r.status) ↔ s.RowAt x fun r => c r.status) :
    t.HasChild spawner c ↔ s.HasChild spawner c :=
  ⟨write.symm.hasChild_imp here.mp, write.hasChild_imp here.mpr⟩

theorem liveAt_iff (write : RowWrite s t x) (same : t.LiveAt x ↔ s.LiveAt x) (n : Node) :
    t.LiveAt n ↔ s.LiveAt n := by
  by_cases here : n = x
  · subst here
    exact same
  · exact write.liveAt_ne here

/-- A row that opens takes no reason away from anyone. -/
theorem direct_of_opens (write : RowWrite s t x) (opens : t.LiveAt x) (direct : s.rules.direct n) :
    t.rules.direct n := by
  have live : ∀ y, s.LiveAt y → t.LiveAt y := fun y held => by
    by_cases same : y = x
    · exact same ▸ opens
    · exact (write.liveAt_ne same).mpr held
  have notClosed : ¬ t.RowAt x fun r => r.status = .closed := by
    rintro ⟨r, held, same, closed⟩
    obtain ⟨r', held', same', live⟩ := opens
    rw [Table.eq_of_key held' held (same'.trans same.symm)] at live
    exact live.1 closed
  have gate : ∀ metadata y, s.GateBlocked metadata y → t.GateBlocked metadata y := by
    rintro metadata y (⟨child, notAny⟩ | ⟨also, open_⟩)
    · refine Or.inl ⟨write.hasChild_imp (fun _ => opens) child,
        fun ⟨any, closed⟩ => notAny ⟨any, ?_⟩⟩
      exact write.symm.hasChild_imp (fun closed => absurd closed notClosed) closed
    · exact Or.inr ⟨also, live y open_⟩
  rcases direct with ⟨d, held, owner, type, joins⟩ | ⟨d, held, owner, type, joins⟩
  · obtain ⟨y, target, open_⟩ := joins_iff.mp joins
    exact Or.inl ⟨d, write.deps ▸ held, owner, type, joins_iff.mpr ⟨y, target, live y open_⟩⟩
  · obtain ⟨y, target, open_⟩ := joins_iff.mp joins
    exact Or.inr ⟨d, write.deps ▸ held, owner, type, joins_iff.mpr ⟨y, target, gate _ y open_⟩⟩

private theorem supported_of_opens (write : RowWrite s t x) (before : s.FlagsCorrect)
    (opens : t.LiveAt x) :
    t.rules.Supported t.flags := by
  rw [write.flags]
  intro n held
  obtain ⟨live, reason⟩ := (flagsCorrect_iff.mp before n).mp held
  have still : t.LiveAt n := by
    by_cases same : n = x
    · exact same ▸ opens
    · exact (write.liveAt_ne same).mpr live
  refine ⟨still, reason.imp (write.direct_of_opens opens) ?_⟩
  rintro ⟨m, flagged, edge⟩
  exact ⟨m, flagged, (parentOf_of_deps write.deps).mpr edge⟩

private theorem inherited_of_closes (write : RowWrite s t x) (before : s.FlagsCorrect)
    (closes : ¬ t.LiveAt x)
    (n m : Node) (edge : t.rules.Upward n m) (flagged : m ∈ t.flags) : n ∈ t.flags := by
  rw [write.flags] at flagged ⊢
  have other : n ≠ x := fun same => closes (same ▸ edge.1)
  refine (flagsCorrect_iff.mp before n).mpr
    ⟨(write.liveAt_ne other).mp edge.1, Or.inr ⟨m, flagged, ?_⟩⟩
  exact (parentOf_of_deps write.deps).mp edge.2

/-- A status write, and a recomputation of what it affects: an open row only adds
reasons for flags, one that is not open inherits none, so the loop ends. -/
theorem recompute_of_write (write : RowWrite s t x) (before : s.FlagsCorrect) {L : IDs}
    (affected : StatusScope s x (scope L)) : (recomputeIsBlocked L t).Settles FlagsCorrect := by
  have finish : ∀ u, Recomputed L t u → u.FlagsCorrect := fun u done =>
    (affected.covers write).flagsCorrect before (fun n _ => by rw [write.flags]) done
  by_cases opens : t.LiveAt x
  · obtain ⟨u, returns, done, -⟩ :=
      recomputeIsBlocked_of_supported L (write.supported_of_opens before opens)
    exact Call.settles_of_returns ⟨u, returns, finish u done⟩
  · obtain ⟨u, returns, done⟩ :=
      recomputeIsBlocked_of_inherited L (write.inherited_of_closes before opens)
    exact Call.settles_of_returns ⟨u, returns, finish u done⟩

/-- Flags that nothing recomputes stay correct when every row is due as before. -/
theorem flagsCorrect_iff_due (write : RowWrite s t x) (before : s.FlagsCorrect) :
    t.FlagsCorrect ↔ ∀ n, (t.LiveAt n ∧ t.BlockReason n) ↔ (s.LiveAt n ∧ s.BlockReason n) := by
  rw [flagsCorrect_iff]
  refine forall_congr' fun n => ?_
  rw [due_iff, write.flags, flagsCorrect_iff.mp before n, due_iff]
  exact Iff.comm

theorem flaggedParent_same (write : RowWrite s t x) (n : Node) :
    t.FlaggedParent n ↔ s.FlaggedParent n := by
  simp only [flaggedParent_iff, write.flags, parentOf_of_deps write.deps]

/-- Without a crossing only the gates can make a difference. -/
theorem flagsCorrect_iff_gates (write : RowWrite s t x) (before : s.FlagsCorrect)
    (same : t.LiveAt x ↔ s.LiveAt x) :
    t.FlagsCorrect ↔ ∀ n, s.LiveAt n → ¬ s.LiveBlocker n → ¬ s.FlaggedParent n →
      (t.HeldGate n ↔ s.HeldGate n) := by
  have live := write.liveAt_iff same
  have blocker : ∀ n, t.LiveBlocker n ↔ s.LiveBlocker n := fun n => by
    simp only [LiveBlocker, EdgeAt, write.deps, joins_iff, live]
  have pointwise : t.FlagsCorrect ↔ ∀ n, s.LiveAt n → (t.BlockReason n ↔ s.BlockReason n) := by
    rw [write.flagsCorrect_iff_due before]
    exact forall_congr' fun n => by rw [live, and_congr_right_iff]
  rw [pointwise]
  refine forall_congr' fun n => forall_congr' fun _ => ?_
  rw [BlockReason, BlockReason, blocker n, write.flaggedParent_same n]
  by_cases blocked : s.LiveBlocker n
  · simp only [blocked, true_or, not_true_eq_false, false_imp_iff]
  · by_cases flagged : s.FlaggedParent n
    · simp only [flagged, or_true, true_or, not_true_eq_false, false_imp_iff, implies_true]
    · simp only [blocked, flagged, false_or, not_false_eq_true, true_imp_iff]

/-- With a crossing that nothing is recomputed for, the row must neither have nor
need a flag, and the others must keep their reasons. -/
theorem flagsCorrect_iff_crossed (write : RowWrite s t x) (before : s.FlagsCorrect)
    (crossing : ¬ (t.LiveAt x ↔ s.LiveAt x)) :
    t.FlagsCorrect ↔ ¬ s.FlaggedAt x ∧ ¬ (t.LiveAt x ∧ t.BlockReason x) ∧
      ∀ n, n ≠ x → s.LiveAt n → ¬ s.FlaggedParent n →
        (t.LiveBlocker n ∨ t.HeldGate n ↔ s.LiveBlocker n ∨ s.HeldGate n) := by
  have flag : s.FlaggedAt x ↔ s.LiveAt x ∧ s.BlockReason x := by
    rw [← due_iff]
    exact flagsCorrect_iff.mp before x
  have here : ((t.LiveAt x ∧ t.BlockReason x) ↔ s.FlaggedAt x) ↔
      ¬ s.FlaggedAt x ∧ ¬ (t.LiveAt x ∧ t.BlockReason x) := by
    constructor
    · intro same
      by_cases flagged : s.FlaggedAt x
      · exact absurd (iff_of_true (same.mpr flagged).1 (flag.mp flagged).1) crossing
      · exact ⟨flagged, fun due => flagged (same.mp due)⟩
    · rintro ⟨unflagged, notDue⟩
      exact iff_of_false notDue unflagged
  have there : ∀ n, n ≠ x → (((t.LiveAt n ∧ t.BlockReason n) ↔ (s.LiveAt n ∧ s.BlockReason n)) ↔
      (s.LiveAt n → ¬ s.FlaggedParent n →
        (t.LiveBlocker n ∨ t.HeldGate n ↔ s.LiveBlocker n ∨ s.HeldGate n))) := fun n other => by
    rw [write.liveAt_ne other, and_congr_right_iff, BlockReason, BlockReason,
      write.flaggedParent_same n, or_left_comm, or_left_comm (a := s.LiveBlocker n)]
    by_cases flagged : s.FlaggedParent n
    · simp only [flagged, true_or, not_true_eq_false, false_imp_iff, implies_true]
    · simp only [flagged, false_or, not_false_eq_true, true_imp_iff]
  rw [write.flagsCorrect_iff_due before, ← and_assoc, ← here]
  constructor
  · intro due
    exact ⟨(due x).trans flag.symm, fun n other => (there n other).mp (due n)⟩
  · rintro ⟨atRow, elsewhere⟩ n
    by_cases same : n = x
    · subst same
      exact atRow.trans flag
    · exact (there n same).mpr (elsewhere n same)

/-- Gates do not tell the open statuses apart. -/
theorem heldGate_of_live (write : RowWrite s t x) (was : s.LiveAt x) (is : t.LiveAt x) (n : Node) :
    t.HeldGate n ↔ s.HeldGate n := by
  have notClosed : ∀ {v : Store}, v.LiveAt x → ¬ v.RowAt x fun r => r.status = .closed := by
    rintro v ⟨r, held, same, live⟩ ⟨r', held', same', closed⟩
    rw [Table.eq_of_key held held' (same.trans same'.symm)] at live
    exact live.1 closed
  have live := write.liveAt_iff (iff_of_true is was)
  have open_ : ∀ y, t.HasChild y Status.Live ↔ s.HasChild y Status.Live := fun y =>
    write.hasChild_iff_of_row (iff_of_true is was)
  have closed : ∀ y, t.HasChild y (· = .closed) ↔ s.HasChild y (· = .closed) := fun y =>
    write.hasChild_iff_of_row (iff_of_false (notClosed is) (notClosed was))
  have gate : ∀ metadata y, t.GateBlocked metadata y ↔ s.GateBlocked metadata y := fun metadata y =>
    gateBlocked_congr (live y) (open_ y) (closed y)
  simp only [HeldGate, EdgeAt, write.deps, joins_iff, gate]

theorem sameView (write : RowWrite s t x) (same : t.status? x = s.status? x) : SameView s t where
  status n := by
    by_cases here : n = x
    · rw [here, same]
    · exact write.others n here
  deps p d := by rw [write.deps]

end RowWrite

/-- The store with another status on one row. -/
def withStatus (s : Store) (x : Node) (status : Status) : Store :=
  s.updateRow x (fun r => { r with status := status }) fun _ => rfl

/-- A move between the two statuses that are not open. -/
def ClosedPinnedSwap (old new : Status) : Prop :=
  (old = .closed ∧ new = .pinned) ∨ (old = .pinned ∧ new = .closed)

private theorem swap_of_not_live {old new : Status} (was : ¬ old.Live) (is : ¬ new.Live)
    (differ : new ≠ old) :
    ClosedPinnedSwap old new := by
  simp only [Status.Live, ne_eq, not_and_or, not_not] at was is
  rcases was with rfl | rfl <;> rcases is with rfl | rfl
  · exact absurd rfl differ
  · exact Or.inl ⟨rfl, rfl⟩
  · exact Or.inr ⟨rfl, rfl⟩
  · exact absurd rfl differ

private theorem not_swap_self {status : Status} : ¬ ClosedPinnedSwap status status := by
  rintro (⟨rfl, none⟩ | ⟨rfl, none⟩) <;> cases none

/-- The new status opens and closes no gate of an open row that nothing else
blocks. -/
def GatesUnmoved (s : Store) (x : Node) (status : Status) : Prop :=
  ∀ n, s.LiveAt n → ¬ s.LiveBlocker n → ¬ s.FlaggedParent n →
    ((s.withStatus x status).HeldGate n ↔ s.HeldGate n)

/-- The new status takes the row to the other side of open and nothing hangs on
it: the row has no flag and needs none, and no other open row without a flagged
parent gains or loses its blockers and gates. -/
def ReasonsUnmoved (s : Store) (x : Node) (status : Status) : Prop :=
  ¬ s.FlaggedAt x ∧ ¬ ((s.withStatus x status).LiveAt x ∧ (s.withStatus x status).BlockReason x) ∧
    ∀ n, n ≠ x → s.LiveAt n → ¬ s.FlaggedParent n →
      ((s.withStatus x status).LiveBlocker n ∨ (s.withStatus x status).HeldGate n ↔
        s.LiveBlocker n ∨ s.HeldGate n)

/-- A status that replaces `was` without a recomputation moves no flag. -/
def Unnoticed (s : Store) (x : Node) (was new : Status) : Prop :=
  ((was.Live ↔ new.Live) → ClosedPinnedSwap was new → s.GatesUnmoved x new) ∧
    (¬ (was.Live ↔ new.Live) → s.ReasonsUnmoved x new)

theorem enforceClosePolicy_settles {c : Coordinator} {id : String} {force : Bool} :
    (s.enforceClosePolicy c id force).Settles fun t => t.rows = s.rows ∧ t.deps = s.deps := by
  unfold enforceClosePolicy
  split
  · exact Call.settles_throw
  · refine Call.settles_bind touchDependencyCoordination_settles fun first ⟨_, rows, deps⟩ => ?_
    refine Call.settles_bind touchDependencyCoordination_settles fun second ⟨_, rows', deps'⟩ => ?_
    exact Call.settles_guard fun _ => Call.settles_guard fun _ =>
      Call.settles_pure ⟨rows'.trans rows, deps'.trans deps⟩

private theorem validateClosedAtCoherence_settles {u : IssueUpdates} {old : Row} :
    (u.validateClosedAtCoherence old).Settles fun _ => True := by
  unfold IssueUpdates.validateClosedAtCoherence
  extract_lets landed
  split
  · exact Call.settles_pure trivial
  · exact Call.settles_ite (fun _ => Call.settles_throw) fun _ => Call.settles_pure trivial
  · exact Call.settles_ite (fun _ => Call.settles_throw) fun _ => Call.settles_pure trivial

private theorem validateScalar_settles {u : IssueUpdates} {cfg : Config} :
    (u.validateScalar cfg).Settles fun _ => True := by
  unfold IssueUpdates.validateScalar
  exact Call.settles_guard fun _ => Call.settles_ite (fun _ => Call.settles_throw) fun _ =>
    Call.settles_pure trivial

/-- An id that is in one plane at most is read in the plane it is routed to. -/
theorem issue?_routed {id : String} (single : ¬ (s.Holds (.issues, id) ∧ s.Holds (.wisps, id)))
    (found : s.issue? id = some n) : n = (s.routed id, id) := by
  unfold issue? at found
  split at found
  · next durable =>
    have notWisp : ¬ s.IsActiveWisp id := fun wisp => single ⟨durable, wisp⟩
    cases found
    simp only [routed, Plane.ofWisp, notWisp, decide_false, Bool.false_eq_true, if_false]
  · split at found
    · next wisp =>
      have active : s.IsActiveWisp id := wisp
      cases found
      simp only [routed, Plane.ofWisp, active, decide_true, if_true]
    · cases found

/-- A row write with the status `new` looks as `withStatus` does. -/
theorem RowWrite.sameView_withStatus {was new : Status} (write : RowWrite s t x)
    (stored : s.status? x = some was) (isStatus : t.status? x = some new) :
    SameView (s.withStatus x new) t := by
  have other : RowWrite s (s.withStatus x new) x := updateRow_write fun _ => rfl
  obtain ⟨old, found, -⟩ := Option.map_eq_some_iff.mp stored
  refine ⟨fun n => ?_, fun p d => by rw [write.deps, other.deps]⟩
  by_cases here : n = x
  · rw [here, isStatus, withStatus, updateRow_status?, found]
    rfl
  · rw [write.others n here, other.others n here]

/-- A new status on the same side of open: nothing is recomputed, and only a
swap of closed and pinned can move a gate. -/
theorem RowWrite.flagsCorrect_iff_unmoved {was new : Status} (write : RowWrite s t x)
    (before : s.FlagsCorrect) (stored : s.status? x = some was) (isStatus : t.status? x = some new)
    (same : was.Live ↔ new.Live) :
    t.FlagsCorrect ↔ (ClosedPinnedSwap was new → s.GatesUnmoved x new) := by
  by_cases differ : new = was
  · subst differ
    exact iff_of_true (flagsCorrect_of_view (write.sameView (isStatus.trans stored.symm))
      write.flags before) fun swap => absurd swap not_swap_self
  have isLive := status?_eq_iff_liveAt isStatus
  have wasLive := status?_eq_iff_liveAt stored
  have asWritten := write.sameView_withStatus stored isStatus
  rw [write.flagsCorrect_iff_gates before (by rw [isLive, wasLive]; exact same.symm)]
  simp only [asWritten.heldGate_iff]
  refine ⟨fun unmoved _ => unmoved, fun unmoved => ?_⟩
  by_cases live : new.Live
  · intro n _ _ _
    rw [← asWritten.heldGate_iff]
    exact write.heldGate_of_live (wasLive.mpr (same.mpr live)) (isLive.mpr live) n
  · exact unmoved (swap_of_not_live (fun was => live (same.mp was)) live differ)

/-- A new status on the other side of open that nothing is recomputed for. -/
theorem RowWrite.flagsCorrect_iff_reasons {was new : Status} (write : RowWrite s t x)
    (before : s.FlagsCorrect) (stored : s.status? x = some was) (isStatus : t.status? x = some new)
    (crossing : ¬ (was.Live ↔ new.Live)) : t.FlagsCorrect ↔ s.ReasonsUnmoved x new := by
  have view := write.sameView_withStatus stored isStatus
  have other : RowWrite s (s.withStatus x new) x := updateRow_write fun _ => rfl
  have asWritten : t.FlagsCorrect ↔ (s.withStatus x new).FlagsCorrect := by
    rw [flagsCorrect_iff, flagsCorrect_iff, rules_eq_of_view view, write.flags, other.flags]
  have side : ¬ ((s.withStatus x new).LiveAt x ↔ s.LiveAt x) := by
    rw [← view.liveAt_iff, status?_eq_iff_liveAt isStatus, status?_eq_iff_liveAt stored]
    exact fun same => crossing same.symm
  rw [asWritten, other.flagsCorrect_iff_crossed before side]
  rfl

/-- Whatever status is replaced, the flags stay correct without a recomputation
when it goes unnoticed. -/
theorem RowWrite.flagsCorrect_iff_unnoticed {was new : Status} (write : RowWrite s t x)
    (before : s.FlagsCorrect) (stored : s.status? x = some was)
    (isStatus : t.status? x = some new) :
    t.FlagsCorrect ↔ s.Unnoticed x was new := by
  by_cases same : was.Live ↔ new.Live
  · rw [write.flagsCorrect_iff_unmoved before stored isStatus same]
    exact ⟨fun gates => ⟨fun _ => gates, fun crossing => absurd same crossing⟩,
      fun both => both.1 same⟩
  · rw [write.flagsCorrect_iff_reasons before stored isStatus same]
    exact ⟨fun kept => ⟨fun side => absurd side same, fun _ => kept⟩, fun both => both.2 same⟩

/-- What the write of an update does to the flags. `old` is the row that was read,
`was` the status of the row that is written. -/
theorem writeUpdates_settles {cfg : Config} {old : Row} {was : Status} {u : IssueUpdates}
    (before : s.FlagsCorrect) (rows : t.rows = s.rows) (deps : t.deps = s.deps)
    (stored : s.status? x = some was) :
    (t.writeUpdates cfg x old u).Settles fun v => v.FlagsCorrect ↔
      ∀ status, u.status = some status → (old.status.Live ↔ status.Live) →
        s.Unnoticed x was status := by
  let written := t.updateRow x (u.apply cfg old) (u.apply_id cfg old)
  have write : RowWrite s written x := by
    have inner : RowWrite t written x := updateRow_write fun _ => rfl
    exact ⟨inner.deps.trans deps, fun n other =>
      (inner.others n other).trans (status?_of_rows rows n), inner.flags.trans (flags_of_rows rows)⟩
  have isStatus : written.status? x = some (u.status.getD was) := by
    obtain ⟨row, found, same⟩ := Option.map_eq_some_iff.mp stored
    refine updateRow_status?.trans ?_
    rw [row?, rows, ← row?, found, ← same]
    rfl
  unfold writeUpdates
  cases status : u.status with
  | none =>
    refine Call.settles_pure (iff_of_true ?_ fun _ none => by cases none)
    rw [status] at isStatus
    exact flagsCorrect_of_view (write.sameView (isStatus.trans stored.symm)) write.flags before
  | some new =>
    rw [status] at isStatus
    simp only [Option.some.injEq, forall_eq']
    refine Call.settles_ite (fun same => Call.settles_pure ?_) fun crossing => ?_
    · rw [write.flagsCorrect_iff_unnoticed before stored isStatus]
      exact ⟨fun kept _ => kept, fun kept => kept same⟩
    · have affected : StatusScope s x (scope (written.affectedByStatusChange x)) :=
        (written.affectedByStatusChange_spec x).of_deps write.deps.symm
      exact (write.recompute_of_write before affected).mono fun v correct =>
        iff_of_true correct fun same => absurd same crossing

/-- The status that is left of an update that asks for one. -/
theorem discardNoop_status {updates : IssueUpdates} {row : Row} {new status : Status}
    (asked : updates.status = some new) :
    (updates.discardNoop row).status = some status ↔ status = new ∧ new ≠ row.status := by
  rw [IssueUpdates.discardNoop, asked, Option.filter_eq_some_iff]
  simp only [Option.some.injEq, decide_eq_true_eq]
  constructor
  · rintro ⟨rfl, differ⟩
    exact ⟨rfl, differ⟩
  · rintro ⟨rfl, differ⟩
    exact ⟨rfl, differ⟩

/-- The condition on the status that is left is the condition on the one asked for. -/
theorem unnoticed_condition {updates : IssueUpdates} {row : Row} {new : Status}
    {kept : Status → Prop} (asked : updates.status = some new) :
    (∀ status, (updates.discardNoop row).status = some status → kept status) ↔
      (new ≠ row.status → kept new) := by
  constructor
  · intro all differ
    exact all new ((discardNoop_status asked).mpr ⟨rfl, differ⟩)
  · intro one status left
    obtain ⟨rfl, differ⟩ := (discardNoop_status asked).mp left
    exact one differ

/-- A generic update leaves all flags correct unless it lands a new status on the
same side of open as the one it has read and the row that it writes matters to
some flag. The row that is read is the durable one, the row that is written the
ephemeral one, when the id is in both tables. -/
theorem updateIssue_keeps_flags_iff (s : Store) (before : s.FlagsCorrect) (cfg : Config)
    (c : Coordinator) (id : String) (updates : IssueUpdates) (old was new : Status)
    (read : (s.issue? id).bind s.status? = some old)
    (stored : s.status? (s.routed id, id) = some was) (asked : updates.status = some new) :
    (s.updateIssue cfg c id updates).Settles fun t => t.FlagsCorrect ↔
      (new ≠ old → (old.Live ↔ new.Live) → s.Unnoticed (s.routed id, id) was new) := by
  unfold updateIssue
  split
  · exact Call.settles_throw
  · next row found =>
    have same : row.status = old := by
      obtain ⟨n, place, row_found⟩ := Option.bind_eq_some_iff.mp found
      rw [place, Option.bind_some, status?_of_row? row_found] at read
      exact Option.some.inj read
    subst same
    refine Call.settles_bind validateClosedAtCoherence_settles fun _ _ => ?_
    extract_lets u
    refine Call.settles_ite (fun none => Call.settles_pure (iff_of_true before fun differ => ?_))
      fun _ => ?_
    · have kept := (discardNoop_status asked).mpr ⟨rfl, differ⟩
      rw [show updates.discardNoop row = {} from none] at kept
      cases kept
    · have finish : ∀ t : Store, t.rows = s.rows → t.deps = s.deps →
          (t.writeUpdates cfg (s.routed id, id) row u).Settles fun v => v.FlagsCorrect ↔
            (new ≠ row.status → (row.status.Live ↔ new.Live) → s.Unnoticed (s.routed id, id) was new) :=
        fun t rows deps => (writeUpdates_settles before rows deps stored).mono
          fun v correct => correct.trans (unnoticed_condition asked)
      refine Call.settles_ite (fun _ => ?_) fun _ => ?_
      · exact Call.settles_bind enforceClosePolicy_settles fun t kept =>
          Call.settles_bind validateScalar_settles fun _ _ => Call.settles_guard fun _ =>
            finish t kept.1 kept.2
      · have untouched : (pure s : Tx Store).Settles (· = s) := Call.settles_pure rfl
        exact Call.settles_bind untouched fun t same =>
          Call.settles_bind validateScalar_settles fun _ _ => Call.settles_guard fun _ =>
            finish t (same ▸ rfl) (same ▸ rfl)

/-- A waiter on any child of an epic that has a closed child and an open one. -/
def anyChildOfEpic : Store where
  rows
    | .issues => ⟨[{ id := "bd-1", issueType := "epic" },
        { id := "bd-2", status := .closed, closedAt := some 1 }, { id := "bd-3" }, { id := "bd-4" }],
        by decide⟩
    | .wisps => Table.empty
  deps
    | .issues => ⟨[⟨"bd-2", .node (.issues, "bd-1"), .parentChild, .empty⟩,
        ⟨"bd-3", .node (.issues, "bd-1"), .parentChild, .empty⟩,
        ⟨"bd-4", .node (.issues, "bd-1"), .waitsFor, ⟨[("gate", "any-children")]⟩⟩], by decide⟩
    | .wisps => Table.empty

/-- Pinning the closed child closes the gate and leaves the waiter unflagged. -/
theorem updateIssue_loses_flags :
    anyChildOfEpic.FlagsCorrect ∧
      ∃ t, (anyChildOfEpic.updateIssue {} oneShard "bd-2" { status := some .pinned }).Returns t ∧
        t.status? (.issues, "bd-2") = some .pinned ∧ ¬ t.FlagsCorrect := by
  refine ⟨by decide, ?_⟩
  exact Call.returns_of_value? (n := 1) (by decide)

/-- Closing the open child instead. -/
theorem updateIssue_keeps_flags_iff_anyChildOfEpic :
    ∃ t, (anyChildOfEpic.updateIssue {} oneShard "bd-3" { status := some .closed }).Returns t ∧
      t.FlagsCorrect := by
  obtain ⟨t, returns, -⟩ : ∃ t, (anyChildOfEpic.updateIssue {} oneShard "bd-3"
      { status := some .closed }).Returns t ∧ t.status? (.issues, "bd-3") = some .closed :=
    Call.returns_of_value? (n := 4) (by decide)
  refine ⟨t, returns, ?_⟩
  refine ((updateIssue_keeps_flags_iff anyChildOfEpic (by decide) {} oneShard "bd-3" _ .open .open
    .closed (by decide) (by decide) rfl).of_returns returns).mpr fun _ same => ?_
  exact absurd same (by decide)

end Store
end Beads
