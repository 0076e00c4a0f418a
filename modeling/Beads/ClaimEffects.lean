import Beads.RowEffects

/-! What an accepted verb of the claim protocol does: nothing, or it writes one row
with a fresh token and settles the lease of its issue. -/
namespace Beads
open Lib

namespace Store
variable {s t : Store} {n m : Node} {f : Row → Row}

theorem SameRow.holds (same : SameRow s t n) : t.Holds n ↔ s.Holds n := by
  have read := same.read (f := fun _ => ()) fun _ => rfl
  rw [holds_iff, holds_iff, ne_eq, ne_eq, ← Option.map_eq_none_iff (f := fun _ : Row => ()), read,
    Option.map_eq_none_iff]

theorem RowUpdated.holds (updated : RowUpdated s t n f) : t.Holds m ↔ s.Holds m := by
  by_cases here : m = n
  · subst here
    have read := updated.read (g := fun _ => ()) fun _ => rfl
    rw [holds_iff, holds_iff, ne_eq, ne_eq, ← Option.map_eq_none_iff (f := fun _ : Row => ()), read,
      Option.map_eq_none_iff]
  · exact (updated.others m here).holds

end Store

namespace ClaimStore
variable {w v : ClaimStore} {ctx : ClaimContext} {id : String} {n : Node} {f : Row → Row}

/-- One row is written and gets a fresh token. -/
structure Stamped (w v : ClaimStore) (ctx : ClaimContext) (n : Node) (f : Row → Row) : Prop where
  row : w.store.RowUpdated v.store n f
  lock : v.rowLock = Function.update w.rowLock n (ctx.freshRowLock n)

theorem Stamped.token (stamped : Stamped w v ctx n f) : v.rowLock n = ctx.freshRowLock n := by
  rw [stamped.lock, Function.update_self]

theorem writeRow_stamped {keeps : ∀ r, (f r).id = r.id} :
    Stamped w (w.writeRow ctx n f keeps) ctx n f :=
  ⟨@Store.updateRow_updated w.store n f keeps, rfl⟩

theorem claimIssue_returns {actor : String} (returns : (w.claimIssue ctx id actor).Returns v) :
    ∃ old version r, w.getIssue id = some (old, version) ∧
      w.store.row? (w.store.routed id, id) = some r ∧
      ((claimVerdict ctx id actor old version r (w.rowLock (w.store.routed id, id)) = .ok false ∧ v = w) ∨
        (claimVerdict ctx id actor old version r (w.rowLock (w.store.routed id, id)) = .ok true ∧
          Stamped w v ctx (w.store.routed id, id) (Row.claim ctx.cfg.now actor old) ∧
            v.leases = if w.store.routed id = .issues then (w.upsertLease ctx id actor).leases else w.leases)) := by
  unfold claimIssue at returns
  split at returns
  · exact absurd returns Call.not_returns_throw
  · extract_lets n at returns
    split at returns
    · next old version r found row =>
      refine ⟨old, version, r, found, row, ?_⟩
      obtain ⟨writes, verdict, rest⟩ := Call.returns_bind.mp returns
      have verdict := Call.ends_ofExcept.unique verdict
      cases writes with
      | false => exact Or.inl ⟨verdict, (Call.returns_pure.mp rest).symm⟩
      | true =>
        obtain rfl := Call.returns_pure.mp rest
        have stamped : Stamped w (w.writeRow ctx n (Row.claim ctx.cfg.now actor old) fun _ => rfl) ctx n
          (Row.claim ctx.cfg.now actor old) := writeRow_stamped
        refine Or.inr ⟨verdict, ?_⟩
        by_cases durable : n.1 = .issues
        · rw [if_pos durable]
          exact ⟨⟨stamped.row, stamped.lock⟩, (if_pos durable).symm⟩
        · rw [if_neg durable]
          exact ⟨stamped, (if_neg durable).symm⟩
    · exact absurd returns Call.not_returns_throw

theorem unclaimIssue_returns {by_ : UnclaimBy} (returns : (w.unclaimIssue ctx id by_).Returns v) :
    ∃ old version r, w.getIssue id = some (old, version) ∧
      w.store.row? (w.store.routed id, id) = some r ∧
      unclaimVerdict id by_ old version r (w.rowLock (w.store.routed id, id)) = .ok () ∧
        Stamped w v ctx (w.store.routed id, id) (Row.release ctx.cfg.now) ∧
          v.leases = (w.deleteLease id).leases := by
  unfold unclaimIssue at returns
  extract_lets n at returns
  split at returns
  · next old version r found row =>
    obtain ⟨⟨⟩, verdict, rest⟩ := Call.returns_bind.mp returns
    obtain rfl := Call.returns_pure.mp rest
    have stamped : Stamped w (w.writeRow ctx n (Row.release ctx.cfg.now) fun _ => rfl) ctx n
      (Row.release ctx.cfg.now) := writeRow_stamped
    exact ⟨old, version, r, found, row, Call.ends_ofExcept.unique verdict,
      ⟨stamped.row, stamped.lock⟩, rfl⟩
  · exact absurd returns Call.not_returns_throw

theorem updateIssue_returns {c : Coordinator} {updates : IssueUpdates}
    (returns : (w.updateIssue ctx c id updates).Returns v) :
    ∃ old, (w.store.issue? id >>= w.store.row?) = some old ∧
      (updates.validateClosedAtCoherence old).Returns () ∧
        ((updates.discardNoop old = {} ∧ v = w) ∨
          (Stamped w v ctx (w.store.routed id, id) ((updates.discardNoop old).apply ctx.cfg old) ∧
            v.leases = if EndsClaim old (updates.discardNoop old) then (w.deleteLease id).leases else w.leases)) := by
  obtain ⟨t, updated, rest⟩ := Call.returns_bind.mp returns
  obtain ⟨old, found, coherent, effect⟩ := Store.updateIssue_returns updated
  refine ⟨old, found, coherent, ?_⟩
  simp only [found] at rest
  split at rest
  · next nothing => exact Or.inl ⟨nothing, (Call.returns_pure.mp rest).symm⟩
  · next something =>
    have written := (effect.resolve_left fun nothing => something nothing.1).2
    obtain rfl := Call.returns_pure.mp rest
    refine Or.inr ?_
    by_cases ends : EndsClaim old (updates.discardNoop old)
    · rw [if_pos ends]
      exact ⟨⟨written, rfl⟩, (if_pos ends).symm⟩
    · rw [if_neg ends]
      exact ⟨⟨written, rfl⟩, (if_neg ends).symm⟩

theorem closeIssue_returns {reason session : String}
    (returns : (w.closeIssue ctx id reason session).Returns v) :
    ∃ r, w.store.row? (w.store.routed id, id) = some r ∧ ((r.status = .closed ∧ v = w) ∨
      (r.status ≠ .closed ∧ Stamped w v ctx (w.store.routed id, id) (fun r =>
          { r with status := .closed, closedAt := some ctx.cfg.now, updatedAt := ctx.cfg.now,
                   closeReason := reason, closedBySession := session }) ∧
        v.leases = (w.deleteLease id).leases)) := by
  obtain ⟨t, closed, rest⟩ := Call.returns_bind.mp returns
  obtain ⟨r, row, effect⟩ := Store.closeIssue_returns closed
  refine ⟨r, row, ?_⟩
  split at rest
  · next isClosed =>
    obtain ⟨r', row', status⟩ := Store.rowAt_iff.mp isClosed
    obtain rfl := Option.some.inj (row.symm.trans row')
    exact Or.inl ⟨status, (Call.returns_pure.mp rest).symm⟩
  · next isOpen =>
    have status : r.status ≠ .closed := fun closed => isOpen (Store.rowAt_iff.mpr ⟨r, row, closed⟩)
    obtain rfl := Call.returns_pure.mp rest
    exact Or.inr ⟨status, ⟨(effect.resolve_left fun nothing => status nothing.1).2, rfl⟩, rfl⟩

theorem reopenIssue_returns (returns : (w.reopenIssue ctx id).Returns v) :
    ∃ r, w.store.row? (w.store.routed id, id) = some r ∧
      ((ctx.cfg.category r.status ≠ .done ∧ v = w) ∨
      (ctx.cfg.category r.status = .done ∧ Stamped w v ctx (w.store.routed id, id) (fun r =>
          { r with status := .open, closedAt := none, closeReason := "", closedBySession := "",
                   deferUntil := none, updatedAt := ctx.cfg.now }) ∧
        v.leases = (w.deleteLease id).leases)) := by
  obtain ⟨t, reopened, rest⟩ := Call.returns_bind.mp returns
  obtain ⟨r, row, effect⟩ := Store.reopenIssue_returns reopened
  refine ⟨r, row, ?_⟩
  split at rest
  · next other =>
    obtain ⟨r', row', status⟩ := Store.rowAt_iff.mp other
    obtain rfl := Option.some.inj (row.symm.trans row')
    exact Or.inl ⟨status, (Call.returns_pure.mp rest).symm⟩
  · next isDone =>
    have status : ctx.cfg.category r.status = .done := by
      by_contra other
      exact isDone (Store.rowAt_iff.mpr ⟨r, row, other⟩)
    obtain rfl := Call.returns_pure.mp rest
    exact Or.inr ⟨status, ⟨(effect.resolve_left fun nothing => nothing.1 status).2, rfl⟩, rfl⟩

/-- One turn of the reclaim: the lease goes, and a row that is in progress is released. -/
theorem reclaimIssue_cases (w : ClaimStore) (ctx : ClaimContext) (cutoff : Nat)
    (filter : ReclaimFilter) (id : String) : w.reclaimIssue ctx cutoff filter id = w ∨
      ((∀ l ∈ (w.reclaimIssue ctx cutoff filter id).leases, l ∈ w.leases ∧ l.issueId ≠ id) ∧
        ((¬ w.store.RowAt (.issues, id) (fun r => r.status = .inProgress) ∧
            (w.reclaimIssue ctx cutoff filter id).store = w.store ∧
              (w.reclaimIssue ctx cutoff filter id).rowLock = w.rowLock) ∨
          (w.store.RowAt (.issues, id) (fun r => r.status = .inProgress) ∧
            Stamped w (w.reclaimIssue ctx cutoff filter id) ctx (.issues, id) (Row.release ctx.cfg.now)))) := by
  unfold reclaimIssue
  split
  · next stale =>
    obtain ⟨lease, held, name, reclaimable⟩ := stale
    -- The issue has this one lease, so none is left.
    have only : ∀ l ∈ w.leases.delete fun l => l.issueId = id ∧ l.Reclaimable ctx.nodeId cutoff filter,
        l ∈ w.leases ∧ l.issueId ≠ id := by
      intro l left
      obtain ⟨stored, kept⟩ := Table.mem_delete.mp left
      refine ⟨stored, fun same => kept ⟨same, ?_⟩⟩
      rwa [Table.eq_of_key stored held (same.trans name.symm)]
    refine Or.inr ?_
    extract_lets dropped
    split
    · next inProgress =>
      have stamped : Stamped dropped (dropped.writeRow ctx (.issues, id) (Row.release ctx.cfg.now) fun _ => rfl)
        ctx (.issues, id) (Row.release ctx.cfg.now) := writeRow_stamped
      exact ⟨only, Or.inr ⟨inProgress, ⟨stamped.row, stamped.lock⟩⟩⟩
    · next other => exact ⟨only, Or.inl ⟨other, rfl, rfl⟩⟩
  · exact Or.inl rfl

end ClaimStore
end Beads
