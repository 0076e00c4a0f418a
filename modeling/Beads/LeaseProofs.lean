import Beads.ClaimEffects

/-! Leases and the rows they belong to. A lease is checked against the status and the
assignee of one durable row, so an operation is settled by saying which leases it
keeps and which of those two columns it changes. -/
namespace Beads
open Lib Relation

theorem ActorMatches.canonical {a b : String} (same : ActorMatches a b) :
    canonicalActor a = canonicalActor b := by
  rcases same with rfl | same
  · rfl
  · exact same

theorem Plane.eq_issues {p : Plane} (durable : p ≠ .wisps) : p = .issues := by
  cases p with
  | issues => rfl
  | wisps => exact absurd rfl durable

namespace Store
variable {s t : Store} {id : String}

/-- The status and the assignee of a durable issue. -/
def owner? (s : Store) (id : String) : Option (Status × String) :=
  (s.row? (.issues, id)).map fun r => (r.status, r.assignee)

theorem SameRow.owner? (same : SameRow s t (.issues, id)) : t.owner? id = s.owner? id :=
  same.read fun _ => rfl

/-- A write to another row, or one that keeps the two columns. -/
theorem RowUpdated.owner? {n : Node} {f : Row → Row} (updated : RowUpdated s t n f)
    (quiet : n = (.issues, id) → ∀ r, (f r).status = r.status ∧ (f r).assignee = r.assignee) :
    t.owner? id = s.owner? id := by
  by_cases here : n = (.issues, id)
  · subst here
    unfold Store.owner?
    rw [updated.read (g := fun r => (r.status, r.assignee)) fun _ => rfl]
    exact congrArg (Option.map · _) (funext fun r => Prod.ext (quiet rfl r).1 (quiet rfl r).2)
  · exact (updated.others _ (Ne.symm here)).owner?

end Store

namespace ClaimStore
variable {w v : ClaimStore} {ctx : ClaimContext} {id : String}

theorem leasesOwned_iff : w.LeasesOwned ↔ ∀ l ∈ w.leases, ∃ assignee,
    w.store.owner? l.issueId = some (.inProgress, assignee) ∧
      canonicalActor assignee = canonicalActor l.holder := by
  refine forall_congr' fun l => forall_congr' fun _ => ?_
  simp only [Store.owner?, Option.map_eq_some_iff, Store.row?_eq_some, Prod.mk.injEq]
  constructor
  · rintro ⟨r, held, name, status, same⟩
    exact ⟨r.assignee, ⟨r, ⟨held, name⟩, status, rfl⟩, same⟩
  · rintro ⟨_, ⟨r, ⟨held, name⟩, status, rfl⟩, same⟩
    exact ⟨r, held, name, status, same⟩

/-- Leases that are kept, for issues whose status and assignee are. -/
theorem LeasesOwned.of_kept (owned : w.LeasesOwned)
    (kept : ∀ l ∈ v.leases, ∃ old ∈ w.leases, old.issueId = l.issueId ∧ old.holder = l.holder ∧
      v.store.owner? l.issueId = w.store.owner? l.issueId) : v.LeasesOwned := by
  rw [leasesOwned_iff] at owned ⊢
  intro l held
  obtain ⟨old, stored, name, holder, same⟩ := kept l held
  rw [same, ← name, ← holder]
  exact owned old stored

theorem LeasesOwned.holds (owned : w.LeasesOwned) {l : Lease} (held : l ∈ w.leases) :
    w.store.Holds (.issues, l.issueId) := by
  obtain ⟨r, stored, name, -⟩ := owned l held
  exact ⟨r, stored, name⟩

theorem mem_deleteLease {l : Lease} :
    l ∈ (w.deleteLease id).leases ↔ l ∈ w.leases ∧ l.issueId ≠ id :=
  Table.mem_delete

theorem mem_upsertLease {holder : String} {l : Lease} : l ∈ (w.upsertLease ctx id holder).leases ↔
    (l ∈ w.leases ∧ l.issueId ≠ id) ∨
      l = ⟨id, holder, ctx.cfg.now, ctx.cfg.now + ctx.leaseTTL, ctx.cfg.now, ctx.nodeId⟩ := by
  unfold upsertLease
  rw [Table.mem_insertIgnore, Table.mem_delete]
  exact or_congr_right (and_iff_left fun old held => (Table.mem_delete.mp held).2)

/-- The lease of the issue is dropped, and nothing else changes for the others. -/
theorem LeasesOwned.of_dropped (owned : w.LeasesOwned)
    (kept : ∀ l ∈ v.leases, l ∈ w.leases ∧ l.issueId ≠ id)
    (same : ∀ other, other ≠ id → v.store.owner? other = w.store.owner? other) : v.LeasesOwned :=
  owned.of_kept fun l held => ⟨l, (kept l held).1, rfl, rfl, same _ (kept l held).2⟩

/-- The issue is leased to its assignee. -/
theorem LeasesOwned.of_leased (owned : w.LeasesOwned) {holder assignee : String}
    (same : ∀ other, other ≠ id → v.store.owner? other = w.store.owner? other)
    (here : v.store.owner? id = some (.inProgress, assignee))
    (matching : canonicalActor assignee = canonicalActor holder)
    (leases : ∀ l ∈ v.leases, (l ∈ w.leases ∧ l.issueId ≠ id) ∨
      (l.issueId = id ∧ l.holder = holder)) :
    v.LeasesOwned := by
  rw [leasesOwned_iff] at owned ⊢
  intro l held
  rcases leases l held with ⟨stored, other⟩ | ⟨rfl, rfl⟩
  · rw [same _ other]
    exact owned l stored
  · exact ⟨assignee, here, matching⟩

/-- A write of one row leaves the other issues' columns alone. -/
theorem owner?_of_updated {s t : Store} {p : Plane} {f : Row → Row}
    (updated : s.RowUpdated t (p, id) f)
    {other : String} (apart : other ≠ id) : t.owner? other = s.owner? other :=
  updated.owner? fun same => absurd (congrArg Prod.snd same).symm apart

/-! ## Claim, release, heartbeat -/

private theorem claimIssue_owned {actor : String} (owned : w.LeasesOwned)
    (returns : (w.claimIssue ctx id actor).Returns v) : v.LeasesOwned := by
  obtain ⟨old, version, r, -, row, ⟨-, rfl⟩ | ⟨-, stamped, leases⟩⟩ := claimIssue_returns returns
  · exact owned
  · split at leases
    · next durable =>
      have here : v.store.owner? id = some (.inProgress, actor) := by
        have updated := stamped.row
        rw [durable] at updated row
        unfold Store.owner?
        rw [updated.read (g := fun r => (r.status, r.assignee)) fun _ => rfl, row]
        rfl
      refine owned.of_leased (fun other apart => owner?_of_updated stamped.row apart) here rfl fun
        l held => ?_
      rw [leases] at held
      rcases mem_upsertLease.mp held with kept | rfl
      · exact Or.inl kept
      · exact Or.inr ⟨rfl, rfl⟩
    · next ephemeral =>
      refine owned.of_kept fun l held =>
        ⟨l, leases ▸ held, rfl, rfl, stamped.row.owner? fun same => ?_⟩
      exact absurd (congrArg Prod.fst same) ephemeral

/-- A verb that writes one row and drops the lease of its issue. -/
theorem LeasesOwned.of_stamped {p : Plane} {f : Row → Row} (owned : w.LeasesOwned)
    (stamped : Stamped w v ctx (p, id) f) (leases : v.leases = (w.deleteLease id).leases) :
    v.LeasesOwned :=
  owned.of_dropped (fun _ held => mem_deleteLease.mp (leases ▸ held)) fun _ apart =>
    owner?_of_updated stamped.row apart

private theorem unclaimIssue_owned {by_ : UnclaimBy} (owned : w.LeasesOwned)
    (returns : (w.unclaimIssue ctx id by_).Returns v) : v.LeasesOwned := by
  obtain ⟨old, version, r, -, -, -, stamped, leases⟩ := unclaimIssue_returns returns
  exact owned.of_stamped stamped leases

private theorem heartbeatIssue_owned {actor : String} (owned : w.LeasesOwned)
    (returns : (w.heartbeatIssue ctx id actor).Returns v) : v.LeasesOwned := by
  unfold heartbeatIssue at returns
  extract_lets beat p at returns
  split at returns
  · obtain rfl := Call.returns_pure.mp returns
    refine owned.of_kept fun l held => ?_
    obtain ⟨old, stored, rfl⟩ := List.mem_map.mp held
    refine ⟨old, stored, ?_, ?_, rfl⟩
    · unfold beat
      split <;> rfl
    · unfold beat
      split <;> rfl
  · split at returns
    · exact absurd returns Call.not_returns_throw
    · next r row =>
      split at returns
      · exact absurd returns Call.not_returns_throw
      · split at returns
        · next claim =>
          obtain rfl := Call.returns_pure.mp returns
          have here : w.store.owner? id = some (.inProgress, r.assignee) := by
            rw [claim.1] at row
            rw [Store.owner?, row, Option.map_some, claim.2.2]
          refine owned.of_leased (fun _ _ => rfl) here claim.2.1.canonical fun l held => ?_
          rcases mem_upsertLease.mp held with kept | rfl
          · exact Or.inl kept
          · exact Or.inr ⟨rfl, rfl⟩
        · exact absurd returns Call.not_returns_throw

/-! ## Status and assignee changes -/

/-- What the no-op filter leaves of a status or an assignee is a change, so a claim
goes on only if neither is left. -/
theorem discardNoop_of_not_endsClaim {old : Row} {updates : IssueUpdates}
    (goesOn : ¬ EndsClaim old (updates.discardNoop old)) :
    (updates.discardNoop old).status = none ∧ (updates.discardNoop old).assignee = none := by
  have changed : ∀ {α : Type} [DecidableEq α] (asked : Option α) (stored : α),
      (asked.filter (· ≠ stored)).getD stored = stored → asked.filter (· ≠ stored) = none := by
    intro α _ asked stored same
    cases left : asked.filter (· ≠ stored) with
    | none => rfl
    | some value =>
      have differs : value ≠ stored := by simpa using (Option.filter_eq_some_iff.mp left).2
      rw [left] at same
      exact absurd same differs
  by_contra some
  refine goesOn ⟨?_, fun restates => some ⟨?_, ?_⟩⟩
  · by_contra neither
    refine some ⟨?_, ?_⟩
    · exact Option.not_isSome_iff_eq_none.mp fun status => neither (Or.inl status)
    · exact Option.not_isSome_iff_eq_none.mp fun assignee => neither (Or.inr assignee)
  · exact changed updates.status old.status (restates.1.trans restates.2.2.1.symm)
  · exact changed updates.assignee old.assignee restates.2.2.2

theorem updateIssue_owned {c : Coordinator} {updates : IssueUpdates} (owned : w.LeasesOwned)
    (returns : (w.updateIssue ctx c id updates).Returns v) : v.LeasesOwned := by
  obtain ⟨old, -, -, ⟨-, rfl⟩ | ⟨stamped, leases⟩⟩ := updateIssue_returns returns
  · exact owned
  · split at leases
    · exact owned.of_stamped stamped leases
    · next goesOn =>
      obtain ⟨status, assignee⟩ := discardNoop_of_not_endsClaim goesOn
      refine owned.of_kept fun l held =>
        ⟨l, leases ▸ held, rfl, rfl, stamped.row.owner? fun _ r => ?_⟩
      simp only [IssueUpdates.apply, status, assignee, Option.getD_none, and_self]

private theorem closeIssue_owned {reason session : String} (owned : w.LeasesOwned)
    (returns : (w.closeIssue ctx id reason session).Returns v) : v.LeasesOwned := by
  obtain ⟨r, -, ⟨-, rfl⟩ | ⟨-, stamped, leases⟩⟩ := closeIssue_returns returns
  · exact owned
  · exact owned.of_stamped stamped leases

private theorem reopenIssue_owned (owned : w.LeasesOwned)
    (returns : (w.reopenIssue ctx id).Returns v) :
    v.LeasesOwned := by
  obtain ⟨r, -, ⟨-, rfl⟩ | ⟨-, stamped, leases⟩⟩ := reopenIssue_returns returns
  · exact owned
  · exact owned.of_stamped stamped leases

private theorem reclaimIssue_owned {cutoff : Nat} {filter : ReclaimFilter} (owned : w.LeasesOwned) :
    (w.reclaimIssue ctx cutoff filter id).LeasesOwned := by
  rcases reclaimIssue_cases w ctx cutoff filter id with same | ⟨only, ⟨-, store, -⟩ | ⟨-, stamped⟩⟩
  · rwa [same]
  · exact owned.of_dropped only fun _ _ => by rw [store]
  · exact owned.of_dropped only fun other apart => owner?_of_updated stamped.row apart

private theorem reclaimExpiredLeases_owned {cutoff : Nat} {filter : ReclaimFilter}
    (owned : w.LeasesOwned) : (w.reclaimExpiredLeases ctx cutoff filter).LeasesOwned := by
  unfold reclaimExpiredLeases
  generalize w.staleLeases ctx cutoff filter = stale
  induction stale generalizing w with
  | nil => exact owned
  | cons first rest ih => exact ih (reclaimIssue_owned owned)

/-! ## Imports -/

theorem restoreLeaseOnImport_store (w : ClaimStore) (ctx : ClaimContext) (id : String)
    (fields : LeaseFields)
    (isNew : Bool) : (w.restoreLeaseOnImport ctx id fields isNew).store = w.store := by
  unfold restoreLeaseOnImport
  extract_lets restored
  have same : restored.store = w.store := by
    unfold restored
    split
    · split <;> rfl
    · rfl
  split
  · exact same
  · exact same

/-- An import settles the lease of one issue: the leases of the others are owned
already, and a new issue has none. -/
theorem restoreLeaseOnImport_owned {fields : LeaseFields} {isNew : Bool}
    (others : ∀ l ∈ w.leases, l.issueId ≠ id → ∃ assignee,
      w.store.owner? l.issueId = some (.inProgress, assignee) ∧
        canonicalActor assignee = canonicalActor l.holder)
    (unleased : isNew = true → ∀ l ∈ w.leases, l.issueId ≠ id) :
    (w.restoreLeaseOnImport ctx id fields isNew).LeasesOwned := by
  unfold restoreLeaseOnImport
  extract_lets restored
  have same : restored.store = w.store := w.restoreLeaseOnImport_store ctx id fields true
  have leased : ∀ l ∈ restored.leases, l ∈ w.leases ∨ (l.issueId = id ∧
      w.store.owner? id = some (.inProgress, l.holder)) := by
    intro l held
    unfold restored at held
    split at held
    · next expiresAt r _ row =>
      split at held
      · next claimed =>
        rcases Table.mem_insertIgnore.mp held with kept | ⟨rfl, -⟩
        · exact Or.inl (Table.mem_delete.mp kept).1
        · refine Or.inr ⟨rfl, ?_⟩
          rw [Store.owner?, row, Option.map_some, claimed.1]
      · exact Or.inl held
    · exact Or.inl held
  split
  · next isNew =>
    refine leasesOwned_iff.mpr fun l held => ?_
    rw [same]
    rcases leased l held with stored | ⟨rfl, here⟩
    · exact others l stored (unleased isNew l stored)
    · exact ⟨l.holder, here, rfl⟩
  · refine leasesOwned_iff.mpr fun l held => ?_
    obtain ⟨held, kept⟩ := Table.mem_delete.mp held
    by_cases here : l.issueId = id
    · have row := not_not.mp fun fails => kept ⟨here, fails⟩
      obtain ⟨r, found, status, assignee⟩ := Store.rowAt_iff.mp row
      refine ⟨r.assignee, ?_, by rw [assignee]⟩
      rw [here, Store.owner?, found, Option.map_some, status]
    · rw [same]
      exact others l ((leased l held).resolve_right fun new => here new.1) here

private theorem createIssue_owned {batch : BatchContext} {issue : NewIssue} {fields : LeaseFields}
    {accepted : Option NewIssue} (owned : w.LeasesOwned)
    (returns : (w.createIssue ctx batch issue fields).Returns (v, accepted)) : v.LeasesOwned := by
  obtain ⟨⟨written, result⟩, wrote, rest⟩ := Call.returns_bind.mp returns
  obtain ⟨created, -, -, only, effect⟩ := Store.createIssue_returns wrote
  cases result with
  | none =>
    obtain ⟨rfl, -⟩ := Prod.mk.inj (Call.returns_pure.mp rest)
    have same : written = w.store := effect.resolve_right fun landed => nomatch landed.2.1
    rwa [same]
  | some other =>
    obtain rfl := only other rfl
    have others : ∀ id, other.node ≠ (.issues, id) → written.owner? id = w.store.owner? id := by
      intro id apart
      rcases effect with same | ⟨-, -, ⟨-, kept, -⟩ | ⟨-, updated⟩⟩
      · rw [same]
      · rw [Store.owner?, Store.owner?, kept _ (Ne.symm apart)]
      · exact (updated.others _ (Ne.symm apart)).owner?
    simp only at rest
    split at rest
    · obtain ⟨rfl, -⟩ := Prod.mk.inj (Call.returns_pure.mp rest)
      exact owned
    · split at rest
      · next ephemeral =>
        obtain ⟨rfl, -⟩ := Prod.mk.inj (Call.returns_pure.mp rest)
        refine owned.of_kept fun l held => ⟨l, held, rfl, rfl, others _ fun durable => ?_⟩
        exact nomatch ephemeral.symm.trans (congrArg Prod.fst durable)
      · obtain ⟨rfl, -⟩ := Prod.mk.inj (Call.returns_pure.mp rest)
        refine restoreLeaseOnImport_owned (fun l held apart => ?_) fun isNew l held same => ?_
        · obtain ⟨assignee, stored, matching⟩ := leasesOwned_iff.mp owned l held
          refine ⟨assignee, ?_, matching⟩
          exact (others _ fun here => apart (congrArg Prod.snd here).symm).trans stored
        · exact of_decide_eq_true isNew (same ▸ owned.holds held)

private theorem createIssues_owned {batch : BatchContext} {c : Coordinator}
    {issues : List (NewIssue × LeaseFields)}
    (owned : w.LeasesOwned) (returns : (w.createIssues ctx batch c issues).Returns v) :
    v.LeasesOwned := by
  obtain ⟨admitted, -, rest⟩ := Call.returns_bind.mp returns
  obtain ⟨⟨landed, accepted⟩, rows, rest⟩ := Call.returns_bind.mp rest
  obtain ⟨⟨written, persisted⟩, edges, rest⟩ := Call.returns_bind.mp rest
  obtain ⟨t, recomputed, rest⟩ := Call.returns_bind.mp rest
  obtain rfl := Call.returns_pure.mp rest
  have kept : landed.LeasesOwned := by
    refine Call.inv_of_foldlM (fun state => state.1.LeasesOwned) ?_ owned rows
    intro state item _ held after step
    obtain ⟨⟨created, _⟩, one, last⟩ := Call.returns_bind.mp step
    rw [← Call.returns_pure.mp last]
    exact createIssue_owned held one
  refine kept.of_kept fun l held => ⟨l, held, rfl, rfl, Store.SameRow.owner? ?_⟩
  exact (Store.SameRow.of_rows (Store.persistDependencies_rows edges) _).trans
    (Store.recomputeIsBlocked_sameRow recomputed _)

/-! ## Deletes, renames and moves -/

private theorem deleteIssue_owned (owned : w.LeasesOwned) (returns : (w.deleteIssue id).Returns v) :
    v.LeasesOwned := by
  obtain ⟨t, deleted, rest⟩ := Call.returns_bind.mp returns
  obtain rfl := Call.returns_pure.mp rest
  split
  · refine owned.of_dropped (fun l held => mem_deleteLease.mp held) fun other apart => ?_
    exact (Store.deleteIssue_others deleted fun same => apart (congrArg Prod.snd same)).owner?
  · next ephemeral =>
    refine owned.of_kept fun l held => ⟨l, held, rfl, rfl, ?_⟩
    exact (Store.deleteIssue_others deleted fun same => ephemeral (congrArg Prod.fst same).symm).owner?

private theorem deleteIssues_owned {ids : List String} {cascade force dryRun : Bool}
    (owned : w.LeasesOwned)
    (returns : (w.deleteIssues ids cascade force dryRun).Returns v) : v.LeasesOwned := by
  obtain ⟨t, deleted, rest⟩ := Call.returns_bind.mp returns
  split at rest
  · rwa [← Call.returns_pure.mp rest]
  · next real =>
    obtain ⟨set, resolved, rest⟩ := Call.returns_bind.mp rest
    obtain rfl := Call.returns_pure.mp rest
    obtain ⟨nothing, -⟩ | ⟨-, set', resolved', others⟩ := Store.deleteIssues_returns deleted
    · exact absurd nothing real
    · obtain rfl := Except.ok.inj (resolved'.unique resolved)
      refine owned.of_kept fun l held => ?_
      obtain ⟨stored, left⟩ := Table.mem_delete.mp held
      exact ⟨l, stored, rfl, rfl, (others (.issues, l.issueId) left).owner?⟩

/-- A lease follows its row to the new id. -/
theorem updateIssueId_owned {oldId newId : String} (owned : w.LeasesOwned)
    (returns : (w.updateIssueId ctx oldId newId).Returns v) : v.LeasesOwned := by
  obtain ⟨t, updated, rest⟩ := Call.returns_bind.mp returns
  obtain ⟨-, rows, -⟩ := Store.updateIssueId_returns updated
  split at rest
  · next ephemeral =>
    obtain rfl := Call.returns_pure.mp rest
    intro l held
    obtain ⟨r, stored, same⟩ := owned l held
    exact ⟨r, (rows .issues r).mpr ⟨r, stored, by simp [ephemeral]⟩, same⟩
  · next durable =>
    have plane := Plane.eq_issues durable
    split at rest
    · exact absurd rest Call.not_returns_throw
    · next leases rekeyed =>
      obtain rfl := Call.returns_pure.mp rest
      intro l held
      obtain ⟨old, stored, rfl⟩ := (Table.mem_of_rekey? rekeyed).mp held
      obtain ⟨r, row, name, status, matching⟩ := owned old stored
      refine ⟨_, (rows .issues _).mpr ⟨r, row, rfl⟩, ?_⟩
      by_cases renamed : old.issueId = oldId
      · rw [if_pos ⟨plane.symm, name.trans renamed⟩, if_pos renamed]
        exact ⟨rfl, status, matching⟩
      · rw [if_neg fun here => renamed (name.symm.trans here.2), if_neg renamed]
        exact ⟨name, status, matching⟩

private theorem moveIssuePersistence_owned {current : Row} {mode : PersistenceMode}
    {retained : Bool}
    (owned : w.LeasesOwned) (returns : (w.moveIssuePersistence ctx current mode retained).Returns v) :
    v.LeasesOwned := by
  obtain ⟨t, moved, rest⟩ := Call.returns_bind.mp returns
  obtain ⟨⟨ephemeral, noHistory, storageClass⟩, normal, rest⟩ := Call.returns_bind.mp rest
  obtain ⟨_, _, _, normal', effect⟩ := Store.moveIssuePersistence_returns moved
  obtain ⟨rfl, rfl, rfl⟩ : _ ∧ _ ∧ _ := by
    simpa only [Except.ok.injEq,
      Prod.mk.injEq] using normal'.symm.trans (Call.ends_ofExcept.unique normal)
  simp only at rest
  split at rest
  · next stays =>
    rw [← Call.returns_pure.mp rest]
    obtain ⟨-, same | updated⟩ := effect.resolve_right fun away => away.1 stays
    · rwa [same]
    · exact owned.of_kept fun l held => ⟨l, held, rfl, rfl, updated.owner? fun _ _ => ⟨rfl, rfl⟩⟩
  · next leaves =>
    rw [← Call.returns_pure.mp rest]
    obtain ⟨-, free, others⟩ := effect.resolve_left fun here => leaves here.1
    split
    · exact owned.of_dropped (fun l held => mem_deleteLease.mp held) fun other apart =>
        (others (.issues, other) apart).owner?
    · next durable =>
      rw [Plane.eq_issues durable] at free
      have unleased : ∀ l ∈ w.leases, l.issueId ≠ current.id := fun l held same =>
        free (same ▸ owned.holds held)
      exact owned.of_dropped (fun l held => ⟨held, unleased l held⟩) fun other apart =>
        (others (.issues, other) apart).owner?

private theorem promoteFromEphemeral_owned {invalid : Option String} (owned : w.LeasesOwned)
    (returns : (w.promoteFromEphemeral ctx invalid id).Returns v) : v.LeasesOwned := by
  obtain ⟨t, promoted, rest⟩ := Call.returns_bind.mp returns
  obtain rfl := Call.returns_pure.mp rest
  obtain ⟨others, here⟩ := Store.promoteFromEphemeral_returns promoted
  refine owned.of_kept fun l held => ⟨l, held, rfl, rfl, ?_⟩
  by_cases same : l.issueId = id
  · rw [same]
    exact here (same ▸ owned.holds held)
  · exact (others (.issues, l.issueId) same).owner?

private theorem demoteToWisp_owned {c : Coordinator} {updates : IssueUpdates}
    (owned : w.LeasesOwned)
    (returns : (w.demoteToWisp ctx c id updates).Returns v) : v.LeasesOwned := by
  obtain ⟨u, updated, rest⟩ := Call.returns_bind.mp returns
  have kept := updateIssue_owned owned updated
  split at rest
  · exact absurd rest Call.not_returns_throw
  · next issue row =>
    obtain ⟨⟨inserted, stale⟩, insert, rest⟩ := Call.returns_bind.mp rest
    obtain ⟨moved, retargeted, rest⟩ := Call.returns_bind.mp rest
    obtain ⟨t, recomputed, rest⟩ := Call.returns_bind.mp rest
    obtain rfl := Call.returns_pure.mp rest
    have name : issue.id = id := (Store.row?_eq_some.mp row).2
    refine kept.of_dropped (fun l held => mem_deleteLease.mp held) fun other apart =>
      Store.SameRow.owner? ?_
    have away : ∀ p, ((.issues, other) : Node) ≠ (p, id) :=
      fun p same => apart (congrArg Prod.snd same)
    have first : u.store.SameRow inserted (.issues, other) := by
      rcases Store.insertIssueIfNew_returns insert with
        ⟨-, -, others, -⟩ | ⟨-, rfl⟩ | ⟨-, -, updated⟩
      · exact .of_row (others _ (name ▸ away .wisps))
      · exact .refl _ _
      · exact updated.others _ (name ▸ away .wisps)
    exact (first.trans (.of_rows (Store.foldl_insertDepIgnore_rows .wisps _) _)).trans
      (Store.relocate_others retargeted recomputed (away .issues))

end ClaimStore

/-! ## Runs -/

private theorem ClaimCall.run_owned {ctx : ClaimContext} {w v : ClaimStore} (call : ClaimCall)
    (owned : w.LeasesOwned) (returns : (call.run ctx w).Returns v) : v.LeasesOwned := by
  cases call with
  | claim id actor => exact ClaimStore.claimIssue_owned owned returns
  | unclaim id by_ => exact ClaimStore.unclaimIssue_owned owned returns
  | heartbeat id actor => exact ClaimStore.heartbeatIssue_owned owned returns
  | update c id updates => exact ClaimStore.updateIssue_owned owned returns
  | close id reason session => exact ClaimStore.closeIssue_owned owned returns
  | reopen id => exact ClaimStore.reopenIssue_owned owned returns
  | reclaim cutoff filter =>
    rw [← Call.returns_pure.mp returns]
    exact ClaimStore.reclaimExpiredLeases_owned owned
  | create batch c issues => exact ClaimStore.createIssues_owned owned returns
  | delete id => exact ClaimStore.deleteIssue_owned owned returns
  | deleteMany ids cascade force dryRun => exact ClaimStore.deleteIssues_owned owned returns
  | rename oldId newId => exact ClaimStore.updateIssueId_owned owned returns
  | move current mode retained => exact ClaimStore.moveIssuePersistence_owned owned returns
  | promote invalid id => exact ClaimStore.promoteFromEphemeral_owned owned returns
  | demote c id updates => exact ClaimStore.demoteToWisp_owned owned returns

theorem ClaimStep.owned {w v : ClaimStore} (step : ClaimStep w v) (owned : w.LeasesOwned) :
    v.LeasesOwned := by
  obtain ⟨ctx, call, returns | ⟨-, rfl⟩⟩ := step
  · exact call.run_owned owned returns
  · exact owned

/-- From a store without leases every run of transactions keeps every lease with a
durable issue that is in progress and assigned to the lease's holder. -/
theorem leases_owned_along_runs {w v : ClaimStore} (unleased : w.leases = Table.empty)
    (run : ReflTransGen ClaimStep w v) : v.LeasesOwned := by
  induction run with
  | refl =>
    intro l held
    rw [unleased] at held
    cases held
  | tail _ step ih => exact step.owned ih

/-- One open issue. -/
def oneOpenIssue : ClaimStore where
  store := { rows := fun | .issues => ⟨[{ id := "bd-1" }], by decide⟩ | .wisps => Table.empty
             deps := fun _ => Table.empty }
  rowLock _ := 0
  leases := Table.empty

/-- The heartbeat comes under another spelling and takes a lease of its own; the lease
follows its issue to another id. -/
theorem leases_owned_along_runs_respelled : ∃ v, ReflTransGen ClaimStep oneOpenIssue v ∧
    v.leases.rows.map (fun l => (l.issueId, l.holder)) = [("bd-2", "ada.l")] ∧ v.LeasesOwned := by
  let ctx : ClaimContext := { freshRowLock := fun _ => 1 }
  obtain ⟨v, claimed, rest⟩ : ∃ v, ((ClaimCall.claim "bd-1" "ada_l").run ctx oneOpenIssue).Returns v ∧
      ∃ u ∈ ((ClaimCall.heartbeat "bd-1" "ada.l").run ctx v).value? 1,
        ∃ x ∈ ((ClaimCall.rename "bd-1" "bd-2").run ctx u).value? 1,
          x.leases.rows.map (fun l => (l.issueId, l.holder)) = [("bd-2", "ada.l")] :=
    Call.returns_of_value? (n := 1) (by decide +kernel)
  obtain ⟨u, beaten, rest⟩ := Call.returns_of_value? rest
  obtain ⟨x, renamed, leases⟩ := Call.returns_of_value? rest
  have run : ReflTransGen ClaimStep oneOpenIssue x :=
    ((ReflTransGen.single ⟨ctx, _, Or.inl claimed⟩).tail ⟨ctx, _, Or.inl beaten⟩).tail
      ⟨ctx, _, Or.inl renamed⟩
  exact ⟨x, run, leases, leases_owned_along_runs rfl run⟩

end Beads
