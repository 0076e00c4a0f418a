import Beads.LeaseProofs

/-! The `closed_at` column and the closed status. Every verb writes the two together;
a generic update writes what the guard and the defaults leave, and both of them are
decided on the row that was read, which on an id in both planes is not the row that
is written. -/
namespace Beads
open Lib Relation

/-- The update is judged on `old` and written to `r`, and one of them is closed. The
guard then admits a stamp for a row that stays open, or the default that clears the
column is not applied to a row that is reopened. -/
def IssueUpdates.Misjudges (u : IssueUpdates) (old r : Row) : Prop :=
  (old.status = .closed ∧ r.status ≠ .closed ∧ ∃ stamp, u.closedAt = some (some stamp) ∧ old.closedAt ≠ some stamp) ∨
    (old.status ≠ .closed ∧ r.status = .closed ∧ ∃ status, u.status = some status ∧
      status ≠ old.status ∧ status ≠ .closed)

/-- The rows of an id that a generic update reads and writes. -/
def Store.Misjudged (s : Store) (id : String) (u : IssueUpdates) : Prop :=
  ∃ old r, (s.issue? id >>= s.row?) = some old ∧ s.row? (s.routed id, id) = some r ∧ u.Misjudges old r

/-- Every row has a `closed_at` exactly when it is closed. -/
def Store.Coherent (s : Store) : Prop := ∀ p, ∀ r ∈ s.rows p, r.Coherent

/-- The transactions that create issues or change a status. -/
def ClaimCall.Changes : ClaimCall → Prop
  | .create .. | .update .. | .close .. | .reopen .. | .claim .. | .unclaim .. | .reclaim .. => True
  | _ => False

/-- No row but the one that is written decides about the write. -/
def ClaimCall.Fits (w : ClaimStore) : ClaimCall → Prop
  | .update _ id updates => ¬ w.store.Misjudged id updates
  | _ => True

/-- One such transaction, accepted or refused. -/
def StatusStep (w v : ClaimStore) : Prop :=
  ∃ (ctx : ClaimContext) (call : ClaimCall), call.Changes ∧ call.Fits w ∧ (call.run ctx w).Leaves w v

/-! ## The generic update -/

section Update
variable {u : IssueUpdates} {old r : Row} {cfg : Config}

/-- What the guard lets through. -/
theorem validateClosedAtCoherence_returns (passed : (u.validateClosedAtCoherence old).Returns ()) :
    ∀ value, u.closedAt = some value → (value ≠ none ↔ u.status.getD old.status = .closed) := by
  intro value asked
  unfold IssueUpdates.validateClosedAtCoherence at passed
  extract_lets landed at passed
  cases value with
  | none =>
    rw [asked] at passed
    dsimp only at passed
    split at passed
    · exact absurd passed Call.not_returns_throw
    · next stays => exact ⟨fun stamped => absurd rfl stamped, fun closed => absurd closed stays⟩
  | some stamp =>
    rw [asked] at passed
    dsimp only at passed
    split at passed
    · exact absurd passed Call.not_returns_throw
    · next stays => exact ⟨fun _ => not_not.mp stays, fun _ => nofun⟩

/-- The no-op filter keeps a value that differs from the stored one. -/
theorem filter_ne {α : Type} [DecidableEq α] (asked : Option α) (stored : α) :
    asked.filter (· ≠ stored) = if asked.getD stored = stored then none else some (asked.getD stored) := by
  cases asked with
  | none => simp
  | some value =>
    by_cases same : value = stored
    · simp [Option.filter, same]
    · simp [Option.filter, same]

private theorem apply_discardNoop_status : ((u.discardNoop old).apply cfg old r).status =
    if u.status.getD old.status = old.status then r.status else u.status.getD old.status := by
  simp only [IssueUpdates.apply, IssueUpdates.discardNoop, filter_ne]
  split <;> rfl

/-- The defaults are not applied to an explicit value that is kept. -/
theorem apply_discardNoop_closedAt : ((u.discardNoop old).apply cfg old r).closedAt =
    if u.closedAt.getD old.closedAt ≠ old.closedAt then u.closedAt.getD old.closedAt
    else if u.status.getD old.status = old.status then r.closedAt
    else if u.status.getD old.status = .closed then some cfg.now
    else if old.status = .closed then none
    else r.closedAt := by
  simp only [IssueUpdates.apply, IssueUpdates.managedClose, IssueUpdates.discardNoop, filter_ne]
  by_cases stamp : u.closedAt.getD old.closedAt = old.closedAt
  · by_cases landed : u.status.getD old.status = old.status
    · simp [stamp, landed]
    · simp [stamp, landed]
  · simp [stamp]

/-- A new stamp or a clear agrees with the status that the update lands. -/
theorem stamp_coherent (passed : (u.validateClosedAtCoherence old).Returns ())
    (kept : u.closedAt.getD old.closedAt ≠ old.closedAt) :
    u.closedAt.getD old.closedAt ≠ none ↔ u.status.getD old.status = .closed := by
  cases asked : u.closedAt with
  | none => simp [asked] at kept
  | some value => exact validateClosedAtCoherence_returns passed value asked

private theorem misjudges_iff : u.Misjudges old r ↔
    (old.status = .closed ∧ r.status ≠ .closed ∧ u.closedAt.getD old.closedAt ≠ old.closedAt ∧
        u.closedAt.getD old.closedAt ≠ none) ∨
      (old.status ≠ .closed ∧ r.status = .closed ∧ u.status.getD old.status ≠ old.status ∧
        u.status.getD old.status ≠ .closed) := by
  unfold IssueUpdates.Misjudges
  refine or_congr (and_congr_right fun _ => and_congr_right fun _ => ?_)
    (and_congr_right fun _ => and_congr_right fun _ => ?_)
  · match u.closedAt with
    | none => simp
    | some none => simp
    | some (some stamp) => simp [eq_comm]
  · cases u.status with
    | none => simp
    | some status => simp

/-- Between coherent rows a guarded update goes wrong exactly when it is misjudged. -/
theorem apply_coherent_iff (read : old.Coherent) (written : r.Coherent)
    (passed : (u.validateClosedAtCoherence old).Returns ()) :
    ((u.discardNoop old).apply cfg old r).Coherent ↔ ¬ u.Misjudges old r := by
  have guarded := stamp_coherent passed
  rw [misjudges_iff]
  unfold Row.Coherent at *
  rw [apply_discardNoop_status, apply_discardNoop_closedAt]
  generalize u.closedAt.getD old.closedAt = stamp at *
  generalize u.status.getD old.status = landed at *
  by_cases kept : stamp = old.closedAt
  · -- Nothing is asked of the column that it does not hold: the defaults decide.
    by_cases same : landed = old.status
    · simpa [kept, same] using written
    · by_cases closes : landed = .closed
      · subst closes
        have wasOpen : old.status ≠ .closed := Ne.symm same
        simp [kept, same, wasOpen]
      · grind
  · have agrees := guarded kept
    grind

end Update

/-! ## Rows of a store -/

/-- A row that is not closed and stays so. -/
theorem Row.Coherent.moved {r r' : Row} (coherent : r.Coherent) (stays : r'.closedAt = r.closedAt)
    (before : r.status ≠ .closed) (after : r'.status ≠ .closed) : r'.Coherent := by
  have unstamped : ¬ r.closedAt ≠ none := fun stamped => before (coherent.mp stamped)
  unfold Row.Coherent
  rw [stays]
  exact iff_of_false unstamped after

namespace Store
variable {s t : Store} {n : Node} {f : Row → Row}

theorem coherent_iff : s.Coherent ↔ ∀ n r, s.row? n = some r → r.Coherent := by
  constructor
  · intro coherent n r found
    exact coherent n.1 r (row?_eq_some.mp found).1
  · intro coherent p r held
    exact coherent (p, r.id) r (row?_eq_some.mpr ⟨held, rfl⟩)

theorem SameRow.coherent {r : Row} (same : SameRow s t n) (found : t.row? n = some r)
    (coherent : ∀ r, s.row? n = some r → r.Coherent) : r.Coherent := by
  have read := same.read (f := Row.Coherent) fun _ => rfl
  rw [found, Option.map_some] at read
  obtain ⟨old, stored, same⟩ := Option.map_eq_some_iff.mp read.symm
  exact same ▸ coherent old stored

/-- A store stays coherent under a write exactly when the written row is coherent. -/
theorem Coherent.updated_iff {r : Row} (coherent : s.Coherent) (updated : RowUpdated s t n f)
    (found : s.row? n = some r) : t.Coherent ↔ (f r).Coherent := by
  rw [coherent_iff] at coherent
  have read := updated.read (g := Row.Coherent) fun _ => rfl
  rw [found, Option.map_some] at read
  obtain ⟨new, stored, same⟩ := Option.map_eq_some_iff.mp read
  have same : new.Coherent ↔ (f r).Coherent := iff_of_eq same
  constructor
  · intro after
    exact same.mp (coherent_iff.mp after n new stored)
  · intro here
    refine coherent_iff.mpr fun m row row? => ?_
    by_cases other : m = n
    · subst other
      obtain rfl := Option.some.inj (stored.symm.trans row?)
      exact same.mpr here
    · exact (updated.others m other).coherent row? (coherent m)

theorem Coherent.updated {r : Row} (coherent : s.Coherent) (updated : RowUpdated s t n f)
    (found : s.row? n = some r) (here : (f r).Coherent) : t.Coherent :=
  (coherent.updated_iff updated found).mpr here

/-- An id that is found at all is found in the plane it is routed to. -/
theorem row?_routed {id : String} {old : Row} (found : (s.issue? id >>= s.row?) = some old) :
    ∃ r, s.row? (s.routed id, id) = some r := by
  refine Option.ne_none_iff_exists'.mp (holds_iff.mp ?_)
  by_cases wisp : s.IsActiveWisp id
  · have here : s.routed id = .wisps := by simp [routed, wisp, Plane.ofWisp]
    rw [here]
    exact wisp
  · obtain ⟨n, place, row⟩ := Option.bind_eq_some_iff.mp found
    have single : ¬ (s.Holds (.issues, id) ∧ s.Holds (.wisps, id)) := fun both => wisp both.2
    rw [← issue?_routed single place, holds_iff, row]
    exact Option.some_ne_none old

/-- An id that is in one plane at most is judged on the row that is written. -/
theorem not_misjudged {id : String} {u : IssueUpdates}
    (single : ¬ (s.Holds (.issues, id) ∧ s.Holds (.wisps, id))) : ¬ s.Misjudged id u := by
  rintro ⟨old, r, read, row, misjudges⟩
  obtain ⟨n, place, found⟩ := Option.bind_eq_some_iff.mp read
  rw [issue?_routed single place, row] at found
  obtain rfl := Option.some.inj found
  rcases misjudges with ⟨closed, other, -⟩ | ⟨other, closed, -⟩
  · exact other closed
  · exact other closed

private theorem Coherent.sameRows (coherent : s.Coherent) (same : ∀ n, SameRow s t n) :
    t.Coherent :=
  coherent_iff.mpr fun n _ found => (same n).coherent found (coherent_iff.mp coherent n)

end Store

namespace ClaimStore
variable {w v : ClaimStore} {ctx : ClaimContext} {id : String}

/-! ## The verbs -/

private theorem claimable_not_closed {cfg : Config} {status : Status}
    (claimable : cfg.Claimable status) :
    status ≠ .closed := by
  rintro rfl
  exact claimable

/-- A claim writes a row that is not closed. -/
theorem claimVerdict_writes {actor : String} {old r : Row} {version lock : Nat}
    (verdict : claimVerdict ctx id actor old version r lock = .ok true) : r.status ≠ .closed := by
  unfold claimVerdict at verdict
  split at verdict
  · next admitted => exact claimable_not_closed admitted.2.2
  · split at verdict
    · cases verdict
    · cases verdict

private theorem unclaimVerdict_writes {by_ : UnclaimBy} {old r : Row} {version lock : Nat}
    (verdict : unclaimVerdict id by_ old version r lock = .ok ()) : r.status ≠ .closed := by
  unfold unclaimVerdict at verdict
  cases checked : checkUnclaim id old by_ with
  | error e =>
    rw [checked] at verdict
    cases verdict
  | ok _ =>
    rw [checked] at verdict
    intro closed
    simp only [closed] at verdict
    cases verdict

private theorem claimIssue_coherent {actor : String} (coherent : w.store.Coherent)
    (returns : (w.claimIssue ctx id actor).Returns v) : v.store.Coherent := by
  obtain ⟨old, version, r, -, row, ⟨-, rfl⟩ | ⟨verdict, stamped, -⟩⟩ := claimIssue_returns returns
  · exact coherent
  · refine coherent.updated stamped.row row ?_
    exact (Store.coherent_iff.mp coherent _ r row).moved rfl (claimVerdict_writes verdict) nofun

private theorem unclaimIssue_coherent {by_ : UnclaimBy} (coherent : w.store.Coherent)
    (returns : (w.unclaimIssue ctx id by_).Returns v) : v.store.Coherent := by
  obtain ⟨old, version, r, -, row, verdict, stamped, -⟩ := unclaimIssue_returns returns
  refine coherent.updated stamped.row row ?_
  exact (Store.coherent_iff.mp coherent _ r row).moved rfl (unclaimVerdict_writes verdict) nofun

private theorem closeIssue_coherent {reason session : String} (coherent : w.store.Coherent)
    (returns : (w.closeIssue ctx id reason session).Returns v) : v.store.Coherent := by
  obtain ⟨r, row, ⟨-, rfl⟩ | ⟨-, stamped, -⟩⟩ := closeIssue_returns returns
  · exact coherent
  · exact coherent.updated stamped.row row (iff_of_true nofun rfl)

private theorem reopenIssue_coherent (coherent : w.store.Coherent)
    (returns : (w.reopenIssue ctx id).Returns v) :
    v.store.Coherent := by
  obtain ⟨r, row, ⟨-, rfl⟩ | ⟨-, stamped, -⟩⟩ := reopenIssue_returns returns
  · exact coherent
  · exact coherent.updated stamped.row row (iff_of_false (absurd rfl) nofun)

private theorem reclaimIssue_coherent {cutoff : Nat} {filter : ReclaimFilter}
    (coherent : w.store.Coherent) : (w.reclaimIssue ctx cutoff filter id).store.Coherent := by
  rcases w.reclaimIssue_cases ctx cutoff filter id with
    same | ⟨-, ⟨-, same, -⟩ | ⟨running, stamped⟩⟩
  · rwa [same]
  · rwa [same]
  · obtain ⟨r, row, status⟩ := Store.rowAt_iff.mp running
    refine coherent.updated stamped.row row ?_
    exact (Store.coherent_iff.mp coherent _ r row).moved rfl (by rw [status]; nofun) nofun

private theorem reclaimExpiredLeases_coherent {cutoff : Nat} {filter : ReclaimFilter}
    (coherent : w.store.Coherent) : (w.reclaimExpiredLeases ctx cutoff filter).store.Coherent := by
  unfold reclaimExpiredLeases
  generalize w.staleLeases ctx cutoff filter = stale
  induction stale generalizing w with
  | nil => exact coherent
  | cons first rest ih => exact ih (reclaimIssue_coherent coherent)

/-- A stored row keeps its columns or takes those of the new one. -/
theorem issueUpsertAssignments_coherent {opts : BatchCreateOptions} {incoming stored : Row}
    (new : incoming.Coherent) (old : stored.Coherent) :
    (issueUpsertAssignments opts incoming stored).Coherent := by
  unfold issueUpsertAssignments
  split
  · exact old
  · exact new

private theorem createIssue_coherent {batch : BatchContext} {issue : NewIssue}
    {fields : LeaseFields} {accepted : Option NewIssue} (coherent : w.store.Coherent)
    (returns : (w.createIssue ctx batch issue fields).Returns (v, accepted)) :
    v.store.Coherent := by
  obtain ⟨⟨written, result⟩, wrote, rest⟩ := Call.returns_bind.mp returns
  obtain ⟨created, -, new, only, effect⟩ := Store.createIssue_returns wrote
  have landed : written.Coherent := by
    rcases effect with rfl | ⟨-, -, ⟨-, others, here⟩ | ⟨held, updated⟩⟩
    · exact coherent
    · refine Store.coherent_iff.mpr fun m r found => ?_
      by_cases same : m = created.node
      · subst same
        obtain rfl := Option.some.inj (here.symm.trans found)
        exact new
      · exact Store.coherent_iff.mp coherent m r ((others m same).symm.trans found)
    · obtain ⟨r, stored⟩ := Option.ne_none_iff_exists'.mp (Store.holds_iff.mp held)
      exact coherent.updated updated stored
        (issueUpsertAssignments_coherent new (Store.coherent_iff.mp coherent _ r stored))
  cases result with
  | none =>
    obtain ⟨rfl, -⟩ := Prod.mk.inj (Call.returns_pure.mp rest)
    exact landed
  | some other =>
    simp only at rest
    split at rest
    · obtain ⟨rfl, -⟩ := Prod.mk.inj (Call.returns_pure.mp rest)
      exact coherent
    · split at rest
      · obtain ⟨rfl, -⟩ := Prod.mk.inj (Call.returns_pure.mp rest)
        exact landed
      · obtain ⟨rfl, -⟩ := Prod.mk.inj (Call.returns_pure.mp rest)
        rwa [restoreLeaseOnImport_store]

private theorem createIssues_coherent {batch : BatchContext} {c : Coordinator}
    {issues : List (NewIssue × LeaseFields)}
    (coherent : w.store.Coherent) (returns : (w.createIssues ctx batch c issues).Returns v) :
    v.store.Coherent := by
  obtain ⟨admitted, -, rest⟩ := Call.returns_bind.mp returns
  obtain ⟨⟨landed, accepted⟩, rows, rest⟩ := Call.returns_bind.mp rest
  obtain ⟨⟨written, persisted⟩, edges, rest⟩ := Call.returns_bind.mp rest
  obtain ⟨t, recomputed, rest⟩ := Call.returns_bind.mp rest
  obtain rfl := Call.returns_pure.mp rest
  have kept : landed.store.Coherent := by
    refine Call.inv_of_foldlM (fun state => state.1.store.Coherent) ?_ coherent rows
    intro state item _ held after step
    obtain ⟨⟨created, _⟩, one, last⟩ := Call.returns_bind.mp step
    rw [← Call.returns_pure.mp last]
    exact createIssue_coherent held one
  refine kept.sameRows fun n => ?_
  exact (Store.SameRow.of_rows (Store.persistDependencies_rows edges) n).trans
    (Store.recomputeIsBlocked_sameRow recomputed n)

/-- An accepted update keeps a store coherent exactly when it is not misjudged. -/
theorem updateIssue_coherent_iff {c : Coordinator} {updates : IssueUpdates}
    (coherent : w.store.Coherent) (returns : (w.updateIssue ctx c id updates).Returns v) :
    v.store.Coherent ↔ ¬ w.store.Misjudged id updates := by
  obtain ⟨old, read, passed, effect⟩ := updateIssue_returns returns
  obtain ⟨r, row⟩ := Store.row?_routed read
  have oldCoherent : old.Coherent := by
    obtain ⟨n, -, found⟩ := Option.bind_eq_some_iff.mp read
    exact Store.coherent_iff.mp coherent n old found
  have judged : w.store.Misjudged id updates ↔ updates.Misjudges old r := by
    constructor
    · rintro ⟨old', r', read', row', misjudges⟩
      obtain rfl := Option.some.inj (read.symm.trans read')
      obtain rfl := Option.some.inj (row.symm.trans row')
      exact misjudges
    · intro misjudges
      exact ⟨old, r, read, row, misjudges⟩
  have written : ((updates.discardNoop old).apply ctx.cfg old r).Coherent ↔ ¬ updates.Misjudges old r :=
    apply_coherent_iff oldCoherent (Store.coherent_iff.mp coherent _ r row) passed
  rw [judged, ← written]
  rcases effect with ⟨nothing, rfl⟩ | ⟨stamped, -⟩
  · refine iff_of_true coherent ?_
    rw [nothing]
    exact Store.coherent_iff.mp coherent _ r row
  · exact coherent.updated_iff stamped.row row

end ClaimStore

/-! ## Runs -/

/-- An accepted transaction that creates issues or changes a status keeps a store
coherent exactly when it fits. -/
theorem ClaimCall.run_coherent_iff {ctx : ClaimContext} {w v : ClaimStore} {call : ClaimCall}
    (changes : call.Changes) (coherent : w.store.Coherent) (returns : (call.run ctx w).Returns v) :
    v.store.Coherent ↔ call.Fits w := by
  cases call with
  | update c id updates => exact ClaimStore.updateIssue_coherent_iff coherent returns
  | create batch c issues =>
    exact iff_of_true (ClaimStore.createIssues_coherent coherent returns) trivial
  | close id reason session =>
    exact iff_of_true (ClaimStore.closeIssue_coherent coherent returns) trivial
  | reopen id => exact iff_of_true (ClaimStore.reopenIssue_coherent coherent returns) trivial
  | claim id actor => exact iff_of_true (ClaimStore.claimIssue_coherent coherent returns) trivial
  | unclaim id by_ => exact iff_of_true (ClaimStore.unclaimIssue_coherent coherent returns) trivial
  | reclaim cutoff filter =>
    refine iff_of_true ?_ trivial
    rw [← Call.returns_pure.mp returns]
    exact ClaimStore.reclaimExpiredLeases_coherent coherent
  | heartbeat | delete | deleteMany | rename | move | promote | demote => exact absurd changes id

theorem StatusStep.coherent {w v : ClaimStore} (step : StatusStep w v)
    (coherent : w.store.Coherent) :
    v.store.Coherent := by
  obtain ⟨ctx, call, changes, fits, returns | ⟨-, rfl⟩⟩ := step
  · exact (call.run_coherent_iff changes coherent returns).mpr fits
  · exact coherent

/-- Along every run of transactions that fit, each row has a `closed_at` exactly when it
is closed; and in every state of such a run the next accepted transaction keeps it so
exactly when it fits. -/
theorem closed_at_coherent_along_runs {w v : ClaimStore} (coherent : w.store.Coherent)
    (run : ReflTransGen StatusStep w v) :
    v.store.Coherent ∧ ∀ (ctx : ClaimContext) (call : ClaimCall) (u : ClaimStore), call.Changes →
      (call.run ctx v).Returns u → (u.store.Coherent ↔ call.Fits v) := by
  have reached : v.store.Coherent := by
    induction run with
    | refl => exact coherent
    | tail _ step ih => exact step.coherent ih
  exact ⟨reached, fun ctx call u changes returns => call.run_coherent_iff changes reached returns⟩

/-- The issue is closed with a stamp of the caller's and then reopened. -/
theorem closed_at_coherent_along_runs_reopened : ∃ u v, ReflTransGen StatusStep oneOpenIssue u ∧
    u.store.RowAt (.issues, "bd-1") (fun r => r.closedAt = some 5) ∧
      ReflTransGen StatusStep oneOpenIssue v ∧
    v.store.RowAt (.issues, "bd-1") (fun r => r.closedAt = none) ∧ u.store.Coherent ∧
      v.store.Coherent := by
  let ctx : ClaimContext := { freshRowLock := fun _ => 1 }
  let close : IssueUpdates := { status := some .closed, closedAt := some (some 5) }
  obtain ⟨u, closed, stamped, rest⟩ : ∃ u,
      ((ClaimCall.update Store.oneShard "bd-1" close).run ctx oneOpenIssue).Returns u ∧
        u.store.RowAt (.issues, "bd-1") (fun r => r.closedAt = some 5) ∧
          ∃ v ∈ ((ClaimCall.reopen "bd-1").run ctx u).value? 9,
            v.store.RowAt (.issues, "bd-1") fun r => r.closedAt = none :=
    Call.returns_of_value? (n := 9) (by decide +kernel)
  obtain ⟨v, reopened, cleared⟩ := Call.returns_of_value? rest
  have coherent : oneOpenIssue.store.Coherent := by
    intro p
    cases p with
    | issues => decide
    | wisps => decide
  have single : ¬ oneOpenIssue.store.Misjudged "bd-1" close := Store.not_misjudged (by decide)
  have first : ReflTransGen StatusStep oneOpenIssue u :=
    .single ⟨ctx, .update Store.oneShard "bd-1" close, trivial, single, Or.inl closed⟩
  have second : ReflTransGen StatusStep oneOpenIssue v :=
    first.tail ⟨ctx, .reopen "bd-1", trivial, trivial, Or.inl reopened⟩
  exact ⟨u, v, first, stamped, second, cleared, (closed_at_coherent_along_runs coherent first).1,
    (closed_at_coherent_along_runs coherent second).1⟩

/-- An id with a closed durable row and an open wisp. -/
def closedTwin : ClaimStore where
  store := { rows := fun
               | .issues => ⟨[{ id := "bd-1", status := .closed, closedAt := some 1 }], by decide⟩
               | .wisps => ⟨[{ id := "bd-1", ephemeral := true }], by decide⟩
             deps := fun _ => Table.empty }
  rowLock _ := 0
  leases := Table.empty

/-- The guard reads the durable row, so a new stamp is admitted and lands on the wisp,
which stays open. -/
theorem closed_at_stamped_on_open_wisp : closedTwin.store.Coherent ∧ ∃ v,
    ((ClaimCall.update Store.oneShard "bd-1" { closedAt := some (some 5) }).run
        { freshRowLock := fun _ => 1 } closedTwin).Returns v ∧
      v.store.RowAt (.wisps, "bd-1") (fun r => r.status = .open ∧ r.closedAt = some 5) ∧
        ¬ v.store.Coherent := by
  constructor
  · intro p
    cases p with
    | issues => decide
    | wisps => decide
  · obtain ⟨v, returns, wisp⟩ : ∃ v,
        ((ClaimCall.update Store.oneShard "bd-1" { closedAt := some (some 5) }).run
            { freshRowLock := fun _ => 1 } closedTwin).Returns v ∧
          v.store.RowAt (.wisps, "bd-1") (fun r => r.status = .open ∧ r.closedAt = some 5) :=
      Call.returns_of_value? (n := 9) (by decide +kernel)
    refine ⟨v, returns, wisp, fun coherent => ?_⟩
    obtain ⟨r, found, status, stamp⟩ := Store.rowAt_iff.mp wisp
    have here := (Store.coherent_iff.mp coherent _ r found).mp (by rw [stamp]; nofun)
    rw [status] at here
    cases here

end Beads
