import Beads.Interleaving
import Beads.ClaimEffects

/-! Claims from several transactions at once. A transaction on the status or the owner
of an issue either leaves the database as it found it or rewrites the issue's
`row_lock`, so two of them that write never overlap. -/
namespace Beads
open Lib Relation

namespace Store
variable {s t : Store} {id : String}

/-- The id is in the same planes. -/
def SamePlanes (s t : Store) (id : String) : Prop := ∀ p, t.Holds (p, id) ↔ s.Holds (p, id)

theorem SamePlanes.routed (same : SamePlanes s t id) : t.routed id = s.routed id := by
  unfold Store.routed
  congr 1
  exact decide_eq_decide.mpr (same .wisps)

theorem SamePlanes.trans {u : Store} (first : SamePlanes s t id) (second : SamePlanes t u id) :
    SamePlanes s u id :=
  fun p => (second p).trans (first p)

theorem RowUpdated.samePlanes {n : Node} {f : Row → Row} (updated : RowUpdated s t n f) :
    SamePlanes s t id :=
  fun _ => updated.holds

end Store

namespace ClaimStore
variable {w v : ClaimStore} {ctx : ClaimContext} {id : String}

/-- The id is not in both planes. -/
def OnePlane (w : ClaimStore) (id : String) : Prop :=
  ¬ (w.store.Holds (.issues, id) ∧ w.store.Holds (.wisps, id))

private theorem OnePlane.routed (one : w.OnePlane id) (durable : w.store.Holds (.issues, id)) :
    w.store.routed id = .issues := by
  have ephemeral : ¬ w.store.IsActiveWisp id := fun wisp => one ⟨durable, wisp⟩
  simp only [Store.routed, ephemeral, decide_false, Plane.ofWisp, Bool.false_eq_true, if_false]

/-- Nothing has happened, or the issue has the token of the transaction. -/
def Restamped (w v : ClaimStore) (ctx : ClaimContext) (id : String) : Prop :=
  v = w ∨ (v.rowLock (w.store.routed id, id) = ctx.freshRowLock (w.store.routed id, id) ∧
    w.store.SamePlanes v.store id)

private theorem Stamped.restamped {f : Row → Row}
    (stamped : Stamped w v ctx (w.store.routed id, id) f) :
    w.Restamped v ctx id :=
  Or.inr ⟨stamped.token, stamped.row.samePlanes⟩

/-- The stale leases of a reclaim that is scoped to one issue. -/
theorem of_mem_staleLeases {cutoff : Nat} {filter : ReclaimFilter} (ids : filter.ids = [id])
    {stale : String} (listed : stale ∈ w.staleLeases ctx cutoff filter) : stale = id ∧
      w.store.RowAt (.issues, id) (fun r => r.status = .inProgress) ∧
        ∃ l ∈ w.leases, l.issueId = id ∧ l.Reclaimable ctx.nodeId cutoff filter := by
  obtain ⟨l, held, rfl⟩ := List.mem_map.mp listed
  obtain ⟨inside, chosen⟩ := List.mem_filter.mp held
  obtain ⟨reclaimable, r, stored, name, status, clause, -⟩ := of_decide_eq_true chosen
  rw [ids] at clause
  have same : l.issueId = id := by
    rcases clause with never | member
    · cases never
    · exact name.symm.trans (List.mem_singleton.mp (List.mem_filter.mp member).1)
  exact ⟨same, ⟨r, stored, name.trans same, status⟩, l, inside, same, reclaimable⟩

/-- The turn for a stale lease of an issue in progress stamps its row. -/
theorem reclaimIssue_stamped {cutoff : Nat} {filter : ReclaimFilter}
    (inProgress : w.store.RowAt (.issues, id) fun r => r.status = .inProgress)
    (lease : ∃ l ∈ w.leases, l.issueId = id ∧ l.Reclaimable ctx.nodeId cutoff filter) :
    Stamped w (w.reclaimIssue ctx cutoff filter id) ctx (.issues, id) (Row.release ctx.cfg.now) := by
  rcases reclaimIssue_cases w ctx cutoff filter id with same | ⟨-, other | found⟩
  · obtain ⟨l, held, name, reclaimable⟩ := lease
    have kept : l ∈ (w.reclaimIssue ctx cutoff filter id).leases := by rwa [same]
    rw [reclaimIssue, if_pos ⟨l, held, name, reclaimable⟩, if_pos inProgress] at kept
    exact absurd ⟨name, reclaimable⟩ (Table.mem_delete.mp kept).2
  · exact absurd inProgress other.1
  · exact found.2

/-- Further turns for the issue keep the token once it is there. -/
theorem reclaimIssue_token (cutoff : Nat) (filter : ReclaimFilter)
    (token : w.rowLock (.issues, id) = ctx.freshRowLock (.issues, id)) :
    (w.reclaimIssue ctx cutoff filter id).rowLock (.issues, id) = ctx.freshRowLock (.issues, id) ∧
      w.store.SamePlanes (w.reclaimIssue ctx cutoff filter id).store id := by
  rcases reclaimIssue_cases w ctx cutoff filter id with same | ⟨-, ⟨-, store, lock⟩ | ⟨-, stamped⟩⟩
  · rw [same]
    exact ⟨token, fun _ => Iff.rfl⟩
  · rw [lock, store]
    exact ⟨token, fun _ => Iff.rfl⟩
  · exact ⟨stamped.token, stamped.row.samePlanes⟩

/-- A reclaim that is scoped to the issue releases it if its lease is stale, and does
nothing otherwise. -/
theorem reclaimExpiredLeases_restamped {cutoff : Nat} {filter : ReclaimFilter}
    (ids : filter.ids = [id])
    (one : w.OnePlane id) : w.Restamped (w.reclaimExpiredLeases ctx cutoff filter) ctx id := by
  unfold reclaimExpiredLeases
  have listed : ∀ stale ∈ w.staleLeases ctx cutoff filter, _ := fun stale => of_mem_staleLeases ids
  generalize w.staleLeases ctx cutoff filter = stale at listed
  cases stale with
  | nil => exact Or.inl rfl
  | cons first rest =>
    obtain ⟨rfl, inProgress, lease⟩ := listed first List.mem_cons_self
    have durable : w.store.Holds (.issues, first) := by
      obtain ⟨r, stored, name, -⟩ := inProgress
      exact ⟨r, stored, name⟩
    have stamped := reclaimIssue_stamped inProgress lease
    have planes : w.store.SamePlanes (w.reclaimIssue ctx cutoff filter first).store first :=
      stamped.row.samePlanes
    have turn := And.intro stamped.token planes
    have others : ∀ stale ∈ rest, stale = first := fun stale member =>
      (listed stale (List.mem_cons_of_mem first member)).1
    rw [Restamped, one.routed durable, List.foldl_cons]
    refine Or.inr ?_
    generalize w.reclaimIssue ctx cutoff filter first = v at turn
    clear listed stamped planes
    induction rest generalizing v with
    | nil => exact turn
    | cons next rest ih =>
      obtain rfl := others next List.mem_cons_self
      have again := reclaimIssue_token cutoff filter turn.1
      exact ih (fun stale member => others stale (List.mem_cons_of_mem next member)) _
        ⟨again.1, turn.2.trans again.2⟩

end ClaimStore

/-! ## One transaction -/

namespace IssueSession
variable {w v : ClaimStore} {id : String} {session : IssueSession}

private theorem run_restamped (one : w.OnePlane id) (returns : (session.run id w).Returns v) :
    w.Restamped v session.ctx id := by
  obtain ⟨ctx, call⟩ := session
  cases call with
  | claim actor =>
    obtain ⟨old, version, r, -, -, ⟨-, rfl⟩ | ⟨-, stamped, -⟩⟩ :=
      ClaimStore.claimIssue_returns returns
    · exact Or.inl rfl
    · exact stamped.restamped
  | unclaim by_ =>
    obtain ⟨old, version, r, -, -, -, stamped, -⟩ := ClaimStore.unclaimIssue_returns returns
    exact stamped.restamped
  | close reason session =>
    obtain ⟨r, -, ⟨-, rfl⟩ | ⟨-, stamped, -⟩⟩ := ClaimStore.closeIssue_returns returns
    · exact Or.inl rfl
    · exact stamped.restamped
  | reopen =>
    obtain ⟨r, -, ⟨-, rfl⟩ | ⟨-, stamped, -⟩⟩ := ClaimStore.reopenIssue_returns returns
    · exact Or.inl rfl
    · exact stamped.restamped
  | reclaim cutoff filter =>
    rw [← Call.returns_pure.mp returns]
    exact ClaimStore.reclaimExpiredLeases_restamped rfl one
  | update c updates =>
    obtain ⟨old, -, -, ⟨-, rfl⟩ | ⟨stamped, -⟩⟩ := ClaimStore.updateIssue_returns returns
    · exact Or.inl rfl
    · exact stamped.restamped

/-- A claim that finds the issue open takes it. -/
theorem claim_token {actor : String} (claims : session.call = .claim actor)
    (free : w.store.RowAt (w.store.routed id, id) fun r => r.status = .open)
    (returns : (session.run id w).Returns v) :
    v.rowLock (w.store.routed id, id) = session.ctx.freshRowLock (w.store.routed id, id) := by
  obtain ⟨ctx, call⟩ := session
  subst claims
  obtain ⟨r', row', status⟩ := Store.rowAt_iff.mp free
  obtain ⟨old, version, r, -, row, ⟨verdict, -⟩ | ⟨-, stamped, -⟩⟩ :=
    ClaimStore.claimIssue_returns returns
  · obtain rfl := Option.some.inj (row.symm.trans row')
    unfold claimVerdict at verdict
    split at verdict
    · cases verdict
    · split at verdict
      · next mine => exact nomatch mine.2.symm.trans status
      · cases verdict
  · exact stamped.token

end IssueSession

/-! ## Interleavings -/

section
variable {ι : Type} [DecidableEq ι] {w : ClaimStore} {id : String} {calls : ι → IssueSession}

omit [DecidableEq ι] in
private theorem issueSessions_versioned (one : w.OnePlane id) :
    Versioned ClaimStore.cells (fun i => (calls i).run id) (fun v => w.store.SamePlanes v.store id)
      (fun v => v.rowLock (w.store.routed id, id))
      (fun i => (calls i).ctx.freshRowLock (w.store.routed id, id)) := by
  have effect : ∀ {i : ι} {u v : ClaimStore}, w.store.SamePlanes u.store id →
      ((calls i).run id u).Returns v →
      u.Restamped v (calls i).ctx id := by
    intro i u v planes returns
    refine IssueSession.run_restamped (fun both => one ?_) returns
    exact ⟨(planes .issues).mp both.1, (planes .wisps).mp both.2⟩
  constructor
  · intro i u v planes returns
    rcases effect planes returns with rfl | ⟨-, same⟩
    · exact planes
    · exact planes.trans same
  · intro i u v planes returns
    rw [← planes.routed]
    exact (effect planes returns).imp_right And.left
  · exact fun left right differ => ⟨.rowLock (w.store.routed id, id), left, right, differ⟩

/-- Transactions on one issue, in any interleaving: what is committed is the result of
running the committed transactions one after another, in an order that keeps those that
wrote the row in the order of their commits; and two claims that were committed and
found the issue open and unassigned have found different versions of it. -/
theorem issue_transactions_serializable (one : w.OnePlane id)
    (fresh : ∀ i, (calls i).ctx.freshRowLock (w.store.routed id, id) ≠ w.rowLock (w.store.routed id, id))
    (distinct : Function.Injective fun i => (calls i).ctx.freshRowLock (w.store.routed id, id))
    {h : History ι ClaimStore} (reached : ClaimStore.cells.Reached (fun i => (calls i).run id) w h) :
    (∃ order : List ι, order.Perm (h.log.map Commit.who) ∧
        ((h.written fun v => v.rowLock (w.store.routed id, id)).map Commit.who).Sublist order ∧
          Serial (fun i => (calls i).run id) order w h.current) ∧
      ∀ c ∈ h.log, ∀ d ∈ h.log, ∀ actor other, c.who ≠ d.who → (calls c.who).call = .claim actor →
        (calls d.who).call = .claim other →
        (c.base.store.RowAt (w.store.routed id, id) fun r => r.status = .open ∧ r.assignee = "") →
        (d.base.store.RowAt (w.store.routed id, id) fun r => r.status = .open ∧ r.assignee = "") →
          c.base.rowLock (w.store.routed id, id) ≠ d.base.rowLock (w.store.routed id, id) := by
  obtain ⟨order, ordered⟩ :=
    (issueSessions_versioned one).serializable (fun _ => Iff.rfl) fresh distinct reached
  refine ⟨⟨order, ordered.perm, ordered.writers, ordered.serial⟩, ?_⟩
  have obtained : ∀ c ∈ h.log, ∀ actor, (calls c.who).call = .claim actor →
      (c.base.store.RowAt (w.store.routed id, id) fun r => r.status = .open ∧ r.assignee = "") →
        c ∈ h.written fun v => v.rowLock (w.store.routed id, id) := by
    intro c held actor claims free
    obtain ⟨planes, returns, unseen⟩ := ordered.ran c held
    refine List.mem_filter.mpr ⟨held, decide_eq_true fun same => unseen (same.symm.trans ?_)⟩
    rw [← planes.routed] at free ⊢
    obtain ⟨r, stored, name, status, -⟩ := free
    exact IssueSession.claim_token claims ⟨r, stored, name, status⟩ returns
  intro c held d held' actor other apart claims claims' free free' same
  have unique := List.inj_on_of_nodup_map ordered.versions (obtained c held actor claims free)
    (obtained d held' other claims' free') same
  exact apart (congrArg Commit.who unique)

end

/-- A store whose one issue is in the given state. -/
def oneIssueIn (r : Row) : ClaimStore where
  store := { rows := fun | .issues => ⟨[r], List.nodup_singleton _⟩ | .wisps => Table.empty
             deps := fun _ => Table.empty }
  rowLock _ := 0
  leases := Table.empty

private theorem oneIssueIn_onePlane (r : Row) (id : String) : (oneIssueIn r).OnePlane id := by
  rintro ⟨-, r', held, -⟩
  exact List.not_mem_nil held

/-- Two transactions with tokens of their own. -/
def tokenSessions (first second : IssueCall) : Bool → IssueSession
  | false => ⟨{ freshRowLock := fun _ => 1 }, first⟩
  | true => ⟨{ freshRowLock := fun _ => 2 }, second⟩

/-- A close starts on a closed issue and finds nothing to do; before it commits, a
reopen commits. In the order of the commits the close would close the issue again. -/
theorem issue_transactions_not_in_commit_order :
    ∃ h, ClaimStore.cells.Reached (fun i => (tokenSessions (.close "" "") .reopen i).run "bd-1")
        (oneIssueIn { id := "bd-1", status := .closed, closedAt := some 1 }) h ∧
      h.log.map Commit.who = [true, false] ∧
      h.current.store.status? (.issues, "bd-1") = some .open ∧
      ∃ v, Serial (fun i => (tokenSessions (.close "" "") .reopen i).run "bd-1") (h.log.map Commit.who)
          (oneIssueIn { id := "bd-1", status := .closed, closedAt := some 1 }) v ∧
        v.store.status? (.issues, "bd-1") = some .closed := by
  let w := oneIssueIn { id := "bd-1", status := .closed, closedAt := some 1 }
  let calls := tokenSessions (.close "" "") .reopen
  obtain ⟨u, reopened, status, again⟩ : ∃ u, ((calls true).run "bd-1" w).Returns u ∧
      u.store.status? (.issues, "bd-1") = some .open ∧
        ∃ v ∈ ((calls false).run "bd-1" u).value? 3, v.store.status? (.issues, "bd-1") = some .closed :=
    Call.returns_of_value? (n := 3) (by decide +kernel)
  obtain ⟨v, closed, last⟩ := Call.returns_of_value? again
  have quiet : ((calls false).run "bd-1" w).Returns w := by
    obtain ⟨x, returns, -⟩ : ∃ x, ((calls false).run "bd-1" w).Returns x ∧
        x.store.status? (.issues, "bd-1") = some .closed := Call.returns_of_value? (n := 3) (by decide +kernel)
    obtain ⟨r, row, ⟨-, rfl⟩ | ⟨status, -⟩⟩ := ClaimStore.closeIssue_returns returns
    · exact returns
    · obtain rfl := Option.some.inj (row.symm.trans rfl)
      exact absurd rfl status
  let h₁ : History Bool ClaimStore := (History.fresh w).enter false (.running w 0)
  let h₂ := h₁.enter true (.running w 0)
  let h₃ := h₂.commit ⟨⟨w, u⟩, true, 0⟩ u
  let h₄ := h₃.commit ⟨⟨w, w⟩, false, 0⟩ (ClaimStore.cells.merge w w u)
  have start₁ : ClaimStore.cells.Step (fun i => (calls i).run "bd-1") (.fresh w) h₁ :=
    .start false rfl
  have start₂ : ClaimStore.cells.Step (fun i => (calls i).run "bd-1") h₁ h₂ := .start true rfl
  have commit₁ : ClaimStore.cells.Step (fun i => (calls i).run "bd-1") h₂ h₃ :=
    have running : h₂.turn true = .running w 0 := rfl
    .commit true running reopened fun _ held => nomatch held
  have commit₂ : ClaimStore.cells.Step (fun i => (calls i).run "bd-1") h₃ h₄ :=
    have running : h₃.turn false = .running w 0 := rfl
    .commit false running quiet fun c _ collide => by
      obtain ⟨k, wrote, -⟩ := collide
      exact wrote rfl
  have current : h₄.current = u := ClaimStore.cells.merge_kept w u
  refine ⟨h₄, (((ReflTransGen.single start₁).tail start₂).tail commit₁).tail commit₂, rfl, ?_, v,
    ?_, last⟩
  · rw [current]
    exact status
  · exact ⟨u, reopened, v, closed, rfl⟩

/-- Two claims of an open issue start together; the second one collides. -/
theorem issue_transactions_serializable_claims :
    ∃ h, ClaimStore.cells.Reached (fun i => (tokenSessions (.claim "ada") (.claim "bob") i).run "bd-1")
        (oneIssueIn { id := "bd-1" }) h ∧
      (∀ i, h.turn i = .ended) ∧ h.log.map Commit.who = [false] ∧
      ∃ order, order.Perm (h.log.map Commit.who) ∧
        Serial (fun i => (tokenSessions (.claim "ada") (.claim "bob") i).run "bd-1") order
          (oneIssueIn { id := "bd-1" }) h.current := by
  let w := oneIssueIn { id := "bd-1" }
  let calls := tokenSessions (.claim "ada") (.claim "bob")
  obtain ⟨u, claimed, -⟩ : ∃ u, ((calls false).run "bd-1" w).Returns u ∧
      u.store.status? (.issues, "bd-1") = some .inProgress := Call.returns_of_value? (n := 3) (by decide +kernel)
  let h₁ : History Bool ClaimStore := (History.fresh w).enter false (.running w 0)
  let h₂ := h₁.enter true (.running w 0)
  let h₃ := h₂.commit ⟨⟨w, u⟩, false, 0⟩ u
  have start₁ : ClaimStore.cells.Step (fun i => (calls i).run "bd-1") (.fresh w) h₁ :=
    .start false rfl
  have start₂ : ClaimStore.cells.Step (fun i => (calls i).run "bd-1") h₁ h₂ := .start true rfl
  have commit₁ : ClaimStore.cells.Step (fun i => (calls i).run "bd-1") h₂ h₃ :=
    have running : h₂.turn false = .running w 0 := rfl
    .commit false running claimed fun _ held => nomatch held
  have refused : ClaimStore.cells.Step (fun i => (calls i).run "bd-1") h₃ (h₃.enter true .ended) :=
    have running : h₃.turn true = .running w 0 := rfl
    .abandon true running
  have reached := (((ReflTransGen.single start₁).tail start₂).tail commit₁).tail refused
  obtain ⟨⟨order, perm, -, serial⟩, -⟩ :=
    issue_transactions_serializable (oneIssueIn_onePlane _ "bd-1")
    (by decide) (by decide) reached
  refine ⟨_, reached, ?_, rfl, order, perm, serial⟩
  intro i
  cases i <;> rfl

end Beads
