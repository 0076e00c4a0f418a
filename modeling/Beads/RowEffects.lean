import Beads.PersistenceProofs
import Beads.ReplayProofs
import Beads.Leases

/-! What an accepted operation does to the rows, their flags apart. Most operations
write one row and leave the others as they are. -/
namespace Beads
open Lib

namespace Store
variable {s t u : Store} {n m : Node} {id : String}

/-- The stores have the same row, or both none, apart from the flag. -/
def SameRow (s t : Store) (n : Node) : Prop :=
  (t.row? n).map Row.unflagged = (s.row? n).map Row.unflagged

theorem SameRow.refl (s : Store) (n : Node) : SameRow s s n := rfl

theorem SameRow.trans (first : SameRow s t n) (second : SameRow t u n) : SameRow s u n :=
  Eq.trans second first

theorem SameRow.of_row (same : t.row? n = s.row? n) : SameRow s t n :=
  congrArg (Option.map Row.unflagged) same

theorem SameRow.of_rows (same : t.rows = s.rows) (n : Node) : SameRow s t n :=
  .of_row (by rw [row?, row?, same])

/-- Whatever is read of a row besides its flag. -/
theorem SameRow.read (same : SameRow s t n) {α : Type} {f : Row → α}
    (blind : ∀ r, f r.unflagged = f r) : (t.row? n).map f = (s.row? n).map f := by
  have through : ∀ v : Store, (v.row? n).map f = ((v.row? n).map Row.unflagged).map f := fun v => by
    rw [Option.map_map]
    exact congrArg (Option.map · (v.row? n)) (funext fun r => (blind r).symm)
  rw [through t, through s, same]

/-- One row is written, and the flags of any rows. -/
structure RowUpdated (s t : Store) (n : Node) (f : Row → Row) : Prop where
  others : ∀ m, m ≠ n → SameRow s t m
  here : (t.row? n).map Row.unflagged = (s.row? n).map (Row.unflagged ∘ f)

section Written
variable {f : Row → Row} {keeps : ∀ r, (f r).id = r.id}

theorem RowUpdated.read (updated : RowUpdated s t n f) {α : Type} {g : Row → α}
    (blind : ∀ r, g r.unflagged = g r) : (t.row? n).map g = (s.row? n).map (g ∘ f) := by
  have through : ∀ (o : Option Row), o.map g = (o.map Row.unflagged).map g := fun o => by
    rw [Option.map_map]
    exact congrArg (Option.map · o) (funext fun r => (blind r).symm)
  rw [through, updated.here, Option.map_map]
  exact congrArg (Option.map · (s.row? n)) (funext fun r => blind (f r))

theorem updateRow_updated : RowUpdated s (s.updateRow n f keeps) n f where
  others m other := .of_row (by rw [row?_updateRow, if_neg other])
  here := by rw [row?_updateRow, if_pos rfl, Option.map_map]

theorem RowUpdated.sameRows (updated : RowUpdated s t n f) (rest : ∀ m, SameRow t u m) :
    RowUpdated s u n f where
  others m other := (updated.others m other).trans (rest m)
  here := Eq.trans (rest n) updated.here

private theorem RowUpdated.of_rows (updated : RowUpdated t u n f) (same : t.rows = s.rows) :
    RowUpdated s u n f where
  others m other := (SameRow.of_rows same m).trans (updated.others m other)
  here := by
    rw [updated.here, row?, row?, same]

end Written

theorem recomputeIsBlocked_sameRow {ids : IDs} (returns : (recomputeIsBlocked ids s).Returns t)
    (m : Node) :
    SameRow s t m :=
  unflagged_of_cleared (recomputeIsBlocked_cleared returns) m

/-! ## Status changes -/

theorem closeIssue_returns {cfg : Config} {reason session : String}
    (returns : (s.closeIssue cfg id reason session).Returns t) :
    ∃ r, s.row? (s.routed id, id) = some r ∧ ((r.status = .closed ∧ t = s) ∨
      (r.status ≠ .closed ∧ RowUpdated s t (s.routed id, id) fun r =>
        { r with status := .closed, closedAt := some cfg.now, updatedAt := cfg.now,
                 closeReason := reason, closedBySession := session })) := by
  unfold closeIssue at returns
  extract_lets n affected at returns
  split at returns
  · exact absurd returns Call.not_returns_throw
  · next r found =>
    refine ⟨r, found, ?_⟩
    split at returns
    · next closed => exact Or.inl ⟨closed, (Call.returns_pure.mp returns).symm⟩
    · next open_ =>
      exact Or.inr ⟨open_, updateRow_updated.sameRows (recomputeIsBlocked_sameRow returns)⟩

theorem reopenIssue_returns {cfg : Config} (returns : (s.reopenIssue cfg id).Returns t) :
    ∃ r, s.row? (s.routed id, id) = some r ∧ ((cfg.category r.status ≠ .done ∧ t = s) ∨
      (cfg.category r.status = .done ∧ RowUpdated s t (s.routed id, id) fun r =>
        { r with status := .open, closedAt := none, closeReason := "", closedBySession := "",
                 deferUntil := none, updatedAt := cfg.now })) := by
  unfold reopenIssue at returns
  extract_lets n at returns
  split at returns
  · exact absurd returns Call.not_returns_throw
  · next r found =>
    refine ⟨r, found, ?_⟩
    split at returns
    · next other => exact Or.inl ⟨other, (Call.returns_pure.mp returns).symm⟩
    · next done =>
      exact Or.inr ⟨not_not.mp done,
        updateRow_updated.sameRows (recomputeIsBlocked_sameRow returns)⟩

private theorem writeUpdates_returns {cfg : Config} {old : Row} {u : IssueUpdates}
    (returns : (s.writeUpdates cfg n old u).Returns t) : RowUpdated s t n (u.apply cfg old) := by
  unfold writeUpdates at returns
  extract_lets written at returns
  split at returns
  · rw [← Call.returns_pure.mp returns]
    exact updateRow_updated
  · split at returns
    · rw [← Call.returns_pure.mp returns]
      exact updateRow_updated
    · exact updateRow_updated.sameRows (recomputeIsBlocked_sameRow returns)

/-- An accepted update has passed the coherence guard; it writes what is left after
the no-op filter, if anything is. -/
theorem updateIssue_returns {cfg : Config} {c : Coordinator} {updates : IssueUpdates}
    (returns : (s.updateIssue cfg c id updates).Returns t) :
    ∃ old, (s.issue? id >>= s.row?) = some old ∧
      (updates.validateClosedAtCoherence old).Returns () ∧
      ((updates.discardNoop old = {} ∧ t = s) ∨ (updates.discardNoop old ≠ {} ∧
        RowUpdated s t (s.routed id, id) ((updates.discardNoop old).apply cfg old))) := by
  unfold updateIssue at returns
  split at returns
  · exact absurd returns Call.not_returns_throw
  · next old found =>
    obtain ⟨⟨⟩, coherent, rest⟩ := Call.returns_bind.mp returns
    refine ⟨old, found, coherent, ?_⟩
    extract_lets u at rest
    split at rest
    · next nothing => exact Or.inl ⟨nothing, (Call.returns_pure.mp rest).symm⟩
    · next something =>
      refine Or.inr ⟨something, ?_⟩
      have finish : ∀ v : Store, v.rows = s.rows → (do
          u.validateScalar cfg
          if ∃ name ∈ u.other, name ∉ IssueUpdates.allowedOther then throw Err.invalidField
          v.writeUpdates cfg (s.routed id, id) old u).Returns t →
            RowUpdated s t (s.routed id, id) (u.apply cfg old) := by
        intro v same written
        obtain ⟨_, -, written⟩ := Call.returns_bind.mp written
        split at written
        · obtain ⟨_, refused, -⟩ := Call.returns_bind.mp written
          exact absurd refused Call.not_returns_throw
        · exact (writeUpdates_returns written).of_rows same
      split at rest
      · obtain ⟨checked, policy, rest⟩ := Call.returns_bind.mp rest
        exact finish checked (enforceClosePolicy_settles.of_returns policy).1 rest
      · obtain ⟨checked, same, rest⟩ := Call.returns_bind.mp rest
        obtain rfl := Call.returns_pure.mp same
        exact finish _ rfl rest

/-! ## Creates -/

/-- What an insert or upsert leaves of the rows. -/
theorem insertIssueIfNew_returns {opts : BatchCreateOptions} {p : Plane} {issue : Row}
    {stale : Bool} (returns : (s.insertIssueIfNew opts p issue).Returns (t, stale)) :
    (¬ s.Holds (p, issue.id) ∧ stale = false ∧ (∀ m, m ≠ (p, issue.id) → t.row? m = s.row? m) ∧
        t.row? (p, issue.id) =
          some { issue with isBlocked := false, storageClass := issue.storageClass.normalize }) ∨
      (s.Holds (p, issue.id) ∧ t = s) ∨
      (s.Holds (p, issue.id) ∧ stale = false ∧ RowUpdated s t (p, issue.id) (issueUpsertAssignments opts issue)) := by
  unfold insertIssueIfNew at returns
  split at returns
  · next fresh =>
    obtain ⟨rfl, rfl⟩ := Prod.mk.inj (Call.returns_pure.mp returns)
    have absent : ¬ s.Holds (p, issue.id) := by
      rintro ⟨r, held, same⟩
      exact fresh r held same
    refine Or.inl ⟨absent, rfl, fun m other => ?_, ?_⟩
    · refine Option.ext fun r => ?_
      rw [row?_eq_some, row?_eq_some, mem_insertRow]
      refine and_congr_left fun same => or_iff_left ?_
      rintro ⟨plane, rfl⟩
      exact other (Prod.ext plane same.symm)
    · exact row?_eq_some.mpr ⟨mem_insertRow.mpr (Or.inr ⟨rfl, rfl⟩), rfl⟩
  · next taken =>
    have held : s.Holds (p, issue.id) := by
      by_contra absent
      exact taken fun r inside same => absent ⟨r, inside, same⟩
    refine Or.inr ?_
    split at returns
    · exact Or.inl ⟨held, (Prod.mk.inj (Call.returns_pure.mp returns)).1.symm⟩
    · split at returns
      · exact absurd returns Call.not_returns_throw
      · split at returns
        · exact Or.inl ⟨held, (Prod.mk.inj (Call.returns_pure.mp returns)).1.symm⟩
        · obtain ⟨rfl, rfl⟩ := Prod.mk.inj (Call.returns_pure.mp returns)
          exact Or.inr ⟨held, rfl, updateRow_updated⟩

end Store

/-- A row has a `closed_at` exactly when its status is the literal closed one. -/
def Row.Coherent (r : Row) : Prop := r.closedAt ≠ none ↔ r.status = .closed

instance (r : Row) : Decidable r.Coherent := inferInstanceAs (Decidable (_ ↔ _))

private theorem validateWithCustom_coherent {cfg : Config} {invalid : Option String} {issue : Row}
    (valid : validateWithCustom cfg invalid issue = .ok ()) : issue.Coherent := by
  have guard : ∀ {p : Prop} [Decidable p] {e : Err} {rest : PUnit → Except Err Unit}
      {next : Except Err Unit},
      (if p then throw e >>= rest else next) = .ok () → ¬ p ∧ next = .ok () := by
    intro p _ e rest next passed
    split at passed
    · cases passed
    · next fails => exact ⟨fails, passed⟩
  unfold validateWithCustom at valid
  cases invalid with
  | some message => cases valid
  | none =>
    obtain ⟨-, valid⟩ := guard valid
    obtain ⟨-, valid⟩ := guard valid
    obtain ⟨stamped, valid⟩ := guard valid
    obtain ⟨unstamped, -⟩ := guard valid
    constructor
    · exact fun some => by_contra fun open_ => unstamped ⟨open_, some⟩
    · exact fun closed none => stamped ⟨closed, none⟩

/-- A row that is ready for insert is coherent and is in the plane it came for. -/
theorem prepareIssueForInsert_spec {cfg : Config} {invalid : Option String} {issue prepared : Row}
    (ready : prepareIssueForInsert cfg invalid issue = .ok prepared) :
    prepared.Coherent ∧ prepared.ephemeral = issue.ephemeral ∧
      prepared.noHistory = issue.noHistory ∧
      prepared.status = issue.status ∧ prepared.assignee = issue.assignee := by
  unfold prepareIssueForInsert at ready
  extract_lets createdAt updatedAt closedAt row at ready
  cases valid : validateWithCustom cfg invalid row with
  | error e =>
    rw [valid] at ready
    cases ready
  | ok _ =>
    rw [valid] at ready
    obtain rfl := Except.ok.inj ready
    exact ⟨validateWithCustom_coherent valid, rfl, rfl, rfl, rfl⟩

namespace Store
variable {s t u : Store} {n m : Node} {id : String}

/-- The rows after one create: nothing happens, or the row of the new issue is
inserted or overwritten. -/
theorem createIssue_returns {ctx : BatchContext} {issue : NewIssue} {accepted : Option NewIssue}
    (returns : (s.createIssue ctx issue).Returns (t, accepted)) :
    ∃ created : NewIssue, created.plane = issue.plane ∧ created.row.Coherent ∧
      (∀ other, accepted = some other → other = created) ∧ (t = s ∨
        (¬ s.Holds (created.plane.sibling, created.row.id) ∧ accepted = some created ∧
          ((¬ s.Holds created.node ∧ (∀ m, m ≠ created.node → t.row? m = s.row? m) ∧
              t.row? created.node = some { created.row with
                isBlocked := false, storageClass := created.row.storageClass.normalize }) ∨
            (s.Holds created.node ∧
              RowUpdated s t created.node (issueUpsertAssignments ctx.opts created.row))))) := by
  obtain ⟨prepared, ready, rest⟩ := Call.returns_bind.mp returns
  obtain ⟨id, assigned, rest⟩ := Call.returns_bind.mp rest
  obtain ⟨coherent, ephemeral, noHistory, -⟩ :=
    prepareIssueForInsert_spec (Call.ends_ofExcept.unique ready)
  extract_lets created insert checked at rest
  have plane : created.plane = issue.plane := by
    simp only [NewIssue.plane, NewIssue.isWisp, created, ephemeral, noHistory]
  refine ⟨created, plane, coherent, ?_⟩
  obtain ⟨-, rest⟩ := Call.returns_guard rest
  simp only [checked] at rest
  split at rest
  · split at rest
    · obtain ⟨rfl, rfl⟩ := Prod.mk.inj (Call.returns_pure.mp rest)
      exact ⟨fun other same => (Option.some.inj same).symm, Or.inl rfl⟩
    · obtain ⟨_, refused, -⟩ := Call.returns_bind.mp rest
      exact absurd refused Call.not_returns_throw
  · next free =>
    obtain ⟨⟨written, stale⟩, wrote, rest⟩ := Call.returns_bind.mp rest
    obtain ⟨rfl, rfl⟩ := Prod.mk.inj (Call.returns_pure.mp rest)
    rw [← plane] at wrote free
    refine ⟨fun other same => ?_, ?_⟩
    · cases stale with
      | true => cases same
      | false => exact (Option.some.inj same).symm
    · rcases insertIssueIfNew_returns wrote with
        ⟨absent, rfl, others, here⟩ | ⟨-, rfl⟩ | ⟨held, rfl, updated⟩
      · exact Or.inr ⟨free, rfl, Or.inl ⟨absent, others, here⟩⟩
      · exact Or.inl rfl
      · exact Or.inr ⟨free, rfl, Or.inr ⟨held, updated⟩⟩

theorem persistDependencies_rows {c : Coordinator} {opts : BatchCreateOptions}
    {issues : List NewIssue} {persisted : List PersistedDependency}
    (returns : (s.persistDependencies c opts issues).Returns (t, persisted)) : t.rows = s.rows :=
  (persistDependencies_settles.of_returns returns).rows

/-! ## Deletes, and moves between the planes -/

/-- An id that only one plane has is routed there. -/
theorem routed_of_alone (held : s.Holds n) (alone : ¬ s.Holds (n.1.sibling, n.2)) :
    s.routed n.2 = n.1 := by
  obtain ⟨p, id⟩ := n
  unfold routed IsActiveWisp Plane.ofWisp
  cases p with
  | issues => simp [show ¬ s.Holds (.wisps, id) from alone]
  | wisps => simp [held]

theorem deleteIssue_others (returns : (s.deleteIssue id).Returns t)
    (other : m ≠ (s.routed id, id)) :
    SameRow s t m := by
  obtain ⟨u, deleted, rest⟩ := Call.returns_bind.mp returns
  exact (SameRow.of_row ((deleteIssueRow_removed deleted).2.kept m other)).trans
    (recomputeIsBlocked_sameRow rest m)

private theorem deleteResolvedSet_others {set : IDs} (returns : (s.deleteResolvedSet set).Returns t)
    (other : m.2 ∉ set m.1) : SameRow s t m := by
  unfold deleteResolvedSet at returns
  split at returns
  · rw [← Call.returns_pure.mp returns]
    exact .refl s m
  · extract_lets affected at returns
    obtain ⟨u, wisps, rest⟩ := Call.returns_bind.mp returns
    have first := (deleteWisps_removed wisps).1.kept m
    have second := (deleteBatches_removed (s := u) (batches deleteBatchSize (set .issues))).kept m
    have positive : 0 < deleteBatchSize := by decide
    refine ((SameRow.of_row (first ?_)).trans (.of_row (second ?_))).trans
      (recomputeIsBlocked_sameRow rest m)
    · rintro ⟨plane, inside⟩
      exact other (plane ▸ inside)
    · rintro ⟨plane, inside, -⟩
      exact other (plane ▸ (mem_batches positive).mp inside)

/-- A request that deletes something deletes the set it resolves. -/
theorem deleteIssues_resolved {ids : List String} {cascade force dryRun : Bool}
    (returns : (s.deleteIssues ids cascade force dryRun).Returns t) :
    ((ids = [] ∨ dryRun = true) ∧ t = s) ∨ (¬ (ids = [] ∨ dryRun = true) ∧ ∃ set,
      (s.resolveDeletionSet ids cascade).Returns set ∧ (s.deleteResolvedSet set).Returns t) := by
  unfold deleteIssues at returns
  split at returns
  · next none => exact Or.inl ⟨Or.inl none, (Call.returns_pure.mp returns).symm⟩
  · next some =>
    obtain ⟨set, resolved, rest⟩ := Call.returns_bind.mp returns
    extract_lets last at rest
    have tail : (last ()).Returns t := by
      split at rest
      · split at rest
        · obtain ⟨_, refused, -⟩ := Call.returns_bind.mp rest
          exact absurd refused Call.not_returns_throw
        · exact rest
      · exact rest
    simp only [last] at tail
    split at tail
    · next dry => exact Or.inl ⟨Or.inr dry, (Call.returns_pure.mp tail).symm⟩
    · next wet => exact Or.inr ⟨fun either => either.elim some wet, set, resolved, tail⟩

theorem deleteIssues_returns {ids : List String} {cascade force dryRun : Bool}
    (returns : (s.deleteIssues ids cascade force dryRun).Returns t) :
    ((ids = [] ∨ dryRun = true) ∧ t = s) ∨ (¬ (ids = [] ∨ dryRun = true) ∧ ∃ set,
      (s.resolveDeletionSet ids cascade).Returns set ∧ ∀ m :
      Node, m.2 ∉ set m.1 → SameRow s t m) := by
  refine (deleteIssues_resolved returns).imp_right fun ⟨real, set, resolved, deleted⟩ => ?_
  exact ⟨real, set, resolved, fun m other => deleteResolvedSet_others deleted other⟩

/-- The last steps of every move: the edges onto the row follow it and the old row is
deleted. -/
theorem relocate_others {source target : Plane} {moved : Store}
    (retargeted : ((s.deleteOutgoing source id).retargetInbound source target id).Returns moved)
    (returns : (recomputeIsBlocked ((moved.deleteRows source [id]).affectedByStatusChange (target, id))
      (moved.deleteRows source [id])).Returns t) (other : m ≠ (source, id)) : SameRow s t m := by
  have rows : moved.rows = s.rows := (retargetInbound_settles.of_returns retargeted).1
  have out : m ∉ nodes source [id] := fun inside =>
    other (Prod.ext inside.1 (List.mem_singleton.mp inside.2))
  have kept := (deleteRows_deleted (s := moved) source [id]).kept m out
  exact ((SameRow.of_rows rows m).trans (.of_row kept)).trans (recomputeIsBlocked_sameRow returns m)

theorem foldl_insertDepIgnore_rows (p : Plane) (l : List Dep) :
    (l.foldl (fun t d => t.insertDepIgnore p d) s).rows = s.rows := by
  induction l generalizing s with
  | nil => rfl
  | cons d rest ih =>
    rw [List.foldl_cons, ih, insertDepIgnore]
    split
    · rfl
    · rfl

private theorem movePlane_others {source target : Plane} (move : Row)
    (returns : (s.movePlane source target move).Returns t) :
    ¬ s.Holds (target, move.id) ∧ ∀ m : Node, m.2 ≠ move.id → SameRow s t m := by
  obtain ⟨inserted, insert, rest⟩ := Call.returns_bind.mp returns
  obtain ⟨copied, copy, rest⟩ := Call.returns_bind.mp rest
  obtain ⟨edges, inserts, copy⟩ := Call.returns_bind.mp copy
  obtain rfl := Call.returns_pure.mp copy
  obtain ⟨moved, retargeted, last⟩ := Call.returns_bind.mp rest
  have rows : edges.rows = inserted.rows := ((insertDeps_settles _).of_returns inserts).1.rows
  refine ⟨?_, fun m other => ?_⟩
  · rintro ⟨r, held, same⟩
    unfold insertIssueStrict at insert
    split at insert
    · next fresh => exact fresh r held same
    · exact Call.not_returns_throw insert
  · have kept := (insertIssueStrict_settles.of_returns insert).2 m other
    have apart : m ≠ (source, move.id) := fun same => other (congrArg Prod.snd same)
    exact ((SameRow.of_row kept).trans (.of_rows rows m)).trans
      (relocate_others retargeted last apart)

/-- A move within the plane writes flags of the row; a move to the other plane goes
to a free place. -/
theorem moveIssuePersistence_returns {current : Row} {mode : PersistenceMode} {retained : Bool}
    (returns : (s.moveIssuePersistence current mode retained).Returns t) :
    ∃ ephemeral noHistory storageClass,
      normalizePersistenceMode current mode = .ok (ephemeral, noHistory, storageClass) ∧
      ((s.routed current.id = .ofWisp (ephemeral || noHistory) ∧ (t = s ∨
          RowUpdated s t (s.routed current.id, current.id) fun r => { r with
            ephemeral := ephemeral, noHistory := noHistory,
              storageClass := storageClass.normalize })) ∨
        (s.routed current.id ≠ .ofWisp (ephemeral || noHistory) ∧
          ¬ s.Holds (.ofWisp (ephemeral || noHistory), current.id) ∧
            ∀ m : Node, m.2 ≠ current.id → SameRow s t m)) := by
  unfold moveIssuePersistence at returns
  obtain ⟨-, rest⟩ := Call.returns_guard returns
  obtain ⟨⟨ephemeral, noHistory, storageClass⟩, normal, rest⟩ := Call.returns_bind.mp rest
  refine ⟨ephemeral, noHistory, storageClass, Call.ends_ofExcept.unique normal, ?_⟩
  obtain ⟨-, rest⟩ := Call.returns_guard rest
  split at rest
  · next here =>
    refine Or.inl ⟨here, ?_⟩
    split at rest
    · exact Or.inl (Call.returns_pure.mp rest).symm
    · obtain ⟨-, rest⟩ := Call.returns_guard rest
      rw [← Call.returns_pure.mp rest]
      exact Or.inr updateRow_updated
  · next there =>
    obtain ⟨-, rest⟩ := Call.returns_guard rest
    have moved := movePlane_others ({ current with
      ephemeral := ephemeral, noHistory := noHistory, storageClass := storageClass } : Row) rest
    exact Or.inr ⟨there, moved⟩

/-- A promoted row takes a free place, or overwrites a durable row with itself. -/
theorem promoteFromEphemeral_returns {cfg : Config} {invalid : Option String}
    (returns : (s.promoteFromEphemeral cfg invalid id).Returns t) :
    (∀ m : Node, m.2 ≠ id → SameRow s t m) ∧
      (s.Holds (.issues, id) → (t.row? (.issues, id)).map (fun r => (r.status, r.assignee)) =
        (s.row? (.issues, id)).map fun r => (r.status, r.assignee)) := by
  obtain ⟨-, rest⟩ := Call.returns_guard returns
  split at rest
  · exact absurd rest Call.not_returns_throw
  · next issue found =>
    obtain ⟨prepared, ready, rest⟩ := Call.returns_bind.mp rest
    obtain ⟨⟨inserted, stale⟩, insert, rest⟩ := Call.returns_bind.mp rest
    obtain ⟨moved, retargeted, rest⟩ := Call.returns_bind.mp rest
    have ready := Call.ends_ofExcept.unique ready
    obtain ⟨-, -, -, status, assignee⟩ := prepareIssueForInsert_spec ready
    obtain ⟨n, place, row⟩ := Option.bind_eq_some_iff.mp found
    have name : prepared.id = id := by
      rw [(prepareIssueForInsert_eq ready).1]
      exact (row?_eq_some.mp row).2.trans (issue?_id place)
    have copied : ∀ m : Node, m ≠ (.wisps, id) → SameRow inserted t m := fun m apart =>
      (SameRow.of_rows (foldl_insertDepIgnore_rows .issues (inserted.outgoing .wisps id)) m).trans
        (relocate_others retargeted rest apart)
    have wrote := insertIssueIfNew_returns insert
    rw [name] at wrote
    refine ⟨fun m other => ?_, fun held => ?_⟩
    · have apart : ∀ p, m ≠ (p, id) := fun p same => other (congrArg Prod.snd same)
      refine SameRow.trans ?_ (copied m (apart .wisps))
      rcases wrote with ⟨-, -, others, -⟩ | ⟨-, rfl⟩ | ⟨-, -, updated⟩
      · exact .of_row (others m (apart .issues))
      · exact .refl _ m
      · exact updated.others m (apart .issues)
    · have here : s.row? (.issues, id) = some issue := by
        rw [issue?, if_pos held] at place
        cases place
        exact row
      rw [(copied (.issues, id) (by simp)).read (f := fun r => (r.status, r.assignee)) fun _ => rfl]
      rcases wrote with ⟨absent, -⟩ | ⟨-, rfl⟩ | ⟨-, -, updated⟩
      · exact absurd held absent
      · rfl
      · rw [updated.read (g := fun r => (r.status, r.assignee)) fun _ => rfl, here]
        simp only [Option.map_some, Function.comp, issueUpsertAssignments, Bool.false_eq_true,
          false_and, if_false, status, assignee]

end Store
end Beads
