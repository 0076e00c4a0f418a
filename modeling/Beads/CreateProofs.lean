import Beads.SchedulingProofs
import Beads.DeleteProofs
import Beads.Create

/-! What a batch of rows and edges does to the tables. The rows keep every flag
and every edge; the edges pass the cycle check one by one, so they close no
cycle, and what they can change in the flags is in the affected sets. -/
namespace Beads
open Lib Lib.Graph Lib.Propagation Relation

namespace Store
variable {s t u : Store} {p : Plane} {issue : Row}

/-! ## Rows -/

/-- The second store has other rows or other columns, but the same edges and
flags, and no row without an id that was not there. -/
structure RowsCreated (s t : Store) : Prop where
  deps : t.deps = s.deps
  flags : t.flags = s.flags
  named : ∀ p, t.Holds (p, "") → s.Holds (p, "")

namespace RowsCreated

theorem refl (s : Store) : RowsCreated s s := ⟨rfl, rfl, fun _ held => held⟩

private theorem trans (first : RowsCreated s t) (second : RowsCreated t u) : RowsCreated s u :=
  ⟨second.deps.trans first.deps, second.flags.trans first.flags,
    fun p held => first.named p (second.named p held)⟩

end RowsCreated

theorem mem_insertRow {fresh : ∀ r ∈ s.rows p, r.id ≠ issue.id} {q : Plane} {r : Row} :
    r ∈ (s.insertRow p issue fresh).rows q ↔ r ∈ s.rows q ∨
      (q = p ∧ r = { issue with isBlocked := false, storageClass := issue.storageClass.normalize }) := by
  unfold insertRow
  by_cases plane : q = p
  · subst plane
    rw [withRows_rows_self, Table.mem_insert]
    simp only [true_and]
  · rw [withRows_rows_ne s p _ plane]
    simp only [plane, false_and, or_false]

private theorem insertRow_created {fresh : ∀ r ∈ s.rows p, r.id ≠ issue.id}
    (named : issue.id ≠ "") :
    RowsCreated s (s.insertRow p issue fresh) where
  deps := rfl
  flags := by
    ext n
    constructor
    · rintro ⟨r, held, same, flagged⟩
      rcases mem_insertRow.mp held with old | ⟨-, rfl⟩
      · exact ⟨r, old, same, flagged⟩
      · cases flagged
    · rintro ⟨r, old, same, flagged⟩
      exact ⟨r, mem_insertRow.mpr (Or.inl old), same, flagged⟩
  named q := by
    rintro ⟨r, held, same⟩
    rcases mem_insertRow.mp held with old | ⟨-, rfl⟩
    · exact ⟨r, old, same⟩
    · exact absurd same named

private theorem updateRow_created {x : Node} {f : Row → Row} {keeps : ∀ r, (f r).id = r.id}
    (quiet : ∀ r, (f r).isBlocked = r.isBlocked) : RowsCreated s (s.updateRow x f keeps) where
  deps := rfl
  flags := (updateRow_write quiet).flags
  named q := by
    rintro ⟨r, held, same⟩
    obtain ⟨old, stored, rfl⟩ := mem_updateRow.mp held
    refine ⟨old, stored, ?_⟩
    split at same
    · exact (keeps old).symm.trans same
    · exact same

private theorem issueUpsertAssignments_isBlocked (opts : BatchCreateOptions)
    (incoming stored : Row) :
    (issueUpsertAssignments opts incoming stored).isBlocked = stored.isBlocked := by
  unfold issueUpsertAssignments
  split <;> rfl

private theorem insertIssueIfNew_settles {opts : BatchCreateOptions} (named : issue.id ≠ "") :
    (s.insertIssueIfNew opts p issue).Settles fun r => RowsCreated s r.1 := by
  unfold insertIssueIfNew
  split
  · exact Call.settles_pure (insertRow_created named)
  · refine Call.settles_ite (fun _ => Call.settles_pure (.refl s)) fun _ =>
      Call.settles_ite (fun _ => Call.settles_throw) fun _ =>
        Call.settles_ite (fun _ => Call.settles_pure (.refl s)) fun _ => Call.settles_pure ?_
    exact @updateRow_created s _ _ (issueUpsertAssignments_id opts issue)
      (issueUpsertAssignments_isBlocked opts issue)

theorem assignCreateIssueId_named {ctx : BatchContext} {new : NewIssue} {id : String}
    (assigned : s.assignCreateIssueId ctx new = .ok id) : id ≠ "" := by
  unfold assignCreateIssueId at assigned
  split at assigned
  · cases suffix : ctx.idSuffix s new.plane new with
    | error e => rw [suffix] at assigned; cases assigned
    | ok text =>
      rw [suffix] at assigned
      rw [← Except.ok.inj assigned]
      intro empty
      have length := congrArg String.length empty
      have hyphen : "-".length = 1 := rfl
      have none : "".length = 0 := rfl
      simp only [String.length_append] at length
      omega
  · next given =>
    split at assigned
    · exact Except.ok.inj assigned ▸ given
    · cases valid : validateIssueIdPrefix ctx new.row.id with
      | error e => rw [valid] at assigned; cases assigned
      | ok _ => rw [valid] at assigned; exact Except.ok.inj assigned ▸ given

theorem assignCreateIssueId_given {ctx : BatchContext} {new : NewIssue} {id : String}
    (given : new.row.id ≠ "") (assigned : s.assignCreateIssueId ctx new = .ok id) :
    new.row.id = id := by
  rw [assignCreateIssueId, if_neg given] at assigned
  split at assigned
  · cases assigned
    rfl
  · cases valid : validateIssueIdPrefix ctx new.row.id with
    | error e =>
      rw [valid] at assigned
      cases assigned
    | ok _ =>
      rw [valid] at assigned
      cases assigned
      rfl

private theorem createIssue_settles {ctx : BatchContext} {new : NewIssue} :
    (s.createIssue ctx new).Settles fun r => RowsCreated s r.1 := by
  unfold createIssue
  refine Call.settles_bind (Call.settles_ofExcept fun _ prepared => prepared) fun prepared _ => ?_
  refine Call.settles_bind (Call.settles_ofExcept fun _ assigned => assigned) fun id assigned => ?_
  have named := assignCreateIssueId_named assigned
  extract_lets created
  refine Call.settles_guard fun _ => Call.settles_ite (fun _ => ?_) fun _ => ?_
  · refine Call.settles_ite (fun _ => Call.settles_pure (.refl s)) fun _ => ?_
    exact Call.settles_bind Call.settles_throw fun _ (never : False) => never.elim
  · exact Call.settles_bind (insertIssueIfNew_settles named) fun r written => Call.settles_pure
      written

private theorem createRows_settles {ctx : BatchContext} {batch : List NewIssue} :
    (s.createRows ctx batch).Settles fun r => RowsCreated s r.1 := by
  refine Call.settles_foldlM (fun r : Store × List NewIssue => RowsCreated s r.1) batch
    (fun r new _ sofar => ?_) (.refl s)
  exact Call.settles_bind createIssue_settles fun _ step => Call.settles_pure (sofar.trans step)

theorem landBatch_settles {ctx : BatchContext} {batch : List NewIssue} :
    (s.landBatch ctx batch).Settles fun r => RowsCreated s r.1 := by
  unfold landBatch
  exact Call.settles_bind (Call.settles_ofExcept fun _ _ => trivial) fun _ (_ : True) =>
    createRows_settles

/-! ## The rows of a batch over the stored ones -/

/-- A row as the batch hands it to the insert: with the default times, in its
plane, and with a generated id where it came without one. -/
structure Prepared (ctx : BatchContext) (new : NewIssue) (x : Plane × Row) : Prop where
  plane : x.1 = new.plane
  named : x.2.id ≠ ""
  given : new.row.id ≠ "" → x.2.id = new.row.id
  row : prepareIssueForInsert ctx.cfg new.invalid new.row = .ok { x.2 with id := new.row.id }

/-- Where a prepared row is written. -/
def slot (x : Plane × Row) : Node := (x.1, x.2.id)

/-- The store with one more row, or with the columns of an upsert on the stored one. -/
def overlay (opts : BatchCreateOptions) (s : Store) (x : Plane × Row) : Store :=
  if fresh : ∀ r ∈ s.rows x.1, r.id ≠ x.2.id then s.insertRow x.1 x.2 fresh
  else s.updateRow (slot x) (issueUpsertAssignments opts x.2) (issueUpsertAssignments_id opts x.2)

/-- The stale guard rejects the row: the stored one is newer. -/
def Stale (s : Store) (opts : BatchCreateOptions) (x : Plane × Row) : Prop :=
  opts.rejectStaleUpserts = true ∧ s.RowAt (slot x) fun stored => x.2.updatedAt < stored.updatedAt

theorem overlay_of_stale {opts : BatchCreateOptions} {x : Plane × Row} (stale : s.Stale opts x) :
    s.overlay opts x = s := by
  obtain ⟨reject, stored, held, same, newer⟩ := stale
  rw [overlay, dif_neg fun fresh => fresh stored held same, updateRow, Table.update_eq_self,
    withRows, Function.update_eq_self]
  intro r here
  split
  · next id =>
    obtain rfl := Table.eq_of_key here held (id.trans same.symm)
    rw [issueUpsertAssignments, if_pos ⟨reject, newer.le⟩]
  · rfl

private theorem row?_overlay_ne {opts : BatchCreateOptions} {x : Plane × Row} {n : Node}
    (other : n ≠ slot x) : (s.overlay opts x).row? n = s.row? n := by
  unfold overlay
  split
  · refine Option.ext fun r => ?_
    rw [row?_eq_some, row?_eq_some, mem_insertRow]
    refine and_congr_left fun same => or_iff_left ?_
    rintro ⟨plane, rfl⟩
    exact other (Prod.ext plane same.symm)
  · rw [row?_updateRow, if_neg other]

theorem prepareIssueForInsert_eq {cfg : Config} {invalid : Option String} {issue prepared : Row}
    (ready : prepareIssueForInsert cfg invalid issue = .ok prepared) :
    prepared.id = issue.id ∧ prepared.ephemeral = issue.ephemeral ∧
      prepared.noHistory = issue.noHistory := by
  unfold prepareIssueForInsert at ready
  extract_lets createdAt updatedAt closedAt row at ready
  cases valid : validateWithCustom cfg invalid row with
  | error e =>
    rw [valid] at ready
    cases ready
  | ok _ =>
    rw [valid] at ready
    obtain rfl := Except.ok.inj ready
    exact ⟨rfl, rfl, rfl⟩

/-- The rows of a batch in the order of the batch, and which of them are accepted. -/
structure Overlaid (s : Store) (ctx : BatchContext) (batch : List NewIssue)
    (rows : List (Plane × Row)) (t : Store) (accepted : List NewIssue) : Prop where
  prepared : List.Forall₂ (Prepared ctx) batch rows
  named : ∀ x ∈ rows, x.2.id ≠ ""
  store : t = rows.foldl (overlay ctx.opts) s
  nodes : ∀ n, (∃ created ∈ accepted, created.node = n) ↔ ∃ x ∈ rows, slot x = n ∧ ¬ s.Stale ctx.opts x
  edges : ∀ created ∈ accepted, ∃ new ∈ batch, created.dependencies = new.dependencies

private theorem stale_overlay_ne {opts : BatchCreateOptions} {x y : Plane × Row}
    (other : slot y ≠ slot x) : (s.overlay opts x).Stale opts y ↔ s.Stale opts y := by
  rw [Stale, Stale, rowAt_iff, rowAt_iff, row?_overlay_ne other]

/-- A row of the batch in front: it is accepted unless it is stale. -/
private theorem Overlaid.cons {ctx : BatchContext} {new : NewIssue} {rest : List NewIssue}
    {x : Plane × Row} {rows : List (Plane × Row)} {t : Store} {accepted : List NewIssue}
    {created : Option NewIssue} (prepared : Prepared ctx new x)
    (verdict : (s.Stale ctx.opts x ∧ created = none) ∨
      (¬ s.Stale ctx.opts x ∧ ∃ one, created = some one ∧ one.node = slot x ∧
        one.dependencies = new.dependencies))
    (overlaid : Overlaid (s.overlay ctx.opts x) ctx rest rows t accepted) :
    Overlaid s ctx (new :: rest) (x :: rows) t (created.toList ++ accepted) where
  prepared := .cons prepared overlaid.prepared
  named := List.forall_mem_cons.mpr ⟨prepared.named, overlaid.named⟩
  store := overlaid.store
  nodes n := by
    have others := overlaid.nodes n
    rcases verdict with ⟨stale, rfl⟩ | ⟨current, one, rfl, node, -⟩
    · rw [overlay_of_stale stale] at others
      simpa [stale] using others
    · by_cases here : n = slot x
      · subst here
        exact iff_of_true ⟨one, by simp, node⟩ ⟨x, List.mem_cons_self, rfl, current⟩
      · have same : ∀ y, slot y = n →
            ((s.overlay ctx.opts x).Stale ctx.opts y ↔ s.Stale ctx.opts y) :=
          fun y at_n => stale_overlay_ne (at_n ▸ here)
        have away : one.node ≠ n := fun at_n => here (at_n ▸ node)
        have away' : slot x ≠ n := fun at_n => here at_n.symm
        simp only [Option.toList_some, List.singleton_append, List.exists_mem_cons_iff, away,
          away', false_and, false_or, others]
        exact exists_congr fun y => and_congr_right fun _ => and_congr_right fun at_n =>
          not_congr (same y at_n)
  edges one listed := by
    rcases List.mem_append.mp listed with first | later
    · rcases verdict with ⟨-, rfl⟩ | ⟨-, created, rfl, -, same⟩
      · cases first
      · obtain rfl := List.mem_singleton.mp first
        exact ⟨new, List.mem_cons_self, same⟩
    · obtain ⟨issue, held, same⟩ := overlaid.edges one later
      exact ⟨issue, List.mem_cons_of_mem _ held, same⟩

/-- The second store has more edges: those that the list names. None of them
closes a cycle. -/
structure EdgesPersisted (s t : Store) (persisted : List PersistedDependency) : Prop where
  rows : t.rows = s.rows
  kept : ∀ q, ∀ e ∈ s.deps q, e ∈ t.deps q
  new : ∀ q, ∀ e ∈ t.deps q, e ∈ s.deps q ∨
    (s.Holds (q, e.issueId) ∧ ⟨(q, e.issueId), e.target.id, e.type⟩ ∈ persisted)
  named : ∀ x ∈ persisted, x.type = .parentChild → x.target ≠ ""
  acyclic : ∀ types : DependencyType → Prop, (∀ type, types type → type.IsSchedulingEdge) →
    Acyclic (s.Related types) → Acyclic (t.Related types)

variable {persisted : List PersistedDependency} {d : Dep}

theorem EdgesPersisted.refl (s : Store) : EdgesPersisted s s [] where
  rows := rfl
  kept _ _ held := held
  new _ _ held := Or.inl held
  named _ none := (List.not_mem_nil none).elim
  acyclic _ _ acyclic := acyclic

theorem EdgesPersisted.insert (sofar : EdgesPersisted s t persisted) (inserted : Inserted t u p d)
    (source : t.Holds (p, d.issueId)) (named : d.type = .parentChild → d.target.id ≠ "")
    (apart : d.type.IsSchedulingEdge → ¬ ReflTransGen t.Scheduling d.target.id d.issueId) :
    EdgesPersisted s u (persisted ++ [⟨(p, d.issueId), d.target.id, d.type⟩]) where
  rows := inserted.rows.trans sofar.rows
  kept q e held := (inserted.deps q e).mpr (Or.inl (sofar.kept q e held))
  new q e held := by
    rcases (inserted.deps q e).mp held with old | ⟨rfl, rfl⟩
    · exact (sofar.new q e old).imp_right fun ⟨row, member⟩ => ⟨row, List.mem_append_left _ member⟩
    · refine Or.inr ⟨?_, List.mem_append_right _ List.mem_cons_self⟩
      rwa [Holds, ← sofar.rows]
  named x member child := by
    rcases List.mem_append.mp member with old | last
    · exact sofar.named x old child
    · obtain rfl := List.mem_singleton.mp last
      exact named child
  acyclic types sub before := by
    refine inserted.acyclic (sofar.acyclic types sub before) fun chosen reaches => ?_
    refine apart (sub _ chosen) (ReflTransGen.mono ?_ _ _ reaches)
    rintro a b ⟨q, e, held, chosen, key⟩
    exact ⟨q, e, held, sub _ chosen, key⟩

private theorem checkBatchDependency_settles {dep : Dependency} {kind : DepTargetKind} :
    (s.checkBatchDependency dep kind).Settles fun _ =>
      dep.type.IsSchedulingEdge → ¬ ReflTransGen s.Scheduling dep.dependsOnId dep.issueId := by
  unfold checkBatchDependency
  refine Call.settles_when checkBlockingHierarchy_settles fun _ => ?_
  refine checkDependencyCycle_settles.mono fun _ cycle scheduling reaches => ?_
  exact cycle.2 scheduling (wouldCreateSchedulingCycle_iff.mpr reaches)

private theorem persistDependency_settles {c : Coordinator} {opts : BatchCreateOptions}
    {item : Dependency × Plane} (sofar : EdgesPersisted s t persisted) :
    (t.persistDependency c opts persisted item).Settles fun r => EdgesPersisted s r.1 r.2 := by
  unfold persistDependency
  extract_lets dep kind
  have checked : (tryCatch (t.checkBatchDependency dep kind >>= fun _ => pure true) fun e =>
      if opts.skipDependencyValidationErrors = true then pure false else throw e).Settles fun valid =>
        valid = true → dep.type.IsSchedulingEdge →
          ¬ ReflTransGen t.Scheduling dep.dependsOnId dep.issueId := by
    refine Call.settles_tryCatch ?_ fun e => ?_
    · exact Call.settles_bind checkBatchDependency_settles fun _ apart =>
        Call.settles_pure fun _ => apart
    · exact Call.settles_ite (fun _ => Call.settles_pure fun never => nomatch never) fun _ =>
        Call.settles_throw
  refine Call.settles_ite (fun _ => Call.settles_pure sofar) fun _ => ?_
  refine Call.settles_bind checked fun valid apart => ?_
  refine Call.settles_ite (fun _ => Call.settles_pure sofar) fun accepted => ?_
  have apart := apart (Bool.eq_true_of_not_eq_false accepted)
  have resolved : (kind.column dep.dependsOnId).id = dep.dependsOnId := by cases kind <;> rfl
  split
  · exact Call.settles_pure sofar
  · refine Call.settles_bind insertDep_settles fun v ⟨inserted, source, _⟩ => ?_
    have key : ∀ w : Store, w.rows = v.rows → w.deps = v.deps →
        (dep.type = .parentChild → dep.dependsOnId ≠ "") →
        EdgesPersisted s w (persisted ++ [⟨(item.2, dep.issueId), dep.dependsOnId, dep.type⟩]) := by
      intro w rows deps named
      have inserted' : Inserted t w item.2
          ⟨dep.issueId, kind.column dep.dependsOnId, dep.type, dep.metadata⟩ :=
        ⟨rows.trans inserted.rows, fun q e => by rw [deps, inserted.deps]⟩
      have step := sofar.insert inserted' source (by rw [resolved]; exact named)
        (by rw [resolved]; exact apart)
      rwa [resolved] at step
    refine Call.settles_ite (fun child => ?_) fun other => ?_
    · exact Call.settles_bind touchDependencyCoordination_settles fun w ⟨named, rows, deps⟩ =>
        Call.settles_pure (key w rows deps fun _ => named)
    · exact Call.settles_bind (Call.settles_pure (key v rfl rfl fun child => absurd child other))
        fun w done => Call.settles_pure done

theorem persistDependencies_settles {c : Coordinator} {opts : BatchCreateOptions}
    {issues : List NewIssue} :
    (s.persistDependencies c opts issues).Settles fun r => EdgesPersisted s r.1 r.2 := by
  unfold persistDependencies
  extract_lets pending hierarchy others
  exact Call.settles_foldlM (fun r : Store × List PersistedDependency => EdgesPersisted s r.1 r.2) _
    (fun r item _ sofar => persistDependency_settles sofar) (.refl s)

/-- The rows that new edges affect. -/
def affectedByPersisted (s : Store) (persisted : List PersistedDependency) : Set Node :=
  {n | ∃ x ∈ persisted, n ∈ scope (s.affectedByDepChange x.source x.target x.type)}

theorem EdgesPersisted.covers (edges : EdgesPersisted s t persisted) :
    Covers s t (t.affectedByPersisted persisted) where
  status n _ := status?_of_rows edges.rows n
  edges n out e owner affects := by
    refine ⟨fun held => ?_, edges.kept n.1 e⟩
    rcases edges.new n.1 e held with old | ⟨-, member⟩
    · exact old
    · rw [owner] at member
      exact absurd ⟨_, member, (t.affectedByDepChange_spec n e.target.id affects).self⟩ out
  blocker _ _ x _ := status?_of_rows edges.rows x
  spawner _ _ x _ := status?_of_rows edges.rows x
  children n out x waits c := by
    constructor
    · rintro ⟨e, held, owner, child, onto⟩
      rcases edges.new c.1 e held with old | ⟨-, member⟩
      · exact ⟨e, old, owner, child, onto⟩
      · have scope := t.affectedByDepChange_spec (c.1, e.issueId) e.target.id
          (Or.inr (Or.inr child) : e.type.Affects)
        have target : x.2 = e.target.id := by rw [onto]; rfl
        exact absurd ⟨_, member, scope.waiters child (edges.named _ member child) n x target waits⟩
          out
    · rintro ⟨e, held, owner, child, onto⟩
      exact ⟨e, edges.kept c.1 e held, owner, child, onto⟩
  siblings _ _ _ _ c _ := status?_of_rows edges.rows c
  closed n m parent inside := by
    obtain ⟨x, member, affected⟩ := inside
    by_cases affects : x.type.Affects
    · exact ⟨x, member, (t.affectedByDepChange_spec x.source x.target affects).closed n m parent affected⟩
    · rw [t.affectedByDepChange_nil x.source x.target affects] at affected
      exact (List.not_mem_nil affected).elim

theorem writeBatch_settles {ctx : BatchContext} {c : Coordinator} {batch : List NewIssue} :
    (s.writeBatch ctx c batch).Settles fun r => ∃ landed accepted persisted,
      (s.landBatch ctx batch).Returns (landed, accepted) ∧ RowsCreated s landed ∧
        EdgesPersisted landed r.1 persisted ∧
          r.2 = r.1.createBlockedRecomputeIds accepted persisted ∧
        (landed.persistDependencies c ctx.opts accepted).Returns (r.1, persisted) := by
  unfold writeBatch
  refine Call.settles_bind landBatch_settles.returning fun ⟨landed, accepted⟩ ⟨returns, rows⟩ => ?_
  refine Call.settles_bind persistDependencies_settles.returning fun ⟨written, persisted⟩
    ⟨adds, edges⟩ => ?_
  exact Call.settles_pure ⟨landed, accepted, persisted, returns, rows, edges, rfl, adds⟩

end Store
end Beads
