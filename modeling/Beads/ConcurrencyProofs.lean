import Beads.Concurrency
import Beads.SchedulingProofs

/-! Two add-dependency transactions on one snapshot. Each has checked its edge
against the snapshot, so the merged graph has a cycle exactly if the two edges
close one together, and both commit exactly if nothing they write collides. Flags
never collide: from one snapshot, both transactions can only turn a flag over. -/
namespace Beads
open Lib Lib.Graph Relation

namespace Store
variable {s t u : Store} {p q : Plane} {types : DependencyType → Prop} {a b : String}

/-! ## Cells -/

private theorem row_eq {r x : Row}
    (same : ({ x with isBlocked := false } : Row) = { r with isBlocked := false })
    (flag : x.isBlocked = r.isBlocked) : x = r :=
  calc
    x = { r with isBlocked := x.isBlocked } :=
      congrArg (fun y : Row => { y with isBlocked := x.isBlocked }) same
    _ = r := by rw [flag]

/-- Two transactions that change the flag of one row give it the same value. -/
theorem row?_eq_of_cleared {n : Node} (first : t.cleared.row? n = s.cleared.row? n)
    (second : u.cleared.row? n = s.cleared.row? n) (turned : t.row? n ≠ s.row? n)
    (turned' : u.row? n ≠ s.row? n) : t.row? n = u.row? n := by
  rw [row?_cleared, row?_cleared] at first second
  cases old : s.row? n with
  | none =>
    rw [old, Option.map_none, Option.map_eq_none_iff] at first
    exact absurd (first.trans old.symm) turned
  | some r =>
    rw [old, Option.map_some, Option.map_eq_some_iff] at first second
    obtain ⟨x, foundX, sameX⟩ := first
    obtain ⟨y, foundY, sameY⟩ := second
    rw [foundX, old, ne_eq, Option.some.injEq] at turned
    rw [foundY, old, ne_eq, Option.some.injEq] at turned'
    have flagX := Bool.eq_not_of_ne fun flag => turned (row_eq sameX flag)
    have flagY := Bool.eq_not_of_ne fun flag => turned' (row_eq sameY flag)
    rw [foundX, foundY, row_eq (sameX.trans sameY.symm) (flagX.trans flagY.symm)]

namespace Added
variable {c : Coordinator} {dep : Dependency} {opts : AddDependencyOpts}

theorem row?_cleared_eq (added : Added s u t c dep opts) (n : Node) :
    t.cleared.row? n = s.cleared.row? n := by
  rw [added.cleared, row?_cleared, row?_cleared, row?, row?, added.inserted.rows]

theorem mem_deps (added : Added s u t c dep opts) {d : Dep} : d ∈ t.deps q ↔ d ∈ s.deps q ∨
    (q = s.writeTable dep opts ∧
      d = ⟨dep.issueId, s.depTarget dep opts, dep.type, dep.metadata⟩) := by
  rw [← added.inserted.deps, show t.deps = u.deps from
    show t.cleared.deps = u.cleared.deps by rw [added.cleared]]

/-- The new row, under a key that was free. -/
theorem exists_new (added : Added s u t c dep opts) :
    ∃ d ∈ t.deps (s.writeTable dep opts), d.type = dep.type ∧
      d.key = (dep.issueId, dep.dependsOnId) ∧
        (s.deps (s.writeTable dep opts)).find? d.key = none := by
  have key : Dep.key ⟨dep.issueId, s.depTarget dep opts, dep.type, dep.metadata⟩ =
      (dep.issueId, dep.dependsOnId) := by rw [Dep.key, depTarget_id]
  refine ⟨_, added.mem_deps.mpr (Or.inr ⟨rfl, rfl⟩), rfl, key, ?_⟩
  rw [key, Table.find?_eq_none]
  exact added.fresh

/-- No edge row but the new one is written. -/
theorem find?_deps (added : Added s u t c dep opts) {key : String × String}
    (other : ¬ (q = s.writeTable dep opts ∧ key = (dep.issueId, dep.dependsOnId))) :
    (t.deps q).find? key = (s.deps q).find? key := by
  refine Option.ext fun d => ?_
  rw [Table.find?_eq_some, Table.find?_eq_some, added.mem_deps]
  refine and_congr_left fun same => or_iff_left ?_
  rintro ⟨plane, rfl⟩
  exact other ⟨plane, by rw [← same, Dep.key, depTarget_id]⟩

theorem coordination_eq (added : Added s u t c dep opts) (q : Plane) (n : Nat) :
    t.coordination q n =
      if dep.type = .parentChild ∧ q = s.writeTable dep opts ∧ n = c.shard dep.dependsOnId then
        c.freshRowLock q n
      else s.coordination q n := by
  rw [← added.coordination]
  change t.cleared.coordination q n = u.cleared.coordination q n
  rw [added.cleared]

end Added
end Store

/-! ## One transaction -/

private theorem Store.recordEvent_extends {s : Store} {now : Nat → Nat} {op : EventOp} {id : String}
    {j next : Journal} (returns : (s.recordEvent now op id j).Returns next) : j.Extends next := by
  unfold Store.recordEvent at returns
  split at returns
  · exact absurd returns Call.not_returns_throw
  · exact (Journal.insertEventRow_spec (Call.ends_ofExcept.unique returns)).1

private theorem Store.recordDepEvent_appended {s : Store} {now : Nat → Nat} {op : EventOp}
    {id : String} {dep : EventDep} {j next : Journal}
    (returns : (s.recordDepEvent now op id dep j).Returns next) :
    j.Appended next { op := op, issueId := id, issue := s.journalIssue id, dep := some dep } :=
  (Journal.insertEventRow_spec (Call.ends_ofExcept.unique returns)).2

namespace AddCall
variable {call : AddCall} {w v : Workspace}

/-- The event that an add ends its journal with, apart from the row it quotes. -/
def event (call : AddCall) (issue : Option Row) : Event :=
  { op := .depAdd, issueId := call.dep.issueId, issue := issue
    dep := some ⟨call.dep.type, call.dep.dependsOnId, call.dep.metadata⟩ }

/-- An accepted transaction has run the add, and has journaled it if it journals. -/
theorem run_returns (returns : (call.run w).Returns v) :
    (w.store.addDependency call.session.coordinator call.dep call.opts).Returns v.store ∧
      (call.session.journaled = false → v.journal = w.journal) ∧
        (call.session.journaled = true →
          ∃ issue, w.journal.Appended v.journal (call.event issue)) := by
  unfold run at returns
  obtain ⟨t, added, rest⟩ := Call.returns_bind.mp returns
  split at rest
  · next off =>
    obtain rfl := Call.returns_pure.mp rest
    exact ⟨added, fun _ => rfl, fun on => nomatch off.symm.trans on⟩
  · next on =>
    obtain ⟨updated, loop, rest⟩ := Call.returns_bind.mp rest
    obtain ⟨journal, last, rest⟩ := Call.returns_bind.mp rest
    obtain rfl := Call.returns_pure.mp rest
    have grown : w.journal.Extends updated := Call.inv_of_foldlM w.journal.Extends
      (fun j id _ held next record => held.trans (Store.recordEvent_extends record))
      (.refl _) loop
    exact ⟨added, fun off => absurd off on,
      fun _ => ⟨_, grown.appended (Store.recordDepEvent_appended last)⟩⟩

/-- What is known of a call that adds an edge, once it has returned. -/
theorem AddsEdge.added (adds : call.AddsEdge w) (returns : (call.run w).Returns v) :
    ∃ u, Store.Added w.store u v.store call.session.coordinator call.dep call.opts := by
  obtain ⟨-, ⟨d, held, same, -⟩ | added⟩ := Store.addDependency_returns (run_returns returns).1
  · exact absurd same (adds.2.2 d held)
  · exact added

/-- The edge of an accepted call has a target that does not reach its source. -/
theorem Checked.apart (checked : call.Checked) (returns : (call.run w).Returns v)
    (scheduling : call.dep.type.IsSchedulingEdge) :
    ¬ ReflTransGen w.store.Scheduling call.dep.dependsOnId call.dep.issueId := by
  obtain ⟨validated, -⟩ := Store.addDependency_returns (run_returns returns).1
  have apart := validated.cycle checked.1 scheduling
  rwa [Store.checkTables, if_pos checked.2, Store.wouldCreateSchedulingCycle_iff] at apart

theorem AddsEdge.scheduling (adds : call.AddsEdge w) (returns : (call.run w).Returns v) :
    v.store.Scheduling = AddEdge w.store.Scheduling call.dep.issueId call.dep.dependsOnId := by
  obtain ⟨u, added⟩ := adds.added returns
  rw [Store.Scheduling, Store.related_of_cleared added.cleared,
    added.inserted.related_eq adds.2.1, Store.depTarget_id]
  rfl

/-- An accepted call adds its edge to the graph or leaves the graph as it is. -/
theorem run_scheduling (returns : (call.run w).Returns v) :
    call.AddsEdge w ∨ v.store.Scheduling = w.store.Scheduling := by
  obtain ⟨-, ⟨d, -, -, -, same⟩ | ⟨u, added⟩⟩ := Store.addDependency_returns (run_returns returns).1
  · rw [same, Store.Scheduling, Store.setMetadata_related]
    exact Or.inr rfl
  · by_cases scheduling : call.dep.type.IsSchedulingEdge
    · exact Or.inl ⟨⟨v, returns⟩, scheduling, added.fresh⟩
    · rw [Store.Scheduling, Store.related_of_cleared added.cleared]
      exact Or.inr (added.inserted.related_eq_of_not scheduling)

private theorem scheduling_mono (returns : (call.run w).Returns v) {a b : String}
    (edge : w.store.Scheduling a b) : v.store.Scheduling a b := by
  rcases run_scheduling returns with adds | same
  · rw [adds.scheduling returns]
    exact Or.inl edge
  · rwa [same]

theorem run_acyclic (checked : call.Checked) (returns : (call.run w).Returns v)
    (acyclic : Acyclic w.store.Scheduling) : Acyclic v.store.Scheduling := by
  rcases run_scheduling returns with adds | same
  · rw [adds.scheduling returns]
    exact (acyclic_addEdge acyclic).mpr (checked.apart returns adds.2.1)
  · rwa [same]

theorem Touches.token {u : Store} {p : Plane} {shard : Nat} (touches : call.Touches w p shard)
    (added : Store.Added w.store u v.store call.session.coordinator call.dep call.opts) :
    v.store.coordination p shard = call.session.coordinator.freshRowLock p shard :=
  (added.coordination_eq p shard).trans (if_pos ⟨touches.1, touches.2.1, touches.2.2.1⟩)

/-- A coordination cell that an add has changed is the one it touches. -/
theorem touches_of_wrote {u : Store} {p : Plane} {shard : Nat}
    (added : Store.Added w.store u v.store call.session.coordinator call.dep call.opts)
    (wrote : v.store.coordination p shard ≠ w.store.coordination p shard) :
    call.Touches w p shard := by
  have cell := added.coordination_eq p shard
  split at cell
  · next here => exact ⟨here.1, here.2.1, here.2.2, fun same => wrote (cell.trans same)⟩
  · exact absurd cell wrote

end AddCall

/-! ## Two transactions on one snapshot -/

section Pair
variable {calls : Bool → AddCall} {w x y : Workspace}

/-- Two events under the numbers that follow one journal collide if they differ. -/
theorem collide_of_appended {e e' : Event} (first : w.journal.Appended x.journal e)
    (second : w.journal.Appended y.journal e') (differ : e ≠ e') :
    Workspace.cells.Collide ⟨w, x⟩ ⟨w, y⟩ := by
  obtain ⟨row, rfl, counter, found, free, above⟩ := first
  obtain ⟨row', rfl, counter', found', free', above'⟩ := second
  by_cases same : row.seq = row'.seq
  · rw [← same] at found'
    have seqs : ∀ {z : Workspace} {r : JournalRow}, z.journal.rows.find? row.seq = some r →
        z.journal.rows.find? row.seq ≠ w.journal.rows.find? row.seq := fun held => by
      rw [held, free]
      exact Option.some_ne_none _
    refine ⟨.event row.seq, seqs found, seqs found', fun equal => differ ?_⟩
    exact congrArg JournalRow.toEvent (Option.some.inj (found.symm.trans (equal.trans found')))
  · refine ⟨.counter, fun equal => ?_, fun equal => ?_, fun equal => same ?_⟩
    · exact Nat.lt_irrefl _ (above _ (equal.symm.trans counter))
    · exact Nat.lt_irrefl _ (above' _ (equal.symm.trans counter'))
    · exact Option.some.inj (counter.symm.trans (equal.trans counter'))

variable (adds : ∀ i, (calls i).AddsEdge w)
  (apart : ((calls true).dep.issueId, (calls true).dep.dependsOnId) ≠
    ((calls false).dep.issueId, (calls false).dep.dependsOnId))
  (first : ((calls true).run w).Returns x) (second : ((calls false).run w).Returns y)

include adds apart first second in
/-- Two new edges that collide do so in the journal or in a coordination cell. -/
theorem serialized_of_collide (collide : Workspace.cells.Collide ⟨w, x⟩ ⟨w, y⟩) :
    Serialized calls w := by
  obtain ⟨u, added⟩ := (adds true).added first
  obtain ⟨u', added'⟩ := (adds false).added second
  have journals (wrote : x.journal ≠ w.journal) (wrote' : y.journal ≠ w.journal) :
      Serialized calls w := by
    refine Or.inl (Bool.forall_bool.mpr ⟨?_, ?_⟩)
    · exact eq_true_of_ne_false fun off => wrote' ((AddCall.run_returns second).2.1 off)
    · exact eq_true_of_ne_false fun off => wrote ((AddCall.run_returns first).2.1 off)
  obtain ⟨k, wrote, wrote', differ⟩ := collide
  cases k with
  | row n =>
    exact absurd (Store.row?_eq_of_cleared (added.row?_cleared_eq n) (added'.row?_cleared_eq n)
      wrote wrote') differ
  | dep p key =>
    have mine := not_not.mp fun other => wrote (added.find?_deps other)
    have yours := not_not.mp fun other => wrote' (added'.find?_deps other)
    exact absurd (mine.2.symm.trans yours.2) apart
  | coordination p shard =>
    have touches := AddCall.touches_of_wrote added wrote
    have touches' := AddCall.touches_of_wrote added' wrote'
    refine Or.inr ⟨p, shard, Bool.forall_bool.mpr ⟨touches', touches⟩, fun same => differ ?_⟩
    exact (touches.token added).trans (same.trans (touches'.token added').symm)
  | counter =>
    exact journals (fun same => wrote (congrArg Journal.counter same))
      fun same => wrote' (congrArg Journal.counter same)
  | event seq =>
    exact journals (fun same => wrote (congrArg (·.rows.find? seq) same))
      fun same => wrote' (congrArg (·.rows.find? seq) same)

include adds apart first second in
/-- Two new edges that share the journal or a coordination cell collide. -/
theorem Serialized.collide (serialized : Serialized calls w) :
    Workspace.cells.Collide ⟨w, x⟩ ⟨w, y⟩ := by
  rcases serialized with both | ⟨p, shard, touches, differ⟩
  · obtain ⟨issue, written⟩ := (AddCall.run_returns first).2.2 (both true)
    obtain ⟨issue', written'⟩ := (AddCall.run_returns second).2.2 (both false)
    refine collide_of_appended written written' fun same => apart ?_
    simp only [AddCall.event, Event.mk.injEq, Option.some.injEq, EventDep.mk.injEq] at same
    exact Prod.ext same.2.1 same.2.2.2.1.2.1
  · obtain ⟨u, added⟩ := (adds true).added first
    obtain ⟨u', added'⟩ := (adds false).added second
    have token := (touches true).token added
    have token' := (touches false).token added'
    exact ⟨.coordination p shard, fun same => (touches true).2.2.2 (token.symm.trans same),
      fun same => (touches false).2.2.2 (token'.symm.trans same),
      fun same => differ (token.symm.trans (same.trans token'))⟩

/-- Every edge of a merge comes from one of its sides. -/
theorem merge_related {types : DependencyType → Prop} {a b : String}
    (edge : (Workspace.merge w x y).store.Related types a b) :
    x.store.Related types a b ∨ y.store.Related types a b := by
  obtain ⟨p, d, held, chosen, key⟩ := edge
  change d ∈ Table.merge _ _ _ at held
  rw [Table.mem_merge] at held
  split at held
  · exact Or.inr ⟨p, d, held, chosen, key⟩
  · exact Or.inl ⟨p, d, held, chosen, key⟩

include adds apart first second in
/-- The merge of two new edges has both. -/
theorem merge_scheduling {a b : String} (edge : AddEdge y.store.Scheduling
      (calls true).dep.issueId (calls true).dep.dependsOnId a b) :
    (Workspace.merge w x y).store.Scheduling a b := by
  obtain ⟨u, added⟩ := (adds true).added first
  obtain ⟨u', added'⟩ := (adds false).added second
  have merged {p : Plane} {d : Dep} (found : if (x.store.deps p).find? d.key =
        (w.store.deps p).find? d.key then d ∈ y.store.deps p else d ∈ x.store.deps p) :
      d ∈ (Workspace.merge w x y).store.deps p := Table.mem_merge.mpr found
  rcases edge with ⟨p, d, held, chosen, key⟩ | ⟨rfl, rfl⟩
  · refine ⟨p, d, merged ?_, chosen, key⟩
    rw [if_pos (added.find?_deps ?_)]
    · exact held
    · -- A row of this side with the key of the other side would be an old one.
      rintro ⟨rfl, same⟩
      rcases added'.mem_deps.mp held with old | ⟨-, rfl⟩
      · exact added.fresh d old same
      · exact apart (same.symm.trans (by rw [Dep.key, Store.depTarget_id]))
  · obtain ⟨d, held, type, key, free⟩ := added.exists_new
    refine ⟨w.store.writeTable (calls true).dep (calls true).opts, d, merged ?_,
      type ▸ (adds true).2.1, key⟩
    rw [if_neg]
    · exact held
    · rw [Table.find?_eq_some.mpr ⟨held, rfl⟩, free]
      exact Option.some_ne_none d

/-! ## Interleavings -/

include adds apart first second in
/-- Two new edges that share nothing are merged by some interleaving. -/
theorem both_commit (merged : ¬ Serialized calls w) :
    ∃ st, ReflTransGen (AddStep calls) (.fresh w) st ∧ (∀ i, st.phase i = .ended) ∧
      st.current = Workspace.merge w x y :=
  Cells.overlap second first fun collide =>
    merged (serialized_of_collide adds apart first second collide)

end Pair

namespace Race
variable {calls : Bool → AddCall} {w : Workspace}

/-- The two edges of a race are different edges. -/
theorem keys_ne (checked : ∀ i, (calls i).Checked) (adds : ∀ i, (calls i).AddsEdge w)
    (reaches : ∀ i, ReflTransGen w.store.Scheduling (calls i).dep.dependsOnId
      (calls (!i)).dep.issueId) :
    ((calls true).dep.issueId, (calls true).dep.dependsOnId) ≠
      ((calls false).dep.issueId, (calls false).dep.dependsOnId) := by
  intro same
  obtain ⟨v, returns⟩ := (adds true).1
  have back := reaches true
  rw [Bool.not_true, ← (Prod.mk.inj same).1] at back
  exact (checked true).apart returns (adds true).2.1 back

/-- Two adds that each let the other's edge close a cycle race if they do not collide. -/
theorem of_apart (checked : ∀ i, (calls i).Checked) {x y : Workspace} {i : Bool}
    (first : ((calls i).run w).Returns x) (second : ((calls (!i)).run w).Returns y)
    (merged : ¬ Workspace.cells.Collide ⟨w, x⟩ ⟨w, y⟩) (adds : ∀ i, (calls i).AddsEdge w)
    (reaches : ∀ i, ReflTransGen w.store.Scheduling (calls i).dep.dependsOnId
      (calls (!i)).dep.issueId) : Race calls w := by
  refine ⟨adds, reaches, fun serialized => merged ?_⟩
  have apart := keys_ne checked adds reaches
  cases i with
  | true => exact serialized.collide adds apart first second
  | false => exact (serialized.collide adds apart second first).symm

/-- In a race both transactions can commit, and close a cycle. -/
theorem closes_cycle (checked : ∀ i, (calls i).Checked) (acyclic : Acyclic w.store.Scheduling)
    (race : Race calls w) : ∃ st, ReflTransGen (AddStep calls) (.fresh w) st ∧
      (∀ i, st.phase i = .ended) ∧ ¬ Acyclic st.current.store.Scheduling := by
  obtain ⟨adds, reaches, merged⟩ := race
  have apart := keys_ne checked adds reaches
  obtain ⟨x, first⟩ := (adds true).1
  obtain ⟨y, second⟩ := (adds false).1
  obtain ⟨st, run, ended, current⟩ := both_commit adds apart first second merged
  refine ⟨st, run, ended, fun still => ?_⟩
  rw [current] at still
  have both := still.mono fun a b => merge_scheduling adds apart first second
  rw [(adds false).scheduling second] at both
  exact (acyclic_addEdge_addEdge acyclic ((checked false).apart second (adds false).2.1)
    ((checked true).apart first (adds true).2.1)).mp both ⟨reaches false, reaches true⟩

end Race

/-- Without a race, what two transactions on one snapshot leave is acyclic. -/
theorem merge_acyclic {calls : Bool → AddCall} {w x y : Workspace}
    (checked : ∀ i, (calls i).Checked)
    (acyclic : Acyclic w.store.Scheduling) (safe : ¬ Race calls w) {i : Bool}
    (first : ((calls i).run w).Returns x) (second : ((calls (!i)).run w).Returns y)
    (apart : ¬ Workspace.cells.Collide ⟨w, x⟩ ⟨w, y⟩) :
    Acyclic (Workspace.merge w x y).store.Scheduling := by
  rcases AddCall.run_scheduling first with adds | same
  · rcases AddCall.run_scheduling second with adds' | same'
    · have grown : Acyclic (AddEdge (AddEdge w.store.Scheduling (calls i).dep.issueId
          (calls i).dep.dependsOnId) (calls (!i)).dep.issueId (calls (!i)).dep.dependsOnId) := by
        refine (acyclic_addEdge_addEdge acyclic ((checked i).apart first adds.2.1)
          ((checked (!i)).apart second adds'.2.1)).mpr fun mutual_ => safe ?_
        refine Race.of_apart checked first second apart ?_ ?_
        · exact (Bool.forall_bool' i).mpr ⟨adds, adds'⟩
        · exact (Bool.forall_bool' i).mpr ⟨mutual_.1, by rw [Bool.not_not]; exact mutual_.2⟩
      refine grown.mono fun a b edge => ?_
      rcases merge_related edge with mine | yours
      · exact Or.inl (adds.scheduling first ▸ mine)
      · exact (show AddEdge w.store.Scheduling _ _ a b from adds'.scheduling second ▸ yours).imp_left
          Or.inl
    · refine (AddCall.run_acyclic (checked i) first acyclic).mono fun a b edge => ?_
      rcases merge_related edge with mine | yours
      · exact mine
      · exact AddCall.scheduling_mono first (same' ▸ yours)
  · refine (AddCall.run_acyclic (checked (!i)) second acyclic).mono fun a b edge => ?_
    rcases merge_related edge with mine | yours
    · exact AddCall.scheduling_mono second (same ▸ mine)
    · exact yours

/-- From an acyclic scheduling graph, every interleaving of two adds leaves an acyclic
graph unless the two are in a race, and in a race some interleaving does not. -/
theorem interleaved_adds_acyclic_iff (w : Workspace) (acyclic : Acyclic w.store.Scheduling)
    (calls : Bool → AddCall) (checked : ∀ i, (calls i).Checked) :
    (∀ st, ReflTransGen (AddStep calls) (.fresh w) st → (∀ i, st.phase i = .ended) →
      Acyclic st.current.store.Scheduling) ↔ ¬ Race calls w := by
  constructor
  · intro still race
    obtain ⟨st, run, ended, cyclic⟩ := race.closes_cycle checked acyclic
    exact cyclic (still st run ended)
  · intro safe st run _
    refine Cells.two_sessions (P := fun v => Acyclic v.store.Scheduling) acyclic ?_ ?_ run
    · exact fun i a b still returns => AddCall.run_acyclic (checked i) returns still
    · exact fun i a b => merge_acyclic checked acyclic safe

/-- Three open issues without edges, and an empty journal. -/
def freeIssues : Workspace := ⟨Store.threeIssues, ⟨some 0, Table.empty⟩⟩

/-- The first issue comes to depend on the second, and the second on the given one,
from two transactions that do not journal. -/
def blockingAdds (last : String) : Bool → AddCall
  | false => { session := { coordinator := Store.oneShard }, dep := ⟨"bd-1", "bd-2", .blocks, .empty⟩ }
  | true => { session := { coordinator := Store.oneShard }, dep := ⟨"bd-2", last, .blocks, .empty⟩ }

theorem blockingAdds_checked (last : String) (i : Bool) : (blockingAdds last i).Checked := by
  cases i <;> exact ⟨rfl, rfl⟩

theorem freeIssues_acyclic : Acyclic freeIssues.store.Scheduling := by
  intro a cycle
  obtain ⟨b, ⟨p, d, held, -⟩, -⟩ := TransGen.head'_iff.mp cycle
  exact absurd held (Store.threeIssues_edgeless p d)

theorem blockingAdds_not_serialized (last : String) :
    ¬ Serialized (blockingAdds last) freeIssues := by
  rintro (both | ⟨p, shard, touches, -⟩)
  · exact nomatch both true
  · exact nomatch (touches true).1

theorem blockingAdds_addsEdge {last : String} (accepted : ∀ i,
      ∃ v ∈ ((blockingAdds last i).run freeIssues).value? 4, v.journal.counter = some 0) (i :
      Bool) :
    (blockingAdds last i).AddsEdge freeIssues := by
  obtain ⟨v, returns, -⟩ := Call.returns_of_value? (accepted i)
  exact ⟨⟨v, returns⟩, by cases i <;> exact Or.inl (Or.inl rfl),
    fun d held => absurd held (Store.threeIssues_edgeless _ d)⟩

/-- Each of two transactions makes one of two issues depend on the other, and both
commit. -/
theorem interleaved_adds_close_cycle :
    Acyclic freeIssues.store.Scheduling ∧ (∀ i, (blockingAdds "bd-1" i).Checked) ∧
      ∃ st, ReflTransGen (AddStep (blockingAdds "bd-1")) (.fresh freeIssues) st ∧
        (∀ i, st.phase i = .ended) ∧ ¬ Acyclic st.current.store.Scheduling := by
  refine ⟨freeIssues_acyclic, blockingAdds_checked _,
    Race.closes_cycle (blockingAdds_checked _) freeIssues_acyclic
      ⟨blockingAdds_addsEdge (by decide), fun i => ?_, blockingAdds_not_serialized _⟩⟩
  cases i <;> exact .refl

/-- A chain of two edges from two transactions stays a chain when both commit. -/
theorem interleaved_adds_acyclic_iff_chain :
    ∃ st, ReflTransGen (AddStep (blockingAdds "bd-3")) (.fresh freeIssues) st ∧
      (∀ i, st.phase i = .ended) ∧ st.current.store.Scheduling "bd-1" "bd-2" ∧
        st.current.store.Scheduling "bd-2" "bd-3" ∧ Acyclic st.current.store.Scheduling := by
  have adds : ∀ i, (blockingAdds "bd-3" i).AddsEdge freeIssues := blockingAdds_addsEdge (by decide)
  have apart : ((blockingAdds "bd-3" true).dep.issueId, (blockingAdds "bd-3" true).dep.dependsOnId) ≠
      ((blockingAdds "bd-3" false).dep.issueId, (blockingAdds "bd-3" false).dep.dependsOnId) := by
    decide
  obtain ⟨x, first⟩ := (adds true).1
  obtain ⟨y, second⟩ := (adds false).1
  obtain ⟨st, run, ended, current⟩ :=
    both_commit adds apart first second (blockingAdds_not_serialized _)
  have merged := fun {a b} => merge_scheduling (a := a) (b := b) adds apart first second
  rw [(adds false).scheduling second] at merged
  have safe : ¬ Race (blockingAdds "bd-3") freeIssues := fun race =>
    absurd (Store.wouldCreateSchedulingCycle_iff.mpr (race.2.1 true)) (by decide)
  refine ⟨st, run, ended, ?_, ?_, ?_⟩
  · rw [current]
    exact merged (Or.inl (Or.inr ⟨rfl, rfl⟩))
  · rw [current]
    exact merged (Or.inr ⟨rfl, rfl⟩)
  · exact (interleaved_adds_acyclic_iff freeIssues freeIssues_acyclic _
      (blockingAdds_checked _)).mpr safe st run ended

end Beads
