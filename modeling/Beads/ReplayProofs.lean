import Beads.JournalFeedProofs
import Beads.ConcurrencyProofs
import Beads.DeleteProofs
import Beads.Replay

/-! What the journal records of a call, against what the call does to the tables. The
copy a consumer keeps is compared with the store id by id and edge by edge, so each
call is settled by saying how it changes the two maps. -/
namespace Beads
open Lib Relation

/-! ## Records -/

namespace Journal
variable {j next : Journal} {low : Nat}

private theorem Contiguous.events_insert (retained : Contiguous j low) {now : Nat → Nat} {e : Event}
    (inserted : j.insertEventRow now e = .ok next) : next.events = j.events ++ [e] := by
  have fresh := retained.fresh
  rw [Journal.insertEventRow, tryInsert, dif_pos fresh] at inserted
  obtain rfl := Except.ok.inj inserted
  let row : JournalRow := ⟨e, j.nextEventSeq, now j.nextEventSeq⟩
  have order : inOrder ⟨some j.nextEventSeq, j.rows.insert row fresh⟩ = j.inOrder ++ [row] := by
    refine List.Perm.eq_of_pairwise
      (fun a b _ _ less more => absurd (less.trans more) (Nat.lt_irrefl a.seq))
      inOrder_increasing (List.pairwise_append.mpr ⟨inOrder_increasing, List.pairwise_singleton _ row, ?_⟩)
      ((List.perm_insertionSort ..).trans ((List.perm_insertionSort ..).symm.append_right [row]))
    intro a held b last
    obtain rfl := List.mem_singleton.mp last
    have bounds := retained.bounds (mem_inOrder.mp held)
    have seq : row.seq = j.head + 1 := retained.nextEventSeq_eq
    omega
  rw [events, order, List.map_append]
  rfl

end Journal

/-- The kind and the metadata of an edge by its ends. -/
abbrev EdgeMap := String × String → Option (DependencyType × Metadata)

/-- A consumer of the journal has these rows, apart from their flags, and these
edges. -/
structure Journal.Shows (j : Journal) (rows : String → Option Row) (edges : EdgeMap) : Prop where
  retained : ∃ low, j.Contiguous low
  issues : ∀ id, (j.replay.issues id).map Row.unflagged = rows id
  edges : j.replay.edges = edges

namespace Journal.Shows
variable {j next : Journal} {rows : String → Option Row} {edges : EdgeMap}
  {now : Nat → Nat} {id : String} {s : Store}

private theorem replay_insert (shows : j.Shows rows edges) {e : Event}
    (inserted : j.insertEventRow now e = .ok next) :
    (∃ low, next.Contiguous low) ∧ next.replay = j.replay.apply e := by
  obtain ⟨low, retained⟩ := shows.retained
  refine ⟨⟨low, (retained.insertEventRow inserted).1⟩, ?_⟩
  rw [Journal.replay, retained.events_insert inserted, List.foldl_append]
  rfl

theorem recordDelete (shows : j.Shows rows edges) (returns : (j.recordDelete now id).Returns next) :
    next.Shows (Function.update rows id none) edges := by
  obtain ⟨retained, replay⟩ := shows.replay_insert (Call.ends_ofExcept.unique returns)
  refine ⟨retained, fun other => ?_, by rw [replay]; exact shows.edges⟩
  rw [replay]
  simp only [Replica.apply, Function.update_apply]
  split
  · rfl
  · exact shows.issues other

/-- A snapshot of the row as it stands. -/
theorem recordEvent (shows : j.Shows rows edges) {op : EventOp}
    (snapshot : op = .create ∨ op = .update) (returns : (s.recordEvent now op id j).Returns next) :
    next.Shows (Function.update rows id ((s.journalIssue id).map Row.unflagged)) edges := by
  unfold Store.recordEvent at returns
  split at returns
  · exact absurd returns Call.not_returns_throw
  · next r found =>
    obtain ⟨retained, replay⟩ := shows.replay_insert (Call.ends_ofExcept.unique returns)
    have applied : next.replay =
        { j.replay with issues := Function.update j.replay.issues id (some r) } := by
      rw [replay]
      rcases snapshot with rfl | rfl <;> rfl
    refine ⟨retained, fun other => ?_, by rw [applied]; exact shows.edges⟩
    rw [applied, found]
    simp only [Function.update_apply]
    split
    · rfl
    · exact shows.issues other

theorem recordDepEvent_add (shows : j.Shows rows edges) {dep : EventDep}
    (returns : (s.recordDepEvent now .depAdd id dep j).Returns next) :
    next.Shows rows (Function.update edges (id, dep.target) (some (dep.kind, dep.metadata))) := by
  obtain ⟨retained, replay⟩ := shows.replay_insert (Call.ends_ofExcept.unique returns)
  refine ⟨retained, fun other => by rw [replay]; exact shows.issues other, ?_⟩
  rw [replay, ← shows.edges]
  rfl

theorem recordDepEvent_remove (shows : j.Shows rows edges) {dep : EventDep}
    (returns : (s.recordDepEvent now .depRemove id dep j).Returns next) :
    next.Shows rows (Function.update edges (id, dep.target) none) := by
  obtain ⟨retained, replay⟩ := shows.replay_insert (Call.ends_ofExcept.unique returns)
  refine ⟨retained, fun other => by rw [replay]; exact shows.issues other, ?_⟩
  rw [replay, ← shows.edges]
  rfl

/-- Snapshots of rows that have changed in their flags only. -/
theorem recordUpdates (shows : j.Shows rows edges) {ids : List String}
    (same : ∀ id, (s.journalIssue id).map Row.unflagged = rows id)
    (returns : (ids.foldlM (fun j id => s.recordEvent now .update id j) j).Returns next) :
    next.Shows rows edges := by
  refine Call.inv_of_foldlM (fun j => j.Shows rows edges) (fun j id _ shows next record => ?_)
    shows returns
  have after := shows.recordEvent (Or.inr rfl) record
  rwa [same id, Function.update_eq_self] at after

/-- The records of removed edges: their keys are free afterwards. -/
theorem recordRemovals (shows : j.Shows rows edges) {list : List JournalEdge}
    (returns : (s.recordDepEvents now .depRemove list j).Returns next) :
    next.Shows rows fun key => if ∃ edge ∈ list,
      (edge.1, edge.2.target) = key then none else edges key := by
  unfold Store.recordDepEvents at returns
  induction list generalizing j edges with
  | nil =>
    obtain rfl := Call.returns_pure.mp returns
    simpa only [List.not_mem_nil, false_and, exists_false, if_false] using shows
  | cons first rest ih =>
    rw [List.foldlM_cons] at returns
    obtain ⟨mid, head, tail⟩ := Call.returns_bind.mp returns
    have after := ih (shows.recordDepEvent_remove head) tail
    refine ⟨after.retained, after.issues, after.edges.trans ?_⟩
    funext key
    simp only [List.mem_cons, exists_eq_or_imp, Function.update_apply]
    by_cases here : (first.1, first.2.target) = key
    · simp only [here, true_or, if_true, ite_self]
    · simp only [here, false_or, if_neg (Ne.symm here)]

/-- The records of added edges, when edges with one key are recorded alike. -/
theorem recordAdds (shows : j.Shows rows edges) {list : List JournalEdge}
    (alike : ∀ a ∈ list, ∀ b ∈ list, (a.1, a.2.target) = (b.1, b.2.target) → a = b)
    (returns : (s.recordDepEvents now .depAdd list j).Returns next) :
    ∃ after, next.Shows rows after ∧
      (∀ edge ∈ list, after (edge.1, edge.2.target) = some (edge.2.kind, edge.2.metadata)) ∧
        ∀ key, (∀ edge ∈ list, (edge.1, edge.2.target) ≠ key) → after key = edges key := by
  unfold Store.recordDepEvents at returns
  induction list generalizing j edges with
  | nil =>
    obtain rfl := Call.returns_pure.mp returns
    exact ⟨edges, shows, fun _ none => (List.not_mem_nil none).elim, fun _ _ => rfl⟩
  | cons first rest ih =>
    rw [List.foldlM_cons] at returns
    obtain ⟨mid, head, tail⟩ := Call.returns_bind.mp returns
    obtain ⟨after, shows', given, kept⟩ := ih (shows.recordDepEvent_add head)
      (fun a held b held' => alike a (List.mem_cons_of_mem first held) b (List.mem_cons_of_mem first held'))
      tail
    refine ⟨after, shows', fun edge held => ?_, fun key other => ?_⟩
    · rcases List.mem_cons.mp held with rfl | later
      · by_cases again : ∃ b ∈ rest, (b.1, b.2.target) = (edge.1, edge.2.target)
        · obtain ⟨b, there, same⟩ := again
          rw [alike edge List.mem_cons_self b (List.mem_cons_of_mem edge there) same.symm]
          exact given b there
        · rw [kept _ fun b there same => again ⟨b, there, same⟩, Function.update_self]
      · exact given edge later
    · rw [kept key fun edge later => other edge (List.mem_cons_of_mem first later),
        Function.update_of_ne (other first List.mem_cons_self).symm]

end Journal.Shows

/-- An edge as the journal records it. -/
def Dep.recorded (d : Dep) : JournalEdge := (d.issueId, ⟨d.type, d.target.id, d.metadata⟩)

/-! ## The store by ids and by ends -/

namespace Store
variable {s t u : Store} {p q : Plane} {id : String} {key : String × String}

/-- The row of an id, apart from its flag. -/
def content (s : Store) (id : String) : Option Row := (s.journalIssue id).map Row.unflagged

/-- The edge between two ends. -/
def edge? (s : Store) : EdgeMap := fun key =>
  (((s.deps .issues).find? key).or ((s.deps .wisps).find? key)).map fun d => (d.type, d.metadata)

/-- No id is in both planes, and the source of an edge is a row of the table's own
plane. -/
structure Sane (s : Store) : Prop where
  onePlane : ∀ id, ¬ (s.Holds (.issues, id) ∧ s.Holds (.wisps, id))
  sources : ∀ p, ∀ d ∈ s.deps p, s.Holds (p, d.issueId)

namespace Sane

theorem plane_eq (sane : s.Sane) (here : s.Holds (p, id)) (there : s.Holds (q, id)) : p = q := by
  cases p <;> cases q
  · rfl
  · exact absurd ⟨here, there⟩ (sane.onePlane id)
  · exact absurd ⟨there, here⟩ (sane.onePlane id)
  · rfl

theorem routed_eq (sane : s.Sane) (held : s.Holds (p, id)) : s.routed id = p := by
  unfold routed Plane.ofWisp
  by_cases wisp : s.IsActiveWisp id
  · simp only [wisp, decide_true, if_true]
    exact sane.plane_eq wisp held
  · simp only [wisp, decide_false, Bool.false_eq_true, if_false]
    cases p with
    | issues => rfl
    | wisps => exact absurd held wisp

/-- The edges of both tables, by their ends. -/
theorem edge?_eq_some (sane : s.Sane) {x : DependencyType × Metadata} :
    s.edge? key = some x ↔ ∃ p, ∃ d ∈ s.deps p, d.key = key ∧ (d.type, d.metadata) = x := by
  unfold edge?
  rw [Option.map_eq_some_iff]
  constructor
  · rintro ⟨d, found, same⟩
    rcases Option.or_eq_some_iff.mp found with first | ⟨-, second⟩
    · obtain ⟨held, owner⟩ := Table.find?_eq_some.mp first
      exact ⟨.issues, d, held, owner, same⟩
    · obtain ⟨held, owner⟩ := Table.find?_eq_some.mp second
      exact ⟨.wisps, d, held, owner, same⟩
  · rintro ⟨p, d, held, owner, same⟩
    refine ⟨d, ?_, same⟩
    have found := Table.find?_eq_some.mpr ⟨held, owner⟩
    cases p with
    | issues => rw [found, Option.some_or]
    | wisps =>
      have elsewhere : (s.deps .issues).find? key = none := by
        refine Table.find?_eq_none.mpr fun e there shared => ?_
        have source : e.issueId = d.issueId := congrArg Prod.fst (shared.trans owner.symm)
        cases sane.plane_eq (source ▸ sane.sources .issues e there) (sane.sources .wisps d held)
      rw [elsewhere, found, Option.none_or]

theorem content_eq_some (sane : s.Sane) {row : Row} :
    s.content id = some row ↔ ∃ p, ∃ r ∈ s.rows p, r.id = id ∧ r.unflagged = row := by
  unfold content journalIssue
  rw [Option.map_eq_some_iff]
  constructor
  · rintro ⟨r, found, same⟩
    rcases Option.or_eq_some_iff.mp found with first | ⟨-, second⟩
    · obtain ⟨held, owner⟩ := row?_eq_some.mp first
      exact ⟨.issues, r, held, owner, same⟩
    · obtain ⟨held, owner⟩ := row?_eq_some.mp second
      exact ⟨.wisps, r, held, owner, same⟩
  · rintro ⟨p, r, held, owner, same⟩
    refine ⟨r, ?_, same⟩
    have found : s.row? (p, id) = some r := row?_eq_some.mpr ⟨held, owner⟩
    cases p with
    | issues => rw [found, Option.some_or]
    | wisps =>
      have elsewhere : s.row? (.issues, id) = none := by
        refine Table.find?_eq_none.mpr fun r' there same' => ?_
        exact sane.onePlane id ⟨⟨r', there, same'⟩, r, held, owner⟩
      rw [elsewhere, found, Option.none_or]

end Sane

/-- The journal shows what is stored. -/
theorem faithful_of_shows {w : Workspace} (sane : w.store.Sane)
    (shows : w.journal.Shows w.store.content w.store.edge?) : w.Faithful where
  rows id row := by
    rw [← sane.content_eq_some, ← shows.issues, Option.map_eq_some_iff]
  edges source target kind metadata := by
    rw [shows.edges, sane.edge?_eq_some]
    simp only [Prod.mk.injEq]

/-! ## Changes -/

theorem content_of_rows (same : ∀ n, (t.row? n).map Row.unflagged = (s.row? n).map Row.unflagged) :
    t.content = s.content := by
  funext id
  simp only [content, journalIssue, Option.map_or, same]

private theorem holds_of_content (same : ∀ n, (t.row? n).map Row.unflagged = (s.row? n).map Row.unflagged)
    (n : Node) : t.Holds n ↔ s.Holds n := by
  have some_iff : ∀ v : Store, v.Holds n ↔ (v.row? n).map Row.unflagged ≠ none := fun v => by
    rw [ne_eq, Option.map_eq_none_iff, row?, Table.find?_eq_none]
    simp only [Holds, ne_eq, not_forall, exists_prop, not_not]
  rw [some_iff, some_iff, same]

theorem unflagged_of_cleared (same : t.cleared = s.cleared) (n : Node) :
    (t.row? n).map Row.unflagged = (s.row? n).map Row.unflagged := by
  have left := row?_cleared (s := t) n
  have right := row?_cleared (s := s) n
  rw [same] at left
  exact left.symm.trans right

private theorem deps_of_cleared (same : t.cleared = s.cleared) : t.deps = s.deps :=
  show t.cleared.deps = s.cleared.deps by rw [same]

private theorem edge?_of_deps (same : t.deps = s.deps) : t.edge? = s.edge? := by
  funext key
  rw [edge?, edge?, same]

theorem Sane.of_same (sane : s.Sane)
    (rows : ∀ n, (t.row? n).map Row.unflagged = (s.row? n).map Row.unflagged)
    (deps : ∀ q, ∀ d ∈ t.deps q, (∃ e ∈ s.deps q, e.issueId = d.issueId) ∨ s.Holds (q, d.issueId)) :
    t.Sane where
  onePlane id := by
    rw [holds_of_content rows, holds_of_content rows]
    exact sane.onePlane id
  sources p d held := by
    rw [holds_of_content rows]
    rcases deps p d held with ⟨e, stored, source⟩ | source
    · rw [← source]
      exact sane.sources p e stored
    · exact source

/-- Edges are removed by their ends. -/
theorem Sane.edge?_of_removed (sane : s.Sane) (after : t.Sane) (gone : String × String → Prop)
    [DecidablePred gone] (deps : ∀ q d, d ∈ t.deps q ↔ d ∈ s.deps q ∧ ¬ gone d.key) :
    t.edge? = fun key => if gone key then none else s.edge? key := by
  funext key
  refine Option.ext fun x => ?_
  rw [after.edge?_eq_some]
  constructor
  · rintro ⟨p, d, held, rfl, same⟩
    obtain ⟨stored, stays⟩ := (deps p d).mp held
    rw [if_neg stays, sane.edge?_eq_some]
    exact ⟨p, d, stored, rfl, same⟩
  · intro found
    split at found
    · cases found
    · next stays =>
      obtain ⟨p, d, stored, rfl, same⟩ := sane.edge?_eq_some.mp found
      exact ⟨p, d, (deps p d).mpr ⟨stored, stays⟩, rfl, same⟩

/-- The edge between two ends is in one table only. -/
theorem Sane.mem_deps_delete (sane : s.Sane) {d : Dep} (held : d ∈ s.deps p) (owner : d.key = key)
    (q : Plane) (e : Dep) : e ∈ (s.withDeps p ((s.deps p).delete fun e => e.key = key)).deps q ↔
      e ∈ s.deps q ∧ ¬ e.key = key := by
  by_cases plane : q = p
  · subst plane
    rw [withDeps_deps_self, Table.mem_delete]
  · rw [withDeps_deps_ne s p _ plane]
    refine iff_self_and.mpr fun stored same => plane ?_
    have source : e.issueId = d.issueId := congrArg Prod.fst (same.trans owner.symm)
    exact sane.plane_eq (source ▸ sane.sources q e stored) (sane.sources p d held)

/-- An edge is written in place of the one between the same ends. -/
theorem Sane.edge?_of_written (sane : s.Sane) (after : t.Sane) {d : Dep}
    (deps : ∀ q e, e ∈ t.deps q ↔ (e ∈ s.deps q ∧ e.key ≠ d.key) ∨ (q = p ∧ e = d)) :
    t.edge? = Function.update s.edge? d.key (some (d.type, d.metadata)) := by
  funext key
  refine Option.ext fun x => ?_
  rw [after.edge?_eq_some, Function.update_apply]
  constructor
  · rintro ⟨q, e, held, rfl, same⟩
    rcases (deps q e).mp held with ⟨stored, other⟩ | ⟨-, rfl⟩
    · rw [if_neg other, sane.edge?_eq_some]
      exact ⟨q, e, stored, rfl, same⟩
    · rw [if_pos rfl, same]
  · intro found
    split at found
    · next same =>
      exact ⟨p, d, (deps p d).mpr (Or.inr ⟨rfl, rfl⟩), same.symm, Option.some.inj found⟩
    · next other =>
      obtain ⟨q, e, stored, rfl, same⟩ := sane.edge?_eq_some.mp found
      exact ⟨q, e, (deps q e).mpr (Or.inl ⟨stored, other⟩), rfl, same⟩

/-- An accepted add writes the edge of the request, and no row but for flags. -/
theorem Sane.addDependency (sane : s.Sane) {c : Coordinator} {dep : Dependency}
    {opts : AddDependencyOpts} (returns : (s.addDependency c dep opts).Returns t) :
    t.Sane ∧ t.content = s.content ∧
      t.edge? = Function.update s.edge? (dep.issueId, dep.dependsOnId)
      (some (dep.type, dep.metadata)) := by
  obtain ⟨-, ⟨d, held, key, type, rfl⟩ | ⟨u, added⟩⟩ := addDependency_returns returns
  · -- The edge is there: only its metadata changes.
    let new : Dep := { d with metadata := dep.metadata }
    have deps : ∀ q e, e ∈ (s.setMetadata (s.writeTable dep opts) d.key dep.metadata).deps q ↔
        (e ∈ s.deps q ∧ e.key ≠ new.key) ∨ (q = s.writeTable dep opts ∧ e = new) := by
      intro q e
      by_cases plane : q = s.writeTable dep opts
      · subst plane
        rw [setMetadata, withDeps_deps_self, Table.mem_update]
        constructor
        · rintro ⟨old, stored, rfl⟩
          split
          · next same =>
            obtain rfl := Table.eq_of_key stored held same
            exact Or.inr ⟨rfl, rfl⟩
          · next other => exact Or.inl ⟨stored, other⟩
        · rintro (⟨stored, other⟩ | ⟨-, rfl⟩)
          · exact ⟨e, stored, if_neg other⟩
          · exact ⟨d, held, if_pos rfl⟩
      · rw [setMetadata, withDeps_deps_ne s _ _ plane]
        simp only [plane, false_and, or_false, iff_self_and]
        intro stored same
        have source : e.issueId = d.issueId := congrArg Prod.fst same
        exact plane (sane.plane_eq (source ▸ sane.sources q e stored) (sane.sources _ d held))
    have after : (s.setMetadata (s.writeTable dep opts) d.key dep.metadata).Sane := by
      refine sane.of_same (fun _ => rfl) fun q e stored => ?_
      rcases (deps q e).mp stored with ⟨old, -⟩ | ⟨rfl, rfl⟩
      · exact Or.inl ⟨e, old, rfl⟩
      · exact Or.inl ⟨d, held, rfl⟩
    refine ⟨after, rfl, ?_⟩
    rw [sane.edge?_of_written after deps, ← key, ← type]
    rfl
  · let new : Dep := ⟨dep.issueId, s.depTarget dep opts, dep.type, dep.metadata⟩
    have named : new.key = (dep.issueId, dep.dependsOnId) := by rw [Dep.key, depTarget_id]
    have rows : ∀ n, (t.row? n).map Row.unflagged = (s.row? n).map Row.unflagged := fun n => by
      have same := added.row?_cleared_eq n
      rwa [row?_cleared, row?_cleared] at same
    have after : t.Sane := by
      refine sane.of_same rows fun q e stored => ?_
      rcases added.mem_deps.mp stored with old | ⟨rfl, rfl⟩
      · exact Or.inl ⟨e, old, rfl⟩
      · exact Or.inr added.source
    refine ⟨after, content_of_rows rows, ?_⟩
    have deps : ∀ q e, e ∈ t.deps q ↔
        (e ∈ s.deps q ∧ e.key ≠ new.key) ∨ (q = s.writeTable dep opts ∧ e = new) := by
      intro q e
      rw [added.mem_deps, named]
      refine or_congr_left (iff_self_and.mpr fun stored same => ?_)
      have source : e.issueId = dep.issueId := congrArg Prod.fst same
      have plane := sane.plane_eq (source ▸ sane.sources q e stored) added.source
      subst plane
      exact added.fresh e stored same
    rw [sane.edge?_of_written after deps, named]

/-! ## Deleted rows -/

/-- Some rows are gone, and with them exactly the edges that have one of them as an
end. -/
structure Removed (s t : Store) (gone : Set Node) : Prop where
  kept : ∀ n ∉ gone, t.row? n = s.row? n
  absent : ∀ n ∈ gone, t.row? n = none
  deps : ∀ q d, d ∈ t.deps q ↔
    d ∈ s.deps q ∧ (q, d.issueId) ∉ gone ∧ ∀ x ∈ gone, d.target ≠ .node x

theorem holds_iff {n : Node} : s.Holds n ↔ s.row? n ≠ none := by
  rw [ne_eq, row?, Table.find?_eq_none]
  simp only [Holds, ne_eq, not_forall, exists_prop, not_not]

namespace Removed
variable {gone gone' : Set Node}

theorem refl (s : Store) : Removed s s ∅ where
  kept _ _ := rfl
  absent _ none := none.elim
  deps q d := by simp

theorem trans (first : Removed s t gone) (second : Removed t u gone') :
    Removed s u (gone ∪ gone') where
  kept n out := (second.kept n fun held => out (Or.inr held)).trans
    (first.kept n fun held => out (Or.inl held))
  absent n held := by
    by_cases later : n ∈ gone'
    · exact second.absent n later
    · rw [second.kept n later]
      exact first.absent n (held.resolve_right later)
  deps q d := by
    rw [second.deps, first.deps]
    simp only [Set.mem_union, not_or, or_imp, forall_and]
    tauto

theorem congr (removed : Removed s t gone) (same : ∀ n, n ∈ gone ↔ n ∈ gone') :
    Removed s t gone' := by
  rwa [Set.ext same] at removed

theorem holds_iff (removed : Removed s t gone) {n : Node} : t.Holds n ↔ s.Holds n ∧ n ∉ gone := by
  rw [Store.holds_iff, Store.holds_iff]
  by_cases held : n ∈ gone
  · simp [removed.absent n held, held]
  · simp [removed.kept n held, held]

theorem sane (removed : Removed s t gone) (before : s.Sane) : t.Sane where
  onePlane id := by
    rw [removed.holds_iff, removed.holds_iff]
    exact fun both => before.onePlane id ⟨both.1.1, both.2.1⟩
  sources p d held := by
    obtain ⟨stored, source, -⟩ := (removed.deps p d).mp held
    exact removed.holds_iff.mpr ⟨before.sources p d stored, source⟩

end Removed

theorem mem_deleteRows_deps {ids : List String} {d : Dep} : d ∈ (s.deleteRows p ids).deps q ↔
    d ∈ s.deps q ∧ ¬ (q = p ∧ d.issueId ∈ ids ∧ s.Holds (p, d.issueId)) ∧
      ¬ ((p = .wisps → q = .wisps) ∧ ∃ id ∈ ids, s.Holds (p, id) ∧ d.target = .node (p, id)) := by
  have typed : ∀ id, id ∈ d.target.column p ↔ d.target = .node (p, id) := fun id => by
    cases d.target with
    | external ref => simp [Target.column]
    | node n => simp [Target.column, Prod.ext_iff]
  change d ∈ (s.deps q).delete _ ↔ _
  rw [Table.mem_delete, Cascades, not_or]
  simp only [typed]
  refine and_congr_right fun _ => and_congr_right fun _ => not_congr (and_congr_right fun _ => ?_)
  exact exists_congr fun id => by tauto

theorem deleteRows_removed (ids : List String) : Removed s (s.deleteRows .issues ids)
    {n | n.1 = .issues ∧ n.2 ∈ ids ∧ s.Holds n} where
  kept n out := by
    by_cases named : n ∈ nodes .issues ids
    · have missing : ¬ s.Holds n := fun held => out ⟨named.1, named.2, held⟩
      rw [(deleteRows_deleted .issues ids).absent n named]
      rw [Store.holds_iff, not_not] at missing
      exact missing.symm
    · exact (deleteRows_deleted .issues ids).kept n named
  absent n held := (deleteRows_deleted .issues ids).absent n ⟨held.1, held.2.1⟩
  deps q d := by
    rw [mem_deleteRows_deps]
    refine and_congr_right fun _ => and_congr ?_ ?_
    · refine not_congr (and_congr_right fun plane => ?_)
      subst plane
      rfl
    · constructor
      · rintro none x ⟨plane, named, held⟩ onto
        refine none ⟨fun differ => (by cases differ), x.2, named, ?_⟩
        rw [← plane]
        exact ⟨held, onto⟩
      · rintro none ⟨-, id, named, held, onto⟩
        exact none (.issues, id) ⟨rfl, named, held⟩ onto

private theorem deleteWisp_removed {id : String} (held : s.Holds (.wisps, id)) :
    Removed s ((s.deleteRows .wisps [id]).deleteWispFromDependencies id) {(.wisps, id)} where
  kept n out := by
    refine (deleteRows_deleted .wisps [id]).kept n fun named => out ?_
    exact Prod.ext named.1 (List.mem_singleton.mp named.2)
  absent n named := by
    obtain rfl := Set.mem_singleton_iff.mp named
    exact (deleteRows_deleted .wisps [id]).absent _ ⟨rfl, List.mem_singleton_self id⟩
  deps q d := by
    have cut : d ∈ ((s.deleteRows .wisps [id]).deleteWispFromDependencies id).deps q ↔
        d ∈ (s.deleteRows .wisps [id]).deps q ∧ ¬ (q = .issues ∧ d.target = .node (.wisps, id)) := by
      unfold deleteWispFromDependencies
      cases q with
      | issues => simp [Table.mem_delete]
      | wisps => simp [withDeps_deps_ne]
    rw [cut, mem_deleteRows_deps]
    simp only [Set.mem_singleton_iff, forall_eq, List.mem_singleton, exists_eq_left, Prod.mk.injEq]
    have source : (d.issueId = id ∧ s.Holds (.wisps, d.issueId)) ↔ d.issueId = id :=
      and_iff_left_iff_imp.mpr fun same => same ▸ held
    cases q with
    | issues => simp
    | wisps => simp [source, held]

/-- A row is deleted with all the edges it is an end of, and with no other. -/
theorem deleteIssueRow_removed {n : Node} (returns : (s.deleteIssueRow n).Returns t) :
    s.Holds n ∧ Removed s t {n} := by
  unfold deleteIssueRow at returns
  split at returns
  · exact absurd returns Call.not_returns_throw
  · next held =>
    have held := not_not.mp held
    refine ⟨held, ?_⟩
    obtain ⟨plane, id⟩ := n
    cases plane with
    | wisps =>
      obtain rfl := Call.returns_pure.mp returns
      exact deleteWisp_removed held
    | issues =>
      obtain rfl := Call.returns_pure.mp returns
      refine (deleteRows_removed [id]).congr fun m => ?_
      rw [Set.mem_ofPred_eq, Set.mem_singleton_iff, List.mem_singleton, Prod.ext_iff]
      constructor
      · exact fun named => ⟨named.1, named.2.1⟩
      · exact fun named => ⟨named.1, named.2, by rw [Prod.ext named.1 named.2]; exact held⟩

end Store

/-! ## Calls on edges -/

namespace Workspace
variable {w v : Workspace} {now : Nat → Nat}

/-- The journal shows what is stored. -/
structure Mirrored (w : Workspace) : Prop where
  sane : w.store.Sane
  shows : w.journal.Shows w.store.content w.store.edge?

theorem Mirrored.faithful (mirrored : w.Mirrored) : w.Faithful :=
  Store.faithful_of_shows mirrored.sane mirrored.shows

/-- The recomputation of flags journals rows whose content is unchanged. -/
theorem recomputeRecorded_shows {s : Store} {ids : IDs} {j : Journal} {edges : EdgeMap}
    (sane : s.Sane)
    (shows : j.Shows s.content edges) (returns : (s.recomputeRecorded now ids j).Returns v) :
    v.store.Sane ∧ v.store.edge? = s.edge? ∧ v.journal.Shows v.store.content edges := by
  obtain ⟨t, recomputed, rest⟩ := Call.returns_bind.mp returns
  obtain ⟨journal, recorded, rest⟩ := Call.returns_bind.mp rest
  obtain rfl := Call.returns_pure.mp rest
  have cleared := recomputeIsBlocked_cleared recomputed
  have rows := Store.unflagged_of_cleared cleared
  have deps := Store.deps_of_cleared cleared
  have content : t.content = s.content := Store.content_of_rows rows
  refine ⟨sane.of_same rows fun q d held => ?_, Store.edge?_of_deps deps, ?_⟩
  · rw [deps] at held
    exact Or.inl ⟨d, held, rfl⟩
  · change journal.Shows t.content edges
    rw [content]
    exact shows.recordUpdates (fun id => congrFun content id) recorded

theorem addCall_mirrored {call : AddCall} (journaled : call.session.journaled = true)
    (before : w.Mirrored) (returns : (call.run w).Returns v) : v.Mirrored := by
  obtain ⟨t, added, rest⟩ := Call.returns_bind.mp returns
  rw [journaled, if_neg (by decide)] at rest
  obtain ⟨updated, updates, rest⟩ := Call.returns_bind.mp rest
  obtain ⟨journal, record, rest⟩ := Call.returns_bind.mp rest
  obtain rfl := Call.returns_pure.mp rest
  obtain ⟨sane, content, edges⟩ := before.sane.addDependency added
  have shows := before.shows.recordUpdates (fun id => congrFun content id) updates
  refine ⟨sane, ?_⟩
  change journal.Shows t.content t.edge?
  rw [content, edges]
  exact shows.recordDepEvent_add record

private theorem addDependencies_mirrored {session : Session} {request : AddDependenciesRequest}
    (journaled : session.journaled = true) (before : w.Mirrored)
    (returns : (w.addDependencies session request).Returns v) : v.Mirrored := by
  obtain ⟨_, -, rest⟩ := Call.returns_bind.mp returns
  obtain ⟨added, each, rest⟩ := Call.returns_bind.mp rest
  obtain ⟨_, -, rest⟩ := Call.returns_bind.mp rest
  obtain rfl := Call.returns_pure.mp rest
  exact Call.inv_of_foldlM Mirrored
    (fun u edge _ mirrored t run => addCall_mirrored journaled mirrored run)
    before each

private theorem removeDependency_mirrored {issueId dependsOnId : String} (before : w.Mirrored)
    (returns : (w.removeDependency now issueId dependsOnId).Returns v) : v.Mirrored := by
  unfold removeDependency at returns
  extract_lets p removed at returns
  split at returns
  · rwa [← Call.returns_pure.mp returns]
  · next d found =>
    obtain ⟨held, key⟩ := Table.find?_eq_some.mp found
    obtain ⟨u, recomputed, rest⟩ := Call.returns_bind.mp returns
    obtain ⟨journal, record, rest⟩ := Call.returns_bind.mp rest
    obtain rfl := Call.returns_pure.mp rest
    have deps : ∀ q e, e ∈ removed.deps q ↔ e ∈ w.store.deps q ∧ ¬ e.key = (issueId, dependsOnId) :=
      before.sane.mem_deps_delete held key
    have sane : removed.Sane := before.sane.of_same (fun _ => rfl) fun q e stored =>
      Or.inl ⟨e, ((deps q e).mp stored).1, rfl⟩
    have edges := before.sane.edge?_of_removed sane (· = (issueId, dependsOnId)) deps
    obtain ⟨after, same, shows⟩ := recomputeRecorded_shows sane before.shows recomputed
    refine ⟨after, ?_⟩
    change journal.Shows u.store.content u.store.edge?
    have recorded := shows.recordDepEvent_remove record
    rw [same, edges]
    refine ⟨recorded.retained, recorded.issues, recorded.edges.trans ?_⟩
    funext other
    rw [Function.update_apply]

end Workspace

/-! ## Deletions -/

namespace Store
variable {s t : Store}

/-- The rows that a set of ids names in each plane, as far as they are there. -/
def named (s : Store) (set : IDs) : Set Node := {n | n.2 ∈ set n.1 ∧ s.Holds n}

theorem deleteWisps_removed {ids : List String}
    (returns : (ids.foldlM (fun s id => Store.deleteIssueRow s (.wisps, id)) s).Returns t) :
    Removed s t (nodes .wisps ids) ∧ ∀ id ∈ ids, s.Holds (.wisps, id) := by
  induction ids generalizing s with
  | nil =>
    obtain rfl := Call.returns_pure.mp returns
    exact ⟨(Removed.refl s).congr fun n => by simp [nodes], by simp⟩
  | cons first rest ih =>
    rw [List.foldlM_cons] at returns
    obtain ⟨u, head, tail⟩ := Call.returns_bind.mp returns
    obtain ⟨held, removed⟩ := deleteIssueRow_removed head
    obtain ⟨later, there⟩ := ih tail
    refine ⟨(removed.trans later).congr fun n => ?_, fun id inside => ?_⟩
    · simp only [nodes, Set.mem_union, Set.mem_singleton_iff, Set.mem_ofPred_eq, List.mem_cons,
        Prod.ext_iff]
      tauto
    · rcases List.mem_cons.mp inside with rfl | inside
      · exact held
      · exact (removed.holds_iff.mp (there id inside)).1

theorem deleteBatches_removed (all : List (List String)) :
    Removed s (all.foldl (fun s batch => s.deleteRows .issues batch) s)
      {n | n.1 = .issues ∧ (∃ batch ∈ all, n.2 ∈ batch) ∧ s.Holds n} := by
  induction all generalizing s with
  | nil => exact (Removed.refl s).congr fun n => by simp
  | cons first rest ih =>
    have head := deleteRows_removed (s := s) first
    refine (head.trans ih).congr fun n => ?_
    simp only [Set.mem_union, Set.mem_ofPred_eq, List.mem_cons, exists_eq_or_imp, head.holds_iff]
    tauto

namespace Removed
variable {set : IDs} {ids : List String}

private theorem content_eq (removed : Removed s t (s.named set)) (sane : s.Sane)
    (member : ∀ id, id ∈ ids ↔ ∃ p, id ∈ set p) (routed : ∀ p, ∀ id ∈ set p, s.routed id = p) :
    t.content = fun id => if id ∈ ids then none else s.content id := by
  funext id
  split
  · next inside =>
    obtain ⟨p, inside⟩ := (member id).mp inside
    have gone : ∀ q, t.row? (q, id) = none := fun q => by
      by_contra there
      obtain ⟨held, stays⟩ := removed.holds_iff.mp (Store.holds_iff.mpr there)
      have plane : q = p := (sane.routed_eq held).symm.trans (routed p id inside)
      exact stays ⟨plane ▸ inside, held⟩
    rw [content, journalIssue, gone, gone]
    rfl
  · next outside =>
    have kept : ∀ q, t.row? (q, id) = s.row? (q, id) := fun q =>
      removed.kept (q, id) fun gone => outside ((member id).mpr ⟨q, gone.1⟩)
    rw [content, content, journalIssue, journalIssue, kept, kept]

/-- The cascade takes exactly the edges that the journal's query selects. -/
theorem edge?_eq (removed : Removed s t (s.named set)) (sane : s.Sane)
    (member : ∀ id, id ∈ ids ↔ ∃ p, id ∈ set p) (routed : ∀ p, ∀ id ∈ set p, s.routed id = p)
    (stray : ∀ p, ∀ d ∈ s.deps p, ¬ s.Strays ids d) :
    t.edge? = fun key => if key.1 ∈ ids ∨ key.2 ∈ ids then none else s.edge? key := by
  refine sane.edge?_of_removed (removed.sane sane) (fun key => key.1 ∈ ids ∨ key.2 ∈ ids) ?_
  intro q d
  rw [removed.deps]
  refine and_congr_right fun stored => ?_
  have held : ∀ n : Node, s.Holds n → n.2 ∈ ids → n ∈ s.named set := fun n held inside => by
    obtain ⟨p, inside⟩ := (member n.2).mp inside
    have plane : n.1 = p := (sane.routed_eq held).symm.trans (routed p n.2 inside)
    exact ⟨plane ▸ inside, held⟩
  have source : d.issueId ∈ ids → (q, d.issueId) ∈ s.named set :=
    held (q, d.issueId) (sane.sources q d stored)
  rw [not_or]
  constructor
  · rintro ⟨stays, free⟩
    refine ⟨fun inside => stays (source inside), fun inside => ?_⟩
    refine stray q d stored ⟨inside, fun leaves => stays (source leaves), fun n onto there => ?_⟩
    refine free n (held n there ?_) onto
    rwa [Dep.key, onto] at inside
  · rintro ⟨stays, free⟩
    refine ⟨fun gone => stays ((member _).mpr ⟨q, gone.1⟩), fun n gone onto => free ?_⟩
    rw [Dep.key, onto]
    exact (member n.2).mpr ⟨n.1, gone.1⟩

end Removed

theorem mem_dependencyEdgesForIssueIds {ids : List String} {edge : JournalEdge} :
    edge ∈ s.dependencyEdgesForIssueIds ids ↔
      ∃ p, ∃ d ∈ s.deps p, (d.issueId ∈ ids ∨ d.target.id ∈ ids) ∧ d.recorded = edge := by
  rw [dependencyEdgesForIssueIds, List.mem_insertionSort, List.mem_dedup]
  simp only [List.mem_flatMap, Plane.mem_all, true_and, List.mem_map, List.mem_filter,
    decide_eq_true_eq, and_assoc]
  rfl

/-- The records of the removed edges, against the edges of the store. -/
theorem Sane.recordRemovals (sane : s.Sane) {j next : Journal} {now : Nat → Nat} {ids : List String}
    {rows : String → Option Row} {u : Store} (shows : j.Shows rows s.edge?)
    (returns : (u.recordDepEvents now .depRemove (s.dependencyEdgesForIssueIds ids) j).Returns next) :
    next.Shows rows fun key => if key.1 ∈ ids ∨ key.2 ∈ ids then none else s.edge? key := by
  have after := shows.recordRemovals returns
  refine ⟨after.retained, after.issues, after.edges.trans ?_⟩
  funext key
  split
  · next recorded =>
    obtain ⟨edge, held, rfl⟩ := recorded
    obtain ⟨p, d, -, inside, rfl⟩ := mem_dependencyEdgesForIssueIds.mp held
    exact (if_pos inside).symm
  · next unrecorded =>
    split
    · next inside =>
      by_contra there
      obtain ⟨x, found⟩ := Option.ne_none_iff_exists'.mp there
      obtain ⟨p, d, stored, rfl, -⟩ := sane.edge?_eq_some.mp found
      exact unrecorded ⟨_, mem_dependencyEdgesForIssueIds.mpr ⟨p, d, stored, inside, rfl⟩, rfl⟩
    · rfl

end Store

private theorem Journal.Shows.recordDeletes {j next : Journal} {rows : String → Option Row}
    {edges : EdgeMap} {now : Nat → Nat} {ids : List String} (shows : j.Shows rows edges)
    (returns : (ids.foldlM (fun j id => Journal.recordDelete j now id) j).Returns next) :
    next.Shows (fun id => if id ∈ ids then none else rows id) edges := by
  induction ids generalizing j rows with
  | nil =>
    obtain rfl := Call.returns_pure.mp returns
    simpa using shows
  | cons first rest ih =>
    rw [List.foldlM_cons] at returns
    obtain ⟨mid, head, tail⟩ := Call.returns_bind.mp returns
    have after := ih (shows.recordDelete head) tail
    refine ⟨after.retained, fun id => (after.issues id).trans ?_, after.edges⟩
    simp only [List.mem_cons, Function.update_apply]
    by_cases here : id = first
    · simp [here]
    · simp [here]

namespace Workspace
variable {w v : Workspace} {now : Nat → Nat}

/-- What a deletion leaves, once the journal has the removed edges and the deleted
rows. -/
theorem Mirrored.deletion {s t : Store} {j journal : Journal} (before : Mirrored ⟨s, j⟩) (set : IDs)
    (ids removed : List String) (deleted : s.Removed t (s.named set))
    (member : ∀ id, id ∈ ids ↔ ∃ p, id ∈ set p) (routed : ∀ p, ∀ id ∈ set p, s.routed id = p)
    (stray : ∀ p, ∀ d ∈ s.deps p, ¬ s.Strays ids d) (listed : ∀ id ∈ removed, id ∈ ids)
    (missing : ∀ id ∈ ids, id ∉ removed → s.content id = none)
    (shows : journal.Shows (fun id => if id ∈ removed then none else s.content id)
      fun key => if key.1 ∈ ids ∨ key.2 ∈ ids then none else s.edge? key) :
    Mirrored ⟨t, journal⟩ := by
  refine ⟨deleted.sane before.sane, ?_⟩
  change journal.Shows t.content t.edge?
  rw [deleted.content_eq before.sane member routed,
    deleted.edge?_eq before.sane member routed stray]
  refine ⟨shows.retained, fun id => (shows.issues id).trans ?_, shows.edges⟩
  by_cases inside : id ∈ removed
  · rw [if_pos inside, if_pos (listed id inside)]
  · by_cases named : id ∈ ids
    · rw [if_neg inside, if_pos named, missing id named inside]
    · rw [if_neg inside, if_neg named]

theorem recomputeRecorded_mirrored {s : Store} {ids : IDs} {j : Journal} (before : Mirrored ⟨s, j⟩)
    (returns : (s.recomputeRecorded now ids j).Returns v) : v.Mirrored := by
  obtain ⟨sane, edges, shows⟩ := recomputeRecorded_shows before.sane before.shows returns
  exact ⟨sane, edges ▸ shows⟩

theorem deleteIssueRow_returns {n : Node} (returns : (w.deleteIssueRow now n).Returns v) :
    (w.store.deleteIssueRow n).Returns v.store ∧
      (w.journal.recordDelete now n.2).Returns v.journal := by
  obtain ⟨t, deleted, rest⟩ := Call.returns_bind.mp returns
  obtain ⟨journal, recorded, rest⟩ := Call.returns_bind.mp rest
  obtain rfl := Call.returns_pure.mp rest
  exact ⟨deleted, recorded⟩

private theorem mem_deletedIn {p q : Plane} {ids : List String} {id : String} :
    id ∈ Store.deletedIn p ids q ↔ q = p ∧ id ∈ ids := by
  unfold Store.deletedIn
  by_cases plane : q = p
  · simp [plane]
  · simp [plane]

private theorem deleteIssue_mirrored {id : String} (before : w.Mirrored)
    (stray : ∀ p, ∀ d ∈ w.store.deps p, ¬ w.store.Strays [id] d)
    (returns : (w.deleteIssue now id).Returns v) : v.Mirrored := by
  obtain ⟨j, removals, rest⟩ := Call.returns_bind.mp returns
  obtain ⟨u, deleted, rest⟩ := Call.returns_bind.mp rest
  obtain ⟨deleted, recorded⟩ := deleteIssueRow_returns deleted
  obtain ⟨held, removed⟩ := Store.deleteIssueRow_removed deleted
  have shows := (before.sane.recordRemovals before.shows removals).recordDelete recorded
  refine recomputeRecorded_mirrored (before.deletion (Store.deletedIn (w.store.routed id) [id])
    [id] [id] ?_ ?_ ?_ stray (fun _ inside => inside)
    (fun _ inside outside => absurd inside outside) ?_) rest
  · refine removed.congr fun m => ?_
    rw [Store.named, Set.mem_ofPred_eq, mem_deletedIn, List.mem_singleton, Set.mem_singleton_iff,
      Prod.ext_iff]
    exact (and_iff_left_of_imp fun same => by rwa [Prod.ext same.1 same.2]).symm
  · intro other
    simp only [mem_deletedIn, exists_eq_left]
  · intro p other inside
    obtain ⟨rfl, only⟩ := mem_deletedIn.mp inside
    rw [List.mem_singleton.mp only]
  · refine ⟨shows.retained, fun other => (shows.issues other).trans ?_, shows.edges⟩
    simp only [Function.update_apply, List.mem_singleton]

private theorem deleteWisps_returns {ids : List String}
    (returns : (ids.foldlM (fun v id => Workspace.deleteIssueRow v now (.wisps, id)) w).Returns v) :
    (ids.foldlM (fun s id => Store.deleteIssueRow s (.wisps, id)) w.store).Returns v.store ∧
      (ids.foldlM (fun j id => Journal.recordDelete j now id) w.journal).Returns v.journal := by
  induction ids generalizing w with
  | nil =>
    obtain rfl := Call.returns_pure.mp returns
    exact ⟨Call.returns_pure.mpr rfl, Call.returns_pure.mpr rfl⟩
  | cons first rest ih =>
    rw [List.foldlM_cons] at returns ⊢
    rw [List.foldlM_cons]
    obtain ⟨u, head, tail⟩ := Call.returns_bind.mp returns
    obtain ⟨deleted, recorded⟩ := deleteIssueRow_returns head
    obtain ⟨store, journal⟩ := ih tail
    exact ⟨Call.returns_bind.mpr ⟨u.store, deleted, store⟩,
      Call.returns_bind.mpr ⟨u.journal, recorded, journal⟩⟩

private theorem deleteResolvedSet_mirrored {set : IDs} (before : w.Mirrored)
    (routed : ∀ p, ∀ id ∈ set p, w.store.routed id = p)
    (stray : ∀ p, ∀ d ∈ w.store.deps p, ¬ w.store.Strays (set .issues ++ set .wisps) d)
    (returns : (w.deleteResolvedSet now set).Returns v) : v.Mirrored := by
  unfold deleteResolvedSet at returns
  split at returns
  · rwa [← Call.returns_pure.mp returns]
  · extract_lets affected journaled at returns
    obtain ⟨j, removals, rest⟩ := Call.returns_bind.mp returns
    obtain ⟨u, wisps, rest⟩ := Call.returns_bind.mp rest
    extract_lets durable at rest
    obtain ⟨journal, recorded, rest⟩ := Call.returns_bind.mp rest
    obtain ⟨deleted, recordedWisps⟩ := deleteWisps_returns wisps
    obtain ⟨first, there⟩ := Store.deleteWisps_removed deleted
    have shows :=
      ((before.sane.recordRemovals before.shows removals).recordDeletes recordedWisps).recordDeletes
      recorded
    refine recomputeRecorded_mirrored (before.deletion set _ (set .wisps ++ journaled)
      ((first.trans (Store.deleteBatches_removed _)).congr ?_) ?_ routed stray ?_ ?_ ?_) rest
    · rintro ⟨p, id⟩
      have positive : 0 < deleteBatchSize := by decide
      simp only [Set.mem_union, Set.mem_ofPred_eq, mem_batches positive, Store.named, Store.nodes,
        first.holds_iff]
      cases p with
      | issues => simp
      | wisps => simpa using there id
    · intro id
      simp only [List.mem_append]
      constructor
      · exact fun inside => inside.elim (fun held => ⟨.issues, held⟩) fun held => ⟨.wisps, held⟩
      · rintro ⟨p, held⟩
        cases p with
        | issues => exact Or.inl held
        | wisps => exact Or.inr held
    · intro id inside
      rcases List.mem_append.mp inside with wisp | durable
      · exact List.mem_append_right _ wisp
      · exact List.mem_append_left _ (List.mem_filter.mp durable).1
    · intro id inside unlisted
      rw [List.mem_append, not_or] at unlisted
      have named := (List.mem_append.mp inside).resolve_right unlisted.1
      by_contra stored
      obtain ⟨row, found⟩ := Option.ne_none_iff_exists'.mp stored
      obtain ⟨p, r, held, owner, -⟩ := before.sane.content_eq_some.mp found
      have plane : .issues = p :=
        (routed .issues id named).symm.trans (before.sane.routed_eq ⟨r, held, owner⟩)
      subst plane
      exact unlisted.2 (List.mem_filter.mpr ⟨named, decide_eq_true ⟨r, held, owner⟩⟩)
    · refine ⟨shows.retained, fun id => (shows.issues id).trans ?_, shows.edges⟩
      simp only [List.mem_append]
      by_cases wisp : id ∈ set .wisps
      · simp [wisp]
      · simp [wisp]

end Workspace

namespace Store
variable {s : Store}

private theorem isActiveWisp_of_routed {id : String} (routed : s.routed id = .wisps) :
    s.IsActiveWisp id := by
  by_contra durable
  simp [Store.routed, Plane.ofWisp, durable] at routed

theorem mem_dependents {id x : String} :
    x ∈ s.dependents id ↔ ∃ p, ∃ d ∈ s.deps p, d.target.id = id ∧ d.issueId = x := by
  simp only [dependents, List.mem_flatMap, Plane.mem_all, true_and, List.mem_map, List.mem_filter,
    decide_eq_true_eq, and_assoc]
  rfl

/-- The run of the cascade's queue. -/
def cascadeRun (s : Store) (ids : List String) : Worklist.Expansion Unit String :=
  Worklist.run deleteBatchSize (fun n (_ : Unit) => s.dependents n.2) [()]
    ((s.deps .issues).rows.length + (s.deps .wisps).rows.length + ids.length + 1)
    ⟨fun _ => [], ⟨fun _ => ids, fun _ => ids⟩⟩

theorem cascadeRun_spec (s : Store) (ids : List String) :
    Worklist.Running (fun n (_ : Unit) => s.dependents n.2) ⟨fun _ => ids, fun _ => ids⟩ (s.cascadeRun ids) ∧
      ∀ lane, (s.cascadeRun ids).frontier.queue lane = [] := by
  let children : Unit × String → Unit → List String := fun n _ => s.dependents n.2
  let pool : Unit → List String := fun _ =>
    (s.deps .issues).rows.map Dep.issueId ++ (s.deps .wisps).rows.map Dep.issueId
  let start : Worklist.Frontier Unit String := ⟨fun _ => ids, fun _ => ids⟩
  have known : ∀ n m, Worklist.Child children n m → m.2 ∈ pool m.1 := by
    intro n m child
    obtain ⟨p, d, held, -, source⟩ := mem_dependents.mp child
    refine List.mem_append.mpr ?_
    cases p with
    | issues => exact Or.inl (List.mem_map.mpr ⟨d, held, source⟩)
    | wisps => exact Or.inr (List.mem_map.mpr ⟨d, held, source⟩)
  have enough : start.measure pool <
      (s.deps .issues).rows.length + (s.deps .wisps).rows.length + ids.length + 1 := by
    have waiting : start.measure pool = (pool ()).countP (· ∉ ids) + ids.length := by
      simp [Worklist.Frontier.measure, start]
    have fits : (pool ()).countP (· ∉ ids) ≤ (pool ()).length := List.countP_le_length
    have total : (pool ()).length = (s.deps .issues).rows.length + (s.deps .wisps).rows.length := by
      simp [pool]
    omega
  exact Worklist.run_spec (by decide : 0 < deleteBatchSize) (fun _ => List.mem_singleton_self ())
    known _
    (Worklist.Running.init fun _ queued => queued) enough

/-- The cascade closes the named ids under dependents. -/
theorem findAllDependents_closed {ids closure : List String}
    (returns : (s.findAllDependents ids).Returns closure) {id x : String} (inside : id ∈ closure)
    (edge : x ∈ s.dependents id) : x ∈ closure := by
  unfold findAllDependents at returns
  extract_lets found at returns
  split at returns
  · exact absurd returns Call.not_returns_throw
  · obtain rfl := Call.returns_pure.mp returns
    obtain ⟨running, empty⟩ := s.cascadeRun_spec ids
    rcases (running.mem_taken empty ((), id)).2.2.2 ((), x) inside edge with taken | seen
    · exact taken
    · exact (running.mem_taken empty ((), x)).1 seen

/-- The ids a deletion names, when nothing but its targets' own edges can be left out of
the cascade. -/
theorem resolveDeletionSet_returns {ids : List String} {cascade : Bool} {set : IDs}
    (returns : (s.resolveDeletionSet ids cascade).Returns set) :
    (∀ p, ∀ id ∈ set p, s.routed id = p) ∧
      ((cascade = true ∧ ∀ id ∈ set .issues ++ set .wisps, ∀ x ∈ s.dependents id,
          x ∈ set .issues ++ set .wisps) ∨
        (cascade = false ∧ ∀ id, id ∈ set .issues ++ set .wisps ↔ id ∈ ids)) := by
  have routed : ∀ all :
      List String, ∀ p, ∀ id ∈ all.filter fun id => s.routed id = p, s.routed id = p :=
    fun all p id inside => of_decide_eq_true (List.mem_filter.mp inside).2
  have both : ∀ (all : List String) id, id ∈ (all.filter fun id => s.routed id = .issues) ++
      (all.filter fun id => s.routed id = .wisps) ↔ id ∈ all := fun all id => by
    simp only [List.mem_append, List.mem_filter, decide_eq_true_eq]
    cases s.routed id <;> simp
  unfold resolveDeletionSet at returns
  cases cascade with
  | true =>
    obtain ⟨closure, found, rest⟩ := Call.returns_bind.mp returns
    obtain ⟨all, sorted, rest⟩ := Call.returns_bind.mp rest
    obtain rfl := Call.returns_pure.mp sorted
    obtain rfl := Call.returns_pure.mp rest
    have listed : ∀ id, id ∈ sortedDeleteIDs closure ↔ id ∈ closure := fun id => by
      rw [sortedDeleteIDs, List.mem_insertionSort, List.mem_dedup]
    refine ⟨routed _, Or.inl ⟨rfl, fun id inside x edge => ?_⟩⟩
    rw [both, listed] at inside ⊢
    exact findAllDependents_closed found inside edge
  | false =>
    obtain ⟨all, same, rest⟩ := Call.returns_bind.mp returns
    obtain rfl := Call.returns_pure.mp same
    obtain rfl := Call.returns_pure.mp rest
    exact ⟨routed _, Or.inr ⟨rfl, both _⟩⟩

end Store

private theorem Workspace.deleteIssues_mirrored {w v : Workspace} {now : Nat → Nat}
    {ids : List String} {cascade force dryRun : Bool} (before : w.Mirrored)
    (safe : (JournaledCall.deleteIssues now ids cascade force dryRun).Safe w.store)
    (returns : (w.deleteIssues now ids cascade force dryRun).Returns v) : v.Mirrored := by
  unfold deleteIssues at returns
  split at returns
  · rwa [← Call.returns_pure.mp returns]
  · obtain ⟨set, resolved, rest⟩ := Call.returns_bind.mp returns
    obtain ⟨routed, all⟩ := Store.resolveDeletionSet_returns resolved
    extract_lets last at rest
    have tail : (last ()).Returns v ∧ (cascade = false → force = false →
        ∀ id ∈ set .issues, w.store.dependentsOutside ids id = []) := by
      split at rest
      · split at rest
        · obtain ⟨_, refused, -⟩ := Call.returns_bind.mp rest
          exact absurd refused Call.not_returns_throw
        · next none =>
          refine ⟨rest, fun _ _ id inside => ?_⟩
          simpa using List.find?_eq_none.mp none id inside
      · next skipped => exact ⟨rest, fun one two => absurd ⟨one, two⟩ skipped⟩
    obtain ⟨rest, checked⟩ := tail
    simp only [last] at rest
    split at rest
    · rwa [← Call.returns_pure.mp rest]
    · next wet =>
      refine deleteResolvedSet_mirrored before routed (fun p d held strays => ?_) rest
      obtain ⟨onto, leaves, nowhere⟩ := strays
      have edge : d.issueId ∈ w.store.dependents d.target.id :=
        Store.mem_dependents.mpr ⟨p, d, held, rfl, rfl⟩
      rcases all with ⟨-, closed⟩ | ⟨rfl, named⟩
      · exact leaves (closed _ onto _ edge)
      · have outside : d.issueId ∉ ids := fun inside => leaves ((named _).mpr inside)
        obtain ⟨unforced, durable⟩ := ((safe.resolve_left (by decide)).resolve_left wet) p d held
          ⟨(named _).mp onto, outside, nowhere⟩
        have issue : d.target.id ∈ set .issues := by
          refine (List.mem_append.mp onto).resolve_right fun wisp => durable ?_
          exact Store.isActiveWisp_of_routed (routed .wisps _ wisp)
        have none := checked rfl unforced _ issue
        have member : d.issueId ∈ w.store.dependentsOutside ids d.target.id := by
          rw [Store.dependentsOutside, sortedDeleteIDs, List.mem_insertionSort, List.mem_dedup]
          exact List.mem_filter.mpr ⟨edge, decide_eq_true outside⟩
        rw [none] at member
        exact List.not_mem_nil member

/-! ## Renames -/

namespace Store
variable {s t : Store} {p : Plane} {oldId newId : String} {at_ : Nat}

/-- One row has another id, and its edges follow it. -/
structure Renamed (s t : Store) (p : Plane) (oldId newId : String) (at_ : Nat) : Prop where
  held : s.Holds (p, oldId)
  rows : ∀ q r, r ∈ t.rows q ↔ ∃ o ∈ s.rows q,
    (if q = p ∧ o.id = oldId then { o with id := newId, updatedAt := at_ } else o) = r
  deps : ∀ q d, d ∈ t.deps q ↔ ∃ o ∈ s.deps q, o.rename p oldId newId q = d

theorem updateIssueId_returns (returns : (s.updateIssueId at_ oldId newId).Returns t) :
    Renamed s t (s.routed oldId) oldId newId at_ := by
  unfold updateIssueId at returns
  extract_lets p renamed at returns
  split at returns
  · exact absurd returns Call.not_returns_throw
  · next held =>
    split at returns
    · exact absurd returns Call.not_returns_throw
    · next rows rekeyed =>
      split at returns
      · next durable ephemeral first second =>
        obtain rfl := Call.returns_pure.mp returns
        refine ⟨not_not.mp held, fun q r => ?_, fun q d => ?_⟩
        · by_cases plane : q = s.routed oldId
          · subst plane
            simp only [p, Function.update_self, true_and]
            exact Table.mem_of_rekey? rekeyed
          · simp [p, plane]
        · cases q with
          | issues => exact Table.mem_of_rekey? first
          | wisps => exact Table.mem_of_rekey? second
      · exact absurd returns Call.not_returns_throw

namespace Renamed

theorem holds_iff (renamed : Renamed s t p oldId newId at_) {q : Plane} {id : String} :
    t.Holds (q, id) ↔ (s.Holds (q, id) ∧ ¬ (q = p ∧ id = oldId)) ∨ (q = p ∧ id = newId) := by
  constructor
  · rintro ⟨r, there, rfl⟩
    obtain ⟨o, held, rfl⟩ := (renamed.rows q r).mp there
    split
    · next here => exact Or.inr ⟨here.1, rfl⟩
    · next other => exact Or.inl ⟨⟨o, held, rfl⟩, other⟩
  · rintro (⟨⟨o, held, rfl⟩, other⟩ | ⟨rfl, rfl⟩)
    · exact ⟨o, (renamed.rows q o).mpr ⟨o, held, if_neg other⟩, rfl⟩
    · obtain ⟨o, held, same⟩ := renamed.held
      exact ⟨_, (renamed.rows q _).mpr ⟨o, held, if_pos ⟨rfl, same⟩⟩, rfl⟩

private theorem sane (renamed : Renamed s t p oldId newId at_) (before : s.Sane)
    (free : ¬ s.Holds (p.sibling, newId)) : t.Sane where
  onePlane id both := by
    rw [renamed.holds_iff, renamed.holds_iff] at both
    cases p with
    | issues =>
      obtain ⟨here, ⟨there, -⟩ | ⟨plane, -⟩⟩ := both
      · rcases here with ⟨held, -⟩ | ⟨-, rfl⟩
        · exact before.onePlane id ⟨held, there⟩
        · exact free there
      · cases plane
    | wisps =>
      obtain ⟨⟨there, -⟩ | ⟨plane, -⟩, here⟩ := both
      · rcases here with ⟨held, -⟩ | ⟨-, rfl⟩
        · exact before.onePlane id ⟨there, held⟩
        · exact free there
      · cases plane
  sources q d there := by
    obtain ⟨o, held, rfl⟩ := (renamed.deps q d).mp there
    have source := before.sources q o held
    rw [renamed.holds_iff, Dep.rename]
    dsimp only
    split
    · next here => exact Or.inr ⟨here.1, rfl⟩
    · next other => exact Or.inl ⟨source, other⟩

/-- Rows with other ids are untouched, and nothing has the old id. -/
theorem content_eq (renamed : Renamed s t p oldId newId at_) (before : s.Sane) :
    t.content = Function.update (Function.update s.content oldId none) newId (t.content newId) := by
  funext id
  rw [Function.update_apply, Function.update_apply]
  split
  · next same => rw [same]
  · next other =>
    split
    · next same =>
      subst same
      have gone : ∀ q, t.row? (q, id) = none := fun q => by
        by_contra there
        rcases renamed.holds_iff.mp (Store.holds_iff.mpr there) with ⟨held, stays⟩ | ⟨-, same⟩
        · exact stays ⟨before.plane_eq held renamed.held, rfl⟩
        · exact other same
      rw [content, journalIssue, gone, gone]
      rfl
    · next others =>
      have kept : ∀ q, t.row? (q, id) = s.row? (q, id) := fun q => by
        refine Option.ext fun r => ?_
        rw [row?_eq_some, row?_eq_some, renamed.rows]
        constructor
        · rintro ⟨⟨o, held, rfl⟩, same⟩
          split at same
          · exact absurd same.symm other
          · next stays => exact ⟨by rwa [if_neg stays], by rwa [if_neg stays]⟩
        · rintro ⟨held, rfl⟩
          exact ⟨⟨r, held, if_neg fun here => others here.2⟩, rfl⟩
      rw [content, content, journalIssue, journalIssue, kept, kept]

/-- The records of the renamed edges are the renamed rows. -/
theorem renameEdge_eq (before : s.Sane) (held : s.Holds (p, oldId)) {q : Plane} {d : Dep}
    (stored : d ∈ s.deps q) (outside : d.target ≠ .external oldId) :
    Workspace.renameEdge oldId newId d.recorded = (d.rename p oldId newId q).recorded := by
  have source : (if q = p ∧ d.issueId = oldId then newId else d.issueId) =
      if d.issueId = oldId then newId else d.issueId := by
    by_cases same : d.issueId = oldId
    · have plane : q = p := before.plane_eq (same ▸ before.sources q d stored) held
      rw [if_pos ⟨plane, same⟩, if_pos same]
    · rw [if_neg fun here => same here.2, if_neg same]
  have target : (d.target.rename p oldId newId).id =
      if d.target.id = oldId then newId else d.target.id := by
    cases onto : d.target with
    | external ref =>
      rw [Target.rename, Target.id, if_neg]
      rintro rfl
      exact outside onto
    | node n =>
      rw [Target.rename, Target.id]
      split
      · rfl
      · rfl
  rw [Workspace.renameEdge, Dep.rename, Dep.recorded, Dep.recorded, source, target]

theorem mem_renamedEdges (renamed : Renamed s t p oldId newId at_) (before : s.Sane)
    (outside : ∀ p, ∀ d ∈ s.deps p, d.target ≠ .external oldId) {edge : JournalEdge} :
    edge ∈ (s.dependencyEdgesForIssueIds [oldId]).map (Workspace.renameEdge oldId newId) ↔
      ∃ q, ∃ d ∈ s.deps q, (d.issueId ∈ [oldId] ∨ d.target.id ∈ [oldId]) ∧
        (d.rename p oldId newId q).recorded = edge := by
  rw [List.mem_map]
  constructor
  · rintro ⟨_, held, rfl⟩
    obtain ⟨q, d, stored, touches, rfl⟩ := mem_dependencyEdgesForIssueIds.mp held
    exact ⟨q, d, stored, touches,
      (renameEdge_eq before renamed.held stored (outside q d stored)).symm⟩
  · rintro ⟨q, d, stored, touches, rfl⟩
    exact ⟨d.recorded, mem_dependencyEdgesForIssueIds.mpr ⟨q, d, stored, touches, rfl⟩,
      renameEdge_eq before renamed.held stored (outside q d stored)⟩

/-- An edge that is recorded under the new id is the stored edge with its ends. -/
theorem recorded_eq (renamed : Renamed s t p oldId newId at_) (before : s.Sane) (sane : t.Sane)
    (outside : ∀ p, ∀ d ∈ s.deps p, d.target ≠ .external oldId) {q : Plane} {e : Dep}
    (there : e ∈ t.deps q) {edge : JournalEdge}
    (held : edge ∈ (s.dependencyEdgesForIssueIds [oldId]).map (Workspace.renameEdge oldId newId))
    (same : (edge.1, edge.2.target) = e.key) : edge = e.recorded := by
  obtain ⟨q', d, stored, -, rfl⟩ := (renamed.mem_renamedEdges before outside).mp held
  have there' := (renamed.deps q' _).mpr ⟨d, stored, rfl⟩
  have source : (d.rename p oldId newId q').issueId = e.issueId := congrArg Prod.fst same
  have plane : q' = q := sane.plane_eq (source ▸ sane.sources q' _ there') (sane.sources q e there)
  subst plane
  rw [Table.eq_of_key there' there same]

/-- The edges of the renamed store, by their ends. -/
theorem edge?_eq (renamed : Renamed s t p oldId newId at_) (before : s.Sane) (sane : t.Sane)
    (outside : ∀ p, ∀ d ∈ s.deps p, d.target ≠ .external oldId) {edges : EdgeMap}
    (given : ∀ edge ∈ (s.dependencyEdgesForIssueIds [oldId]).map (Workspace.renameEdge oldId newId),
      edges (edge.1, edge.2.target) = some (edge.2.kind, edge.2.metadata))
    (kept : ∀ key, (∀ edge ∈ (s.dependencyEdgesForIssueIds [oldId]).map (Workspace.renameEdge oldId newId),
      (edge.1, edge.2.target) ≠ key) →
        edges key = if key.1 ∈ [oldId] ∨ key.2 ∈ [oldId] then none else s.edge? key) :
    t.edge? = edges := by
  -- An edge that does not touch the old id is not renamed.
  have unmoved : ∀ q (d : Dep), ¬ (d.issueId ∈ [oldId] ∨ d.target.id ∈ [oldId]) →
      d.rename p oldId newId q = d := by
    intro q d free
    rw [List.mem_singleton, List.mem_singleton, not_or] at free
    have target : d.target.rename p oldId newId = d.target := by
      cases onto : d.target with
      | external ref => rfl
      | node n =>
        rw [onto] at free
        exact if_neg free.2
    rw [Dep.rename, target, if_neg fun here => free.1 here.2]
  funext key
  refine Option.ext fun x => ?_
  rw [sane.edge?_eq_some]
  constructor
  · rintro ⟨q, e, there, rfl, rfl⟩
    by_cases hit : ∃ edge ∈ (s.dependencyEdgesForIssueIds [oldId]).map (Workspace.renameEdge oldId newId),
        (edge.1, edge.2.target) = e.key
    · obtain ⟨edge, held, same⟩ := hit
      rw [← same, given edge held, renamed.recorded_eq before sane outside there held same]
      rfl
    · obtain ⟨d, stored, rfl⟩ := (renamed.deps q e).mp there
      have free : ¬ (d.issueId ∈ [oldId] ∨ d.target.id ∈ [oldId]) := fun touches =>
        hit ⟨_, (renamed.mem_renamedEdges before outside).mpr ⟨q, d, stored, touches, rfl⟩, rfl⟩
      rw [unmoved q d free] at hit ⊢
      rw [kept d.key fun edge held same => hit ⟨edge, held, same⟩]
      exact (if_neg free).trans (before.edge?_eq_some.mpr ⟨q, d, stored, rfl, rfl⟩)
  · intro found
    by_cases hit : ∃ edge ∈ (s.dependencyEdgesForIssueIds [oldId]).map (Workspace.renameEdge oldId newId),
        (edge.1, edge.2.target) = key
    · obtain ⟨edge, held, rfl⟩ := hit
      rw [given edge held] at found
      obtain ⟨q, d, stored, -, rfl⟩ := (renamed.mem_renamedEdges before outside).mp held
      exact ⟨q, _, (renamed.deps q _).mpr ⟨d, stored, rfl⟩, rfl, Option.some.inj found⟩
    · rw [kept key fun edge held same => hit ⟨edge, held, same⟩] at found
      split at found
      · cases found
      · next free =>
        obtain ⟨q, d, stored, rfl, same⟩ := before.edge?_eq_some.mp found
        exact ⟨q, d, (renamed.deps q d).mpr ⟨d, stored, unmoved q d free⟩, rfl, same⟩

end Renamed
end Store

private theorem Workspace.updateIssueId_mirrored {w v : Workspace} {now : Nat → Nat} {at_ : Nat}
    {oldId newId : String} (before : w.Mirrored)
    (safe : (JournaledCall.updateIssueId now at_ oldId newId).Safe w.store)
    (returns : (w.updateIssueId now at_ oldId newId).Returns v) : v.Mirrored := by
  obtain ⟨t, wrote, rest⟩ := Call.returns_bind.mp returns
  obtain ⟨j₁, removals, rest⟩ := Call.returns_bind.mp rest
  obtain ⟨j₂, deleted, rest⟩ := Call.returns_bind.mp rest
  obtain ⟨j₃, created, rest⟩ := Call.returns_bind.mp rest
  obtain ⟨journal, adds, rest⟩ := Call.returns_bind.mp rest
  obtain rfl := Call.returns_pure.mp rest
  have renamed := Store.updateIssueId_returns wrote
  have sane := renamed.sane before.sane safe.2
  have shows :=
    ((before.sane.recordRemovals before.shows removals).recordDelete deleted).recordEvent
    (Or.inl rfl) created
  obtain ⟨edges, shows, given, kept⟩ := shows.recordAdds (fun a held b held' same => by
    obtain ⟨q, d, stored, -, rfl⟩ := (renamed.mem_renamedEdges before.sane safe.1).mp held'
    exact renamed.recorded_eq before.sane sane safe.1 ((renamed.deps q _).mpr ⟨d, stored, rfl⟩)
      held same) adds
  refine ⟨sane, ?_⟩
  change journal.Shows t.content t.edge?
  rw [renamed.content_eq before.sane, renamed.edge?_eq before.sane sane safe.1 given kept]
  exact shows

/-! ## Runs -/

/-- What one call leaves, accepted or refused. -/
theorem JournaledCall.leaves_mirrored {call : JournaledCall} {w v : Workspace} (before : w.Mirrored)
    (safe : call.Safe w.store) (leaves : (call.run w).Leaves w v) : v.Mirrored := by
  rcases leaves with returns | ⟨-, rfl⟩
  · cases call with
    | addDependency session dep opts => exact Workspace.addCall_mirrored rfl before returns
    | addDependencies session request => exact Workspace.addDependencies_mirrored rfl before returns
    | removeDependency now issueId dependsOnId =>
      exact Workspace.removeDependency_mirrored before returns
    | deleteIssue now id => exact Workspace.deleteIssue_mirrored before safe returns
    | deleteIssues now ids cascade force dryRun =>
      exact Workspace.deleteIssues_mirrored before safe returns
    | updateIssueId now at_ oldId newId =>
      exact Workspace.updateIssueId_mirrored before safe returns
  · exact before

/-- A step of a run, accepted or refused, that meets the condition. -/
def SafeJournaledStep (w v : Workspace) : Prop :=
  ∃ call : JournaledCall, call.Safe w.store ∧ (call.run w).Leaves w v

private theorem Workspace.Faithful.mirrored {w : Workspace} (faithful : w.Faithful)
    (sane : w.store.Sane) (retained : ∃ low, w.journal.Contiguous low) : w.Mirrored where
  sane := sane
  shows := by
    refine ⟨retained, fun id => Option.ext fun row => ?_, funext fun key => Option.ext fun x => ?_⟩
    · rw [sane.content_eq_some, Option.map_eq_some_iff]
      exact faithful.rows id row
    · rw [sane.edge?_eq_some]
      simpa only [Prod.ext_iff] using faithful.edges key.1 key.2 x.1 x.2

/-- In every run whose steps leave no edge behind, replaying the journal gives the
stored rows and the stored edges. -/
theorem journal_replays_to_store {w v : Workspace} (sane : w.store.Sane)
    (retained : ∃ low, w.journal.Contiguous low) (faithful : w.Faithful)
    (run : ReflTransGen SafeJournaledStep w v) : v.Faithful := by
  have mirrored : v.Mirrored := by
    induction run with
    | refl => exact faithful.mirrored sane retained
    | tail _ step ih =>
      obtain ⟨call, safe, leaves⟩ := step
      exact JournaledCall.leaves_mirrored ih safe leaves
  exact mirrored.faithful

/-- Two issues with different prefixes, and the records of their creation. -/
def twoPrefixes : Workspace where
  store :=
    { rows := fun
        | .issues => ⟨[{ id := "bd-1" }, { id := "xx-1" }], by decide⟩
        | .wisps => Table.empty
      deps := fun _ => Table.empty }
  journal :=
    { counter := some 2
      rows := ⟨[⟨{ op := .create, issueId := "bd-1", issue := some { id := "bd-1" } }, 1, 0⟩,
        ⟨{ op := .create, issueId := "xx-1", issue := some { id := "xx-1" } }, 2, 0⟩], by decide⟩ }

def crossPrefixEdge : JournaledCall :=
  .addDependency ⟨⟨fun _ => 0, fun _ _ => 1⟩, true, fun _ => 0⟩ ⟨"bd-1", "xx-1", .blocks, .empty⟩ {}

theorem twoPrefixes_sane : twoPrefixes.store.Sane where
  onePlane id := by
    rintro ⟨-, r, held, -⟩
    exact List.not_mem_nil held
  sources p d held := (List.not_mem_nil held).elim

theorem twoPrefixes_contiguous : twoPrefixes.journal.Contiguous 0 where
  le := Nat.zero_le _
  rows n := by
    change (∃ r ∈ twoPrefixes.journal.rows.rows, r.seq = n) ↔ 0 < n ∧ n ≤ 2
    simp only [twoPrefixes, List.mem_cons, List.not_mem_nil, or_false, exists_eq_or_imp,
      exists_eq_left]
    omega

theorem twoPrefixes_faithful : twoPrefixes.Faithful := by
  refine Store.faithful_of_shows twoPrefixes_sane ⟨⟨0, twoPrefixes_contiguous⟩, fun id => ?_, rfl⟩
  have replay : twoPrefixes.journal.replay.issues = Function.update (Function.update (fun _ => none)
      "bd-1" (some { id := "bd-1" })) "xx-1" (some { id := "xx-1" }) := rfl
  rw [replay]
  by_cases first : id = "bd-1"
  · subst first
    decide
  · by_cases second : id = "xx-1"
    · subst second
      decide
    · have durable : twoPrefixes.store.row? (.issues, id) = none :=
        Table.find?_eq_none.mpr fun r held same => by
          rcases List.mem_cons.mp held with rfl | held
          · exact first same.symm
          · obtain rfl := List.mem_singleton.mp held
            exact second same.symm
      have ephemeral : twoPrefixes.store.row? (.wisps, id) = none := rfl
      rw [Function.update_of_ne second, Function.update_of_ne first, Store.content,
        Store.journalIssue, durable, ephemeral]
      rfl

/-- The edge is added, and its source gets another id. -/
theorem journal_replays_to_store_renamed : ∃ v, ReflTransGen SafeJournaledStep twoPrefixes v ∧
    v.store.edge? ("bd-2", "xx-1") = some (.blocks, .empty) ∧ v.Faithful := by
  obtain ⟨v, added, renamed⟩ : ∃ v, (crossPrefixEdge.run twoPrefixes).Returns v ∧
      (∀ p, ∀ d ∈ v.store.deps p, d.target ≠ .external "bd-1") ∧
        ¬ v.store.Holds ((v.store.routed "bd-1").sibling, "bd-2") ∧
          ∃ u ∈ ((JournaledCall.updateIssueId (fun _ => 0) 0 "bd-1" "bd-2").run v).value? 3,
            u.store.edge? ("bd-2", "xx-1") = some (.blocks, .empty) :=
    Call.returns_of_value? (n := 3) (by decide +kernel)
  obtain ⟨outside, free, renamed⟩ := renamed
  obtain ⟨u, returns, edge⟩ := Call.returns_of_value? renamed
  have first : SafeJournaledStep twoPrefixes v := ⟨crossPrefixEdge, trivial, Or.inl added⟩
  have second : SafeJournaledStep v u :=
    ⟨.updateIssueId (fun _ => 0) 0 "bd-1" "bd-2", ⟨outside, free⟩, Or.inl returns⟩
  have run := (ReflTransGen.single first).tail second
  exact ⟨u, run, edge, journal_replays_to_store twoPrefixes_sane ⟨0, twoPrefixes_contiguous⟩
    twoPrefixes_faithful run⟩

/-- The edge is stored in the external column, so deleting the issue it names records
its removal and keeps it. -/
theorem journal_replays_to_store_external : twoPrefixes.store.Sane ∧
    (∃ low, twoPrefixes.journal.Contiguous low) ∧ twoPrefixes.Faithful ∧
      ∃ v u, (crossPrefixEdge.run twoPrefixes).Returns v ∧
        ((JournaledCall.deleteIssue (fun _ => 0) "xx-1").run v).Returns u ∧ ¬ u.Faithful := by
  obtain ⟨v, added, deleted⟩ : ∃ v, (crossPrefixEdge.run twoPrefixes).Returns v ∧
      ∃ u ∈ ((JournaledCall.deleteIssue (fun _ => 0) "xx-1").run v).value? 3,
        u.journal.replay.edges ("bd-1", "xx-1") = none ∧
          ⟨"bd-1", .external "xx-1", .blocks, .empty⟩ ∈ u.store.deps .issues :=
    Call.returns_of_value? (n := 3) (by decide +kernel)
  obtain ⟨u, returns, removed, kept⟩ := Call.returns_of_value? deleted
  refine ⟨twoPrefixes_sane, ⟨0, twoPrefixes_contiguous⟩, twoPrefixes_faithful, v, u, added, returns,
    ?_⟩
  intro faithful
  have stored := (faithful.edges "bd-1" "xx-1" .blocks .empty).mpr ⟨.issues, _, kept, rfl, rfl, rfl⟩
  rw [removed] at stored
  cases stored

end Beads
