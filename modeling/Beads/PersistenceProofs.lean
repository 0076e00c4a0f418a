import Beads.CreateProofs
import Beads.Persistence

/-! Blocked flags across plane moves. A move takes a row out of one plane and
puts it into the other, with the edges that leave it and the edges onto it
(`Moved`). The affected set is read afterwards, at the new place of the row:
what looked at the row before looks at its new place now, so the set covers the
change together with the old place, where no row is left. -/
namespace Beads
open Lib Lib.Graph Lib.Propagation Relation

namespace Dep
variable {source target : Plane} {id : String} {d : Dep}

theorem retarget_issueId : (d.retarget source target id).issueId = d.issueId := by
  unfold retarget
  split <;> rfl

theorem retarget_type : (d.retarget source target id).type = d.type := by
  unfold retarget
  split <;> rfl

theorem retarget_of_ne (other : d.target ≠ .node (source, id)) : d.retarget source target id = d :=
  if_neg other

theorem retarget_target (same : d.target = .node (source, id)) :
    (d.retarget source target id).target = .node (target, id) := by
  rw [retarget, if_pos same]

/-- Nothing points to the old place. -/
theorem retarget_ne (differ : source ≠ target) :
    (d.retarget source target id).target ≠ .node (source, id) := by
  by_cases same : d.target = .node (source, id)
  · rw [retarget_target same]
    intro back
    exact differ (congrArg Prod.fst (Target.node.inj back)).symm
  · rwa [retarget_of_ne same]

theorem target_of_retarget {x : Node} (other : x.2 ≠ id)
    (onto : (d.retarget source target id).target = .node x) : d.target = .node x := by
  by_cases moving : d.target = .node (source, id)
  · rw [retarget_target moving] at onto
    exact absurd (congrArg Prod.snd (Target.node.inj onto)).symm other
  · rwa [retarget_of_ne moving] at onto

end Dep

namespace Store
variable {s t u : Store} {source target : Plane} {id : String}

/-- Whoever looks at the row is affected. -/
theorem StatusScope.mem_of_onto {L : Set Node} {x m : Node} (affected : StatusScope t x L)
    {type : DependencyType} (affects : type.Affects) (edge : t.Onto (· = type) m x) : m ∈ L := by
  obtain ⟨e, held, owner, kind, onto⟩ := edge
  rcases affects with blocking | waits | child
  · exact affected.dependers m ⟨e, held, owner, kind ▸ blocking, onto⟩
  · exact affected.waiters m x rfl ⟨e, held, owner, kind ▸ waits, onto⟩
  · exact affected.closed m x ⟨e, held, owner, kind ▸ child, onto⟩ affected.self

/-- The row with the id and its edges are in another plane. Every parent that
somebody waits for is still a parent there. -/
structure Moved (s t : Store) (source target : Plane) (id : String) : Prop where
  differ : source ≠ target
  kept : ∀ m : Node, m.2 ≠ id → t.row? m = s.row? m
  gone : t.row? (source, id) = none
  deps : ∀ q, ∀ d ∈ t.deps q, ∃ e, Dep.retarget source target id e = d ∧
    ((e.issueId = id ∧ q = target ∧ ∃ p, e ∈ s.deps p) ∨ (e.issueId ≠ id ∧ e ∈ s.deps q))
  others : ∀ q, ∀ e ∈ s.deps q, e.issueId ≠ id → e.retarget source target id ∈ t.deps q
  parents : ∀ c x m : Node, c.2 = id → x.2 ≠ id → s.ParentOf c x → t.Onto (· = .waitsFor) m x →
    t.ParentOf (target, id) x

namespace Moved
variable (moved : Moved s t source target id)
include moved

theorem place {m : Node} (same : m.2 = id) : m = (source, id) ∨ m = (target, id) := by
  obtain ⟨p, key⟩ := m
  obtain rfl : key = id := same
  have differ := moved.differ
  cases p <;> cases source <;> cases target <;> simp_all

private theorem status? {m : Node} (other : m.2 ≠ id) : t.status? m = s.status? m := by
  rw [Store.status?, moved.kept m other]
  rfl

private theorem mem_flags {m : Node} (other : m.2 ≠ id) : m ∈ t.flags ↔ m ∈ s.flags := by
  rw [mem_flags_iff, mem_flags_iff, moved.kept m other]

theorem not_onto_source (type : DependencyType → Prop) {m : Node} :
    ¬ t.Onto type m (source, id) := by
  rintro ⟨d, held, -, -, onto⟩
  obtain ⟨e, rfl, -⟩ := moved.deps m.1 d held
  exact Dep.retarget_ne moved.differ onto

/-- The edges of the other rows, apart from those onto the row that moves. -/
theorem mem_deps_iff {m : Node} {d : Dep} (owner : d.issueId = m.2) (other : m.2 ≠ id)
    (away : ∀ p, d.target ≠ .node (p, id)) : d ∈ t.deps m.1 ↔ d ∈ s.deps m.1 := by
  constructor
  · intro held
    obtain ⟨e, rfl, ⟨same, -⟩ | ⟨-, held⟩⟩ := moved.deps m.1 d held
    · exact absurd (owner.symm.trans (Dep.retarget_issueId.trans same)) other
    · by_cases onto : e.target = .node (source, id)
      · exact absurd (Dep.retarget_target onto) (away target)
      · rwa [Dep.retarget_of_ne onto]
  · intro held
    have kept : d.retarget source target id = d := Dep.retarget_of_ne (away source)
    rw [← kept]
    exact moved.others m.1 d held (owner ▸ other)

/-- Whatever was onto the row is onto its new place. -/
theorem onto_target {m : Node} {d : Dep} (held : d ∈ s.deps m.1) (owner : d.issueId = m.2)
    (other : m.2 ≠ id) {p : Plane} (onto : d.target = .node (p, id)) {type : DependencyType → Prop}
    (chosen : type d.type) : t.Onto type m (target, id) := by
  refine ⟨d.retarget source target id, moved.others m.1 d held (owner ▸ other),
    Dep.retarget_issueId.trans owner, Dep.retarget_type.symm ▸ chosen, ?_⟩
  rcases moved.place (m := (p, id)) rfl with same | same
  · exact Dep.retarget_target (same ▸ onto)
  · have there : d.target = .node (target, id) := same ▸ onto
    rw [Dep.retarget_of_ne, there]
    rw [there]
    exact fun back => moved.differ (congrArg Prod.fst (Target.node.inj back)).symm

private theorem not_parentOf_source {x : Node} : ¬ t.ParentOf (source, id) x := by
  rintro ⟨d, held, owner, -⟩
  obtain ⟨e, rfl, ⟨-, plane, -⟩ | ⟨out, -⟩⟩ := moved.deps source d held
  · exact moved.differ plane
  · exact out (Dep.retarget_issueId.symm.trans owner)

section Affected
variable {L : Set Node} (affected : StatusScope t (target, id) L)
include affected

/-- A row outside the affected set and the old place has another id. -/
theorem apart {m : Node} (out : m ∉ L ∪ {(source, id)}) : m.2 ≠ id := by
  intro same
  rcases moved.place same with rfl | rfl
  · exact out (Or.inr rfl)
  · exact out (Or.inl affected.self)

theorem target_apart {m x : Node} (out : m ∉ L ∪ {(source, id)}) {d : Dep}
    (affects : d.type.Affects)
    (held : d ∈ t.deps m.1) (owner : d.issueId = m.2) (onto : d.target = .node x) : x.2 ≠ id := by
  intro same
  rcases moved.place same with rfl | rfl
  · exact moved.not_onto_source (· = d.type) ⟨d, held, owner, rfl, onto⟩
  · exact out (Or.inl (affected.mem_of_onto affects ⟨d, held, owner, rfl, onto⟩))

/-- Outside, no edge led to the row and none leads to its new place. -/
theorem edges_iff {m : Node} (out : m ∉ L ∪ {(source, id)}) {d : Dep} (owner : d.issueId = m.2)
    (affects : d.type.Affects) : d ∈ t.deps m.1 ↔ d ∈ s.deps m.1 := by
  have other := moved.apart affected out
  constructor
  · intro held
    exact (moved.mem_deps_iff owner other fun p onto =>
      moved.target_apart affected out affects held owner onto rfl).mp held
  · intro held
    refine (moved.mem_deps_iff owner other fun p onto => out (Or.inl ?_)).mpr held
    exact affected.mem_of_onto affects (moved.onto_target held owner other onto rfl)

theorem waiter_apart {m x : Node} (out : m ∉ L ∪ {(source, id)})
    (waits : t.Onto (· = .waitsFor) m x) :
    x.2 ≠ id := by
  obtain ⟨d, held, owner, kind, onto⟩ := waits
  exact moved.target_apart affected out (Or.inr (Or.inl kind)) held owner onto

/-- A gate outside looks at the moved row neither before nor after the move. -/
theorem child_apart {m x c : Node} (out : m ∉ L ∪ {(source, id)})
    (waits : t.Onto (· = .waitsFor) m x) (parent : t.ParentOf c x ∨ s.ParentOf c x) : c.2 ≠ id := by
  intro same
  have there : t.ParentOf (target, id) x := by
    rcases parent with parent | parent
    · rcases moved.place same with rfl | rfl
      · exact absurd parent moved.not_parentOf_source
      · exact parent
    · exact moved.parents c x m same (moved.waiter_apart affected out waits) parent waits
  exact out (Or.inl (affected.siblings m x there waits))

private theorem parentOf_iff {m x c : Node} (out : m ∉ L ∪ {(source, id)})
    (waits : t.Onto (· = .waitsFor) m x) : t.ParentOf c x ↔ s.ParentOf c x := by
  have away : ∀ d : Dep, d.target = .node x → ∀ p, d.target ≠ .node (p, id) := by
    intro d onto p back
    rw [onto] at back
    exact moved.waiter_apart affected out waits (congrArg Prod.snd (Target.node.inj back))
  constructor
  · intro parent
    have other := moved.child_apart affected out waits (Or.inl parent)
    obtain ⟨d, held, owner, type, onto⟩ := parent
    exact ⟨d, (moved.mem_deps_iff owner other (away d onto)).mp held, owner, type, onto⟩
  · intro parent
    have other := moved.child_apart affected out waits (Or.inr parent)
    obtain ⟨d, held, owner, type, onto⟩ := parent
    exact ⟨d, (moved.mem_deps_iff owner other (away d onto)).mpr held, owner, type, onto⟩

theorem covers : Covers s t (L ∪ {(source, id)}) where
  status _ out := moved.status? (moved.apart affected out)
  edges _ out _ owner affects := moved.edges_iff affected out owner affects
  blocker m out x edge := by
    obtain ⟨d, held, owner, kind, onto⟩ := edge
    exact moved.status? (moved.target_apart affected out (Or.inl kind) held owner onto)
  spawner _ out _ waits := moved.status? (moved.waiter_apart affected out waits)
  children _ out _ waits _ := moved.parentOf_iff affected out waits
  siblings _ out _ waits _ parent :=
    moved.status? (moved.child_apart affected out waits (Or.inl parent))
  closed m k parent inside := by
    rcases inside with inside | rfl
    · exact Or.inl (affected.closed m k parent inside)
    · exact absurd parent (moved.not_onto_source (· = .parentChild))

end Affected

private theorem parentChild {a b : String} (edge : t.ParentChild a b) : s.ParentChild a b := by
  obtain ⟨q, d, held, child, key⟩ := edge
  obtain ⟨e, rfl, ⟨-, -, p, stored⟩ | ⟨-, stored⟩⟩ := moved.deps q d held
  · exact ⟨p, e, stored, Dep.retarget_type ▸ child, (Dep.retarget_key ..).symm.trans key⟩
  · exact ⟨q, e, stored, Dep.retarget_type ▸ child, (Dep.retarget_key ..).symm.trans key⟩

theorem recompute (before : s.FlagsCorrect) (acyclic : Acyclic s.ParentChild) :
    (recomputeIsBlocked (t.affectedByStatusChange (target, id)) t).Settles FlagsCorrect := by
  have still : Acyclic t.ParentChild := acyclic.mono fun _ _ => moved.parentChild
  obtain ⟨v, returns, done⟩ := recomputeIsBlocked_of_acyclic _ (upward_acyclic still)
  have affected := t.affectedByStatusChange_spec (target, id)
  refine Call.settles_of_returns ⟨v, returns, (moved.covers affected).flagsCorrect_of_gone before
    (fun n old => ?_) (fun n out => moved.mem_flags fun same => out ?_) done⟩
  · rw [Set.mem_singleton_iff.mp old]
    exact moved.gone
  · rcases moved.place same with rfl | rfl
    · exact Or.inr rfl
    · exact Or.inl affected.self

end Moved

/-! ## The statements of a move -/

/-- The second store has edges of a list besides its own. -/
structure Copied (s t : Store) (p : Plane) (l : List Dep) : Prop where
  rows : t.rows = s.rows
  only : ∀ q, ∀ e ∈ t.deps q, e ∈ s.deps q ∨ (q = p ∧ e ∈ l)
  kept : ∀ q, ∀ e ∈ s.deps q, e ∈ t.deps q

variable {p : Plane} {d : Dep} {l : List Dep}

theorem Copied.nil (s : Store) (p : Plane) : Copied s s p [] :=
  ⟨rfl, fun _ _ held => Or.inl held, fun _ _ held => held⟩

theorem Copied.cons (inserted : Inserted s t p d) (copied : Copied t u p l) :
    Copied s u p (d :: l) where
  rows := copied.rows.trans inserted.rows
  only q e held := by
    rcases copied.only q e held with old | ⟨plane, later⟩
    · exact ((inserted.deps q e).mp old).imp_right fun ⟨plane, same⟩ =>
        ⟨plane, same ▸ List.mem_cons_self⟩
    · exact Or.inr ⟨plane, List.mem_cons_of_mem d later⟩
  kept q e held := copied.kept q e ((inserted.deps q e).mpr (Or.inl held))

theorem Copied.skip (copied : Copied s t p l) : Copied s t p (d :: l) where
  rows := copied.rows
  only q e held := (copied.only q e held).imp_right fun ⟨plane, later⟩ =>
    ⟨plane, List.mem_cons_of_mem d later⟩
  kept := copied.kept

theorem insertDeps_settles (l : List Dep) :
    (l.foldlM (fun t d => Store.insertDep t p d) s).Settles fun t =>
      Copied s t p l ∧ ∀ e ∈ l, e ∈ t.deps p := by
  induction l generalizing s with
  | nil => exact Call.settles_pure ⟨.nil s p, fun _ none => absurd none List.not_mem_nil⟩
  | cons first rest ih =>
    rw [List.foldlM_cons]
    refine Call.settles_bind insertDep_settles fun t ⟨inserted, _⟩ => ?_
    refine ih.mono fun u ⟨copied, arrived⟩ =>
      ⟨copied.cons inserted, List.forall_mem_cons.mpr ⟨?_, arrived⟩⟩
    exact copied.kept p first ((inserted.deps p first).mpr (Or.inr ⟨rfl, rfl⟩))

private theorem targetKey_of_rows (same : t.rows = s.rows) (onto : Target) :
    t.TargetKey p onto ↔ s.TargetKey p onto := by
  have holds : ∀ n, t.Holds n ↔ s.Holds n := fun n => by rw [Holds, Holds, same]
  cases onto with
  | external ref => exact Iff.rfl
  | node n =>
    obtain ⟨q, key⟩ := n
    cases q with
    | issues => exact holds _
    | wisps => exact imp_congr_right fun _ => holds _

private theorem insertDepIgnore_inserted (fresh : ∀ e ∈ s.deps p, e.key ≠ d.key)
    (keys : s.Holds (p, d.issueId) ∧ s.TargetKey p d.target) :
    Inserted s (s.insertDepIgnore p d) p d := by
  rw [insertDepIgnore, if_pos keys, Table.insertIgnore, dif_pos fresh]
  refine ⟨rfl, fun q e => ?_⟩
  by_cases plane : q = p
  · subst plane
    rw [withDeps_deps_self, Table.mem_insert]
    simp only [true_and]
  · rw [withDeps_deps_ne s p _ plane]
    simp only [plane, false_and, or_false]

private theorem insertDepIgnore_taken (keys : s.Holds (p, d.issueId) ∧ s.TargetKey p d.target)
    (taken : ¬ ∀ e ∈ s.deps p, e.key ≠ d.key) : s.insertDepIgnore p d = s := by
  rw [insertDepIgnore, if_pos keys, Table.insertIgnore, dif_neg taken, withDeps,
    Function.update_eq_self]

/-- `INSERT IGNORE` leaves out the edges whose key is taken, if every row is there. -/
theorem insertDepsIgnore_copied (l : List Dep) (distinct : (l.map Dep.key).Nodup)
    (keys : ∀ d ∈ l, s.Holds (p, d.issueId) ∧ s.TargetKey p d.target) :
    Copied s (l.foldl (fun t d => t.insertDepIgnore p d) s) p l ∧
      ∀ e ∈ l, e ∈ (l.foldl (fun t d => t.insertDepIgnore p d) s).deps p ∨
        ∃ d ∈ s.deps p, d.key = e.key := by
  induction l generalizing s with
  | nil => exact ⟨.nil s p, fun _ none => absurd none List.not_mem_nil⟩
  | cons first rest ih =>
    rw [List.map_cons, List.nodup_cons] at distinct
    rw [List.foldl_cons]
    have later := fun d held => keys d (List.mem_cons_of_mem first held)
    by_cases fresh : ∀ e ∈ s.deps p, e.key ≠ first.key
    · have inserted := insertDepIgnore_inserted fresh (keys first List.mem_cons_self)
      obtain ⟨copied, arrives⟩ := ih (s := s.insertDepIgnore p first) distinct.2 fun d held =>
        ⟨by rw [Holds, inserted.rows]; exact (later d held).1,
          (targetKey_of_rows inserted.rows _).mpr (later d held).2⟩
      refine ⟨copied.cons inserted, List.forall_mem_cons.mpr ⟨Or.inl ?_, fun e held => ?_⟩⟩
      · exact copied.kept p first ((inserted.deps p first).mpr (Or.inr ⟨rfl, rfl⟩))
      · apply (arrives e held).imp_right
        rintro ⟨x, stored, taken⟩
        refine ⟨x, ((inserted.deps p x).mp stored).resolve_right ?_, taken⟩
        rintro ⟨-, same⟩
        exact distinct.1 (List.mem_map.mpr ⟨e, held, taken.symm.trans (congrArg Dep.key same)⟩)
    · rw [insertDepIgnore_taken (keys first List.mem_cons_self) fresh]
      obtain ⟨copied, arrives⟩ := ih distinct.2 later
      exact ⟨copied.skip, List.forall_mem_cons.mpr ⟨Or.inr (by simpa using fresh), arrives⟩⟩

theorem mem_outgoing {e : Dep} : e ∈ s.outgoing p id ↔ e ∈ s.deps p ∧ e.issueId = id := by
  rw [Store.outgoing, List.mem_filter, decide_eq_true_eq]
  exact Iff.rfl

/-- Copying the edges of an id and deleting them where they were. -/
theorem mem_deleteOutgoing_copied (differ : source ≠ target)
    (copied : Copied s t target (s.outgoing source id)) {q : Plane} {e : Dep}
    (held : e ∈ (t.deleteOutgoing source id).deps q) :
    (e.issueId = id ∧ q = target ∧ ∃ p, e ∈ s.deps p) ∨ (e.issueId ≠ id ∧ e ∈ s.deps q) := by
  unfold deleteOutgoing at held
  by_cases plane : q = source
  · subst plane
    rw [withDeps_deps_self, Table.mem_delete] at held
    rcases copied.only q e held.1 with old | ⟨there, -⟩
    · exact Or.inr ⟨held.2, old⟩
    · exact absurd there differ
  · have there : q = target := by cases q <;> cases source <;> cases target <;> simp_all
    subst there
    rw [withDeps_deps_ne t source _ plane] at held
    by_cases owner : e.issueId = id
    · rcases copied.only q e held with old | ⟨-, listed⟩
      · exact Or.inl ⟨owner, rfl, q, old⟩
      · exact Or.inl ⟨owner, rfl, source, (mem_outgoing.mp listed).1⟩
    · rcases copied.only q e held with old | ⟨-, listed⟩
      · exact Or.inr ⟨owner, old⟩
      · exact absurd (mem_outgoing.mp listed).2 owner

private theorem mem_deleteOutgoing {q : Plane} {e : Dep} (held : e ∈ s.deps q)
    (stays : e.issueId ≠ id ∨ q ≠ source) :
    e ∈ (s.deleteOutgoing source id).deps q := by
  unfold deleteOutgoing
  by_cases plane : q = source
  · subst plane
    rw [withDeps_deps_self, Table.mem_delete]
    exact ⟨held, stays.resolve_right fun other => other rfl⟩
  · rwa [withDeps_deps_ne s source _ plane]

private theorem retargetTable_settles : (s.retargetTable source target id p).Settles fun t =>
    t.rows = s.rows ∧ (∀ d, d ∈ t.deps p ↔ ∃ e ∈ s.deps p, e.retarget source target id = d) ∧
      ∀ q, q ≠ p → t.deps q = s.deps q := by
  unfold retargetTable
  refine Call.settles_guard fun _ => Call.settles_guard fun _ => Call.settles_pure
    ⟨rfl, fun d => ?_, ?_⟩
  · rw [withDeps_deps_self, Table.mem_update]
  · exact fun q other => withDeps_deps_ne s p _ other

theorem retargetInbound_settles : (s.retargetInbound source target id).Settles fun t =>
    t.rows = s.rows ∧ ∀ q d, d ∈ t.deps q ↔ ∃ e ∈ s.deps q, e.retarget source target id = d := by
  unfold retargetInbound Plane.all
  rw [List.foldlM_cons]
  refine Call.settles_bind retargetTable_settles fun t ⟨rows, durable, others⟩ => ?_
  rw [List.foldlM_cons]
  refine Call.settles_bind retargetTable_settles fun u ⟨rows', ephemeral, others'⟩ => ?_
  refine Call.settles_pure ⟨rows'.trans rows, fun q d => ?_⟩
  cases q with
  | issues => rw [others' .issues (by decide), durable]
  | wisps => rw [ephemeral, others .wisps (by decide)]

/-- The edge has its counterpart in the other plane, or nobody waits for its target. -/
def Merges (s : Store) (p : Plane) (e : Dep) : Prop :=
  (∃ d ∈ s.deps p, d.issueId = e.issueId ∧ d.type = e.type ∧ d.target = e.target) ∨
    ∀ q ∈ Plane.all, ∀ w ∈ s.deps q, w.type = .waitsFor → w.target ≠ e.target

instance (s : Store) (p : Plane) (e : Dep) : Decidable (s.Merges p e) :=
  inferInstanceAs (Decidable (_ ∨ _))

/-- Everything after the insert of the row: its edges are copied, the edges onto
it are retargeted and the old row is deleted. -/
theorem relocate_settles {inserted copied : Store} (differ : source ≠ target)
    (kept : ∀ m : Node, m.2 ≠ id → inserted.row? m = s.row? m) (deps : inserted.deps = s.deps)
    (edges : Copied inserted copied target (inserted.outgoing source id))
    (arrives : ∀ e ∈ inserted.outgoing source id, e.type = .parentChild →
      e ∈ copied.deps target ∨ s.Merges target e) :
    ((copied.deleteOutgoing source id).retargetInbound source target id).Settles fun t =>
      Moved s (t.deleteRows source [id]) source target id := by
  refine retargetInbound_settles.mono fun t ⟨rows, retargeted⟩ => ?_
  have deleted := deleteRows_deleted (s := t) source [id]
  have rows : t.rows = inserted.rows := rows.trans edges.rows
  have only : ∀ q, ∀ d ∈ t.deps q, ∃ e, e.retarget source target id = d ∧
      ((e.issueId = id ∧ q = target ∧ ∃ p, e ∈ s.deps p) ∨ (e.issueId ≠ id ∧ e ∈ s.deps q)) := by
    intro q d held
    obtain ⟨e, stored, same⟩ := (retargeted q d).mp held
    exact ⟨e, same, deps ▸ mem_deleteOutgoing_copied differ edges stored⟩
  -- Nothing is left for the foreign keys to cascade to.
  have stays : ∀ q, ∀ d ∈ t.deps q, d ∈ (t.deleteRows source [id]).deps q := by
    refine fun q d held => by_contra fun cut => ?_
    obtain ⟨e, rfl, place⟩ := only q d held
    rcases deleted.cascade q _ held cut with ⟨plane, member⟩ | ⟨x, ⟨plane, member⟩, onto⟩
    · have here : e.issueId = id := Dep.retarget_issueId.symm.trans (List.mem_singleton.mp member)
      rcases place with ⟨-, there, -⟩ | ⟨other, -⟩
      · exact differ (plane.symm.trans there)
      · exact other here
    · obtain rfl : x = (source, id) := Prod.ext plane (List.mem_singleton.mp member)
      exact Dep.retarget_ne differ onto
  have arrived : ∀ q, ∀ e ∈ copied.deps q, e.issueId ≠ id ∨ q ≠ source →
      e.retarget source target id ∈ (t.deleteRows source [id]).deps q := fun q e held there =>
    stays q _ ((retargeted q _).mpr ⟨e, mem_deleteOutgoing held there, rfl⟩)
  refine ⟨differ, fun m other => ?_, deleted.absent _ ⟨rfl, List.mem_singleton_self id⟩,
    fun q d held => only q d (deleted.deps q d held), fun q e held other => ?_, ?_⟩
  · have out : m ∉ nodes source [id] := fun inside => other (List.mem_singleton.mp inside.2)
    rw [deleted.kept m out, row?, rows, ← kept m other]
    rfl
  · exact arrived q e (edges.kept q e (deps ▸ held)) (Or.inl other)
  · rintro c x m same other ⟨e, held, owner, child, onto⟩ ⟨w, waiting, -, waits, spawner⟩
    have through : ∀ d ∈ copied.deps target, d.issueId = id → d.type = .parentChild → d.target = .node x →
        (t.deleteRows source [id]).ParentOf (target, id) x := fun d there owner child onto => by
      refine ⟨_, arrived target d there (Or.inr differ.symm), Dep.retarget_issueId.trans owner,
        Dep.retarget_type.trans child, ?_⟩
      rw [Dep.retarget_of_ne, onto]
      exact fun back => other (congrArg Prod.snd (Target.node.inj (onto.symm.trans back)))
    by_cases plane : c.1 = target
    · exact through e (edges.kept target e (deps ▸ plane ▸ held)) (owner.trans same) child onto
    · have there : c.1 = source := by
        cases h : c.1 <;> cases source <;> cases target <;> simp_all
      have listed : e ∈ inserted.outgoing source id :=
        mem_outgoing.mpr ⟨deps ▸ there ▸ held, owner.trans same⟩
      rcases arrives e listed child with stored | ⟨d, stored, owner', type, target'⟩ | nobody
      · exact through e stored (owner.trans same) child onto
      · exact through d (edges.kept target d (deps ▸ stored)) (owner'.trans (owner.trans same))
          (type.trans child) (target'.trans onto)
      · obtain ⟨v, rfl, place⟩ := only m.1 w (deleted.deps m.1 w waiting)
        have aimed : v.target = e.target :=
          (Dep.target_of_retarget other spawner).trans onto.symm
        have kind : v.type = .waitsFor := Dep.retarget_type.symm.trans waits
        rcases place with ⟨-, -, q, stored⟩ | ⟨-, stored⟩
        · exact absurd aimed (nobody q (Plane.mem_all q) v stored kind)
        · exact absurd aimed (nobody m.1 (Plane.mem_all m.1) v stored kind)

/-! ## The operations -/

section Insert
variable {issue : Row}

theorem row?_insertRow {fresh : ∀ r ∈ s.rows p, r.id ≠ issue.id} {m : Node}
    (other : m.2 ≠ issue.id) : (s.insertRow p issue fresh).row? m = s.row? m := by
  refine Option.ext fun r => ?_
  rw [row?_eq_some, row?_eq_some, mem_insertRow]
  refine and_congr_left fun same => or_iff_left ?_
  rintro ⟨-, rfl⟩
  exact other same.symm

theorem insertIssueStrict_settles : (s.insertIssueStrict p issue).Settles fun t =>
    t.deps = s.deps ∧ ∀ m : Node, m.2 ≠ issue.id → t.row? m = s.row? m := by
  unfold insertIssueStrict
  split
  · exact Call.settles_pure ⟨rfl, fun m other => row?_insertRow other⟩
  · exact Call.settles_throw

/-- An upsert leaves the edges and the rows with other ids alone. -/
theorem insertIssueIfNew_writes {opts : BatchCreateOptions} :
    (s.insertIssueIfNew opts p issue).Settles fun r => r.1.deps = s.deps ∧
      (∀ m : Node, m.2 ≠ issue.id → r.1.row? m = s.row? m) ∧
      (∀ n, s.Holds n → r.1.Holds n) ∧ r.1.Holds (p, issue.id) := by
  unfold insertIssueIfNew
  split
  · refine Call.settles_pure ⟨rfl, fun m other => row?_insertRow other, ?_, ?_⟩
    · rintro n ⟨r, held, same⟩
      exact ⟨r, mem_insertRow.mpr (Or.inl held), same⟩
    · exact ⟨_, mem_insertRow.mpr (Or.inr ⟨rfl, rfl⟩), rfl⟩
  · next taken =>
    have here : s.Holds (p, issue.id) := by
      simp only [not_forall, not_not] at taken
      obtain ⟨r, held, same⟩ := taken
      exact ⟨r, held, same⟩
    have same : (s, false).1.deps = s.deps ∧ (∀ m : Node, m.2 ≠ issue.id → s.row? m = s.row? m) ∧
        (∀ n, s.Holds n → s.Holds n) ∧ s.Holds (p, issue.id) := ⟨rfl, fun _ _ => rfl, fun _ held => held, here⟩
    refine Call.settles_ite (fun _ => Call.settles_pure same) fun _ =>
      Call.settles_ite (fun _ => Call.settles_throw) fun _ =>
        Call.settles_ite (fun _ => Call.settles_pure same) fun _ => Call.settles_pure ?_
    have grows : ∀ n, s.Holds n → (s.updateRow (p, issue.id) (issueUpsertAssignments opts issue)
        (issueUpsertAssignments_id opts issue)).Holds n := fun n held => by
      obtain ⟨r, held, same⟩ := held
      refine ⟨_, mem_updateRow.mpr ⟨r, held, rfl⟩, ?_⟩
      split
      · exact (issueUpsertAssignments_id opts issue r).trans same
      · exact same
    refine ⟨rfl, fun m other => ?_, grows, grows _ here⟩
    rw [row?_updateRow, if_neg fun same => other (congrArg Prod.snd same)]

theorem issue?_id {n : Node} (found : s.issue? id = some n) : n.2 = id := by
  unfold issue? at found
  split at found
  · cases found; rfl
  · split at found
    · cases found; rfl
    · cases found

end Insert

/-- A write that keeps the status and the flag of a row. -/
theorem flagsCorrect_updateRow {x : Node} {f : Row → Row} {keeps : ∀ r, (f r).id = r.id}
    (before : s.FlagsCorrect) (quiet : ∀ r, (f r).status = r.status ∧
      (f r).isBlocked = r.isBlocked) :
    (s.updateRow x f keeps).FlagsCorrect := by
  have write := @updateRow_write s x f keeps fun r => (quiet r).2
  refine flagsCorrect_of_view (write.sameView ?_) write.flags before
  rw [updateRow_status?, status?]
  exact congrArg (Option.map · (s.row? x)) (funext fun r => (quiet r).1)

private theorem movePlane_flags (before : s.FlagsCorrect) (acyclic : Acyclic s.ParentChild)
    (differ : source ≠ target) (move : Row) :
    (s.movePlane source target move).Settles FlagsCorrect := by
  unfold movePlane
  refine Call.settles_bind insertIssueStrict_settles fun inserted ⟨deps, kept⟩ => ?_
  have copies : (inserted.copyDependencies source target move.id).Settles fun t =>
      ∃ copied, Copied inserted copied target (inserted.outgoing source move.id) ∧
        (∀ e ∈ inserted.outgoing source move.id, e ∈ copied.deps target) ∧
        t = copied.deleteOutgoing source move.id :=
    Call.settles_bind (insertDeps_settles _) fun copied ⟨edges, arrived⟩ =>
      Call.settles_pure ⟨copied, edges, arrived, rfl⟩
  refine Call.settles_bind copies fun t ⟨copied, edges, arrived, same⟩ => ?_
  subst same
  have arrives :=
    fun e listed (_ : e.type = .parentChild) => Or.inl (b := s.Merges target e) (arrived e listed)
  exact Call.settles_bind (relocate_settles differ kept deps edges arrives) fun u moved =>
    moved.recompute before acyclic

private theorem moveIssuePersistence_flags (before : s.FlagsCorrect)
    (acyclic : Acyclic s.ParentChild) (current : Row) (mode : PersistenceMode) (retained : Bool) :
    (s.moveIssuePersistence current mode retained).Settles FlagsCorrect := by
  unfold moveIssuePersistence
  refine Call.settles_guard fun _ => ?_
  refine Call.settles_bind (Call.settles_ofExcept fun _ _ => trivial) fun ⟨ephemeral, noHistory,
    storageClass⟩ (_ : True) => ?_
  refine Call.settles_guard fun _ => Call.settles_ite (fun _ => ?_) fun differ => ?_
  · refine Call.settles_ite (fun _ => Call.settles_pure before) fun _ => ?_
    refine Call.settles_guard fun _ => Call.settles_pure ?_
    -- The row stays where it is and keeps its status.
    exact flagsCorrect_updateRow before fun _ => ⟨rfl, rfl⟩
  · exact Call.settles_guard fun _ => movePlane_flags before acyclic differ _

/-- What an ephemeral row may point to, a durable row may point to. -/
theorem targetKey_issues {onto : Target} (grows : ∀ n, s.Holds n → t.Holds n)
    (target : s.TargetKey .wisps onto) : t.TargetKey .issues onto := by
  cases onto with
  | external ref => trivial
  | node x =>
    obtain ⟨q, key⟩ := x
    cases q with
    | issues => exact grows _ target
    | wisps => exact fun durable => nomatch durable

/-- No parent-child edge of the wisp is lost to a durable edge with the same key,
or nobody waits for its target. -/
def KeepsParents (s : Store) (id : String) : Prop :=
  ∀ e ∈ s.deps .wisps, e.issueId = id → e.type = .parentChild →
    (∃ d ∈ s.deps .issues, d.key = e.key) → s.Merges .issues e

instance (s : Store) (id : String) : Decidable (s.KeepsParents id) :=
  inferInstanceAs (Decidable (∀ e ∈ s.deps .wisps, _ → _ → _ → _))

private theorem promoteFromEphemeral_flags (before : s.FlagsCorrect)
    (acyclic : Acyclic s.ParentChild)
    (keys : s.ForeignKeys) (keeps : s.KeepsParents id) (cfg : Config) (invalid : Option String) :
    (s.promoteFromEphemeral cfg invalid id).Settles FlagsCorrect := by
  unfold promoteFromEphemeral
  refine Call.settles_guard fun _ => ?_
  split
  · exact Call.settles_throw
  · next issue found =>
    obtain ⟨n, located, row⟩ := Option.bind_eq_some_iff.mp found
    have named : issue.id = id := ((row?_eq_some.mp row).2).trans (issue?_id located)
    refine Call.settles_bind (Call.settles_ofExcept fun _ ready => ready) fun prepared ready => ?_
    have same : prepared.id = id := (prepareIssueForInsert_eq ready).1.trans named
    refine Call.settles_bind insertIssueIfNew_writes fun ⟨inserted, _⟩ written => ?_
    rw [same] at written
    obtain ⟨deps, kept, grows, here⟩ := written
    dsimp only at deps kept grows here ⊢
    have member :
        ∀ d ∈ inserted.outgoing .wisps id, d ∈ s.deps .wisps ∧ d.issueId = id := fun d held =>
      deps ▸ mem_outgoing.mp held
    obtain ⟨edges, arrives⟩ := insertDepsIgnore_copied (s := inserted) (p := .issues)
      (inserted.outgoing .wisps id) ((inserted.deps .wisps).distinct.sublist (List.filter_sublist.map _))
      fun d held => ⟨(member d held).2 ▸ here, targetKey_issues grows (keys .wisps d (member d held).1).2⟩
    refine Call.settles_bind (relocate_settles (by decide) kept deps edges fun e listed child => ?_)
      fun t moved => moved.recompute before acyclic
    refine (arrives e listed).imp_right fun taken => ?_
    exact keeps e (member e listed).1 (member e listed).2 child (deps ▸ taken)

/-- Closing, reopening, promoting and moving rows leaves all flags correct, unless a
promotion loses a parent that somebody waits for. -/
theorem row_changes_keep_flags (s : Store) (before : s.FlagsCorrect)
    (acyclic : Acyclic s.ParentChild) :
    (∀ cfg id reason session, (s.closeIssue cfg id reason session).Settles FlagsCorrect) ∧
      (∀ cfg id, (s.reopenIssue cfg id).Settles FlagsCorrect) ∧
      (∀ current mode retained, (s.moveIssuePersistence current mode retained).Settles FlagsCorrect) ∧
      (s.ForeignKeys → ∀ id, s.KeepsParents id →
        ∀ cfg invalid, (s.promoteFromEphemeral cfg invalid id).Settles FlagsCorrect) :=
  ⟨closeIssue_flags before acyclic, reopenIssue_flags before acyclic,
    moveIssuePersistence_flags before acyclic, fun keys _ keeps =>
      promoteFromEphemeral_flags before acyclic keys keeps⟩

/-- A wisp and a durable issue share an id. The wisp is a child of an epic that an
issue waits for; the durable row is related to the epic. -/
def twinChild : Store where
  rows
    | .issues =>
      ⟨[{ id := "bd-1", isBlocked := true }, { id := "bd-2" }, { id := "bd-3", issueType := "epic" }],
        by decide⟩
    | .wisps => ⟨[{ id := "bd-2", ephemeral := true }], by decide⟩
  deps
    | .issues => ⟨[⟨"bd-2", .node (.issues, "bd-3"), .other "related", .empty⟩,
        ⟨"bd-1", .node (.issues, "bd-3"), .waitsFor, .empty⟩], by decide⟩
    | .wisps => ⟨[⟨"bd-2", .node (.issues, "bd-3"), .parentChild, .empty⟩], by decide⟩

/-- Promoting the wisp drops its parent, and the waiter keeps its flag. -/
theorem promoteFromEphemeral_loses_flags :
    twinChild.FlagsCorrect ∧ Acyclic twinChild.ParentChild ∧ twinChild.ForeignKeys ∧
      ∃ t, (twinChild.promoteFromEphemeral {} none "bd-2").Returns t ∧
        t.FlaggedAt (.issues, "bd-1") ∧ ¬ t.HasChild (.issues, "bd-3") Status.Live ∧
          ¬ t.FlagsCorrect :=
  ⟨by decide, by decide, by decide, Call.returns_of_value? (n := 4) (by decide)⟩

/-- An open wisp that blocks a durable issue and its child. -/
def wispBlocker : Store where
  rows
    | .issues =>
      ⟨[{ id := "bd-1", isBlocked := true }, { id := "bd-2", isBlocked := true }], by decide⟩
    | .wisps => ⟨[{ id := "bd-wisp-1", ephemeral := true }], by decide⟩
  deps
    | .issues => ⟨[⟨"bd-1", .node (.wisps, "bd-wisp-1"), .blocks, .empty⟩,
        ⟨"bd-2", .node (.issues, "bd-1"), .parentChild, .empty⟩], by decide⟩
    | .wisps => Table.empty

/-- Promoting the wisp leaves both issues blocked by it; closing it then frees
them. -/
theorem row_changes_keep_flags_wispBlocker :
    ∃ t, (wispBlocker.promoteFromEphemeral {} none "bd-wisp-1").Returns t ∧
      t.Holds (.issues, "bd-wisp-1") ∧ t.FlaggedAt (.issues, "bd-2") ∧ t.FlagsCorrect := by
  obtain ⟨t, returns, held, flagged⟩ : ∃ t,
      (wispBlocker.promoteFromEphemeral {} none "bd-wisp-1").Returns t ∧
        t.Holds (.issues, "bd-wisp-1") ∧ t.FlaggedAt (.issues, "bd-2") :=
    Call.returns_of_value? (n := 4) (by decide)
  refine ⟨t, returns, held, flagged, ?_⟩
  exact ((row_changes_keep_flags wispBlocker (by decide) (by decide)).2.2.2 (by decide) "bd-wisp-1"
    (by decide) {} none).of_returns returns

end Store
end Beads
