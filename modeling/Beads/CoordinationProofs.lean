import Beads.Interleaving
import Beads.LeaseProofs

/-! Closing a parent while children are added under it. Whoever adds a parent-child
edge puts a token in the coordination cell of the parent for the table of the edge,
and a close puts one in the cells of both tables, so the two never overlap. -/
namespace Beads
open Lib Relation

namespace Store
variable {s t u : Store} {c : Coordinator} {p : Plane} {id : String}

/-- What a transaction may do to the coordination cells and to the hierarchy. -/
structure Coordinated (s t : Store) (c : Coordinator) : Prop where
  cells : ∀ p k, t.coordination p k = s.coordination p k ∨ t.coordination p k = c.freshRowLock p k
  children : ∀ p, ∀ d ∈ t.deps p, d.type = .parentChild →
    (∃ e ∈ s.deps p, e.key = d.key ∧ e.type = d.type) ∨
      t.coordination p (c.shard d.target.id) = c.freshRowLock p (c.shard d.target.id)

/-- Neither the edges nor the cells have changed. -/
theorem Coordinated.of_same (deps : t.deps = s.deps) (cells : t.coordination = s.coordination) :
    Coordinated s t c where
  cells p k := Or.inl (by rw [cells])
  children p d held _ := Or.inl ⟨d, deps ▸ held, rfl, rfl⟩

theorem Coordinated.refl (s : Store) (c : Coordinator) : Coordinated s s c := .of_same rfl rfl

theorem Coordinated.trans (first : Coordinated s t c) (second : Coordinated t u c) :
    Coordinated s u c where
  cells p k := by
    rcases second.cells p k with same | token
    · rw [same]
      exact first.cells p k
    · exact Or.inr token
  children p d held child := by
    rcases second.children p d held child with ⟨e, held', key, type⟩ | token
    · rcases first.children p e held' (type.trans child) with ⟨f, stored, key', type'⟩ | token
      · exact Or.inl ⟨f, stored, key'.trans key, type'.trans type⟩
      · rw [show e.target.id = d.target.id from congrArg Prod.snd key] at token
        refine Or.inr ?_
        rcases second.cells p (c.shard d.target.id) with same | token'
        · rw [same, token]
        · exact token'
    · exact Or.inr token

theorem recomputeIsBlocked_tables {ids : IDs} (returns : (recomputeIsBlocked ids s).Returns t) :
    t.deps = s.deps ∧ t.coordination = s.coordination := by
  have cleared := recomputeIsBlocked_cleared returns
  exact ⟨show t.cleared.deps = s.cleared.deps by rw [cleared],
    show t.cleared.coordination = s.cleared.coordination by rw [cleared]⟩

/-! ## Touching the cells -/

theorem touchDependencyCoordination_returns
    (returns : (s.touchDependencyCoordination c id p).Returns t) :
    t.rows = s.rows ∧ t.deps = s.deps ∧ ∀ q k, t.coordination q k =
      if q = p ∧ k = c.shard id then c.freshRowLock q k else s.coordination q k := by
  unfold touchDependencyCoordination at returns
  split at returns
  · exact absurd returns Call.not_returns_throw
  · obtain rfl := Call.returns_pure.mp returns
    refine ⟨rfl, rfl, fun q k => ?_⟩
    by_cases plane : q = p
    · subst plane
      by_cases shard : k = c.shard id
      · simp [shard]
      · simp [shard]
    · simp [plane]

/-! ## Adding edges -/

private theorem addDependency_coordinated {dep : Dependency} {opts : AddDependencyOpts}
    (returns : (s.addDependency c dep opts).Returns t) : Coordinated s t c := by
  obtain ⟨-, ⟨d, held, key, type, rfl⟩ | ⟨u, added⟩⟩ := addDependency_returns returns
  · refine ⟨fun _ _ => Or.inl rfl, fun p e there child => Or.inl ?_⟩
    obtain ⟨old, stored, rfl⟩ := mem_setMetadata.mp there
    refine ⟨old, stored, ?_, ?_⟩
    · split <;> rfl
    · split <;> rfl
  · refine ⟨fun p k => ?_, fun p e there child => ?_⟩
    · rw [added.coordination_eq]
      split
      · exact Or.inr rfl
      · exact Or.inl rfl
    · rcases added.mem_deps.mp there with old | ⟨plane, rfl⟩
      · exact Or.inl ⟨e, old, rfl, rfl⟩
      · refine Or.inr ?_
        rw [added.coordination_eq, depTarget_id, if_pos ⟨child, plane, rfl⟩]

private theorem persistDependency_coordinated {opts : BatchCreateOptions}
    {persisted persisted' : List PersistedDependency}
    {item : Dependency × Plane} (returns : (s.persistDependency c opts persisted item).Returns (t, persisted')) :
    Coordinated s t c := by
  have same : ∀ {l : List PersistedDependency}, (pure (s, l) : Tx _).Returns (t, persisted') →
      Coordinated s t c := by
    intro l unchanged
    obtain ⟨rfl, -⟩ := Prod.mk.inj (Call.returns_pure.mp unchanged)
    exact .refl _ c
  unfold persistDependency at returns
  extract_lets dep kind at returns
  split at returns
  · exact same returns
  · obtain ⟨valid, -, rest⟩ := Call.returns_bind.mp returns
    split at rest
    · exact same rest
    · split at rest
      · exact same rest
      · obtain ⟨inserted, insert, rest⟩ := Call.returns_bind.mp rest
        have edge := (insertDep_settles.of_returns insert).1
        have cells := insertDep_coordination insert
        have target : (kind.column dep.dependsOnId).id = dep.dependsOnId := by
          cases kind <;> rfl
        split at rest
        · next child =>
          obtain ⟨touched, touch, rest⟩ := Call.returns_bind.mp rest
          obtain ⟨rfl, -⟩ := Prod.mk.inj (Call.returns_pure.mp rest)
          obtain ⟨-, deps, coordination⟩ := touchDependencyCoordination_returns touch
          refine ⟨fun q k => ?_, fun q d held _ => ?_⟩
          · rw [coordination, cells]
            split
            · exact Or.inr rfl
            · exact Or.inl rfl
          · rw [deps] at held
            rcases (edge.deps q d).mp held with old | ⟨rfl, rfl⟩
            · exact Or.inl ⟨d, old, rfl, rfl⟩
            · refine Or.inr ?_
              rw [coordination, target, if_pos ⟨rfl, rfl⟩]
        · next other =>
          obtain ⟨touched, touch, rest⟩ := Call.returns_bind.mp rest
          obtain rfl := Call.returns_pure.mp touch
          obtain ⟨rfl, -⟩ := Prod.mk.inj (Call.returns_pure.mp rest)
          refine ⟨fun q k => Or.inl (by rw [cells]), fun q d held child => ?_⟩
          rcases (edge.deps q d).mp held with old | ⟨rfl, rfl⟩
          · exact Or.inl ⟨d, old, rfl, rfl⟩
          · exact absurd child other

private theorem persistDependencies_coordinated {opts : BatchCreateOptions} {issues : List NewIssue}
    {persisted : List PersistedDependency}
    (returns : (s.persistDependencies c opts issues).Returns (t, persisted)) :
    Coordinated s t c := by
  unfold persistDependencies at returns
  extract_lets pending hierarchy others at returns
  refine Call.inv_of_foldlM (fun state : Store × List PersistedDependency => Coordinated s state.1 c) ?_
    (.refl s c) returns
  intro state item _ before after step
  exact before.trans (persistDependency_coordinated step)

private theorem createIssue_tables {ctx : BatchContext} {issue : NewIssue}
    {accepted : Option NewIssue} (returns : (s.createIssue ctx issue).Returns (t, accepted)) :
    t.deps = s.deps ∧ t.coordination = s.coordination := by
  obtain ⟨prepared, -, rest⟩ := Call.returns_bind.mp returns
  obtain ⟨id, -, rest⟩ := Call.returns_bind.mp rest
  extract_lets created insert checked at rest
  obtain ⟨-, rest⟩ := Call.returns_guard rest
  simp only [checked] at rest
  split at rest
  · split at rest
    · obtain ⟨rfl, -⟩ := Prod.mk.inj (Call.returns_pure.mp rest)
      exact ⟨rfl, rfl⟩
    · obtain ⟨_, refused, -⟩ := Call.returns_bind.mp rest
      exact absurd refused Call.not_returns_throw
  · obtain ⟨⟨written, stale⟩, wrote, rest⟩ := Call.returns_bind.mp rest
    obtain ⟨rfl, -⟩ := Prod.mk.inj (Call.returns_pure.mp rest)
    unfold insertIssueIfNew at wrote
    split at wrote
    · obtain ⟨rfl, -⟩ := Prod.mk.inj (Call.returns_pure.mp wrote)
      exact ⟨rfl, rfl⟩
    · split at wrote
      · obtain ⟨rfl, -⟩ := Prod.mk.inj (Call.returns_pure.mp wrote)
        exact ⟨rfl, rfl⟩
      · split at wrote
        · exact absurd wrote Call.not_returns_throw
        · split at wrote
          · obtain ⟨rfl, -⟩ := Prod.mk.inj (Call.returns_pure.mp wrote)
            exact ⟨rfl, rfl⟩
          · obtain ⟨rfl, -⟩ := Prod.mk.inj (Call.returns_pure.mp wrote)
            exact ⟨rfl, rfl⟩

/-! ## The close -/

private theorem countOpenChildren_of_same (rows : t.rows = s.rows) (deps : t.deps = s.deps)
    {n : Node} :
    t.countOpenChildren n = s.countOpenChildren n := by
  obtain ⟨_, _, _⟩ := s
  obtain ⟨_, _, _⟩ := t
  subst rows deps
  rfl

/-- An accepted close has counted no open child, and has put its token in the cells of
both tables. -/
theorem enforceClosePolicy_returns (returns : (s.enforceClosePolicy c id false).Returns t) :
    ∃ n, s.issue? id = some n ∧ s.countOpenChildren n = 0 ∧ t.deps = s.deps ∧ t.rows = s.rows ∧
      ∀ q k, t.coordination q k = if k = c.shard id then c.freshRowLock q k else s.coordination q k := by
  unfold enforceClosePolicy at returns
  split at returns
  · exact absurd returns Call.not_returns_throw
  · next n found =>
    obtain ⟨first, touch, rest⟩ := Call.returns_bind.mp returns
    obtain ⟨second, touch', rest⟩ := Call.returns_bind.mp rest
    obtain ⟨none, rest⟩ := Call.returns_guard rest
    obtain ⟨-, rest⟩ := Call.returns_guard rest
    obtain rfl := Call.returns_pure.mp rest
    obtain ⟨rows, deps, cells⟩ := touchDependencyCoordination_returns touch
    obtain ⟨rows', deps', cells'⟩ := touchDependencyCoordination_returns touch'
    refine ⟨n, found, ?_, deps'.trans deps, rows'.trans rows, fun q k => ?_⟩
    · rw [← countOpenChildren_of_same (rows'.trans rows) (deps'.trans deps)]
      exact Nat.eq_zero_of_not_pos fun some => none ⟨rfl, some⟩
    · rw [cells', cells]
      cases q <;> by_cases shard : k = c.shard id <;> simp [shard]

private theorem closeIssue_tables {cfg : Config} {reason session : String}
    (returns : (s.closeIssue cfg id reason session).Returns t) :
    t.deps = s.deps ∧ t.coordination = s.coordination := by
  unfold closeIssue at returns
  extract_lets n affected at returns
  split at returns
  · exact absurd returns Call.not_returns_throw
  · split at returns
    · rw [← Call.returns_pure.mp returns]
      exact ⟨rfl, rfl⟩
    · have tables := recomputeIsBlocked_tables returns
      exact tables

end Store

/-! ## One transaction -/

namespace ClaimStore
variable {w v : ClaimStore} {ctx : ClaimContext} {c : Coordinator} {id : String}

private theorem closeIssue_tables {reason session : String}
    (returns : (w.closeIssue ctx id reason session).Returns v) :
    v.store.deps = w.store.deps ∧ v.store.coordination = w.store.coordination := by
  obtain ⟨t, closed, rest⟩ := Call.returns_bind.mp returns
  have tables := Store.closeIssue_tables closed
  split at rest
  · rw [← Call.returns_pure.mp rest]
    exact ⟨rfl, rfl⟩
  · rw [← Call.returns_pure.mp rest]
    exact tables

theorem closeIssueChecked_returns {reason session : String} {expectedVersion : Option Nat}
    (returns : (w.closeIssueChecked ctx c id reason session false expectedVersion).Returns v) :
    ∃ n, w.store.issue? id = some n ∧ w.store.countOpenChildren n = 0 ∧
      v.store.deps = w.store.deps ∧
      ∀ q k, v.store.coordination q k =
        if k = c.shard id then c.freshRowLock q k else w.store.coordination q k := by
  unfold closeIssueChecked at returns
  extract_lets n close at returns
  have body : (close ()).Returns v := by
    split at returns
    · obtain ⟨-, returns⟩ := Call.returns_guard returns
      exact (Call.returns_guard returns).2
    · exact returns
  obtain ⟨checked, policy, rest⟩ := Call.returns_bind.mp body
  obtain ⟨n, found, none, deps, -, cells⟩ := Store.enforceClosePolicy_returns policy
  obtain ⟨deps', cells'⟩ := closeIssue_tables rest
  exact ⟨n, found, none, deps'.trans deps, fun q k => by rw [cells', cells]⟩

private theorem createIssue_tables {batch : BatchContext} {issue : NewIssue} {fields : LeaseFields}
    {accepted : Option NewIssue} (returns : (w.createIssue ctx batch issue fields).Returns (v, accepted)) :
    v.store.deps = w.store.deps ∧ v.store.coordination = w.store.coordination := by
  obtain ⟨⟨written, result⟩, wrote, rest⟩ := Call.returns_bind.mp returns
  have tables := Store.createIssue_tables wrote
  cases result with
  | none =>
    obtain ⟨rfl, -⟩ := Prod.mk.inj (Call.returns_pure.mp rest)
    exact tables
  | some created =>
    simp only at rest
    split at rest
    · obtain ⟨rfl, -⟩ := Prod.mk.inj (Call.returns_pure.mp rest)
      exact ⟨rfl, rfl⟩
    · split at rest
      · obtain ⟨rfl, -⟩ := Prod.mk.inj (Call.returns_pure.mp rest)
        exact tables
      · obtain ⟨rfl, -⟩ := Prod.mk.inj (Call.returns_pure.mp rest)
        rw [restoreLeaseOnImport_store]
        exact tables

private theorem createIssues_coordinated {batch : BatchContext}
    {issues : List (NewIssue × LeaseFields)}
    (returns : (w.createIssues ctx batch c issues).Returns v) : w.store.Coordinated v.store c := by
  obtain ⟨admitted, -, rest⟩ := Call.returns_bind.mp returns
  obtain ⟨⟨landed, accepted⟩, rows, rest⟩ := Call.returns_bind.mp rest
  obtain ⟨⟨written, persisted⟩, edges, rest⟩ := Call.returns_bind.mp rest
  obtain ⟨t, recomputed, rest⟩ := Call.returns_bind.mp rest
  obtain rfl := Call.returns_pure.mp rest
  have landed : w.store.Coordinated landed.store c := by
    refine Call.inv_of_foldlM (fun state => w.store.Coordinated state.1.store c) ?_ (.refl _ c) rows
    intro state item _ before after step
    obtain ⟨⟨created, _⟩, one, last⟩ := Call.returns_bind.mp step
    rw [← Call.returns_pure.mp last]
    obtain ⟨deps, cells⟩ := createIssue_tables one
    exact before.trans (.of_same deps cells)
  obtain ⟨deps, cells⟩ := Store.recomputeIsBlocked_tables recomputed
  exact (landed.trans (Store.persistDependencies_coordinated edges)).trans (.of_same deps cells)

end ClaimStore

namespace ParentSession
variable {w v : ClaimStore} {shard : String → Nat} {parent : String} {session : ParentSession}

theorem run_coordinated (returns : (session.run shard parent w).Returns v) :
    w.store.Coordinated v.store ⟨shard, session.token⟩ := by
  obtain ⟨ctx, token, call⟩ := session
  cases call with
  | close reason closedBy expectedVersion =>
    obtain ⟨n, -, -, deps, cells⟩ := ClaimStore.closeIssueChecked_returns returns
    refine ⟨fun q k => ?_, fun q d held _ => Or.inl ⟨d, deps ▸ held, rfl, rfl⟩⟩
    rw [cells]
    split
    · exact Or.inr rfl
    · exact Or.inl rfl
  | add dep opts =>
    obtain ⟨t, added, rest⟩ := Call.returns_bind.mp returns
    rw [← Call.returns_pure.mp rest]
    exact Store.addDependency_coordinated added
  | create batch issues => exact ClaimStore.createIssues_coordinated returns

/-- A close writes the cells of both tables. -/
theorem Closes.returns (closes : session.Closes)
    (returns : (session.run shard parent w).Returns v) :
    (∃ n, w.store.issue? parent = some n ∧ w.store.countOpenChildren n = 0) ∧
      ∀ p, v.store.coordination p (shard parent) = session.token p (shard parent) := by
  obtain ⟨ctx, token, call⟩ := session
  obtain ⟨reason, closedBy, expectedVersion, rfl⟩ := closes
  obtain ⟨n, found, none, -, cells⟩ := ClaimStore.closeIssueChecked_returns returns
  exact ⟨⟨n, found, none⟩, fun p => by rw [cells, if_pos rfl]⟩

end ParentSession

/-- Whoever adds a child writes the cell of the edge's table. -/
theorem AddsChild.token {w v : ClaimStore} {shard : String → Nat} {parent : String}
    {session : ParentSession}
    (adds : AddsChild parent ⟨w, v⟩) (returns : (session.run shard parent w).Returns v) :
    ∃ p, v.store.coordination p (shard parent) = session.token p (shard parent) := by
  obtain ⟨p, d, held, child, onto, new⟩ := adds
  rcases (ParentSession.run_coordinated returns).children p d held child with
    ⟨e, stored, key, -⟩ | token
  · exact absurd key (new e stored)
  · exact ⟨p, onto ▸ token⟩

/-! ## Interleavings -/

section
variable {ι : Type} {w : ClaimStore} {shard : String → Nat} {parent : String}
  {calls : ι → ParentSession}
  {h : History ι ClaimStore} {before after : List (Commit ι ClaimStore)} {c d : Commit ι ClaimStore}

/-- A coordination cell holds what it held at first, or the token of a commit. -/
theorem state_coordination (explained : ClaimStore.cells.Explained (fun i => (calls i).run shard parent) w h)
    (split : h.log = before ++ after) (p : Plane) (k : Nat) :
    (ClaimStore.cells.state w before).store.coordination p k = w.store.coordination p k ∨
      ∃ d ∈ before, (ClaimStore.cells.state w before).store.coordination p k = (calls d.who).token p k := by
  -- The snapshot of a commit is the state after some shorter part of the log.
  induction size : before.length using Nat.strong_induction_on generalizing before after with
  | _ size_ ih =>
    rcases List.eq_nil_or_concat before with rfl | ⟨init, c, rfl⟩
    · exact Or.inl rfl
    · rw [List.concat_eq_append] at split size ⊢
      rw [List.length_append, List.length_singleton] at size
      have explains := explained.commits init c after (by rw [split, List.append_assoc]; rfl)
      have earlier :=
        @ih init.length (by omega) init (c :: after) (by rw [split, List.append_assoc]; rfl) rfl
      have snapshot :=
        @ih (init.take c.seen).length (by rw [List.length_take]; omega) (init.take c.seen)
        (init.drop c.seen ++ c :: after)
        (by rw [← List.append_assoc, List.take_append_drop, split, List.append_assoc]; rfl) rfl
      have current : (ClaimStore.cells.state w init).store.coordination p k = w.store.coordination p k ∨
          ∃ d ∈ init ++ [c], (ClaimStore.cells.state w init).store.coordination p k = (calls d.who).token p k := by
        refine earlier.imp_right ?_
        rintro ⟨d, member, same⟩
        exact ⟨d, List.mem_append_left _ member, same⟩
      have result : c.result.store.coordination p k = w.store.coordination p k ∨
          ∃ d ∈ init ++ [c], c.result.store.coordination p k = (calls d.who).token p k := by
        rcases (ParentSession.run_coordinated explains.returns).cells p k with same | token
        · rw [same, explains.base]
          refine snapshot.imp_right ?_
          rintro ⟨d, member, same⟩
          exact ⟨d, List.mem_append_left _ (List.mem_of_mem_take member), same⟩
        · exact Or.inr ⟨c, List.mem_append_right _ List.mem_cons_self, token⟩
      rw [Merging.state_concat]
      unfold Merging.land
      split
      · exact result
      · change Workspace.mergeValue _ _ _ = _ ∨ ∃ d ∈ _, Workspace.mergeValue _ _ _ = _
        unfold Workspace.mergeValue
        split
        · exact current
        · exact result

/-- The commit has put its own token in a cell of the parent. -/
def Tokened (calls : ι → ParentSession) (shard : String → Nat) (parent : String) (p : Plane)
    (c : Commit ι ClaimStore) : Prop :=
  c.result.store.coordination p (shard parent) = (calls c.who).token p (shard parent)

variable (fresh : ∀ i p, (calls i).token p (shard parent) ≠ w.store.coordination p (shard parent))
  (distinct : ∀ i j p, (calls i).token p (shard parent) = (calls j).token p (shard parent) → i = j)

include fresh distinct in
theorem Tokened.wrote {p : Plane}
    (explained : ClaimStore.cells.Explained (fun i => (calls i).run shard parent) w h)
    (split : h.log = before ++ c :: after) (tokened : Tokened calls shard parent p c) :
    c.result.store.coordination p (shard parent) ≠ c.base.store.coordination p (shard parent) := by
  have explains := explained.commits before c after split
  have prefixed : h.log = before.take c.seen ++ (before.drop c.seen ++ c :: after) := by
    rw [← List.append_assoc, List.take_append_drop, split]
  rw [tokened, explains.base]
  intro same
  rcases state_coordination explained prefixed p (shard parent) with first | ⟨d, member, token⟩
  · exact fresh c.who p (same.trans first)
  · exact explains.once d (List.mem_of_mem_take member) (distinct _ _ p (same.trans token)).symm

include fresh distinct in
/-- Two commits with their tokens in one cell collide. -/
theorem Tokened.collide {p : Plane} {before' after' : List (Commit ι ClaimStore)}
    (explained : ClaimStore.cells.Explained (fun i => (calls i).run shard parent) w h)
    (split : h.log = before ++ c :: after) (split' : h.log = before' ++ d :: after')
    (apart : c.who ≠ d.who)
    (tokened : Tokened calls shard parent p c) (tokened' : Tokened calls shard parent p d) :
    ClaimStore.cells.Collide c.toWrite d.toWrite := by
  refine ⟨.coordination p (shard parent), tokened.wrote fresh distinct explained split,
    tokened'.wrote fresh distinct explained split', fun same => apart ?_⟩
  exact distinct _ _ p (tokened.symm.trans (Eq.trans same tokened'))

include fresh distinct in
/-- A close and any commit that closes the parent or adds a child collide. -/
theorem close_collides {before' after' : List (Commit ι ClaimStore)}
    (explained : ClaimStore.cells.Explained (fun i => (calls i).run shard parent) w h)
    (split : h.log = before ++ c :: after) (split' : h.log = before' ++ d :: after')
    (apart : c.who ≠ d.who)
    (closes : (calls c.who).Closes) (other : (calls d.who).Closes ∨ AddsChild parent d.toWrite) :
    ClaimStore.cells.Collide c.toWrite d.toWrite ∧
      ClaimStore.cells.Collide d.toWrite c.toWrite := by
  have both : ∀ p, Tokened calls shard parent p c :=
    (closes.returns (explained.commits before c after split).returns).2
  obtain ⟨p, tokened⟩ : ∃ p, Tokened calls shard parent p d := by
    have returns := (explained.commits before' d after' split').returns
    rcases other with closes' | adds
    · exact ⟨.issues, (closes'.returns returns).2 .issues⟩
    · exact adds.token returns
  exact ⟨(both p).collide fresh distinct explained split split' apart tokened,
    tokened.collide fresh distinct explained split' split apart.symm (both p)⟩

include fresh distinct in
/-- A close of the parent overlaps no commit that closes it or adds a child. -/
theorem close_alone (explained : ClaimStore.cells.Explained (fun i => (calls i).run shard parent) w h)
    (others : ∀ d ∈ h.log, (calls d.who).Closes ∨ AddsChild parent d.toWrite)
    (split : h.log = before ++ c :: after) (closes : (calls c.who).Closes) :
    c.seen = before.length ∧ ∀ d ∈ after, before.length < d.seen := by
  have explains := explained.commits before c after split
  have inside : ∀ d ∈ before, d ∈ h.log := fun d member => split ▸ List.mem_append_left _ member
  constructor
  · refine Nat.le_antisymm explains.seen (Nat.le_of_not_lt fun missed => ?_)
    obtain ⟨d, unseen⟩ : ∃ d, d ∈ before.drop c.seen :=
      List.exists_mem_of_length_pos (by rw [List.length_drop]; omega)
    have member := List.mem_of_mem_drop unseen
    obtain ⟨front, back, cut⟩ := List.append_of_mem member
    have split' : h.log = front ++ d :: (back ++ c :: after) := by
      rw [split, cut, List.append_assoc]
      rfl
    refine explains.apart d unseen (close_collides fresh distinct explained split split' ?_ closes
      (others d (inside d member))).1
    exact (explains.once d member).symm
  · intro d member
    obtain ⟨mid, rest, rfl⟩ := List.append_of_mem member
    have split' : h.log = (before ++ c :: mid) ++ d :: rest := by
      rw [split, List.append_assoc]
      rfl
    have explains' := explained.commits _ d rest split'
    by_contra early
    have unseen : c ∈ (before ++ c :: mid).drop d.seen := by
      rw [List.drop_append_of_le_length (Nat.le_of_not_lt early)]
      exact List.mem_append_right _ List.mem_cons_self
    have listed : d ∈ h.log := split' ▸ List.mem_append_right _ List.mem_cons_self
    refine explains'.apart c unseen (close_collides fresh distinct explained split split' ?_ closes
      (others d listed)).2
    exact explains'.once c (List.mem_append_right _ List.mem_cons_self)

variable [DecidableEq ι]

include fresh distinct in
/-- Closes of a parent, without force, in any interleaving with transactions that add
children under it: a close runs on all that was committed before it and nothing is
committed while it runs, so it stands in a serial order at the place of its commit, and
there the parent has no open child. -/
theorem close_sees_every_child
    (reached : ClaimStore.cells.Reached (fun i => (calls i).run shard parent) w h)
    (others : ∀ d ∈ h.log, (calls d.who).Closes ∨ AddsChild parent d.toWrite) :
    h.current = ClaimStore.cells.state w h.log ∧
      (∀ before c after, h.log = before ++ c :: after → (calls c.who).Closes →
        c.base = ClaimStore.cells.state w before ∧
          c.result = ClaimStore.cells.state w (before ++ [c]) ∧
          (∀ d ∈ after, before.length < d.seen) ∧
            ∃ n, (ClaimStore.cells.state w before).store.issue? parent = some n ∧
              (ClaimStore.cells.state w before).store.countOpenChildren n = 0) ∧
      ∀ c d, h.log = [c, d] → (calls c.who).Closes ∨ (calls d.who).Closes →
        Serial (fun i => (calls i).run shard parent) [c.who, d.who] w h.current := by
  have explained := Merging.Reached.explained reached
  refine ⟨explained.current, fun before c after split closes => ?_, fun c d log closes => ?_⟩
  · obtain ⟨seen, later⟩ := close_alone fresh distinct explained others split closes
    have explains := explained.commits before c after split
    have base : c.base = ClaimStore.cells.state w before := by
      rw [explains.base, seen, List.take_length]
    refine ⟨base, ?_, later, ?_⟩
    · rw [Merging.state_concat, seen, List.drop_length]
      rfl
    · rw [← base]
      exact (closes.returns explains.returns).1
  · have first := explained.commits [] c [d] log
    have second := explained.commits [c] d [] log
    -- The second commit has seen the first one, whichever of them is the close.
    have seen : d.seen = 1 := by
      have bound : d.seen ≤ 1 := second.seen
      rcases closes with closes | closes
      · have later : 0 < d.seen := (close_alone fresh distinct explained others
          (show h.log = [] ++ c :: [d] from log) closes).2 d List.mem_cons_self
        omega
      · exact (close_alone fresh distinct explained others (show h.log = [c] ++ d :: [] from log) closes).1
    have base : c.base = w := by
      rw [first.base, List.take_nil]
      rfl
    have base' : d.base = c.result := by
      rw [second.base, seen]
      change ClaimStore.cells.land c.toWrite (List.drop c.seen []) w = c.result
      rw [List.drop_nil]
      rfl
    have final : h.current = d.result := by
      rw [explained.current, log, show [c, d] = [c] ++ [d] from rfl, Merging.state_concat, seen]
      rfl
    refine ⟨c.result, base ▸ first.returns, d.result, ?_, final.symm⟩
    rw [← base']
    exact second.returns

end

/-- An open issue and a closed one, without edges. -/
def parentAndDoneChild : ClaimStore where
  store :=
    { rows := fun
        | .issues =>
          ⟨[{ id := "bd-1" }, { id := "bd-2", status := .closed, closedAt := some 1 }], by decide⟩
        | .wisps => Table.empty
      deps := fun _ => Table.empty }
  rowLock _ := 0
  leases := Table.empty

/-- One transaction makes the second issue a child of the first, the other one closes
the first. -/
def addAndClose : Bool → ParentSession
  | false => ⟨{ freshRowLock := fun _ => 1 }, fun _ _ => 1, .add ⟨"bd-2", "bd-1", .parentChild, .empty⟩ {}⟩
  | true => ⟨{ freshRowLock := fun _ => 2 }, fun _ _ => 2, .close "" "" none⟩

/-- The child is added first, and the close runs on what the add left. -/
theorem close_sees_every_child_added :
    ∃ h, ClaimStore.cells.Reached (fun i => (addAndClose i).run (fun _ => 0) "bd-1") parentAndDoneChild h ∧
      h.log.map Commit.who = [false, true] ∧
      h.current.store.status? (.issues, "bd-1") = some .closed ∧
      Serial (fun i => (addAndClose i).run (fun _ => 0) "bd-1") [false, true] parentAndDoneChild h.current := by
  let body := fun i => (addAndClose i).run (fun _ => 0) "bd-1"
  let w := parentAndDoneChild
  obtain ⟨u, added, ⟨edge, closing⟩⟩ : ∃ u, (body false w).Returns u ∧
      (∃ d ∈ u.store.deps .issues, d.type = .parentChild ∧ d.target.id = "bd-1") ∧
        ∃ v ∈ (body true u).value? 4, v.store.status? (.issues, "bd-1") = some .closed :=
    Call.returns_of_value? (n := 4) (by decide +kernel)
  obtain ⟨v, closed, status⟩ := Call.returns_of_value? closing
  let h₁ : History Bool ClaimStore := (History.fresh w).enter false (.running w 0)
  let h₂ := h₁.commit ⟨⟨w, u⟩, false, 0⟩ u
  let h₃ := h₂.enter true (.running u 1)
  let h₄ := h₃.commit ⟨⟨u, v⟩, true, 1⟩ v
  have start₁ : ClaimStore.cells.Step body (.fresh w) h₁ := .start false rfl
  have commit₁ : ClaimStore.cells.Step body h₁ h₂ :=
    have running : h₁.turn false = .running w 0 := rfl
    .commit false running added fun _ held => nomatch held
  have start₂ : ClaimStore.cells.Step body h₂ h₃ := .start true rfl
  have commit₂ : ClaimStore.cells.Step body h₃ h₄ :=
    have running : h₃.turn true = .running u 1 := rfl
    .commit true running closed fun _ held => nomatch held
  have reached := (((ReflTransGen.single start₁).tail commit₁).tail start₂).tail commit₂
  have closes : (addAndClose true).Closes := ⟨"", "", none, rfl⟩
  have others : ∀ d ∈ h₄.log, (addAndClose d.who).Closes ∨ AddsChild "bd-1" d.toWrite := by
    intro d member
    rcases List.mem_cons.mp member with rfl | member
    · obtain ⟨e, held, child, onto⟩ := edge
      exact Or.inr ⟨.issues, e, held, child, onto, fun _ old => nomatch old⟩
    · rw [List.mem_singleton.mp member]
      exact Or.inl closes
  have serial :=
    (close_sees_every_child (by decide) (by decide) reached others).2.2 _ _ rfl (Or.inr closes)
  exact ⟨h₄, reached, rfl, status, serial⟩

end Beads
