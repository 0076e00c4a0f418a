import Mathlib.Logic.Relation
import Mathlib.Data.Set.Finite.Basic
import Mathlib.Order.WellFounded

/-! Acyclic relations: restriction, insertion of one edge, and the existence of
a last node in every finite set. Together with an executable reachability
closure over a finite edge list, computed the way a recursive query with
distinct union computes it, these are the graph facts the stores need. -/
namespace Beads.Lib.Graph
open Relation

variable {α β : Type*} {r s : α → α → Prop} {a b u v : α}

/-- No node reaches itself by one or more steps. -/
def Acyclic (r : α → α → Prop) : Prop := ∀ a, ¬ TransGen r a a

theorem Acyclic.mono (acyclic : Acyclic r) (sub : ∀ a b, s a b → r a b) : Acyclic s :=
  fun a cycle => acyclic a (TransGen.mono sub _ _ cycle)

/-- A relation that maps into an acyclic one is acyclic. -/
theorem Acyclic.comap {t : β → β → Prop} (acyclic : Acyclic r) (f : β → α)
    (sub : ∀ a b, t a b → r (f a) (f b)) : Acyclic t :=
  fun a cycle => acyclic (f a) (cycle.lift f sub)

/-- A relation along which a number grows is acyclic. -/
theorem acyclic_of_lt (f : α → Nat) (grows : ∀ a b, r a b → f a < f b) : Acyclic r := by
  intro a cycle
  have more {b : α} (path : TransGen r a b) : f a < f b := by
    induction path with
    | single step => exact grows _ _ step
    | tail _ step ih => exact ih.trans (grows _ _ step)
  exact Nat.lt_irrefl _ (more cycle)

/-- A relation along which a number falls is acyclic. -/
theorem acyclic_of_gt (f : α → Nat) (falls : ∀ a b, r a b → f b < f a) : Acyclic r := by
  intro a cycle
  have back : Acyclic (Function.swap r) := acyclic_of_lt f fun b c edge => falls c b edge
  exact back a (transGen_swap.mpr cycle)

/-- Classes of nodes that are acyclic in themselves may stand for the nodes of an acyclic
relation. -/
theorem Acyclic.collapse {t inner : β → β → Prop} (acyclic : Acyclic r) (f : β → α)
    (inside : Acyclic inner)
    (edges : ∀ a b, t a b → r (f a) (f b) ∨ f a = f b ∧ inner a b) : Acyclic t := by
  have paths {a b : β} (path : TransGen t a b) :
      TransGen r (f a) (f b) ∨ f a = f b ∧ TransGen inner a b := by
    induction path with
    | single edge => exact (edges _ _ edge).imp .single (And.imp_right .single)
    | tail path edge ih =>
      rcases ih with outside | ⟨same, within⟩
      · rcases edges _ _ edge with edge | ⟨same, -⟩
        · exact .inl (outside.tail edge)
        · exact .inl (same ▸ outside)
      · rcases edges _ _ edge with edge | ⟨same', edge⟩
        · exact .inl (same ▸ .single edge)
        · exact .inr ⟨same.trans same', within.tail edge⟩
  intro a cycle
  rcases paths cycle with outside | ⟨-, within⟩
  · exact acyclic _ outside
  · exact inside a within

/-- The relation with one more edge. -/
def AddEdge (r : α → α → Prop) (u v : α) : α → α → Prop :=
  fun a b => r a b ∨ (a = u ∧ b = v)

theorem addEdge_of_reaches (reaches : ReflTransGen r a b) : ReflTransGen (AddEdge r u v) a b :=
  ReflTransGen.mono (fun _ _ edge => Or.inl edge) _ _ reaches

/-- A path of the extended relation either avoids the new edge or runs to its
source before its first use and away from its target after its last one. -/
theorem transGen_addEdge (path : TransGen (AddEdge r u v) a b) :
    TransGen r a b ∨ (ReflTransGen r a u ∧ ReflTransGen r v b) := by
  induction path with
  | single edge =>
    rcases edge with edge | ⟨rfl, rfl⟩
    · exact Or.inl (.single edge)
    · exact Or.inr ⟨.refl, .refl⟩
  | tail path edge ih =>
    rcases edge with edge | ⟨rfl, rfl⟩
    · rcases ih with old | ⟨before, after⟩
      · exact Or.inl (old.tail edge)
      · exact Or.inr ⟨before, after.tail edge⟩
    · rcases ih with old | ⟨before, -⟩
      · exact Or.inr ⟨old.to_reflTransGen, .refl⟩
      · exact Or.inr ⟨before, .refl⟩

/-- One more edge keeps the relation acyclic exactly when its target does not
already reach its source. -/
theorem acyclic_addEdge (acyclic : Acyclic r) :
    Acyclic (AddEdge r u v) ↔ ¬ ReflTransGen r v u := by
  constructor
  · intro still reaches
    exact still u (TransGen.head' (Or.inr ⟨rfl, rfl⟩) (addEdge_of_reaches reaches))
  · intro apart a cycle
    rcases transGen_addEdge cycle with old | ⟨before, after⟩
    · exact acyclic a old
    · exact apart (after.trans before)

private theorem reaches_addEdge : ReflTransGen (AddEdge r u v) a b ↔
    ReflTransGen r a b ∨ (ReflTransGen r a u ∧ ReflTransGen r v b) := by
  constructor
  · intro path
    rcases reflTransGen_iff_eq_or_transGen.mp path with rfl | path
    · exact Or.inl .refl
    · exact (transGen_addEdge path).imp_left TransGen.to_reflTransGen
  · rintro (old | ⟨before, after⟩)
    · exact addEdge_of_reaches old
    · exact (addEdge_of_reaches before).trans (.head (Or.inr ⟨rfl, rfl⟩) (addEdge_of_reaches after))

/-- Two edges that each close no cycle close one together exactly when the target
of each reaches the source of the other. -/
theorem acyclic_addEdge_addEdge {x y : α} (acyclic : Acyclic r) (first : ¬ ReflTransGen r v u)
    (second : ¬ ReflTransGen r y x) :
    Acyclic (AddEdge (AddEdge r u v) x y) ↔ ¬ (ReflTransGen r v x ∧ ReflTransGen r y u) := by
  rw [acyclic_addEdge ((acyclic_addEdge acyclic).mpr first), reaches_addEdge,
    or_iff_right second, and_comm]

/-- A path that uses no new edge is an old path; any other one can be cut at a
new edge. -/
theorem transGen_of_new {new : α → α → Prop} (grown : ∀ a b, s a b → r a b ∨ new a b)
    (path : TransGen s a b) : TransGen r a b ∨
      ∃ u v, s u v ∧ new u v ∧ ReflTransGen s a u ∧ ReflTransGen s v b := by
  induction path with
  | single edge =>
    rcases grown _ _ edge with old | fresh
    · exact Or.inl (.single old)
    · exact Or.inr ⟨_, _, edge, fresh, .refl, .refl⟩
  | tail path edge ih =>
    rcases ih with old | ⟨u, v, cut, fresh, before, after⟩
    · rcases grown _ _ edge with old' | fresh
      · exact Or.inl (old.tail old')
      · exact Or.inr ⟨_, _, edge, fresh, path.to_reflTransGen, .refl⟩
    · exact Or.inr ⟨u, v, cut, fresh, before, after.tail edge⟩

/-- New edges, none of which lies on a cycle, leave an acyclic relation acyclic. -/
theorem Acyclic.of_new (acyclic : Acyclic r) (new : α → α → Prop)
    (grown : ∀ a b, s a b → r a b ∨ new a b)
    (apart : ∀ u v, s u v → new u v → ¬ ReflTransGen s v u) : Acyclic s := by
  intro a cycle
  rcases transGen_of_new grown cycle with old | ⟨u, v, edge, fresh, before, after⟩
  · exact acyclic a old
  · exact apart u v edge fresh (after.trans before)

/-- Edges into some nodes may go to another one instead, from which none of them can be reached. -/
theorem Acyclic.redirect (acyclic : Acyclic r) {last : α} {moved : α → Prop}
    (apart : ∀ x, moved x → ¬ TransGen r last x)
    (edges : ∀ a b, s a b → r a b ∨ b = last ∧ ∃ x, moved x ∧ r a x) : Acyclic s := by
  have paths {u : α} (path : ReflTransGen s last u) : ReflTransGen r last u := by
    induction path with
    | refl => exact .refl
    | tail _ edge ih =>
      rcases edges _ _ edge with old | ⟨rfl, -⟩
      · exact ih.tail old
      · exact .refl
  refine acyclic.of_new (fun a b => b = last ∧ ∃ x, moved x ∧ r a x) edges ?_
  rintro u v - ⟨rfl, x, away, edge⟩ path
  exact apart x away (.tail' (paths path) edge)

/-- A path from the image of a node lifts when the edges of the images do. -/
theorem reaches_lift {t : β → β → Prop} {f : β → α} {known : β → Prop} {x : β} {y : α}
    (follows : ∀ x, known x → ∀ y, r (f x) y → ∃ z, known z ∧ t x z ∧ y = f z) (start : known x)
    (path : ReflTransGen r (f x) y) : ∃ z, known z ∧ ReflTransGen t x z ∧ y = f z := by
  induction path with
  | refl => exact ⟨x, start, .refl, rfl⟩
  | tail _ edge ih =>
    obtain ⟨z, held, before, rfl⟩ := ih
    obtain ⟨z', held', step, same⟩ := follows z held _ edge
    exact ⟨z', held', before.tail step, same⟩

/-- A nonempty finite set has a node with no edge to another of its nodes. -/
theorem Acyclic.exists_last (acyclic : Acyclic r) {nodes : Set α} (finite : nodes.Finite)
    (nonempty : nodes.Nonempty) : ∃ a ∈ nodes, ∀ b ∈ nodes, ¬ r a b := by
  have := finite.to_subtype
  let above : nodes → nodes → Prop := fun x y => TransGen r y.1 x.1
  have : IsTrans nodes above := ⟨fun _ _ _ first second => second.trans first⟩
  have : Std.Irrefl above := ⟨fun x => acyclic x.1⟩
  have wf : WellFounded above := Finite.wellFounded_of_trans_of_irrefl above
  obtain ⟨start, member⟩ := nonempty
  obtain ⟨last, -, minimal⟩ := wf.has_min Set.univ ⟨⟨start, member⟩, trivial⟩
  exact ⟨last.1, last.2, fun b held edge => minimal ⟨b, held⟩ trivial (.single edge)⟩

/-! ## Reachability over a finite edge list -/

section Closure
variable [DecidableEq α] {edges : List (α × α)} {found : List α}

/-- The relation an edge list stands for. -/
def Edge (edges : List (α × α)) (a b : α) : Prop := (a, b) ∈ edges

/-- One round of the recursive query: the targets of the edges that leave the
found nodes, without those already found. -/
def expand (edges : List (α × α)) (found : List α) : List α :=
  found ++ (edges.filter fun e => e.1 ∈ found ∧ e.2 ∉ found).map Prod.snd

/-- The nodes found after a number of rounds. -/
def rounds (edges : List (α × α)) : Nat → List α → List α
  | 0, found => found
  | n + 1, found => rounds edges n (expand edges found)

/-- Everything reachable from one node: one round per edge is enough. -/
def reachable (edges : List (α × α)) (start : α) : List α := rounds edges edges.length [start]

theorem mem_expand : a ∈ expand edges found ↔ a ∈ found ∨ ∃ b ∈ found, (b, a) ∈ edges := by
  simp only [expand, List.mem_append, List.mem_map, List.mem_filter, decide_eq_true_eq]
  constructor
  · rintro (held | ⟨⟨source, target⟩, ⟨edge, held, -⟩, rfl⟩)
    · exact Or.inl held
    · exact Or.inr ⟨source, held, edge⟩
  · rintro (held | ⟨b, held, edge⟩)
    · exact Or.inl held
    · by_cases seen : a ∈ found
      · exact Or.inl seen
      · exact Or.inr ⟨(b, a), ⟨edge, held, seen⟩, rfl⟩

/-- The edges whose target is still to be found. -/
def pending (edges : List (α × α)) (found : List α) : Nat := edges.countP fun e => e.2 ∉ found

/-- A round that finds a new node leaves fewer pending edges. -/
theorem pending_expand_lt (edge : (b, a) ∈ edges) (held : b ∈ found) (fresh : a ∉ found) :
    pending edges (expand edges found) < pending edges found := by
  unfold pending
  obtain ⟨left, right, rfl⟩ := List.append_of_mem edge
  have sub : ∀ e : α × α, e.2 ∉ expand (left ++ (b, a) :: right) found → e.2 ∉ found :=
    fun e missing seen => missing (mem_expand.mpr (Or.inl seen))
  have here : a ∈ expand (left ++ (b, a) :: right) found := mem_expand.mpr (Or.inr ⟨b, held, edge⟩)
  have leftLE : left.countP (fun e => e.2 ∉ expand (left ++ (b, a) :: right) found) ≤
      left.countP fun e => e.2 ∉ found :=
    List.countP_mono_left fun e _ missing => by simpa using sub e (by simpa using missing)
  have rightLE : right.countP (fun e => e.2 ∉ expand (left ++ (b, a) :: right) found) ≤
      right.countP fun e => e.2 ∉ found :=
    List.countP_mono_left fun e _ missing => by simpa using sub e (by simpa using missing)
  simp only [List.countP_append, List.countP_cons, here, fresh, not_true_eq_false,
    not_false_eq_true, decide_true, decide_false, Bool.false_eq_true, ↓reduceIte, Nat.add_zero]
  omega

/-- A set of found nodes that no edge leaves. -/
def ClosedUnder (edges : List (α × α)) (found : List α) : Prop :=
  ∀ b ∈ found, ∀ a, (b, a) ∈ edges → a ∈ found

omit [DecidableEq α] in
theorem ClosedUnder.reaches (closed : ClosedUnder edges found) (held : a ∈ found)
    (path : ReflTransGen (Edge edges) a b) : b ∈ found := by
  induction path with
  | refl => exact held
  | tail _ edge ih => exact closed _ ih _ edge

private theorem expand_of_closed (closed : ClosedUnder edges found) :
    expand edges found = found := by
  have none : (edges.filter fun e => e.1 ∈ found ∧ e.2 ∉ found) = [] := by
    apply List.filter_eq_nil_iff.mpr
    rintro ⟨source, target⟩ edge
    simp only [decide_eq_true_eq, not_and, not_not]
    exact fun held => closed source held target edge
  rw [expand, none, List.map_nil, List.append_nil]

private theorem rounds_of_closed (closed : ClosedUnder edges found) (n : Nat) :
    rounds edges n found = found := by
  induction n with
  | zero => rfl
  | succ n ih => rw [rounds, expand_of_closed closed, ih]

/-- As many rounds as there are pending edges close the set. -/
theorem rounds_closed (n : Nat) (enough : pending edges found ≤ n) :
    ClosedUnder edges (rounds edges n found) := by
  induction n generalizing found with
  | zero =>
    intro b held a edge
    have none : pending edges found = 0 := Nat.le_zero.mp enough
    have all := List.countP_eq_zero.mp none (b, a) edge
    simpa [rounds] using all
  | succ n ih =>
    by_cases closed : ClosedUnder edges found
    · rw [rounds_of_closed closed]
      exact closed
    · simp only [ClosedUnder, not_forall] at closed
      obtain ⟨b, held, a, edge, fresh⟩ := closed
      exact ih (by have := pending_expand_lt edge held fresh; omega)

private theorem mem_rounds_of_mem (n : Nat) (held : a ∈ found) : a ∈ rounds edges n found := by
  induction n generalizing found with
  | zero => exact held
  | succ n ih => exact ih (mem_expand.mpr (Or.inl held))

private theorem reaches_of_mem_rounds (n : Nat) (held : a ∈ rounds edges n found) :
    ∃ b ∈ found, ReflTransGen (Edge edges) b a := by
  induction n generalizing found with
  | zero => exact ⟨a, held, .refl⟩
  | succ n ih =>
    obtain ⟨b, inside, path⟩ := ih held
    rcases mem_expand.mp inside with old | ⟨c, old, edge⟩
    · exact ⟨b, old, path⟩
    · exact ⟨c, old, .head edge path⟩

/-- The closure holds exactly the nodes some path reaches. -/
theorem mem_reachable : b ∈ reachable edges a ↔ ReflTransGen (Edge edges) a b := by
  constructor
  · intro held
    obtain ⟨start, inside, path⟩ := reaches_of_mem_rounds _ held
    rw [List.mem_singleton] at inside
    exact inside ▸ path
  · intro path
    have closed : ClosedUnder edges (reachable edges a) :=
      rounds_closed _ List.countP_le_length
    exact closed.reaches (mem_rounds_of_mem _ (List.mem_singleton.mpr rfl)) path

/-- A cycle of an edge list passes through one of its edges. -/
theorem acyclic_edge_iff : Acyclic (Edge edges) ↔ ∀ e ∈ edges, e.1 ∉ reachable edges e.2 := by
  constructor
  · intro acyclic e held back
    exact acyclic e.1 (TransGen.head' (b := e.2) held (mem_reachable.mp back))
  · intro apart a cycle
    obtain ⟨b, edge, path⟩ := TransGen.head'_iff.mp cycle
    exact apart (a, b) edge (mem_reachable.mpr path)

instance : Decidable (Acyclic (Edge edges)) := decidable_of_iff _ acyclic_edge_iff.symm

end Closure

end Beads.Lib.Graph
