import Mathlib.Algebra.BigOperators.Group.Finset.Basic
import Mathlib.Algebra.Order.BigOperators.Group.Finset
import Mathlib.Data.Fintype.Basic
import Mathlib.Logic.Relation

/-! Breadth-first closure with one queue per lane. A node is a lane together
with a key. Every lane keeps the keys it has seen and the keys waiting in its
queue; a turn takes a bounded batch from the front of one queue and visits the
children of the batch, which may belong to any lane.

`run_spec` says what the loop returns: it ends with every queue empty, the
nodes it took are closed under children up to the nodes that were marked as
seen from the start, and each of them is reached from a starting node. -/
namespace Beads.Lib.Worklist
open Relation

variable {P K : Type*} [DecidableEq P] [DecidableEq K]

/-- Per lane, the keys already seen and the keys waiting. -/
structure Frontier (P K : Type*) where
  seen : P → List K
  queue : P → List K

variable {w w' w'' : Frontier P K} {X Y : Set (P × K)} {n : P × K}

namespace Frontier

/-- Remember an unseen key and put it at the end of its queue. -/
def visit (w : Frontier P K) (n : P × K) : Frontier P K :=
  if n.2 ∈ w.seen n.1 then w else
    { seen := Function.update w.seen n.1 (n.2 :: w.seen n.1)
      queue := Function.update w.queue n.1 (w.queue n.1 ++ [n.2]) }

/-- Visit nodes in order. -/
def visitAll (w : Frontier P K) (found : List (P × K)) : Frontier P K := found.foldl visit w

/-- The nodes visited between two frontiers are exactly these. -/
structure Adds (w : Frontier P K) (X : Set (P × K)) (w' : Frontier P K) : Prop where
  seen : ∀ n : P × K, n.2 ∈ w'.seen n.1 ↔ n.2 ∈ w.seen n.1 ∨ n ∈ X
  queue : ∀ n : P × K, n.2 ∈ w'.queue n.1 ↔ n.2 ∈ w.queue n.1 ∨ (n ∈ X ∧ n.2 ∉ w.seen n.1)

omit [DecidableEq P] [DecidableEq K] in
theorem Adds.refl (w : Frontier P K) : w.Adds ∅ w := ⟨by simp, by simp⟩

omit [DecidableEq P] [DecidableEq K] in
theorem Adds.trans (first : w.Adds X w') (second : w'.Adds Y w'') : w.Adds (X ∪ Y) w'' := by
  constructor
  · intro n
    rw [second.seen, first.seen, Set.mem_union, or_assoc]
  · intro n
    rw [second.queue, first.queue, first.seen, Set.mem_union]
    tauto

omit [DecidableEq P] [DecidableEq K] in
theorem Adds.congr (adds : w.Adds X w') (same : ∀ n, n ∈ X ↔ n ∈ Y) : w.Adds Y w' := by
  rwa [Set.ext same] at adds

omit [DecidableEq K] in
private theorem mem_update (f : P → List K) (lane : P) (keys : List K) (n : P × K) :
    n.2 ∈ Function.update f lane keys n.1 ↔
      (n.1 = lane ∧ n.2 ∈ keys) ∨ (n.1 ≠ lane ∧ n.2 ∈ f n.1) := by
  by_cases same : n.1 = lane
  · simp [same]
  · simp [same]

private theorem visit_adds (w : Frontier P K) (n : P × K) : w.Adds {n} (w.visit n) := by
  unfold visit
  split
  · next held =>
    constructor
    · intro m
      constructor
      · exact Or.inl
      · rintro (seen | rfl)
        · exact seen
        · exact held
    · intro m
      constructor
      · exact Or.inl
      · rintro (waiting | ⟨rfl, fresh⟩)
        · exact waiting
        · exact absurd held fresh
  · next fresh =>
    have here : ∀ m : P × K, m ∈ ({n} : Set (P × K)) ↔ m.1 = n.1 ∧ m.2 = n.2 := fun m => by
      rw [Set.mem_singleton_iff, Prod.ext_iff]
    constructor
    · intro m
      rw [mem_update, here]
      by_cases lane : m.1 = n.1
      · simp only [lane, true_and, ne_eq, not_true_eq_false, false_and, or_false, List.mem_cons]
        exact or_comm
      · simp [lane]
    · intro m
      rw [mem_update, here]
      by_cases lane : m.1 = n.1
      · simp only [lane, true_and, ne_eq, not_true_eq_false, false_and, or_false, List.mem_append,
          List.mem_singleton]
        exact or_congr_right ⟨fun same => ⟨same, same ▸ fresh⟩, And.left⟩
      · simp [lane]

theorem visitAll_adds (w : Frontier P K) (found : List (P × K)) :
    w.Adds {n | n ∈ found} (w.visitAll found) := by
  induction found generalizing w with
  | nil => exact (Adds.refl w).congr fun n => by simp
  | cons first rest ih =>
    exact ((visit_adds w first).trans (ih (w.visit first))).congr fun n => by simp

/-- The queues are as long as the unseen keys of a pool allow them to grow. -/
def measure [Fintype P] (pool : P → List K) (w : Frontier P K) : Nat :=
  ∑ lane, ((pool lane).countP (· ∉ w.seen lane) + (w.queue lane).length)

private theorem countP_cons_lt {keys seen : List K} {key : K} (held : key ∈ keys)
    (fresh : key ∉ seen) : keys.countP (· ∉ key :: seen) < keys.countP (· ∉ seen) := by
  obtain ⟨left, right, rfl⟩ := List.append_of_mem held
  have mono : ∀ part : List K, part.countP (· ∉ key :: seen) ≤ part.countP (· ∉ seen) :=
    fun part => List.countP_mono_left fun k _ => by simp
  have leftLE := mono left
  have rightLE := mono right
  simp only [List.countP_append, List.countP_cons, List.mem_cons, true_or, not_true_eq_false,
    decide_false, Bool.false_eq_true, ↓reduceIte, fresh, not_false_eq_true, decide_true] at *
  omega

private theorem measure_visit_le [Fintype P] {pool : P → List K} (known : n.2 ∈ pool n.1) :
    (w.visit n).measure pool ≤ w.measure pool := by
  unfold visit
  split
  · exact Nat.le_refl _
  · next fresh =>
    refine Finset.sum_le_sum fun lane _ => ?_
    by_cases same : lane = n.1
    · subst same
      have lower := countP_cons_lt known fresh
      simp only [Function.update_self, List.length_append, List.length_singleton]
      omega
    · simp [Function.update_of_ne same]

private theorem measure_visitAll_le [Fintype P] {pool : P → List K} (found : List (P × K))
    (known : ∀ n ∈ found, n.2 ∈ pool n.1) :
    (w.visitAll found).measure pool ≤ w.measure pool := by
  induction found generalizing w with
  | nil => exact Nat.le_refl _
  | cons first rest ih =>
    exact (ih fun n held => known n (List.mem_cons_of_mem first held)).trans
      (measure_visit_le (known first List.mem_cons_self))

/-- Dropping a batch from a queue lowers the measure by its length. -/
theorem measure_drop [Fintype P] {pool : P → List K} (size : Nat) (w : Frontier P K) (lane : P) :
    Frontier.measure pool ⟨w.seen, Function.update w.queue lane ((w.queue lane).drop size)⟩ +
        ((w.queue lane).take size).length = w.measure pool := by
  unfold Frontier.measure
  rw [← Finset.add_sum_erase _ _ (Finset.mem_univ lane),
    ← Finset.add_sum_erase Finset.univ (fun lane =>
      (pool lane).countP (· ∉ w.seen lane) + (w.queue lane).length) (Finset.mem_univ lane)]
  have others : ∀ p ∈ Finset.univ.erase lane,
      (pool p).countP (· ∉ w.seen p) +
          (Function.update w.queue lane ((w.queue lane).drop size) p).length =
        (pool p).countP (· ∉ w.seen p) + (w.queue p).length := fun p held => by
    rw [Function.update_of_ne (Finset.ne_of_mem_erase held)]
  rw [Finset.sum_congr rfl others]
  simp only [Function.update_self, List.length_take, List.length_drop]
  omega

end Frontier

open Frontier

/-- The keys already taken, and the frontier still to process. -/
structure Expansion (P K : Type*) where
  taken : P → List K
  frontier : Frontier P K

/-- Take a batch from one queue and visit its children. The children of the
whole batch are read lane by lane. -/
def turn (size : Nat) (children : P × K → P → List K) (lanes : List P) (e : Expansion P K)
    (lane : P) : Expansion P K :=
  let batch := (e.frontier.queue lane).take size
  { taken := Function.update e.taken lane (e.taken lane ++ batch)
    frontier := Frontier.visitAll
      { seen := e.frontier.seen
        queue := Function.update e.frontier.queue lane ((e.frontier.queue lane).drop size) }
      (lanes.flatMap fun child => batch.flatMap fun key => (children (lane, key) child).map (child, ·)) }

/-- Every lane takes its turn until all queues are empty. -/
def run (size : Nat) (children : P × K → P → List K) (lanes : List P) :
    Nat → Expansion P K → Expansion P K
  | 0, e => e
  | fuel + 1, e =>
    if lanes.all fun lane => (e.frontier.queue lane).isEmpty then e
    else run size children lanes fuel (lanes.foldl (turn size children lanes) e)

/-- The child relation the turns follow. -/
def Child (children : P × K → P → List K) (n m : P × K) : Prop := m.2 ∈ children n m.1

/-- What holds at every point of a run that started from a frontier. -/
structure Running (children : P × K → P → List K) (start : Frontier P K) (e : Expansion P K) :
    Prop where
  seen : ∀ n : P × K, n.2 ∈ e.frontier.seen n.1 ↔
    n.2 ∈ start.seen n.1 ∨ n.2 ∈ e.taken n.1 ∨ n.2 ∈ e.frontier.queue n.1
  started : ∀ n : P × K, n.2 ∈ start.queue n.1 → n.2 ∈ e.taken n.1 ∨ n.2 ∈ e.frontier.queue n.1
  closed : ∀ n m : P × K, n.2 ∈ e.taken n.1 → Child children n m → m.2 ∈ e.frontier.seen m.1
  sound : ∀ n : P × K, n.2 ∈ e.taken n.1 ∨ n.2 ∈ e.frontier.queue n.1 →
    ∃ s : P × K, s.2 ∈ start.queue s.1 ∧ ReflTransGen (Child children) s n
  fresh : ∀ n : P × K, n.2 ∈ e.taken n.1 ∨ n.2 ∈ e.frontier.queue n.1 →
    n.2 ∈ start.queue n.1 ∨ n.2 ∉ start.seen n.1

variable {size : Nat} {children : P × K → P → List K} {lanes : List P} {start : Frontier P K}
  {e : Expansion P K}

omit [DecidableEq P] [DecidableEq K] in
theorem Running.init (queued : ∀ n : P × K, n.2 ∈ start.queue n.1 → n.2 ∈ start.seen n.1) :
    Running children start ⟨fun _ => [], start⟩ where
  seen n := by
    simp only [List.not_mem_nil, false_or]
    exact ⟨Or.inl, fun held => held.elim id (queued n)⟩
  started n held := Or.inr held
  closed n m held := by cases held
  sound n held := ⟨n, held.resolve_left List.not_mem_nil, .refl⟩
  fresh n held := Or.inl (held.resolve_left List.not_mem_nil)

omit [DecidableEq K] in
private theorem mem_split (queue : List K) (size : Nat) (key : K) :
    key ∈ queue ↔ key ∈ queue.take size ∨ key ∈ queue.drop size := by
  rw [← List.mem_append, List.take_append_drop]

omit [DecidableEq P] [DecidableEq K] in
/-- The children that one turn finds, over all lanes. -/
private theorem mem_children (all : ∀ lane, lane ∈ lanes) {lane : P} {batch : List K} {m : P × K} :
    (m ∈ lanes.flatMap fun child =>
      batch.flatMap fun key => (children (lane, key) child).map (child, ·)) ↔
        ∃ key ∈ batch, Child children (lane, key) m := by
  simp only [List.mem_flatMap, List.mem_map, Child]
  constructor
  · rintro ⟨child, -, key, held, k, edge, rfl⟩
    exact ⟨key, held, edge⟩
  · rintro ⟨key, held, edge⟩
    exact ⟨m.1, all m.1, key, held, m.2, edge, rfl⟩

omit [DecidableEq K] in
private theorem mem_update_append {taken : P → List K} {lane : P} {batch : List K} {n : P × K} :
    n.2 ∈ Function.update taken lane (taken lane ++ batch) n.1 ↔
      n.2 ∈ taken n.1 ∨ (n.1 = lane ∧ n.2 ∈ batch) := by
  by_cases same : n.1 = lane
  · subst same
    simp
  · simp [same]

omit [DecidableEq K] in
/-- A key that a turn takes from its lane is taken instead of waiting. -/
private theorem mem_taken_or_waiting {taken queue : P → List K} {lane : P} {n : P × K} :
    (n.2 ∈ Function.update taken lane (taken lane ++ (queue lane).take size) n.1 ∨
      n.2 ∈ Function.update queue lane ((queue lane).drop size) n.1) ↔
        n.2 ∈ taken n.1 ∨ n.2 ∈ queue n.1 := by
  by_cases same : n.1 = lane
  · subst same
    simp only [Function.update_self, List.mem_append]
    rw [mem_split (queue n.1) size n.2]
    tauto
  · simp [Function.update_of_ne same]

private theorem Running.turn (all : ∀ lane, lane ∈ lanes) (running : Running children start e)
    (lane : P) :
    Running children start (turn size children lanes e lane) := by
  let batch := (e.frontier.queue lane).take size
  let found := lanes.flatMap fun child =>
    batch.flatMap fun key => (children (lane, key) child).map (child, ·)
  let moved : Frontier P K := {
    seen := e.frontier.seen
    queue := Function.update e.frontier.queue lane ((e.frontier.queue lane).drop size) }
  have adds : moved.Adds {n | n ∈ found} (moved.visitAll found) := visitAll_adds moved found
  have reached : ∀ m ∈ found, ∃ s : P × K,
      s.2 ∈ start.queue s.1 ∧ ReflTransGen (Child children) s m := by
    intro m held
    obtain ⟨key, inside, edge⟩ := (mem_children all).mp held
    obtain ⟨s, begun, path⟩ := running.sound (lane, key) (Or.inr (List.mem_of_mem_take inside))
    exact ⟨s, begun, path.tail edge⟩
  have waits : ∀ n : P × K,
      (n.2 ∈ Function.update e.taken lane (e.taken lane ++ batch) n.1 ∨
        n.2 ∈ (moved.visitAll found).queue n.1) ↔
      (n.2 ∈ e.taken n.1 ∨ n.2 ∈ e.frontier.queue n.1) ∨
        (n ∈ found ∧ n.2 ∉ e.frontier.seen n.1) := by
    intro n
    rw [adds.queue, ← or_assoc, mem_taken_or_waiting]
    rfl
  constructor
  · intro n
    refine Iff.trans ?_ (or_congr_right (waits n).symm)
    refine (adds.seen n).trans ?_
    change n.2 ∈ e.frontier.seen n.1 ∨ n ∈ found ↔ _
    rw [running.seen]
    tauto
  · intro n held
    exact (waits n).mpr (Or.inl (running.started n held))
  · intro n m held edge
    refine (adds.seen m).mpr ?_
    rcases mem_update_append.mp held with old | ⟨same, inside⟩
    · exact Or.inl (running.closed n m old edge)
    · subst same
      exact Or.inr ((mem_children all).mpr ⟨n.2, inside, edge⟩)
  · intro n held
    rcases (waits n).mp held with old | ⟨new, -⟩
    · exact running.sound n old
    · exact reached n new
  · intro n held
    rcases (waits n).mp held with old | ⟨-, unseen⟩
    · exact running.fresh n old
    · exact Or.inr fun seen => unseen ((running.seen n).mpr (Or.inl seen))

private theorem Running.foldl_turn (all : ∀ lane, lane ∈ lanes) (running : Running children start e)
    (order : List P) : Running children start (order.foldl (Worklist.turn size children lanes) e) := by
  induction order generalizing e with
  | nil => exact running
  | cons lane rest ih => exact ih (running.turn all lane)

section Termination
variable [Fintype P] {pool : P → List K}

theorem measure_turn_le (size : Nat) (lanes : List P) (e : Expansion P K)
    (known : ∀ n m, Child children n m → m.2 ∈ pool m.1) (lane : P) :
    (turn size children lanes e lane).frontier.measure pool +
        ((e.frontier.queue lane).take size).length ≤ e.frontier.measure pool := by
  refine Nat.le_trans (Nat.add_le_add_right (measure_visitAll_le _ ?_) _) ?_
  · intro n held
    simp only [List.mem_flatMap, List.mem_map] at held
    obtain ⟨child, -, key, -, k, edge, rfl⟩ := held
    exact known (lane, key) (child, k) edge
  · exact Nat.le_of_eq (measure_drop size e.frontier lane)

private theorem measure_foldl_turn_le (size : Nat) (lanes : List P) (e : Expansion P K)
    (known : ∀ n m, Child children n m → m.2 ∈ pool m.1) (order : List P) :
    (order.foldl (turn size children lanes) e).frontier.measure pool ≤
      e.frontier.measure pool := by
  induction order generalizing e with
  | nil => exact Nat.le_refl _
  | cons lane rest ih =>
    have step := measure_turn_le size lanes e known lane
    exact (ih _).trans (by omega)

/-- A queue that is not empty loses at least one key when its turn comes. -/
theorem measure_foldl_turn_lt (positive : 0 < size) (lanes : List P) (e : Expansion P K)
    (known : ∀ n m, Child children n m → m.2 ∈ pool m.1) (order : List P)
    (waiting : ∃ lane ∈ order, e.frontier.queue lane ≠ []) :
    (order.foldl (turn size children lanes) e).frontier.measure pool <
      e.frontier.measure pool := by
  induction order generalizing e with
  | nil => obtain ⟨lane, none, -⟩ := waiting; cases none
  | cons lane rest ih =>
    have step := measure_turn_le size lanes e known lane
    by_cases here : e.frontier.queue lane = []
    · -- An empty queue takes nothing, so its turn changes no other queue.
      obtain ⟨other, held, nonempty⟩ := waiting
      have rest' : ∃ p ∈ rest, (turn size children lanes e lane).frontier.queue p ≠ [] := by
        rcases List.mem_cons.mp held with rfl | held
        · exact absurd here nonempty
        · refine ⟨other, held, ?_⟩
          have differ : other ≠ lane := fun same => nonempty (same ▸ here)
          have none : (lanes.flatMap fun _ => ([] : List (P × K))) = [] := by simp
          simpa [turn, here, none, visitAll, Function.update_of_ne differ] using nonempty
      have lower := ih _ rest'
      rw [List.foldl_cons]
      omega
    · have lower := measure_foldl_turn_le size lanes (turn size children lanes e lane) known rest
      have taken : 0 < ((e.frontier.queue lane).take size).length := by
        rw [List.length_take]
        have := List.length_pos_iff.mpr here
        omega
      rw [List.foldl_cons]
      omega

end Termination

/-- A run with enough fuel empties every queue and keeps what holds along it. -/
theorem run_spec [Fintype P] {pool : P → List K} (positive : 0 < size)
    (all : ∀ lane, lane ∈ lanes) (known : ∀ n m, Child children n m → m.2 ∈ pool m.1)
    (fuel : Nat) (running : Running children start e)
    (enough : e.frontier.measure pool < fuel) :
    Running children start (run size children lanes fuel e) ∧
      ∀ lane, (run size children lanes fuel e).frontier.queue lane = [] := by
  induction fuel generalizing e with
  | zero => omega
  | succ fuel ih =>
    rw [run]
    split
    · next empty =>
      refine ⟨running, fun lane => ?_⟩
      simpa using List.all_eq_true.mp empty lane (all lane)
    · next busy =>
      have waiting : ∃ lane ∈ lanes, e.frontier.queue lane ≠ [] := by
        simpa using busy
      have lower := measure_foldl_turn_lt positive lanes e known lanes waiting
      exact ih (running.foldl_turn all lanes) (by omega)

omit [DecidableEq P] [DecidableEq K] in
/-- The nodes a finished run returns: the starting nodes, and every unseen node
reached from one of them, and no node that was seen from the start. -/
theorem Running.mem_taken (running : Running children start e)
    (empty : ∀ lane, e.frontier.queue lane = []) (n : P × K) :
    (n.2 ∈ start.queue n.1 → n.2 ∈ e.taken n.1) ∧
      (n.2 ∈ e.taken n.1 → n.2 ∈ start.queue n.1 ∨ n.2 ∉ start.seen n.1) ∧
      (n.2 ∈ e.taken n.1 → ∃ s : P × K,
        s.2 ∈ start.queue s.1 ∧ ReflTransGen (Child children) s n) ∧
      ∀ m : P × K, n.2 ∈ e.taken n.1 → Child children n m →
        m.2 ∈ e.taken m.1 ∨ m.2 ∈ start.seen m.1 := by
  refine ⟨fun held => ?_, fun held => running.fresh n (Or.inl held),
    fun held => running.sound n (Or.inl held), fun m held edge => ?_⟩
  · have := running.started n held
    rw [empty, List.mem_nil_iff, or_false] at this
    exact this
  · have seen := (running.seen m).mp (running.closed n m held edge)
    rw [empty, List.mem_nil_iff, or_false] at seen
    exact seen.symm

end Beads.Lib.Worklist
