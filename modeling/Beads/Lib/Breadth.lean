import Mathlib.Data.List.Chain
import Mathlib.Data.List.Nodup
import Mathlib.Data.List.Perm.Subperm
import Mathlib.Logic.Relation
import Beads.Lib.Call

/-! Breadth-first search for a path, with parent pointers. Every node that is found
keeps the node it was found from, and the starting node keeps a value that is no
node; when the goal is found, the pointers are followed back to that value.

`reachPath_spec` says what the search returns: a path without repetitions from the
start to the goal, or nothing, and then the goal cannot be reached. -/
namespace Beads.Lib.Breadth
open Relation

variable {α ε : Type} [DecidableEq α]

/-- A path of the relation that passes no node twice. -/
structure SimplePath (r : α → α → Prop) (start goal : α) (path : List α) : Prop where
  chain : path.IsChain r
  head : path.head? = some start
  last : path.getLast? = some goal
  nodup : path.Nodup

omit [DecidableEq α] in
theorem SimplePath.snoc {r : α → α → Prop} {start a b : α} {path : List α}
    (simple : SimplePath r start a path)
    (edge : r a b) (fresh : b ∉ path) : SimplePath r start b (path ++ [b]) where
  chain := by
    refine simple.chain.append (.singleton b) fun x top y first => ?_
    rw [simple.last] at top
    cases top
    cases first
    exact edge
  head := by
    rw [List.head?_append, simple.head]
    rfl
  last := by simp
  nodup := by
    refine List.nodup_append.mpr ⟨simple.nodup, List.nodup_singleton b, ?_⟩
    rintro x listed _ last rfl
    rw [List.mem_singleton.mp last] at listed
    exact fresh listed

/-- The parent pointers, the newest first, and the nodes whose neighbors are still to
be looked at. -/
structure Search (α : Type) where
  parent : List (α × α)
  queue : List α

/-- The nodes that have a pointer. -/
def seen (parent : List (α × α)) : List α := parent.map Prod.fst

/-- Look at the neighbors of a node; ends with the pointers when one is the goal. -/
def scan (goal node : α) : List α → Search α → Search α ⊕ List (α × α)
  | [], st => .inl st
  | next :: rest, st =>
    if next ∈ seen st.parent then scan goal node rest st
    else if next = goal then .inr ((next, node) :: st.parent)
    else scan goal node rest ⟨(next, node) :: st.parent, st.queue ++ [next]⟩

/-- Take the first node of the queue. -/
def turn (neighbors : α → List α) (goal : α) (st : Search α) :
    Except ε (Search α ⊕ Option (List (α × α) × α)) :=
  match st.queue with
  | [] => .ok (.inr none)
  | node :: queue =>
    match scan goal node (neighbors node) ⟨st.parent, queue⟩ with
    | .inl next => .ok (.inl next)
    | .inr parent => .ok (.inr (some (parent, node)))

/-- Follow a pointer. -/
def climb (stop : α) (parent : List (α × α)) (place : α × List α) :
    Except ε ((α × List α) ⊕ List α) :=
  if place.1 = stop then .ok (.inr place.2)
  else .ok (.inl ((parent.lookup place.1).getD stop, place.1 :: place.2))

/-- The path from the start to the goal that the search finds. -/
def reachPath (neighbors : α → List α) (stop start goal : α) : Call ε (Option (List α)) :=
  if start = goal then pure (some [start])
  else do
    match ← Call.loop (turn neighbors goal) ⟨[(start, stop)], [start]⟩ with
    | none => return none
    | some (parent, node) => return some (← Call.loop (climb stop parent) (node, [goal]))

/-! ## The pointers -/

variable {neighbors : α → List α} {stop start goal : α} {l : List (α × α)}

/-- One step of the graph. -/
def Step (neighbors : α → List α) (a b : α) : Prop := b ∈ neighbors a

/-- The pointers of a search: each node was found from one that had been found. -/
inductive Grown (neighbors : α → List α) (stop start : α) : List (α × α) → Prop where
  | root : Grown neighbors stop start [(start, stop)]
  | found {l : List (α × α)} {node next : α} (grown : Grown neighbors stop start l) (held : node ∈ seen l)
      (edge : Step neighbors node next) (fresh : next ∉ seen l) :
      Grown neighbors stop start ((next, node) :: l)

namespace Grown

omit [DecidableEq α] in
private theorem nodup (grown : Grown neighbors stop start l) : (seen l).Nodup := by
  induction grown with
  | root => exact List.nodup_singleton _
  | found _ _ _ fresh ih => exact List.nodup_cons.mpr ⟨fresh, ih⟩

omit [DecidableEq α] in
theorem reaches (grown : Grown neighbors stop start l) {k : α} (held : k ∈ seen l) :
    ReflTransGen (Step neighbors) start k := by
  induction grown generalizing k with
  | root => rw [List.mem_singleton.mp held]
  | found _ parent edge _ ih =>
    rcases List.mem_cons.mp held with rfl | older
    · exact (ih parent).tail edge
    · exact ih older

/-- From every node that was found, the pointers lead back to the start along a path. -/
theorem climbs (grown : Grown neighbors stop start l) (named : start ≠ stop)
    (named' : ∀ a b, Step neighbors a b → b ≠ stop) (pointers : List (α × α))
    (same : ∀ k ∈ seen l, pointers.lookup k = l.lookup k) {k : α} (held : k ∈ seen l) :
    ∃ path, SimplePath (Step neighbors) start k path ∧ (∀ x ∈ path, x ∈ seen l) ∧
      ∀ acc, (Call.loop (ε := ε) (climb stop pointers) (k, acc)).Returns (path ++ acc) := by
  induction grown generalizing k with
  | root =>
    obtain rfl := List.mem_singleton.mp held
    refine ⟨[k], ⟨.singleton k, rfl, rfl, List.nodup_singleton k⟩, fun x => id, fun acc => ?_⟩
    have pointer : pointers.lookup k = some stop := by
      rw [same k held, List.lookup_cons_self]
    have up : climb (ε := ε) stop pointers (k, acc) = .ok (.inl (stop, k :: acc)) := by
      rw [climb, if_neg named, pointer]
      rfl
    have top : climb (ε := ε) stop pointers (stop, k :: acc) = .ok (.inr (k :: acc)) := by
      rw [climb, if_pos rfl]
    exact Call.ends_loop_of_next up (Call.ends_loop_of_last top)
  | @found l node next grown parent edge fresh ih =>
    have older : ∀ k ∈ seen l, pointers.lookup k = l.lookup k := by
      intro k there
      rw [same k (List.mem_cons_of_mem _ there), List.lookup_cons]
      have differ : k ≠ next := fun equal => fresh (equal ▸ there)
      rw [beq_false_of_ne differ]
    rcases List.mem_cons.mp held with rfl | there
    · obtain ⟨path, simple, inside, climbs⟩ := ih older parent
      refine ⟨path ++ [k], simple.snoc edge fun listed => fresh (inside k listed), ?_,
        fun acc => ?_⟩
      · intro x listed
        rcases List.mem_append.mp listed with old | new
        · exact List.mem_cons_of_mem _ (inside x old)
        · rw [List.mem_singleton.mp new]
          exact held
      · have pointer : pointers.lookup k = some node := by
          rw [same k held, List.lookup_cons_self]
        have up : climb (ε := ε) stop pointers (k, acc) = .ok (.inl (node, k :: acc)) := by
          rw [climb, if_neg (named' _ _ edge), pointer]
          rfl
        rw [List.append_assoc]
        exact Call.ends_loop_of_next up (climbs (k :: acc))
    · obtain ⟨path, simple, inside, climbs⟩ := ih older there
      exact ⟨path, simple, fun x listed => List.mem_cons_of_mem _ (inside x listed), climbs⟩

end Grown

/-! ## The search -/

/-- What holds at the head of the loop. -/
structure Running (neighbors : α → List α) (stop start goal : α) (st : Search α) : Prop where
  grown : Grown neighbors stop start st.parent
  queue : ∀ k ∈ st.queue, k ∈ seen st.parent
  goal : goal ∉ seen st.parent
  started : start ∈ seen st.parent
  closed : ∀ a ∈ seen st.parent, a ∉ st.queue → ∀ b, Step neighbors a b → b ∈ seen st.parent

/-- Looking at neighbors of a found node finds all of them, or the goal among them. -/
theorem scan_spec {node : α} (rest : List α) (st : Search α)
    (grown : Grown neighbors stop start st.parent)
    (held : node ∈ seen st.parent) (edges : ∀ next ∈ rest, Step neighbors node next)
    (away : goal ∉ seen st.parent) :
    (∃ new, scan goal node rest st = .inl ⟨new ++ st.parent, st.queue ++ (seen new).reverse⟩ ∧
        Grown neighbors stop start (new ++ st.parent) ∧ goal ∉ seen (new ++ st.parent) ∧
        ∀ k ∈ rest, k ∈ seen (new ++ st.parent)) ∨
      ∃ old, scan goal node rest st = .inr ((goal, node) :: old) ∧ Grown neighbors stop start old ∧
        node ∈ seen old ∧ goal ∉ seen old ∧ Step neighbors node goal := by
  induction rest generalizing st with
  | nil =>
    refine Or.inl ⟨[], ?_, grown, away, fun k none => absurd none List.not_mem_nil⟩
    simp [scan, seen]
  | cons next rest ih =>
    obtain ⟨edge, others⟩ := List.forall_mem_cons.mp edges
    rw [scan]
    by_cases known : next ∈ seen st.parent
    · rw [if_pos known]
      refine (ih st grown held others away).imp_left ?_
      rintro ⟨new, same, grown', away', all⟩
      refine ⟨new, same, grown', away', List.forall_mem_cons.mpr ⟨?_, all⟩⟩
      rw [seen, List.map_append]
      exact List.mem_append_right _ known
    · rw [if_neg known]
      by_cases arrived : next = goal
      · rw [if_pos arrived]
        subst arrived
        exact Or.inr ⟨st.parent, rfl, grown, held, known, edge⟩
      · rw [if_neg arrived]
        have more :=
          ih ⟨(next, node) :: st.parent, st.queue ++ [next]⟩ (.found grown held edge known)
          (List.mem_cons_of_mem _ held) others
          (fun again => (List.mem_cons.mp again).elim (fun same => arrived same.symm) away)
        refine more.imp_left ?_
        rintro ⟨new, same, grown', away', all⟩
        have shape : new ++ (next, node) :: st.parent = (new ++ [(next, node)]) ++ st.parent := by
          simp
        rw [shape] at same grown' away' all
        refine ⟨new ++ [(next, node)], ?_, grown', away', List.forall_mem_cons.mpr ⟨?_, all⟩⟩
        · simpa [seen] using same
        · simp [seen]

namespace Running
variable {st : Search α}

omit [DecidableEq α] in
theorem init (apart : start ≠ goal) :
    Running neighbors stop start goal ⟨[(start, stop)], [start]⟩ where
  grown := .root
  queue _ listed := listed
  goal listed := apart (List.mem_singleton.mp listed).symm
  started := List.mem_singleton.mpr rfl
  closed _ held waits := absurd held waits

omit [DecidableEq α] in
/-- With an empty queue every node that can be reached has been found. -/
theorem reached (running : Running neighbors stop start goal st) (empty : st.queue = []) {k : α}
    (path : ReflTransGen (Step neighbors) start k) : k ∈ seen st.parent := by
  induction path with
  | refl => exact running.started
  | tail path edge ih => exact running.closed _ ih (by rw [empty]; exact List.not_mem_nil) _ edge

omit [DecidableEq α] in
/-- A node whose neighbors have all been found may leave the queue. -/
theorem grow {node : α} {queue : List α} {new : List (α × α)}
    (running : Running neighbors stop start goal st)
    (shape : st.queue = node :: queue) (grown : Grown neighbors stop start (new ++ st.parent))
    (away : goal ∉ seen (new ++ st.parent))
    (all : ∀ k ∈ neighbors node, k ∈ seen (new ++ st.parent)) :
    Running neighbors stop start goal ⟨new ++ st.parent, queue ++ (seen new).reverse⟩ := by
  have old : ∀ k ∈ seen st.parent, k ∈ seen (new ++ st.parent) := by
    intro k held
    rw [seen, List.map_append]
    exact List.mem_append_right _ held
  refine ⟨grown, ?_, away, old _ running.started, ?_⟩
  · intro k waits
    rcases List.mem_append.mp waits with later | fresh
    · exact old k (running.queue k (by rw [shape]; exact List.mem_cons_of_mem _ later))
    · rw [seen, List.map_append]
      exact List.mem_append_left _ (List.mem_reverse.mp fresh)
  · intro a held done b edge
    rw [List.mem_append, not_or, List.mem_reverse] at done
    by_cases here : a = node
    · subst here
      exact all b edge
    · rw [seen, List.map_append] at held
      have before := (List.mem_append.mp held).resolve_left done.2
      refine old b (running.closed a before ?_ b edge)
      rw [shape, List.mem_cons, not_or]
      exact ⟨here, done.1⟩

omit [DecidableEq α] in
private theorem length_seen_le {pool : List α} (running : Running neighbors stop start goal st)
    (known : ∀ a b, Step neighbors a b → b ∈ pool) :
    (seen st.parent).length ≤ (start :: pool).length := by
  refine (running.grown.nodup.subperm fun k held => ?_).length_le
  rcases (running.grown.reaches held).cases_tail with rfl | ⟨b, -, edge⟩
  · exact List.mem_cons_self
  · exact List.mem_cons_of_mem _ (known b k edge)

end Running

/-- The search ends, with the pointers to the goal or with every node it can reach. -/
theorem loop_spec (stop : α) {pool : List α} (known : ∀ a b, Step neighbors a b → b ∈ pool)
    (apart : start ≠ goal) :
    ∃ outcome, (Call.loop (ε := ε) (turn neighbors goal) ⟨[(start, stop)], [start]⟩).Ends outcome ∧
      ((outcome = .ok none ∧ ¬ ReflTransGen (Step neighbors) start goal) ∨
        ∃ old node, outcome = .ok (some ((goal, node) :: old, node)) ∧ Grown neighbors stop start old ∧
          node ∈ seen old ∧ goal ∉ seen old ∧ Step neighbors node goal) := by
  have scanned : ∀ st : Search α, Running neighbors stop start goal st → ∀ node queue,
      st.queue = node :: queue → _ := fun st running node queue shape =>
    scan_spec (neighbors node) ⟨st.parent, queue⟩ running.grown
      (running.queue node (by rw [shape]; exact List.mem_cons_self)) (fun _ edge => edge) running.goal
  refine Call.ends_loop (Running neighbors stop start goal)
    (fun st => st.queue.length + ((start :: pool).length - (seen st.parent).length)) _ ?_ ?_ ?_
    (Running.init apart)
  · intro st running e stopped
    unfold turn at stopped
    split at stopped
    · cases stopped
    · split at stopped
      · cases stopped
      · cases stopped
  · intro st running hit stopped
    unfold turn at stopped
    split at stopped
    · next empty =>
      cases stopped
      exact Or.inl ⟨rfl, fun path => running.goal (running.reached empty path)⟩
    · next node queue shape =>
      rcases scanned st running node queue shape with ⟨new, same, -⟩ | ⟨old, same, rest⟩
      · rw [same] at stopped
        cases stopped
      · rw [same] at stopped
        cases stopped
        exact Or.inr ⟨old, node, rfl, rest⟩
  · intro st running next stepped
    unfold turn at stepped
    split at stepped
    · cases stepped
    · next node queue shape =>
      rcases scanned st running node queue shape with ⟨new, same, grown, away, all⟩ | ⟨old, same, -⟩
      · rw [same] at stepped
        cases stepped
        have kept := running.grow shape grown away all
        refine ⟨kept, ?_⟩
        have bound := kept.length_seen_le known
        simp only [seen, List.map_append, List.length_append, List.length_reverse, List.length_map,
          shape, List.length_cons] at bound ⊢
        omega
      · rw [same] at stepped
        cases stepped

/-- A graph with finitely many targets, none of which is the value that stands for no
node: the search ends, with a path from the start to the goal that passes no node
twice, or with nothing if there is no path. -/
theorem reachPath_spec {pool : List α} (known : ∀ a b, Step neighbors a b → b ∈ pool)
    (named : start ≠ stop) (named' : ∀ a b, Step neighbors a b → b ≠ stop) :
    ∃ found, (reachPath (ε := ε) neighbors stop start goal).Returns found ∧
      ((found = none ∧ ¬ ReflTransGen (Step neighbors) start goal) ∨
        ∃ path, found = some path ∧ SimplePath (Step neighbors) start goal path) := by
  unfold reachPath
  by_cases same : start = goal
  · rw [if_pos same]
    subst same
    exact ⟨_, Call.ends_ofExcept,
      Or.inr ⟨_, rfl, .singleton start, rfl, rfl, List.nodup_singleton start⟩⟩
  · rw [if_neg same]
    obtain ⟨outcome, ends, result⟩ := loop_spec (ε := ε) stop known same
    rcases result with ⟨rfl, unreachable⟩ | ⟨old, node, rfl, grown, held, away, edge⟩
    · exact ⟨none, Call.returns_bind.mpr ⟨none, ends, Call.ends_ofExcept⟩,
        Or.inl ⟨rfl, unreachable⟩⟩
    · have pointers : ∀ k ∈ seen old, ((goal, node) :: old).lookup k = old.lookup k := by
        intro k there
        have differ : k ≠ goal := fun equal => away (equal ▸ there)
        rw [List.lookup_cons, beq_false_of_ne differ]
      obtain ⟨path, simple, inside, climbs⟩ := grown.climbs (ε := ε) named named' _ pointers held
      refine ⟨some (path ++ [goal]), Call.returns_bind.mpr ⟨_, ends, ?_⟩, Or.inr ⟨_, rfl, ?_⟩⟩
      · exact Call.returns_bind.mpr ⟨_, climbs [goal], Call.ends_ofExcept⟩
      · exact simple.snoc edge fun listed => away (inside goal listed)

end Beads.Lib.Breadth
