import Mathlib.Data.List.Dedup
import Mathlib.Data.List.Perm.Subperm
import Mathlib.Data.Set.Card
import Mathlib.Logic.Relation
import Beads.Lib.Call

/-! Closing a set of keys under a relation, in batches and with a cap. The keys that
are found wait in a queue; a turn takes a batch from it, asks for everything the
batch leads to, and queues what is new. The cap on the keys found is looked at when
a turn starts, and only while keys wait.

`saturate_spec` says that this is exact: the loop ends, it returns the closure when
the closure fits under the cap, and it is refused otherwise. -/
namespace Beads.Lib.Saturation
open Relation

variable {K ε : Type} [DecidableEq K]

/-- The keys found so far, and those still waiting. -/
structure Pending (K : Type) where
  found : List K
  waiting : List K

/-- Remember and queue a key that is new. -/
def discover (w : Pending K) (k : K) : Pending K :=
  if k ∈ w.found then w else ⟨w.found ++ [k], w.waiting ++ [k]⟩

/-- One turn of the loop. -/
def turn (size cap : Nat) (expand : List K → List K) (refused : ε) (w : Pending K) :
    Except ε (Pending K ⊕ List K) :=
  if w.waiting = [] then .ok (.inr w.found)
  else if cap < w.found.length then .error refused
  else .ok (.inl ((expand (w.waiting.take size)).foldl discover ⟨w.found, w.waiting.drop size⟩))

/-- Everything the starting keys lead to. -/
def saturate (size cap : Nat) (expand : List K → List K) (refused : ε) (start : List K) :
    Call ε (List K) :=
  .loop (turn size cap expand refused) ⟨start.dedup, start⟩

/-- What the starting keys lead to, in any number of steps. -/
def Closure (r : K → K → Prop) (start : List K) : Set K := {k | ∃ a ∈ start, ReflTransGen r a k}

/-- Discovering keys appends the new ones, once each, to both lists. -/
theorem foldl_discover (keys : List K) (w : Pending K) : ∃ new : List K,
    keys.foldl discover w = ⟨w.found ++ new, w.waiting ++ new⟩ ∧ new.Nodup ∧
      ∀ k, k ∈ new ↔ k ∈ keys ∧ k ∉ w.found := by
  induction keys generalizing w with
  | nil => exact ⟨[], by simp, List.nodup_nil, by simp⟩
  | cons first rest ih =>
    rw [List.foldl_cons]
    by_cases known : first ∈ w.found
    · obtain ⟨new, same, distinct, members⟩ := ih w
      rw [discover, if_pos known]
      refine ⟨new, same, distinct, fun k => ?_⟩
      rw [members, List.mem_cons]
      constructor
      · exact fun ⟨listed, fresh⟩ => ⟨Or.inr listed, fresh⟩
      · rintro ⟨rfl | listed, fresh⟩
        · exact absurd known fresh
        · exact ⟨listed, fresh⟩
    · obtain ⟨new, same, distinct, members⟩ := ih ⟨w.found ++ [first], w.waiting ++ [first]⟩
      rw [discover, if_neg known]
      refine ⟨first :: new, by simpa using same, List.nodup_cons.mpr ⟨?_, distinct⟩, fun k => ?_⟩
      · intro again
        exact ((members first).mp again).2 (List.mem_append_right _ (List.mem_singleton.mpr rfl))
      · rw [List.mem_cons, List.mem_cons, members, List.mem_append, List.mem_singleton]
        constructor
        · rintro (rfl | ⟨listed, fresh⟩)
          · exact ⟨Or.inl rfl, known⟩
          · exact ⟨Or.inr listed, fun old => fresh (Or.inl old)⟩
        · rintro ⟨rfl | listed, fresh⟩
          · exact Or.inl rfl
          · by_cases same : k = first
            · exact Or.inl same
            · exact Or.inr ⟨listed, fun old => old.elim fresh same⟩

variable {r : K → K → Prop} {start pool : List K} {expand : List K → List K} {size cap : Nat}
  {refused : ε}
  {w : Pending K}

/-- What holds at the head of the loop. -/
structure Running (r : K → K → Prop) (start : List K) (cap : Nat) (w : Pending K) : Prop where
  distinct : w.found.Nodup
  waiting : ∀ k ∈ w.waiting, k ∈ w.found
  started : ∀ k ∈ start, k ∈ w.found
  sound : ∀ k ∈ w.found, k ∈ Closure r start
  closed : ∀ a ∈ w.found, a ∉ w.waiting → ∀ k, r a k → k ∈ w.found
  within : w.waiting = [] → w.found.length ≤ cap

namespace Running

theorem init : Running r start cap ⟨start.dedup, start⟩ where
  distinct := start.nodup_dedup
  waiting k listed := List.mem_dedup.mpr listed
  started k listed := List.mem_dedup.mpr listed
  sound k listed := ⟨k, List.mem_dedup.mp listed, .refl⟩
  closed a listed none := absurd (List.mem_dedup.mp listed) none
  within none := by
    have none : start = [] := none
    subst none
    exact Nat.zero_le _

omit [DecidableEq K] in
/-- With an empty queue the keys found are the closure. -/
theorem mem_found (running : Running r start cap w) (empty : w.waiting = []) (k : K) :
    k ∈ w.found ↔ k ∈ Closure r start := by
  refine ⟨running.sound k, ?_⟩
  rintro ⟨a, listed, path⟩
  induction path with
  | refl => exact running.started a listed
  | tail path edge ih => exact running.closed _ ih (by rw [empty]; exact List.not_mem_nil) _ edge

private theorem turn (size : Nat) (running : Running r start cap w) (under : w.found.length ≤ cap)
    (expands : ∀ batch k, k ∈ expand batch ↔ ∃ a ∈ batch, r a k) :
    Running r start cap ((expand (w.waiting.take size)).foldl discover ⟨w.found, w.waiting.drop size⟩) := by
  obtain ⟨new, same, distinct, members⟩ := foldl_discover (expand (w.waiting.take size))
    ⟨w.found, w.waiting.drop size⟩
  rw [same]
  constructor
  · refine List.nodup_append.mpr ⟨running.distinct, distinct, ?_⟩
    rintro k old _ fresh rfl
    exact ((members k).mp fresh).2 old
  · intro k listed
    rw [List.mem_append] at listed ⊢
    exact listed.imp_left fun later => running.waiting k (List.drop_subset _ _ later)
  · exact fun k listed => List.mem_append_left _ (running.started k listed)
  · intro k listed
    rcases List.mem_append.mp listed with old | fresh
    · exact running.sound k old
    · obtain ⟨a, taken, edge⟩ := (expands _ k).mp ((members k).mp fresh).1
      obtain ⟨first, begins, path⟩ :=
        running.sound a (running.waiting a (List.take_subset _ _ taken))
      exact ⟨first, begins, path.tail edge⟩
  · intro a listed done k edge
    rw [List.mem_append, not_or] at done
    rcases List.mem_append.mp listed with old | fresh
    · by_cases queued : a ∈ w.waiting
      · -- The key has left the queue, so it was in the batch.
        rw [← List.take_append_drop size w.waiting, List.mem_append] at queued
        have taken := queued.resolve_right done.1
        by_cases known : k ∈ w.found
        · exact List.mem_append_left _ known
        · exact List.mem_append_right _ ((members k).mpr ⟨(expands _ k).mpr ⟨a, taken, edge⟩, known⟩)
      · exact List.mem_append_left _ (running.closed a old queued k edge)
    · exact absurd fresh done.2
  · intro empty
    have none : new = [] := (List.append_eq_nil_iff.mp empty).2
    simpa [none] using under

omit [DecidableEq K] in
/-- The keys found are at most those there are. -/
theorem length_found_le (running : Running r start cap w) (known : ∀ a k, r a k → k ∈ pool) :
    w.found.length ≤ (start ++ pool).length := by
  refine (running.distinct.subperm fun k listed => ?_).length_le
  obtain ⟨a, begins, path⟩ := running.sound k listed
  rcases path.cases_tail with rfl | ⟨b, -, edge⟩
  · exact List.mem_append_left _ begins
  · exact List.mem_append_right _ (known b k edge)

end Running

/-- The loop ends. It returns the closure of the starting keys, each key once, if the
closure has at most as many keys as the cap allows, and is refused otherwise. -/
theorem saturate_spec (positive : 0 < size)
    (expands : ∀ batch k, k ∈ expand batch ↔ ∃ a ∈ batch, r a k) (known : ∀ a k, r a k → k ∈ pool) :
    ∃ outcome, (saturate size cap expand refused start).Ends outcome ∧
      ((outcome = .error refused ∧ (cap : ℕ∞) < (Closure r start).encard) ∨
        ∃ found, outcome = .ok found ∧ found.Nodup ∧ (∀ k, k ∈ found ↔ k ∈ Closure r start) ∧
          (Closure r start).encard ≤ cap) := by
  have size_eq : ∀ w : Pending K, Running r start cap w →
      (w.found.length : ℕ∞) = {k | k ∈ w.found}.encard := by
    intro w running
    rw [← List.toFinset_card_of_nodup running.distinct, ← Set.encard_coe_eq_coe_finsetCard]
    congr 1
    ext k
    simp
  refine Call.ends_loop (Running r start cap)
    (fun w => w.waiting.length + ((start ++ pool).length - w.found.length)) _ ?_ ?_ ?_ Running.init
  · intro w running e stopped
    unfold turn at stopped
    split at stopped
    · cases stopped
    · split at stopped
      · next above =>
        cases stopped
        refine Or.inl ⟨rfl, ?_⟩
        calc (cap : ℕ∞) < w.found.length := by exact_mod_cast above
          _ = {k | k ∈ w.found}.encard := size_eq w running
          _ ≤ (Closure r start).encard := Set.encard_le_encard running.sound
      · cases stopped
  · intro w running found stopped
    unfold turn at stopped
    split at stopped
    · next empty =>
      cases stopped
      refine Or.inr ⟨_, rfl, running.distinct, running.mem_found empty, ?_⟩
      have same : {k | k ∈ w.found} = Closure r start := Set.ext (running.mem_found empty)
      rw [← same, ← size_eq w running]
      exact_mod_cast running.within empty
    · split at stopped
      · cases stopped
      · cases stopped
  · intro w running next stepped
    unfold turn at stepped
    split at stepped
    · cases stepped
    · next busy =>
      split at stepped
      · cases stepped
      · next under =>
        cases stepped
        have kept := running.turn size (Nat.not_lt.mp under) expands
        refine ⟨kept, ?_⟩
        have bound := kept.length_found_le known
        obtain ⟨new, same, -⟩ := foldl_discover (expand (w.waiting.take size))
          ⟨w.found, w.waiting.drop size⟩
        rw [same] at bound ⊢
        have queue := List.length_pos_iff.mpr busy
        simp only [List.length_append, List.length_drop] at bound ⊢
        omega

end Beads.Lib.Saturation
