import Beads.Lib.Propagation
import Beads.BlockedState

/-! The stored flags as a flag set over the nodes, and the recomputation as the
passes of `Lib.Propagation` over it. What the flags should be depends on the
statuses and the edges only (`rules_eq_of_view`), so the statements of a pass
work under fixed rules. `Covers` is the condition under which recomputing a set
of rows repairs all flags after a change of the tables. -/
namespace Beads
open Lib Lib.Graph Lib.Propagation Relation

namespace Store
variable {s t u : Store} {n m : Node} {p : Plane}

/-! ## The view the rules depend on -/

/-- The status column. -/
def status? (s : Store) (n : Node) : Option Status := (s.row? n).map Row.status

theorem row?_eq_some {r : Row} : s.row? n = some r ↔ r ∈ s.rows n.1 ∧ r.id = n.2 :=
  Table.find?_eq_some

theorem rowAt_iff {c : Row → Prop} : s.RowAt n c ↔ ∃ r, s.row? n = some r ∧ c r := by
  simp only [row?_eq_some, RowAt, and_assoc]

theorem status?_of_row? {r : Row} (found : s.row? n = some r) : s.status? n = some r.status := by
  rw [status?, found]
  rfl

theorem rowAt_status {c : Status → Prop} :
    s.RowAt n (fun r => c r.status) ↔ ∃ st, s.status? n = some st ∧ c st := by
  rw [rowAt_iff]
  constructor
  · rintro ⟨r, found, holds⟩
    exact ⟨r.status, status?_of_row? found, holds⟩
  · rintro ⟨st, found, holds⟩
    obtain ⟨r, row, rfl⟩ := Option.map_eq_some_iff.mp found
    exact ⟨r, row, holds⟩

theorem rowAt_status_congr {c : Status → Prop} (same : t.status? n = s.status? n) :
    t.RowAt n (fun r => c r.status) ↔ s.RowAt n (fun r => c r.status) := by
  rw [rowAt_status, rowAt_status, same]

theorem liveAt_congr (same : t.status? n = s.status? n) : t.LiveAt n ↔ s.LiveAt n :=
  rowAt_status_congr same

/-- Statuses and edges agree. -/
structure SameView (s t : Store) : Prop where
  status : ∀ n, t.status? n = s.status? n
  deps : ∀ p d, d ∈ t.deps p ↔ d ∈ s.deps p

theorem hasChild_congr {c : Status → Prop} {spawner : Node}
    (edges : ∀ p cd, cd.type = .parentChild → cd.target = .node spawner →
      (cd ∈ t.deps p ↔ cd ∈ s.deps p))
    (status : ∀ p, ∀ cd ∈ t.deps p, cd.type = .parentChild → cd.target = .node spawner →
      t.status? (p, cd.issueId) = s.status? (p, cd.issueId)) :
    t.HasChild spawner c ↔ s.HasChild spawner c := by
  constructor
  · rintro ⟨p, all, cd, held, type, target, child⟩
    exact ⟨p, all, cd, (edges p cd type target).mp held, type, target,
      (rowAt_status_congr (status p cd held type target)).mp child⟩
  · rintro ⟨p, all, cd, held, type, target, child⟩
    have held' := (edges p cd type target).mpr held
    exact ⟨p, all, cd, held', type, target,
      (rowAt_status_congr (status p cd held' type target)).mpr child⟩

theorem gateBlocked_congr {metadata : Metadata} {spawner : Node}
    (live : t.LiveAt spawner ↔ s.LiveAt spawner)
    (open_ : t.HasChild spawner Status.Live ↔ s.HasChild spawner Status.Live)
    (closed : t.HasChild spawner (· = .closed) ↔ s.HasChild spawner (· = .closed)) :
    t.GateBlocked metadata spawner ↔ s.GateBlocked metadata spawner := by
  rw [GateBlocked, GateBlocked, live, open_, closed]

/-! ## The flag rules of a store -/

/-- The node has a parent-child edge onto the other. -/
def ParentOf (s : Store) (n m : Node) : Prop :=
  s.EdgeAt n fun d => d.type = .parentChild ∧ d.target = .node m

theorem liveAt_finite (s : Store) : {n | s.LiveAt n}.Finite := by
  refine (List.finite_toSet (Plane.all.flatMap fun p => (s.rows p).rows.map fun r =>
    (p, r.id))).subset ?_
  rintro ⟨p, id⟩ ⟨r, held, same, -⟩
  refine List.mem_flatMap.mpr ⟨p, Plane.mem_all p, List.mem_map.mpr ⟨r, held, ?_⟩⟩
  exact Prod.ext rfl same

/-- What the templates test, with the flags of the parents left open. -/
def rules (s : Store) : FlagRules Node where
  live := s.LiveAt
  direct n := s.LiveBlocker n ∨ s.HeldGate n
  parent := s.ParentOf
  live_finite := s.liveAt_finite

/-- The rows whose stored flag is set. -/
def flags (s : Store) : Set Node := {n | s.FlaggedAt n}

theorem joins_iff {c : Node → Prop} {target : Target} :
    target.Joins c ↔ ∃ m, target = .node m ∧ c m := by
  cases target with
  | node m =>
    exact ⟨fun holds => ⟨m, rfl, holds⟩, fun ⟨_, same, holds⟩ => by cases same; exact holds⟩
  | external ref => exact ⟨False.elim, fun ⟨_, same, _⟩ => by cases same⟩

theorem flaggedParent_iff : s.FlaggedParent n ↔ ∃ m ∈ s.flags, s.ParentOf n m := by
  constructor
  · rintro ⟨d, held, source, type, joins⟩
    obtain ⟨m, target, flagged⟩ := joins_iff.mp joins
    exact ⟨m, flagged, d, held, source, type, target⟩
  · rintro ⟨m, flagged, d, held, source, type, target⟩
    exact ⟨d, held, source, type, joins_iff.mpr ⟨m, target, flagged⟩⟩

theorem due_iff : s.rules.Due s.flags n ↔ s.LiveAt n ∧ s.BlockReason n := by
  rw [FlagRules.Due, BlockReason, flaggedParent_iff, or_comm (b := s.HeldGate n), ← or_assoc]
  rfl

theorem mem_flags_iff : n ∈ s.flags ↔ ∃ r, s.row? n = some r ∧ r.isBlocked = true := rowAt_iff

theorem mem_flags_of_row {r : Row} (held : r ∈ s.rows p) :
    (p, r.id) ∈ s.flags ↔ r.isBlocked = true := by
  constructor
  · rintro ⟨q, other, same, flagged⟩
    rwa [← Table.eq_of_key other held same]
  · exact fun flagged => ⟨r, held, rfl, flagged⟩

theorem liveAt_of_row {r : Row} (held : r ∈ s.rows p) : s.LiveAt (p, r.id) ↔ r.status.Live := by
  constructor
  · rintro ⟨q, other, same, live⟩
    rwa [← Table.eq_of_key other held same]
  · exact fun live => ⟨r, held, rfl, live⟩

/-- The flags are correct row by row exactly when the flag set is correct. -/
theorem flagsCorrect_iff : s.FlagsCorrect ↔ s.rules.Correct s.flags := by
  constructor
  · intro correct n
    rw [due_iff]
    constructor
    · rintro ⟨r, held, same, flagged⟩
      obtain ⟨p, id⟩ := n
      cases same
      obtain ⟨live, reason⟩ := (correct p r held).mp flagged
      exact ⟨(liveAt_of_row held).mpr live, reason⟩
    · rintro ⟨⟨r, held, same, live⟩, reason⟩
      obtain ⟨p, id⟩ := n
      cases same
      exact ⟨r, held, rfl, (correct p r held).mpr ⟨live, reason⟩⟩
  · intro correct p r held
    rw [← mem_flags_of_row held, correct, due_iff, liveAt_of_row held]

private theorem ParentOf.parentChild (edge : s.ParentOf n m) : s.ParentChild n.2 m.2 := by
  obtain ⟨d, held, source, type, target⟩ := edge
  exact ⟨n.1, d, held, type, by rw [Dep.key, source, target]; rfl⟩

theorem upward_acyclic (acyclic : Acyclic s.ParentChild) : Acyclic s.rules.Upward :=
  acyclic.comap Prod.snd fun _ _ edge => edge.2.parentChild

end Store
end Beads
