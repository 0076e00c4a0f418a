import Beads.BlockedStateProofs

/-! The mark and unmark statements act on the flag set as `FlagRules.mark` and
`FlagRules.unmark`, and the two loops end with the flags of the given ids
correct for the flags outside of them. The full loop does so when the live part
of the parent relation is acyclic; without acyclicity both loops do when no flag
lacks a reason, because then they only ever add flags. -/
namespace Beads
open Lib Lib.Graph Lib.Propagation Relation

namespace Store
variable {s t u : Store} {p : Plane} {batch : List String}

/-! ## Everything but the flags -/

/-- The store with every flag reset; two stores that agree on it differ at most
in the flag column. -/
def cleared (s : Store) : Store where
  rows p := (s.rows p).update (fun r => { r with isBlocked := false }) fun _ => rfl
  deps := s.deps
  coordination := s.coordination

private theorem mem_cleared {r : Row} :
    r ∈ s.cleared.rows p ↔ ∃ old ∈ s.rows p, { old with isBlocked := false } = r := by
  rw [cleared, Table.mem_update]

theorem row?_cleared (n : Node) :
    s.cleared.row? n = (s.row? n).map fun r => { r with isBlocked := false } := by
  rw [row?, cleared, Table.find?_update]
  rfl

private theorem cleared_status? (n : Node) : s.cleared.status? n = s.status? n := by
  refine Option.ext fun st => ?_
  simp only [status?, Option.map_eq_some_iff, row?_eq_some, mem_cleared]
  constructor
  · rintro ⟨_, ⟨⟨old, held, rfl⟩, same⟩, rfl⟩
    exact ⟨old, ⟨held, same⟩, rfl⟩
  · rintro ⟨old, ⟨held, same⟩, rfl⟩
    exact ⟨_, ⟨⟨old, held, rfl⟩, same⟩, rfl⟩

private theorem sameView_of_cleared (same : t.cleared = s.cleared) : SameView s t where
  status n := by rw [← cleared_status?, same, cleared_status?]
  deps p d := by
    change d ∈ t.cleared.deps p ↔ d ∈ s.cleared.deps p
    rw [same]

namespace SameView

theorem liveAt_iff (view : SameView s t) (n : Node) : t.LiveAt n ↔ s.LiveAt n :=
  liveAt_congr (view.status n)

private theorem gateBlocked_iff (view : SameView s t) (metadata : Metadata) (spawner : Node) :
    t.GateBlocked metadata spawner ↔ s.GateBlocked metadata spawner := by
  have child : ∀ c : Status → Prop, t.HasChild spawner c ↔ s.HasChild spawner c := fun c =>
    hasChild_congr (fun p cd _ _ => view.deps p cd) fun p cd _ _ _ => view.status (p, cd.issueId)
  exact gateBlocked_congr (view.liveAt_iff spawner) (child _) (child _)

private theorem liveBlocker_iff (view : SameView s t) (n : Node) :
    t.LiveBlocker n ↔ s.LiveBlocker n := by
  simp only [LiveBlocker, EdgeAt, view.deps, joins_iff, view.liveAt_iff]

theorem heldGate_iff (view : SameView s t) (n : Node) : t.HeldGate n ↔ s.HeldGate n := by
  simp only [HeldGate, EdgeAt, view.deps, joins_iff, view.gateBlocked_iff]

end SameView

theorem rules_eq_of_view (view : SameView s t) : t.rules = s.rules := by
  simp only [rules, FlagRules.mk.injEq]
  refine ⟨funext fun n => propext (view.liveAt_iff n), funext fun n => propext ?_,
    funext fun n => funext fun m => propext ?_⟩
  · exact or_congr (view.liveBlocker_iff n) (view.heldGate_iff n)
  · simp only [ParentOf, EdgeAt, view.deps]

theorem rules_eq_of_cleared (same : t.cleared = s.cleared) : t.rules = s.rules :=
  rules_eq_of_view (sameView_of_cleared same)

theorem flagsCorrect_of_view (view : SameView s t) (flags : t.flags = s.flags)
    (before : s.FlagsCorrect) : t.FlagsCorrect := by
  rw [flagsCorrect_iff, rules_eq_of_view view, flags]
  exact flagsCorrect_iff.mp before

/-! ## Statements -/

/-- The rows a batch of a plane names. -/
def nodes (p : Plane) (batch : List String) : Set Node := {n | n.1 = p ∧ n.2 ∈ batch}

variable {value : Bool} {hit : Row → Prop} [DecidablePred hit]

theorem setBlocked_rows_ne {q : Plane} (differ : q ≠ p) :
    (s.setBlocked value p hit).1.rows q = s.rows q :=
  withRows_rows_ne s p _ differ

theorem mem_setBlocked {r : Row} : r ∈ (s.setBlocked value p hit).1.rows p ↔
    ∃ old ∈ s.rows p, (if hit old then { old with isBlocked := value } else old) = r := by
  rw [setBlocked, withRows_rows_self]
  exact Table.mem_update

theorem setBlocked_cleared : (s.setBlocked value p hit).1.cleared = s.cleared := by
  have rows : ∀ q, ((s.setBlocked value p hit).1.cleared.rows q) = s.cleared.rows q := by
    intro q
    by_cases same : q = p
    · subst same
      apply Table.ext
      simp only [cleared, setBlocked, withRows_rows_self, Table.update, List.map_map]
      refine List.map_congr_left fun r _ => ?_
      simp only [Function.comp]
      split <;> rfl
    · simp only [cleared, setBlocked_rows_ne same]
  unfold cleared at rows ⊢
  simp only [Store.mk.injEq]
  exact ⟨funext rows, rfl, rfl⟩

/-- A statement that matched no row left the store as it was. -/
theorem setBlocked_same (none : (s.setBlocked value p hit).2 = 0) :
    (s.setBlocked value p hit).1 = s := by
  have miss : ∀ r ∈ (s.rows p).rows, ¬ hit r := by
    simpa [setBlocked] using none
  have table : (s.rows p).update (fun r => if hit r then { r with isBlocked := value } else r)
      (fun r => by split <;> rfl) = s.rows p := by
    apply Table.ext
    simp only [Table.update]
    conv_rhs => rw [← List.map_id (s.rows p).rows]
    exact List.map_congr_left fun r held => if_neg (miss r held)
  simp only [setBlocked, table, withRows, Function.update_eq_self]

theorem setBlocked_count : (s.setBlocked value p hit).2 = 0 ↔ ∀ r ∈ s.rows p, ¬ hit r := by
  simp only [setBlocked, List.countP_eq_zero, decide_eq_true_eq]
  rfl

theorem mem_flags_setBlocked {n : Node} : n ∈ (s.setBlocked value p hit).1.flags ↔
    if n.1 = p ∧ s.RowAt n hit then value = true else n ∈ s.flags := by
  obtain ⟨q, id⟩ := n
  by_cases same : q = p
  · subst same
    simp only [true_and]
    constructor
    · rintro ⟨r, held, name, flagged⟩
      obtain ⟨old, before, rfl⟩ := mem_setBlocked.mp held
      by_cases matched : hit old
      · rw [if_pos matched] at name flagged
        rw [if_pos ⟨old, before, name, matched⟩]
        exact flagged
      · rw [if_neg matched] at name flagged
        rw [if_neg]
        · exact ⟨old, before, name, flagged⟩
        · rintro ⟨r, other, twin, matched'⟩
          rw [Table.eq_of_key other before (twin.trans name.symm)] at matched'
          exact matched matched'
    · split
      · next matched =>
        rintro rfl
        obtain ⟨r, held, name, matched⟩ := matched
        exact ⟨_, mem_setBlocked.mpr ⟨r, held, if_pos matched⟩, name, rfl⟩
      · next missed =>
        rintro ⟨r, held, name, flagged⟩
        exact ⟨r, mem_setBlocked.mpr ⟨r, held, if_neg fun matched => missed ⟨r, held, name, matched⟩⟩,
          name, flagged⟩
  · simp only [same, false_and, if_false]
    simp only [flags, FlaggedAt, RowAt, Set.mem_ofPred_eq, setBlocked_rows_ne same]

/-- What a statement on a batch does to the flag set, and when it reports no
changed row. -/
structure Implements (statement : Store → Plane → List String → Store × Nat)
    (effect : FlagRules Node → Set Node → Set Node → Set Node)
    (still : FlagRules Node → Set Node → Set Node → Prop) : Prop where
  cleared : ∀ s p batch, (statement s p batch).1.cleared = s.cleared
  flags : ∀ s p batch, (statement s p batch).1.flags = effect s.rules (nodes p batch) s.flags
  quiet : ∀ s p batch, (statement s p batch).2 = 0 ↔ still s.rules (nodes p batch) s.flags
  same : ∀ s p batch, (statement s p batch).2 = 0 → (statement s p batch).1 = s

theorem markBlocked_flags :
    (s.markBlocked p batch).1.flags = s.rules.mark (nodes p batch) s.flags := by
  ext n
  rw [markBlocked, mem_flags_setBlocked, FlagRules.mem_mark, due_iff]
  obtain ⟨q, id⟩ := n
  split
  · next matched =>
    obtain ⟨rfl, r, held, rfl, inside, -, live, reason⟩ := matched
    exact ⟨fun _ => Or.inr ⟨⟨rfl, inside⟩, (liveAt_of_row held).mpr live, reason⟩, fun _ => rfl⟩
  · next missed =>
    refine ⟨Or.inl, ?_⟩
    rintro (flagged | ⟨⟨rfl, inside⟩, ⟨r, held, rfl, live⟩, reason⟩)
    · exact flagged
    · rw [mem_flags_of_row held]
      by_contra unflagged
      exact missed ⟨rfl, r, held, rfl, inside, Bool.eq_false_iff.mpr unflagged, live, reason⟩

theorem unmarkBlocked_flags :
    (s.unmarkBlocked p batch).1.flags = s.rules.unmark (nodes p batch) s.flags := by
  ext n
  rw [unmarkBlocked, mem_flags_setBlocked, FlagRules.mem_unmark, due_iff]
  obtain ⟨q, id⟩ := n
  split
  · next matched =>
    obtain ⟨rfl, r, held, rfl, inside, -, cause⟩ := matched
    refine ⟨fun never => (Bool.false_ne_true never).elim, fun ⟨_, due⟩ => ?_⟩
    obtain ⟨live, reason⟩ := due ⟨rfl, inside⟩
    have live := (liveAt_of_row held).mp live
    rcases cause with closed | pinned | none
    · exact absurd closed live.1
    · exact absurd pinned live.2
    · exact absurd reason none
  · next missed =>
    refine ⟨fun flagged => ⟨flagged, ?_⟩, And.left⟩
    rintro ⟨rfl, inside⟩
    obtain ⟨r, held, rfl, flag⟩ := flagged
    by_contra notDue
    refine missed ⟨rfl, r, held, rfl, inside, flag, ?_⟩
    by_contra kept
    simp only [not_or, not_not] at kept
    exact notDue ⟨(liveAt_of_row held).mpr ⟨kept.1, kept.2.1⟩, kept.2.2⟩

theorem markBlocked_quiet :
    (s.markBlocked p batch).2 = 0 ↔ s.rules.mark (nodes p batch) s.flags = s.flags := by
  refine ⟨fun none => ?_, fun same => ?_⟩
  · rw [← markBlocked_flags, show (s.markBlocked p batch).1 = s from setBlocked_same none]
  · rw [FlagRules.mark_eq_self_iff] at same
    refine setBlocked_count.mpr fun r held ⟨inside, unflagged, live, reason⟩ => ?_
    have due := due_iff.mpr ⟨(liveAt_of_row held).mpr live, reason⟩
    have flagged := (mem_flags_of_row held).mp (same (p, r.id) ⟨rfl, inside⟩ due)
    exact Bool.false_ne_true (unflagged.symm.trans flagged)

private theorem unmarkBlocked_quiet :
    (s.unmarkBlocked p batch).2 = 0 ↔ s.rules.unmark (nodes p batch) s.flags = s.flags := by
  refine ⟨fun none => ?_, fun same => ?_⟩
  · rw [← unmarkBlocked_flags, show (s.unmarkBlocked p batch).1 = s from setBlocked_same none]
  · rw [FlagRules.unmark_eq_self_iff] at same
    refine setBlocked_count.mpr fun r held ⟨inside, flagged, cause⟩ => ?_
    obtain ⟨live, reason⟩ := due_iff.mp
      (same (p, r.id) ⟨rfl, inside⟩ ((mem_flags_of_row held).mpr flagged))
    have live := (liveAt_of_row held).mp live
    rcases cause with closed | pinned | none
    · exact live.1 closed
    · exact live.2 pinned
    · exact none reason

theorem markBlocked_implements :
    Implements Store.markBlocked FlagRules.mark (fun S B F => S.mark B F = F) where
  cleared _ _ _ := setBlocked_cleared
  flags _ _ _ := markBlocked_flags
  quiet _ _ _ := markBlocked_quiet
  same _ _ _ := setBlocked_same

theorem markUnmarkBlocked_implements :
    Implements Store.markUnmarkBlocked (fun S B F => S.unmark B (S.mark B F))
      (fun S B F => S.mark B F = F ∧ S.unmark B F = F) where
  cleared _ _ _ := setBlocked_cleared.trans setBlocked_cleared
  flags s p batch := by
    change ((s.markBlocked p batch).1.unmarkBlocked p batch).1.flags = _
    rw [unmarkBlocked_flags, markBlocked_flags,
      rules_eq_of_cleared (markBlocked_implements.cleared s p batch)]
  quiet s p batch := by
    change (s.markBlocked p batch).2 + ((s.markBlocked p batch).1.unmarkBlocked p batch).2 = 0 ↔ _
    rw [Nat.add_eq_zero_iff, ← markBlocked_quiet, ← unmarkBlocked_quiet]
    exact and_congr_right fun none => by rw [show (s.markBlocked p batch).1 = s from setBlocked_same none]
  same _ _ _ none := by
    have parts := Nat.add_eq_zero_iff.mp none
    exact (setBlocked_same parts.2).trans (setBlocked_same parts.1)

end Store

/-! ## Passes -/

open Store
variable {statement : Store → Plane → List String → Store × Nat}
  {effect : FlagRules Node → Set Node → Set Node → Set Node}
  {still : FlagRules Node → Set Node → Set Node → Prop} {ids : IDs} {s t : Store}

/-- The rows an id list per plane names. -/
def scope (ids : IDs) : Set Node := {n | n.2 ∈ ids n.1}

/-- The batches of a pass as sets of rows, for any batch size. -/
def sizedSets (size : Nat) (ids : IDs) : List (Set Node) :=
  (Plane.all.flatMap fun p => (batches size (ids p)).map (p, ·)).map fun b => nodes b.1 b.2

/-- The batches of a pass as sets of rows. -/
def passSets (ids : IDs) : List (Set Node) := (passBatches ids).map fun b => nodes b.1 b.2

theorem mem_sizedSets {size : Nat} {B : Set Node} : B ∈ sizedSets size ids ↔
    ∃ p, ∃ batch ∈ batches size (ids p), B = nodes p batch := by
  simp only [sizedSets, List.mem_map, List.mem_flatMap, Plane.mem_all, true_and]
  constructor
  · rintro ⟨_, ⟨p, batch, held, rfl⟩, rfl⟩
    exact ⟨p, batch, held, rfl⟩
  · rintro ⟨p, batch, held, rfl⟩
    exact ⟨(p, batch), ⟨p, batch, held, rfl⟩, rfl⟩

private theorem mem_passSets {B : Set Node} : B ∈ passSets ids ↔
    ∃ p, ∃ batch ∈ batches queryBatchSize (ids p), B = nodes p batch := mem_sizedSets

theorem sizedSets_subset {size : Nat} (positive : 0 < size) :
    ∀ B ∈ sizedSets size ids, B ⊆ scope ids := by
  intro B held n inside
  obtain ⟨p, batch, batched, rfl⟩ := mem_sizedSets.mp held
  obtain ⟨rfl, member⟩ := inside
  exact (mem_batches positive).mp ⟨batch, batched, member⟩

theorem sizedSets_cover {size : Nat} (positive : 0 < size) :
    ∀ n ∈ scope ids, ∃ B ∈ sizedSets size ids, n ∈ B := by
  intro n inside
  obtain ⟨batch, batched, member⟩ := (mem_batches positive).mpr inside
  exact ⟨nodes n.1 batch, mem_sizedSets.mpr ⟨n.1, batch, batched, rfl⟩, rfl, member⟩

theorem passSets_subset : ∀ B ∈ passSets ids, B ⊆ scope ids := sizedSets_subset (by decide)

private theorem passSets_cover : ∀ n ∈ scope ids, ∃ B ∈ passSets ids, n ∈ B :=
  sizedSets_cover (by decide)

theorem scope_finite (ids : IDs) : (scope ids).Finite := by
  refine (List.finite_toSet (Plane.all.flatMap fun p => (ids p).map (p, ·))).subset ?_
  rintro ⟨p, id⟩ inside
  exact List.mem_flatMap.mpr ⟨p, Plane.mem_all p, List.mem_map.mpr ⟨id, inside, rfl⟩⟩

private theorem foldl_runBatch (implements : Implements statement effect still)
    (batches : List (Plane × List String)) (s : Store) (changed : Nat) :
    (batches.foldl (runBatch statement) (s, changed)).1.cleared = s.cleared ∧
      (batches.foldl (runBatch statement) (s, changed)).1.flags =
        (batches.map fun b => nodes b.1 b.2).foldl (fun F B => effect s.rules B F) s.flags ∧
      changed ≤ (batches.foldl (runBatch statement) (s, changed)).2 := by
  induction batches generalizing s changed with
  | nil => exact ⟨rfl, rfl, Nat.le_refl _⟩
  | cons first rest ih =>
    obtain ⟨p, batch⟩ := first
    obtain ⟨frame, flagged, grows⟩ := ih (statement s p batch).1 (changed + (statement s p batch).2)
    have fixed := rules_eq_of_cleared (implements.cleared s p batch)
    rw [fixed, implements.flags] at flagged
    exact ⟨frame.trans (implements.cleared s p batch), flagged,
      Nat.le_trans (Nat.le_add_right _ _) grows⟩

private theorem foldl_runBatch_quiet (implements : Implements statement effect still)
    (batches : List (Plane × List String)) (s : Store) (changed : Nat) :
    (batches.foldl (runBatch statement) (s, changed)).2 = changed ↔
      ∀ b ∈ batches, still s.rules (nodes b.1 b.2) s.flags := by
  induction batches with
  | nil => exact ⟨fun _ b none => (List.not_mem_nil none).elim, fun _ => rfl⟩
  | cons first rest ih =>
    obtain ⟨p, batch⟩ := first
    have grows := (foldl_runBatch implements rest (statement s p batch).1
      (changed + (statement s p batch).2)).2.2
    change (rest.foldl (runBatch statement)
      ((statement s p batch).1, changed + (statement s p batch).2)).2 = changed ↔ _
    rw [List.forall_mem_cons, ← implements.quiet]
    constructor
    · intro none
      have zero : (statement s p batch).2 = 0 := by omega
      rw [zero, implements.same s p batch zero] at none
      exact ⟨zero, ih.mp none⟩
    · rintro ⟨zero, others⟩
      rw [zero, implements.same s p batch zero]
      exact ih.mpr others

private theorem foldl_runBatch_same (implements : Implements statement effect still)
    (batches : List (Plane × List String)) (s : Store) (changed : Nat)
    (none : ∀ b ∈ batches, still s.rules (nodes b.1 b.2) s.flags) :
    (batches.foldl (runBatch statement) (s, changed)).1 = s := by
  induction batches with
  | nil => rfl
  | cons first rest ih =>
    obtain ⟨here, others⟩ := List.forall_mem_cons.mp none
    have zero := (implements.quiet s first.1 first.2).mpr here
    change (rest.foldl (runBatch statement)
      ((statement s first.1 first.2).1, changed + (statement s first.1 first.2).2)).1 = s
    rw [implements.same s first.1 first.2 zero, zero]
    exact ih others

/-- What a pass over the batches does to the flag set, and what a pass without
changes means. -/
theorem foldl_runBatch_spec (implements : Implements statement effect still)
    (all : List (Plane × List String)) (s : Store) :
    (all.foldl (runBatch statement) (s, 0)).1.cleared = s.cleared ∧
      (all.foldl (runBatch statement) (s, 0)).1.flags =
        (all.map fun b => nodes b.1 b.2).foldl (fun F B => effect s.rules B F) s.flags ∧
      ((all.foldl (runBatch statement) (s, 0)).2 = 0 →
        (all.foldl (runBatch statement) (s, 0)).1 = s) ∧
      ((all.foldl (runBatch statement) (s, 0)).2 = 0 ↔
        ∀ B ∈ all.map fun b => nodes b.1 b.2, still s.rules B s.flags) := by
  obtain ⟨frame, flagged, -⟩ := foldl_runBatch implements all s 0
  have quiet := foldl_runBatch_quiet implements all s 0
  refine ⟨frame, flagged, fun none => ?_, quiet.trans ?_⟩
  · exact foldl_runBatch_same implements all s 0 (quiet.mp none)
  · rw [List.forall_mem_map]

/-- A loop whose changing passes keep an invariant of the flag set and lower a
measure of it ends, with the invariant and a last pass that changed nothing. -/
theorem repeat_runBatch_spec (implements : Implements statement effect still)
    (all : List (Plane × List String)) (s : Store)
    (inv : Set Node → Prop) (measure : Set Node → Nat) (start : inv s.flags)
    (step : ∀ F, inv F → ¬ (∀ B ∈ all.map fun b => nodes b.1 b.2, still s.rules B F) →
      inv ((all.map fun b => nodes b.1 b.2).foldl (fun F B => effect s.rules B F) F) ∧
        measure ((all.map fun b => nodes b.1 b.2).foldl (fun F B => effect s.rules B F) F) < measure F) :
    ∃ t, (.repeatUntilQuiet (fun s => all.foldl (runBatch statement) (s, 0)) s : Tx Store).Returns t ∧
      t.cleared = s.cleared ∧ inv t.flags ∧
        ∀ B ∈ all.map fun b => nodes b.1 b.2, still s.rules B t.flags := by
  obtain ⟨t, ⟨frame, held⟩, quiet, result⟩ := Call.settles_repeatUntilQuiet
    (fun t => t.cleared = s.cleared ∧ inv t.flags) (fun t => measure t.flags)
    (fun t held (changed : (all.foldl (runBatch statement) (t, 0)).2 ≠ 0) => by
      obtain ⟨frame, flagged, -, quiet⟩ := foldl_runBatch_spec implements all t
      have fixed := rules_eq_of_cleared held.1
      rw [ne_eq, quiet, fixed] at changed
      rw [flagged, fixed]
      obtain ⟨kept, lower⟩ := step t.flags held.2 changed
      exact ⟨⟨frame.trans held.1, kept⟩, lower⟩)
    ⟨rfl, start⟩
  obtain ⟨-, -, unchanged, still⟩ := foldl_runBatch_spec implements all t
  rw [unchanged quiet] at result
  rw [rules_eq_of_cleared frame] at still
  exact ⟨t, result, frame, held, still.mp quiet⟩

theorem runUntilQuiet_spec (implements : Implements statement effect still) (ids : IDs) (s : Store)
    (inv : Set Node → Prop) (measure : Set Node → Nat) (start : inv s.flags)
    (step : ∀ F, inv F → ¬ (∀ B ∈ passSets ids, still s.rules B F) →
      inv ((passSets ids).foldl (fun F B => effect s.rules B F) F) ∧
        measure ((passSets ids).foldl (fun F B => effect s.rules B F) F) < measure F) :
    ∃ t, (runUntilQuiet statement ids s).Returns t ∧ t.cleared = s.cleared ∧ inv t.flags ∧
      ∀ B ∈ passSets ids, still s.rules B t.flags := by
  rw [runUntilQuiet]
  split
  · next empty =>
    refine ⟨s, Call.ends_ofExcept, rfl, start, fun B held => ?_⟩
    obtain ⟨p, batch, batched, -⟩ := mem_passSets.mp held
    cases p with
    | issues => rw [empty.1] at batched; cases batched
    | wisps => rw [empty.2] at batched; cases batched
  · exact repeat_runBatch_spec implements (passBatches ids) s inv measure start step

/-- Whatever a loop that ends does to the flags, it does nothing else. -/
theorem runUntilQuiet_cleared (implements : Implements statement effect still) {ids : IDs}
    (returns : (runUntilQuiet statement ids s).Returns t) : t.cleared = s.cleared := by
  rw [runUntilQuiet] at returns
  split at returns
  · rw [Call.returns_pure.mp returns]
  · exact Call.inv_of_repeatUntilQuiet (fun u => u.cleared = s.cleared)
      (fun u held => (foldl_runBatch_spec implements (passBatches ids) u).1.trans held) rfl returns

theorem recomputeIsBlocked_cleared {ids : IDs} (returns : (recomputeIsBlocked ids s).Returns t) :
    t.cleared = s.cleared :=
  runUntilQuiet_cleared markUnmarkBlocked_implements returns

theorem markIsBlocked_cleared {ids : IDs} (returns : (markIsBlocked ids s).Returns t) :
    t.cleared = s.cleared :=
  runUntilQuiet_cleared markBlocked_implements returns

/-- The outcome of a recomputation: the flags of the given ids are correct for
the flags outside, and nothing else has changed. -/
structure Recomputed (ids : IDs) (s t : Store) : Prop where
  cleared : t.cleared = s.cleared
  outside : ∀ n ∉ scope ids, n ∈ t.flags ↔ n ∈ s.flags
  inside : s.rules.CorrectOn (scope ids) t.flags

/-- Passes over the rows of a scope settle it if the flags above its circles can
only move in one direction. -/
theorem repeat_markUnmark_of_oneWay {L : Set Node} (all : List (Plane × List String))
    (sub : ∀ B ∈ all.map fun b => nodes b.1 b.2, B ⊆ L)
    (cover : ∀ n ∈ L, ∃ B ∈ all.map fun b => nodes b.1 b.2, n ∈ B) (finite : L.Finite)
    (oneWay : s.rules.OneWay L s.flags) :
    ∃ t, (.repeatUntilQuiet (fun s => all.foldl (runBatch markUnmarkBlocked) (s, 0)) s : Tx Store).Returns t ∧
      t.cleared = s.cleared ∧ (∀ n ∉ L, n ∈ t.flags ↔ n ∈ s.flags) ∧
        s.rules.CorrectOn L t.flags := by
  let above (good : Node → Prop) : Set Node := {n | s.rules.Feeds L s.flags n ∧
    ∀ a, ReflTransGen (s.rules.Open L {n | s.rules.Settled L s.flags n}) n a → good a}
  let P := above fun a => a ∈ s.flags → s.rules.Due s.flags a
  let Q := above fun a => s.rules.Due s.flags a → a ∈ s.flags
  have rises : s.rules.Region L s.flags P := FlagRules.region_of_feeds
  have falls : s.rules.Region L s.flags Q := FlagRules.region_of_feeds
  have circles : ∀ n, TransGen (s.rules.Open L {n | s.rules.Settled L s.flags n}) n n → n ∈ P ∪ Q := by
    intro n circle
    have feeds : s.rules.Feeds L s.flags n := ⟨n, circle, .refl⟩
    exact (oneWay n feeds).imp (⟨feeds, ·⟩) (⟨feeds, ·⟩)
  -- The flags outside never move, those above a circle rise or fall, and the rest follows.
  have loop := repeat_runBatch_spec markUnmarkBlocked_implements all s
    (fun F => (∀ n ∉ L, n ∈ F ↔ n ∈ s.flags) ∧ (∀ n ∈ P, n ∈ F → s.rules.Due F n) ∧
      ∀ n ∈ Q, s.rules.Due F n → n ∈ F)
    (fun F => s.rules.unrest L P Q F)
    ⟨fun _ _ => Iff.rfl, fun n within => within.2 n .refl, fun n within => within.2 n .refl⟩ ?_
  · obtain ⟨t, result, frame, ⟨outside, -⟩, quiet⟩ := loop
    exact ⟨t, result, frame, outside, FlagRules.Quiet.correctOn quiet cover⟩
  · rintro F ⟨outside, rising, falling⟩ busy
    refine ⟨⟨fun n out => ?_, (rises.rising_pass outside sub rising).2, (falls.falling_pass outside sub falling).2⟩, ?_⟩
    · refine Iff.trans ?_ (outside n out)
      exact FlagRules.mem_pass_outside fun B held inside => out (sub B held inside)
    · exact FlagRules.unrest_pass_lt rises falls circles finite outside rising falling sub cover
        busy

theorem recomputeInBatches_of_oneWay {size : Nat} (positive : 0 < size) (ids : IDs)
    (oneWay : s.rules.OneWay (scope ids) s.flags) :
    ∃ t, (recomputeInBatches size ids s).Returns t ∧ Recomputed ids s t := by
  rw [recomputeInBatches]
  split
  · next empty =>
    refine ⟨s, Call.ends_ofExcept, rfl, fun _ _ => Iff.rfl, ?_⟩
    rintro ⟨p, id⟩ inside
    cases p with
    | issues => rw [scope, Set.mem_ofPred_eq, empty.1] at inside; cases inside
    | wisps => rw [scope, Set.mem_ofPred_eq, empty.2] at inside; cases inside
  · obtain ⟨t, returns, frame, outside, inside⟩ := repeat_markUnmark_of_oneWay _
      (sizedSets_subset positive) (sizedSets_cover positive) (scope_finite ids) oneWay
    exact ⟨t, returns, frame, outside, inside⟩

/-- The full loop settles the given ids whenever flags cannot travel in circles. -/
theorem recomputeIsBlocked_of_acyclic (ids : IDs) (acyclic : Acyclic s.rules.Upward) :
    ∃ t, (recomputeIsBlocked ids s).Returns t ∧ Recomputed ids s t :=
  recomputeInBatches_of_oneWay (by decide) ids (FlagRules.oneWay_of_acyclic acyclic)

/-- The full loop settles the given ids, circles or not, if every live child of
a flagged row carries the flag already. -/
theorem recomputeIsBlocked_of_inherited (ids : IDs)
    (inherited : ∀ n m, s.rules.Upward n m → m ∈ s.flags → n ∈ s.flags) :
    ∃ t, (recomputeIsBlocked ids s).Returns t ∧ Recomputed ids s t :=
  recomputeInBatches_of_oneWay (by decide) ids (FlagRules.oneWay_of_inherited inherited)

/-- The nodes of the scope that could still be flagged. -/
def unflagged (ids : IDs) (F : Set Node) : Set Node :=
  {n | n ∈ scope ids ∧ n ∉ F}

private theorem unflagged_markPass_lt {F : Set Node}
    (busy : ¬ ∀ B ∈ passSets ids, s.rules.mark B F = F) :
    (unflagged ids (s.rules.markPass (passSets ids) F)).ncard < (unflagged ids F).ncard := by
  have differ : s.rules.markPass (passSets ids) F ≠ F := fun same =>
    busy (FlagRules.quiet_of_markPass_eq _ same)
  obtain ⟨n, marked, fresh⟩ : ∃ n ∈ s.rules.markPass (passSets ids) F, n ∉ F := by
    by_contra none
    push Not at none
    exact differ (Set.Subset.antisymm none (FlagRules.subset_markPass _))
  have inside : n ∈ scope ids := by
    by_contra out
    exact fresh ((FlagRules.mem_markPass_outside fun B held member =>
      out (passSets_subset B held member)).mp marked)
  refine Set.ncard_lt_ncard ⟨fun m still => ⟨still.1, fun held => ?_⟩, fun all => ?_⟩
    ((scope_finite ids).subset fun m held => held.1)
  · exact still.2 (FlagRules.subset_markPass _ held)
  · exact (all ⟨inside, fresh⟩).2 marked

/-- Without unsupported flags either loop settles the given ids, circles or not,
and leaves no unsupported flag. -/
private theorem runUntilQuiet_of_supported (implements : Implements statement effect still)
    (pass : ∀ F, s.rules.Supported F →
      (passSets ids).foldl (fun F B => effect s.rules B F) F = s.rules.markPass (passSets ids) F)
    (silent : ∀ F B, s.rules.Supported F → (still s.rules B F ↔ s.rules.mark B F = F))
    (supported : s.rules.Supported s.flags) :
    ∃ t, (runUntilQuiet statement ids s).Returns t ∧
      Recomputed ids s t ∧ s.flags ⊆ t.flags ∧ s.rules.Supported t.flags := by
  have loop := runUntilQuiet_spec implements ids s
    (fun F => s.rules.Supported F ∧ s.flags ⊆ F ∧ ∀ n ∉ scope ids, n ∈ F ↔ n ∈ s.flags)
    (fun F => (unflagged ids F).ncard)
    ⟨supported, fun _ held => held, fun _ _ => Iff.rfl⟩ ?_
  · obtain ⟨t, result, frame, ⟨kept, grown, outside⟩, quiet⟩ := loop
    refine ⟨t, result, ⟨frame, outside, fun n inside => ⟨kept n, fun due => ?_⟩⟩, grown, kept⟩
    obtain ⟨B, held, member⟩ := passSets_cover n inside
    exact FlagRules.mark_eq_self_iff.mp ((silent t.flags B kept).mp (quiet B held)) n member due
  · rintro F ⟨kept, grown, outside⟩ busy
    rw [pass F kept]
    refine ⟨⟨kept.markPass _, grown.trans (FlagRules.subset_markPass _), fun n out => ?_⟩, ?_⟩
    · refine Iff.trans ?_ (outside n out)
      exact FlagRules.mem_markPass_outside fun B held inside => out (passSets_subset B held inside)
    · refine unflagged_markPass_lt fun all => busy fun B held => ?_
      exact (silent F B kept).mpr (all B held)

theorem recomputeIsBlocked_of_supported (ids : IDs) (supported : s.rules.Supported s.flags) :
    ∃ t, (recomputeIsBlocked ids s).Returns t ∧
      Recomputed ids s t ∧ s.flags ⊆ t.flags ∧ s.rules.Supported t.flags :=
  runUntilQuiet_of_supported markUnmarkBlocked_implements
    (fun _ kept => kept.pass_eq_markPass _)
    (fun _ _ kept => and_iff_left kept.unmark_eq) supported

theorem markIsBlocked_of_supported (ids : IDs) (supported : s.rules.Supported s.flags) :
    ∃ t, (markIsBlocked ids s).Returns t ∧
      Recomputed ids s t ∧ s.flags ⊆ t.flags ∧ s.rules.Supported t.flags :=
  runUntilQuiet_of_supported markBlocked_implements (fun _ _ => rfl) (fun _ _ _ => Iff.rfl) supported

/-- The mark-only loop finds nothing to do when the flags are correct. -/
theorem markIsBlocked_of_correct (ids : IDs) (correct : s.rules.Correct s.flags) :
    ∃ t, (markIsBlocked ids s).Returns t ∧ t.cleared = s.cleared ∧ t.flags = s.flags := by
  have quiet : ∀ B ∈ passSets ids, s.rules.mark B s.flags = s.flags := fun B _ =>
    FlagRules.mark_eq_self_iff.mpr fun n _ => (correct n).mpr
  obtain ⟨t, returns, frame, same, -⟩ := runUntilQuiet_spec markBlocked_implements ids s
    (fun F => F = s.flags) (fun _ => 0) rfl fun F same busy => absurd (same ▸ quiet) busy
  exact ⟨t, returns, frame, same⟩

end Beads
