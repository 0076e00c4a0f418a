import Beads.BlockedConsistency
import Beads.RecomputeProofs

/-! The detector and the repair see the same stale rows. Every clause of the two
templates and of the count is true or false of every row, whatever columns and
metadata keys are `NULL`, and says what `BlockReason` says; so the count is zero
exactly when every stored flag is correct, and exactly then the first pass of the
full recompute changes no row. -/
namespace Beads
open Lib Lib.Propagation

namespace Target
variable {target : Target} {p : Plane} {id : String}

theorem column_eq_some : target.column p = some id ↔ target = .node (p, id) := by
  cases target with
  | node n =>
    obtain ⟨q, key⟩ := n
    by_cases same : q = p
    · subst same
      simp [column]
    · simp [column, same]
  | external ref => simp [column]

end Target

namespace Store
variable {s t : Store} {p q : Plane} {d cd : Dep} {id : String}

/-! ## What the clauses say -/

theorem live_decides (status : Status) : status.live.Decides status.Live :=
  Ternary.Decides.of_test.and Ternary.Decides.of_test

private theorem closed_decides (status : Status) :
    (Ternary.test (status = .closed)).Decides (status = .closed) :=
  Ternary.Decides.of_test

private theorem sameSpawner_holds :
    (sameSpawner cd d).Holds ↔ ∃ n, d.target = .node n ∧ cd.target = .node n := by
  simp only [sameSpawner, Ternary.holds_or, Ternary.holds_and, Ternary.holds_isNotNull,
    Ternary.holds_eq, Target.column_eq_some]
  constructor
  · rintro (⟨-, key, child, waits⟩ | ⟨-, key, child, waits⟩)
    · exact ⟨_, waits, child⟩
    · exact ⟨_, waits, child⟩
  · rintro ⟨⟨plane, key⟩, waits, child⟩
    cases plane with
    | issues => exact Or.inl ⟨⟨key, waits⟩, key, child, waits⟩
    | wisps => exact Or.inr ⟨⟨key, waits⟩, key, child, waits⟩

/-- A clause over both pairs of tables finds the children that `HasChild` finds. -/
theorem childExists_decides {clause : Status → Ternary} {c : Status → Prop}
    (decides : ∀ status, (clause status).Decides (c status)) :
    ((s.childExists .issues d clause).or (s.childExists .wisps d clause)).Decides
      (d.target.Joins fun n => s.HasChild n c) := by
  have one : ∀ q, (s.childExists q d clause).Decides (∃ n, d.target = .node n ∧ ∃ cd ∈ s.deps q,
      cd.type = .parentChild ∧ cd.target = .node n ∧ s.RowAt (q, cd.issueId) fun child => c child.status) := by
    intro q
    refine Ternary.Decides.existsRow.congr ?_
    simp only [Ternary.holds_existsRow, Ternary.holds_and, Ternary.holds_test, sameSpawner_holds,
      (decides _).holds]
    constructor
    · rintro ⟨cd, held, child, row, same, type, ⟨n, waits, target⟩, status⟩
      exact ⟨n, waits, cd, held, type, target, child, row, same, status⟩
    · rintro ⟨n, waits, cd, held, type, target, child, row, same, status⟩
      exact ⟨cd, held, child, row, same, type, ⟨n, waits, target⟩, status⟩
  refine ((one .issues).or (one .wisps)).congr ?_
  rw [joins_iff]
  constructor
  · rintro (⟨n, waits, found⟩ | ⟨n, waits, found⟩)
    · exact ⟨n, waits, .issues, Plane.mem_all _, found⟩
    · exact ⟨n, waits, .wisps, Plane.mem_all _, found⟩
  · rintro ⟨n, waits, plane, -, found⟩
    cases plane with
    | issues => exact Or.inl ⟨n, waits, found⟩
    | wisps => exact Or.inr ⟨n, waits, found⟩

private theorem spawnerExists_decides :
    ((s.spawnerExists .issues d).or (s.spawnerExists .wisps d)).Decides (d.target.Joins s.LiveAt) := by
  have one : ∀ q, (s.spawnerExists q d).Decides
      (∃ key, d.target = .node (q, key) ∧ s.LiveAt (q, key)) := by
    intro q
    refine Ternary.Decides.existsRow.congr ?_
    simp only [Ternary.holds_and, Ternary.holds_eq, Target.column_eq_some, (live_decides _).holds]
    constructor
    · rintro ⟨sp, held, ⟨key, same, target⟩, live⟩
      exact ⟨key, target, sp, held, Option.some.inj same, live⟩
    · rintro ⟨key, target, sp, held, same, live⟩
      exact ⟨sp, held, ⟨key, congrArg some same, target⟩, live⟩
  refine ((one .issues).or (one .wisps)).congr ?_
  rw [joins_iff]
  constructor
  · rintro (⟨key, found⟩ | ⟨key, found⟩)
    · exact ⟨_, found⟩
    · exact ⟨_, found⟩
  · rintro ⟨⟨plane, key⟩, found⟩
    cases plane with
    | issues => exact Or.inl ⟨key, found⟩
    | wisps => exact Or.inr ⟨key, found⟩

/-- The gate, with its defaults for metadata keys that are not there. -/
theorem waitsForGateBlocked_decides :
    (s.waitsForGateBlocked d).Decides (d.target.Joins (s.GateBlocked d.metadata)) := by
  have gate : (Ternary.eq (some ((d.metadata.extract "gate").getD "all-children"))
      (some "any-children")).Decides d.metadata.AnyChildren := Ternary.Decides.of_test
  have also : (Ternary.eq (some ((d.metadata.extract "also_blocks").getD "false"))
      (some "true")).Decides d.metadata.AlsoBlocks := Ternary.Decides.of_test
  have opened := childExists_decides (s := s) (d := d) live_decides
  have closed := childExists_decides (s := s) (d := d) (c := (· = .closed)) closed_decides
  refine ((opened.and (gate.and closed).not).or (also.and spawnerExists_decides)).congr ?_
  cases d.target with
  | node n => exact Iff.rfl
  | external ref => simp [Target.Joins]

/-- A clause that joins the edges of a row with one table. -/
theorem edgeJoin_decides {edge : Dep → Ternary} {clause : Row → Ternary} {e : Dep → Prop}
    {c : Row → Prop} (edges : ∀ d, (edge d).Holds ↔ e d) (rows : ∀ r, (clause r).Holds ↔ c r) :
    (Ternary.existsJoin (s.deps p).rows (s.rows q).rows fun d r =>
      (Ternary.eq (some r.id) (d.target.column q)).and ((Ternary.test (d.issueId = id)).and
        ((edge d).and (clause r)))).Decides
      (s.EdgeAt (p, id) fun d => e d ∧ ∃ key, d.target = .node (q, key) ∧ s.RowAt (q, key) c) := by
  refine Ternary.Decides.existsRow.congr ?_
  simp only [Ternary.holds_existsRow, Ternary.holds_and, Ternary.holds_eq, Target.column_eq_some,
    Ternary.holds_test, edges, rows]
  constructor
  · rintro ⟨d, held, r, row, ⟨key, same, target⟩, owner, type, holds⟩
    exact ⟨d, held, owner, type, key, target, r, row, Option.some.inj same, holds⟩
  · rintro ⟨d, held, owner, type, key, target, r, row, same, holds⟩
    exact ⟨d, held, r, row, ⟨key, congrArg some same, target⟩, owner, type, holds⟩

/-- The joins with both tables together find what the typed columns name. -/
theorem edgeAt_both {e : Dep → Prop} {c : Row → Prop} {n : Node} :
    (s.EdgeAt n fun d => e d ∧ ∃ key, d.target = .node (.issues, key) ∧ s.RowAt (.issues, key) c) ∨
        (s.EdgeAt n fun d => e d ∧ ∃ key, d.target = .node (.wisps, key) ∧
          s.RowAt (.wisps, key) c) ↔
      s.EdgeAt n fun d => e d ∧ d.target.Joins fun m => s.RowAt m c := by
  simp only [joins_iff]
  constructor
  · rintro (⟨d, held, owner, type, key, found⟩ | ⟨d, held, owner, type, key, found⟩)
    · exact ⟨d, held, owner, type, _, found⟩
    · exact ⟨d, held, owner, type, _, found⟩
  · rintro ⟨d, held, owner, type, ⟨plane, key⟩, found⟩
    cases plane with
    | issues => exact Or.inl ⟨d, held, owner, type, key, found⟩
    | wisps => exact Or.inr ⟨d, held, owner, type, key, found⟩

/-- The edges of a row that block it through a row of the given table. -/
def BlockedThrough (s : Store) (n : Node) (q : Plane) : Prop :=
  s.EdgeAt n fun d => d.type.Blocking ∧ ∃ key, d.target = .node (q, key) ∧ s.LiveAt (q, key)

/-- The edges of a row onto a flagged parent in the given table. -/
def FlaggedThrough (s : Store) (n : Node) (q : Plane) : Prop :=
  s.EdgeAt n fun d => d.type = .parentChild ∧ ∃ key, d.target = .node (q, key) ∧ s.FlaggedAt (q, key)

theorem blockerExists_decides : (s.blockerExists p id q).Decides (s.BlockedThrough (p, id) q) :=
  edgeJoin_decides (e := fun d => d.type.Blocking) (c := fun r => r.status.Live)
    (fun _ => by rw [Ternary.holds_or, Ternary.holds_test, Ternary.holds_test]; rfl)
    fun r => (live_decides r.status).holds

theorem blockedParentExists_decides :
    (s.blockedParentExists p id q).Decides (s.FlaggedThrough (p, id) q) :=
  edgeJoin_decides (e := fun d => d.type = .parentChild) (c := fun r => r.isBlocked = true)
    (fun _ => Ternary.holds_test) fun _ => Ternary.holds_test

theorem gateExists_decides : (s.gateExists p id).Decides (s.HeldGate (p, id)) := by
  refine Ternary.Decides.existsRow.congr ?_
  simp only [Ternary.holds_and, Ternary.holds_test, waitsForGateBlocked_decides.holds]
  rfl

/-- The five clauses are the reasons that the recompute looks for. -/
theorem blockReason_iff {n : Node} : s.BlockReason n ↔
    s.BlockedThrough n .issues ∨ s.BlockedThrough n .wisps ∨ s.FlaggedThrough n .issues ∨
      s.FlaggedThrough n .wisps ∨ s.HeldGate n := by
  have blocker : s.LiveBlocker n ↔ s.BlockedThrough n .issues ∨ s.BlockedThrough n .wisps :=
    edgeAt_both.symm
  have parent : s.FlaggedParent n ↔ s.FlaggedThrough n .issues ∨ s.FlaggedThrough n .wisps :=
    edgeAt_both.symm
  rw [BlockReason, blocker, parent, or_assoc, or_assoc]

/-! ## The templates and the detector -/

/-- The mark template selects the rows that the mark statement changes. -/
theorem markTemplate_holds {ids : List String} {r : Row} : (s.markTemplate p ids r).Holds ↔
    r.id ∈ ids ∧ r.isBlocked = false ∧ r.status.Live ∧ s.BlockReason (p, r.id) := by
  rw [blockReason_iff, markTemplate]
  simp only [Ternary.holds_and, Ternary.holds_or, Ternary.holds_test, (live_decides _).holds,
    blockerExists_decides.holds, blockedParentExists_decides.holds, gateExists_decides.holds]

/-- The unmark template selects the rows that the unmark statement changes. -/
theorem unmarkTemplate_holds {ids : List String} {r : Row} : (s.unmarkTemplate p ids r).Holds ↔
    r.id ∈ ids ∧ r.isBlocked = true ∧
      (r.status = .closed ∨ r.status = .pinned ∨ ¬ s.BlockReason (p, r.id)) := by
  rw [blockReason_iff, unmarkTemplate]
  simp only [Ternary.holds_and, Ternary.holds_or, Ternary.holds_test,
    blockerExists_decides.not.holds,
    blockedParentExists_decides.not.holds, gateExists_decides.not.holds, not_or]

private theorem shouldBeBlockedDisjunction_decides :
    (s.shouldBeBlockedDisjunction p id).Decides (s.BlockReason (p, id)) := by
  refine ((((blockerExists_decides.or blockerExists_decides).or blockedParentExists_decides).or
    blockedParentExists_decides).or gateExists_decides).congr ?_
  rw [blockReason_iff, or_assoc, or_assoc, or_assoc]

/-- The count includes exactly the rows one of the two templates selects. -/
theorem staleIsBlocked_holds {r : Row} (held : r ∈ s.rows p) : (s.staleIsBlocked p r).Holds ↔
    (s.markTemplate p (s.allIDs p) r).Holds ∨ (s.unmarkTemplate p (s.allIDs p) r).Holds := by
  have listed : r.id ∈ s.allIDs p := List.mem_map_of_mem held
  rw [markTemplate_holds, unmarkTemplate_holds, staleIsBlocked]
  simp only [Ternary.holds_and, Ternary.holds_or, Ternary.holds_test, (live_decides _).holds,
    shouldBeBlockedDisjunction_decides.holds, shouldBeBlockedDisjunction_decides.not.holds, listed, true_and,
    or_assoc]

private theorem staleIsBlocked_iff {r : Row} (held : r ∈ s.rows p) : (s.staleIsBlocked p r).Holds ↔
    ¬ (r.isBlocked = true ↔ r.status.Live ∧ s.BlockReason (p, r.id)) := by
  have listed : r.id ∈ s.allIDs p := List.mem_map_of_mem held
  rw [staleIsBlocked_holds held, markTemplate_holds, unmarkTemplate_holds]
  simp only [listed, true_and]
  have live : r.status.Live ↔ r.status ≠ .closed ∧ r.status ≠ .pinned := Iff.rfl
  cases r.isBlocked with
  | false => simp
  | true =>
    simp only [Bool.true_eq_false, false_and, false_or, true_and, true_iff, not_and_or, live,
      not_not, or_assoc]

private theorem countIsBlockedInconsistencies_eq_zero :
    s.countIsBlockedInconsistencies = 0 ↔ s.FlagsCorrect := by
  have one : ∀ p, s.countStaleIsBlocked p = 0 ↔
      ∀ r ∈ s.rows p, r.isBlocked = true ↔ r.status.Live ∧ s.BlockReason (p, r.id) := by
    intro p
    rw [countStaleIsBlocked, List.countP_eq_zero]
    simp only [decide_eq_true_eq]
    refine forall₂_congr fun r held => ?_
    rw [staleIsBlocked_iff held, not_not]
  rw [countIsBlockedInconsistencies, Nat.add_eq_zero_iff, one, one]
  constructor
  · rintro ⟨issues, wisps⟩ plane
    cases plane with
    | issues => exact issues
    | wisps => exact wisps
  · exact fun correct => ⟨correct .issues, correct .wisps⟩

/-! ## The full recompute -/

/-- A pass over all rows changes nothing exactly when every flag is correct. -/
theorem recomputePass_quiet : (recomputePass queryBatchSize s.allIDs s).2 = 0 ↔ s.FlagsCorrect := by
  have positive : 0 < queryBatchSize := by decide
  have spec := (foldl_runBatch_spec markUnmarkBlocked_implements
    (Plane.all.flatMap fun p => (batches queryBatchSize (s.allIDs p)).map (p, ·)) s).2.2.2
  rw [recomputePass, spec, flagsCorrect_iff]
  constructor
  · intro quiet n
    have quiet : s.rules.Quiet (sizedSets queryBatchSize s.allIDs) s.flags := quiet
    by_cases listed : n ∈ scope s.allIDs
    · exact quiet.correctOn (sizedSets_cover positive) n listed
    · -- A node without a row is neither flagged nor due.
      have absent : ∀ c, ¬ s.RowAt n c := by
        rintro c ⟨r, held, same, -⟩
        exact listed (List.mem_map.mpr ⟨r, held, same⟩)
      exact ⟨fun flagged => absurd flagged (absent _),
        fun due => absurd (due_iff.mp due).1 (absent _)⟩
  · intro correct
    exact FlagRules.CorrectOn.quiet (L := scope s.allIDs) (fun n _ => correct n)
      (sizedSets_subset positive)

theorem recomputePass_same (quiet : (recomputePass queryBatchSize s.allIDs t).2 = 0) :
    (recomputePass queryBatchSize s.allIDs t).1 = t :=
  (foldl_runBatch_spec markUnmarkBlocked_implements _ t).2.2.1 quiet

/-- A recompute that starts from correct flags corrects no row. -/
theorem recomputeAllIsBlocked_returns (correct : s.FlagsCorrect) :
    s.recomputeAllIsBlocked.Returns (s, 0) := by
  rw [recomputeAllIsBlocked, recomputeIsBlockedCounting]
  split
  · exact Call.ends_ofExcept
  · have quiet := recomputePass_quiet.mpr correct
    let pass : Store × Nat → (Store × Nat) × Nat := fun state =>
      (((recomputePass queryBatchSize s.allIDs state.1).1,
        state.2 + (recomputePass queryBatchSize s.allIDs state.1).2),
        (recomputePass queryBatchSize s.allIDs state.1).2)
    have ends : (Call.repeatUntilQuiet pass (s, 0) : Tx _).Returns (pass (s, 0)).1 :=
      Call.returns_of_quiet quiet
    have same : (pass (s, 0)).1 = (s, 0) := by
      simp only [pass, recomputePass_same quiet, quiet]
    rw [same] at ends
    exact ends

/-- A recompute that ends has run its last pass without a change; every pass before
it that changed a row added to the count. -/
theorem recomputeAllIsBlocked_last {total : Nat}
    (returns : s.recomputeAllIsBlocked.Returns (t, total)) :
    (recomputePass queryBatchSize s.allIDs t).2 = 0 ∧ (total = 0 → t = s) := by
  rw [recomputeAllIsBlocked, recomputeIsBlockedCounting] at returns
  split at returns
  · next none =>
    cases Call.returns_pure.mp returns
    refine ⟨recomputePass_quiet.mpr fun p r held => ?_, fun _ => rfl⟩
    have listed : r.id ∈ s.allIDs p := List.mem_map_of_mem held
    cases p with
    | issues => rw [none.1] at listed; cases listed
    | wisps => rw [none.2] at listed; cases listed
  · obtain ⟨⟨u, count⟩, held, quiet, same⟩ := Call.last_of_repeatUntilQuiet
      (fun state : Store × Nat => state.2 = 0 → state.1 = s)
      (fun state held none => by
        have parts : state.2 = 0 ∧ (recomputePass queryBatchSize s.allIDs state.1).2 = 0 :=
          Nat.add_eq_zero_iff.mp none
        exact (recomputePass_same parts.2).trans (held parts.1))
      (fun _ => rfl) returns
    have quiet : (recomputePass queryBatchSize s.allIDs u).2 = 0 := quiet
    have store : (recomputePass queryBatchSize s.allIDs u).1 = t := congrArg Prod.fst same
    have number : count + (recomputePass queryBatchSize s.allIDs u).2 = total :=
      congrArg Prod.snd same
    rw [recomputePass_same quiet] at store
    subst store
    refine ⟨quiet, fun none => held ?_⟩
    change count = 0
    omega

/-- The count is zero exactly when the full recompute corrects no row, and exactly
when it ends with the store it started from; a row that the count includes is
flipped by the next mark statement or by the next unmark statement over all ids. -/
theorem inconsistencies_lockstep (s : Store) :
    (s.countIsBlockedInconsistencies = 0 ↔ ∃ t, s.recomputeAllIsBlocked.Returns (t, 0)) ∧
      (s.countIsBlockedInconsistencies = 0 ↔ ∃ total, s.recomputeAllIsBlocked.Returns (s, total)) ∧
      ∀ p, ∀ r ∈ s.rows p, (s.staleIsBlocked p r).Holds →
        (s.markBlocked p (s.allIDs p)).1.row? (p, r.id) = some { r with isBlocked := !r.isBlocked } ∨
          (s.unmarkBlocked p (s.allIDs p)).1.row? (p, r.id) = some { r with isBlocked := !r.isBlocked } := by
  refine ⟨?_, ?_, ?_⟩
  · rw [countIsBlockedInconsistencies_eq_zero]
    refine ⟨fun correct => ⟨s, recomputeAllIsBlocked_returns correct⟩, ?_⟩
    rintro ⟨t, returns⟩
    obtain ⟨quiet, same⟩ := recomputeAllIsBlocked_last returns
    rw [same rfl] at quiet
    exact recomputePass_quiet.mp quiet
  · rw [countIsBlockedInconsistencies_eq_zero]
    refine ⟨fun correct => ⟨0, recomputeAllIsBlocked_returns correct⟩, ?_⟩
    rintro ⟨total, returns⟩
    exact recomputePass_quiet.mp (recomputeAllIsBlocked_last returns).1
  · intro p r held stale
    rw [staleIsBlocked_holds held, markTemplate_holds, unmarkTemplate_holds] at stale
    rw [row?_eq_some, row?_eq_some]
    rcases stale with hit | hit
    · left
      refine ⟨mem_setBlocked.mpr ⟨r, held, ?_⟩, rfl⟩
      rw [if_pos hit, hit.2.1]
      rfl
    · right
      refine ⟨mem_setBlocked.mpr ⟨r, held, ?_⟩, rfl⟩
      rw [if_pos hit, hit.2.1]
      rfl

end Store
end Beads
