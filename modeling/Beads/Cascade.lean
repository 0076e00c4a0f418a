import Beads.Lib.Saturation
import Beads.ReplayProofs

/-! `FindAllDependentsInTx`: the traversal that resolves a cascading delete, with its
queue and with the cap where the code looks at it. It returns what
`findAllDependents` returns, up to the order, and is refused when that is. -/
namespace Beads
open Lib Relation

namespace Store
variable (s : Store)

/-- The rows of the two queries for a batch, those of `dependencies` first. -/
def dependentsOfBatch (batch : List String) : List String :=
  Plane.all.flatMap fun p => ((s.deps p).rows.filter fun d => d.target.id ∈ batch).map Dep.issueId

/-- `FindAllDependentsInTx`. -/
def findAllDependentsInTx (ids : List String) : Tx (List String) :=
  Saturation.saturate deleteBatchSize maxRecursiveResults s.dependentsOfBatch .cascadeLimit ids

/-- The second id depends on the first, through an edge of either table. -/
def Depends (id dependent : String) : Prop :=
  ∃ p, ∃ d ∈ s.deps p, d.issueId = dependent ∧ d.target.id = id

/-- The listed ids and everything that depends on one of them, directly or not. -/
def Dependents (ids : List String) : Set String := {x | ∃ id ∈ ids, ReflTransGen s.Depends id x}

variable {s} {ids : List String}

private theorem mem_dependentsOfBatch {batch : List String} {x : String} :
    x ∈ s.dependentsOfBatch batch ↔ ∃ id ∈ batch, s.Depends id x := by
  simp only [dependentsOfBatch, List.mem_flatMap, Plane.mem_all, true_and, List.mem_map,
    List.mem_filter, decide_eq_true_eq]
  constructor
  · rintro ⟨p, d, ⟨held, target⟩, source⟩
    exact ⟨_, target, p, d, held, source, rfl⟩
  · rintro ⟨id, listed, p, d, held, source, rfl⟩
    exact ⟨p, d, ⟨held, listed⟩, source⟩

/-- The sources of all edges. -/
theorem depends_known {id x : String} (edge : s.Depends id x) :
    x ∈ Plane.all.flatMap fun p => (s.deps p).rows.map Dep.issueId := by
  obtain ⟨p, d, held, rfl, -⟩ := edge
  exact List.mem_flatMap.mpr ⟨p, Plane.mem_all p, List.mem_map_of_mem held⟩

theorem saturate_dependents (s : Store) (ids : List String) :
    ∃ outcome, (s.findAllDependentsInTx ids).Ends outcome ∧
      ((outcome = .error .cascadeLimit ∧ (maxRecursiveResults : ℕ∞) < (s.Dependents ids).encard) ∨
        ∃ found, outcome = .ok found ∧ found.Nodup ∧ (∀ x, x ∈ found ↔ x ∈ s.Dependents ids) ∧
          (s.Dependents ids).encard ≤ maxRecursiveResults) :=
  Saturation.saturate_spec (by decide) (fun _ _ => mem_dependentsOfBatch) fun _ _ => depends_known

/-- The traversal ends on any tables, circles or not. It succeeds exactly when the
listed ids and everything that depends on them are at most ten thousand, and then it
returns them, each id once. -/
theorem findAllDependentsInTx_spec (s : Store) (ids : List String) :
    ∃ outcome, (s.findAllDependentsInTx ids).Ends outcome ∧
      ((∃ closure, outcome = .ok closure) ↔ (s.Dependents ids).encard ≤ 10000) ∧
      ∀ closure, outcome = .ok closure → closure.Nodup ∧ ∀ x, x ∈ closure ↔
        x ∈ s.Dependents ids := by
  obtain ⟨outcome, ends, result⟩ := s.saturate_dependents ids
  refine ⟨outcome, ends, ?_⟩
  rcases result with ⟨rfl, above⟩ | ⟨found, rfl, distinct, members, under⟩
  · refine ⟨⟨?_, fun fits => absurd fits (not_le.mpr above)⟩, fun closure refused => ?_⟩
    · rintro ⟨closure, refused⟩
      cases refused
    · cases refused
  · refine ⟨⟨fun _ => under, fun _ => ⟨found, rfl⟩⟩, fun closure ok => ?_⟩
    cases ok
    exact ⟨distinct, members⟩

/-- The queue of `findAllDependents` takes the same ids. -/
theorem mem_cascadeRun {x : String} : x ∈ (s.cascadeRun ids).taken () ↔ x ∈ s.Dependents ids := by
  obtain ⟨running, empty⟩ := s.cascadeRun_spec ids
  have child : ∀ n m : Unit × String, Worklist.Child (fun n (_ : Unit) => s.dependents n.2) n m →
      s.Depends n.2 m.2 := by
    intro n m edge
    obtain ⟨p, d, held, target, source⟩ := mem_dependents.mp edge
    exact ⟨p, d, held, source, target⟩
  constructor
  · intro taken
    obtain ⟨start, listed, path⟩ := (running.mem_taken empty ((), x)).2.2.1 taken
    exact ⟨start.2, listed, path.lift Prod.snd child⟩
  · rintro ⟨id, listed, path⟩
    induction path with
    | refl => exact (running.mem_taken empty ((), id)).1 listed
    | @tail y z path edge ih =>
      obtain ⟨p, d, held, source, target⟩ := edge
      have child := mem_dependents.mpr ⟨p, d, held, target, source⟩
      rcases (running.mem_taken empty ((), y)).2.2.2 ((), z) ih child with taken | seen
      · exact taken
      · exact (running.mem_taken empty ((), z)).1 seen

/-- The short form of the traversal has the outcome of the code's: it is refused for
the same ids, and otherwise it returns the same set. -/
theorem findAllDependents_agrees (s : Store) (ids : List String) :
    (∃ found, (s.findAllDependentsInTx ids).Returns found ∧
        ∃ closure, (s.findAllDependents ids).Returns closure ∧ ∀ x, x ∈ closure ↔ x ∈ found) ∨
      ((s.findAllDependentsInTx ids).Ends (.error .cascadeLimit) ∧
        (s.findAllDependents ids).Ends (.error .cascadeLimit)) := by
  have size : (((s.cascadeRun ids).taken ()).dedup.length : ℕ∞) = (s.Dependents ids).encard := by
    rw [← List.toFinset_card_of_nodup (List.nodup_dedup _), ← Set.encard_coe_eq_coe_finsetCard]
    congr 1
    ext x
    rw [List.coe_toFinset]
    exact List.mem_dedup.trans mem_cascadeRun
  obtain ⟨outcome, ends, result⟩ := s.saturate_dependents ids
  rcases result with ⟨rfl, above⟩ | ⟨found, rfl, -, members, under⟩
  · right
    refine ⟨ends, ?_⟩
    have above : maxRecursiveResults < ((s.cascadeRun ids).taken ()).dedup.length := by
      have above : (maxRecursiveResults : ℕ∞) < (s.Dependents ids).encard := above
      rw [← size] at above
      exact_mod_cast above
    rw [findAllDependents]
    exact (if_pos above).symm ▸ Call.ends_ofExcept
  · left
    refine ⟨found, ends, (s.cascadeRun ids).taken (), ?_,
      fun x => mem_cascadeRun.trans (members x).symm⟩
    have under : ¬ maxRecursiveResults < ((s.cascadeRun ids).taken ()).dedup.length := by
      have under : (s.Dependents ids).encard ≤ (maxRecursiveResults : ℕ∞) := under
      rw [← size] at under
      exact Nat.not_lt.mpr (by exact_mod_cast under)
    rw [findAllDependents]
    exact (if_neg under).symm ▸ Call.ends_ofExcept

end Store
end Beads
