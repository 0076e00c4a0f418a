import Beads.Lib.Precedes
import Beads.MoleculeParallelProofs

/-! The view of a molecule in progress (`mol_current.go`). Its steps are listed by the number of
their blocks rows, fewest first. `steps_inOrder_iff` says when a step comes after the steps it
depends on: the number has to grow along the rows, or to stay the same where the steps were
listed in order before. Titles and assignees are left out. -/
namespace Beads.Molecules
open Lib Lib.Graph Relation

/-- The status of a step in the view. -/
inductive StepState where
  | done
  | current
  | ready
  | blocked
  | pending
  deriving DecidableEq

/-- `StepStatus`. -/
structure StepStatus where
  issue : Step
  status : StepState
  isCurrent : Bool
  deriving DecidableEq

/-- `MoleculeProgress`. -/
structure MoleculeProgress where
  moleculeID : String
  currentStep : Option Step
  nextStep : Option Step
  steps : List StepStatus
  completed : Nat
  total : Int
  deriving DecidableEq

namespace Subgraph
variable (g : Subgraph)

/-- The issues without the root. -/
def steps : List Step := g.issues.rows.filter (·.id ≠ g.root.id)

def stepIDs : List String := g.steps.map Step.id

/-- A step with its status. -/
def stepStatus (ready : String → Bool) (issue : Step) : StepStatus :=
  match issue.status with
  | .closed => ⟨issue, .done, false⟩
  | .inProgress => ⟨issue, .current, true⟩
  | .blocked => ⟨issue, .blocked, false⟩
  | _ => ⟨issue, if ready issue.id then .ready else .pending, false⟩

/-- `depCount[id]`: the blocks rows of a step on steps of the list. -/
def depCount (steps : List StepStatus) (id : String) : Nat :=
  g.dependencies.countP fun dep =>
    dep.type = .blocks && dep.issueID = id && steps.any (·.issue.id = dep.issueID) &&
      steps.any (·.issue.id = dep.dependsOnID)

/-- `sortStepsByDependencyOrder`, with a stable sort. -/
def sortStepsByDependencyOrder (steps : List StepStatus) : List StepStatus :=
  steps.mergeSort fun a b => g.depCount steps a.issue.id ≤ g.depCount steps b.issue.id

/-- `getMoleculeProgress`. -/
def getMoleculeProgress (order : RangeOrder) : Option MoleculeProgress := do
  let analysis ← g.analyzeMoleculeParallel order
  let ready (id : String) : Bool := analysis.steps.any fun info => info.stepID = id && info.isReady
  let steps := g.steps.map (stepStatus ready)
  let current := ((steps.filter (·.status = .current)).map (·.issue)).getLast?
  let next := ((steps.filter (·.status = .ready)).map (·.issue)).head?
  let sorted := g.sortStepsByDependencyOrder steps
  return {
    moleculeID := g.root.id
    currentStep := current
    nextStep := if current = none ∧ next = none then ((sorted.filter (·.status = .ready)).map (·.issue)).head? else next
    steps := sorted
    completed := steps.countP (·.status = .done)
    total := (g.ids.length : Int) - 1 }

/-! ## The order of the steps -/

/-- The first step has a blocks row on the second. -/
def DependsOn (x y : String) : Prop :=
  x ∈ g.stepIDs ∧ y ∈ g.stepIDs ∧ ∃ dep ∈ g.dependencies, dep.type = .blocks ∧ dep.issueID = x ∧ dep.dependsOnID = y

/-- The number of blocks rows that a step has on steps. -/
def blocksRows (x : String) : Nat :=
  g.dependencies.countP fun dep => dep.type = .blocks && dep.issueID = x && x ∈ g.stepIDs && dep.dependsOnID ∈ g.stepIDs

variable {g}

theorem nodup_stepIDs : g.stepIDs.Nodup :=
  g.issues.distinct.sublist (List.filter_sublist.map Step.id)

@[simp]
theorem stepStatus_issue (ready : String → Bool) (issue : Step) :
    (stepStatus ready issue).issue = issue := by
  rw [stepStatus]
  split <;> rfl

private theorem depCount_eq (ready : String → Bool) (id : String) :
    g.depCount (g.steps.map (stepStatus ready)) id = g.blocksRows id := by
  have listed (id : String) :
      (g.steps.map (stepStatus ready)).any (·.issue.id = id) = decide (id ∈ g.stepIDs) := by
    rw [Bool.eq_iff_iff, List.any_eq_true, decide_eq_true_eq, stepIDs]
    simp
  apply List.countP_congr
  intro dep _
  simp only [listed, Bool.and_eq_true, decide_eq_true_eq]
  constructor
  · rintro ⟨⟨⟨type, rfl⟩, left⟩, right⟩
    exact ⟨⟨⟨type, rfl⟩, left⟩, right⟩
  · rintro ⟨⟨⟨type, rfl⟩, left⟩, right⟩
    exact ⟨⟨⟨type, rfl⟩, left⟩, right⟩

/-- The ids of the listed steps are sorted by their numbers of rows. -/
theorem map_sortStepsByDependencyOrder (ready : String → Bool) :
    (g.sortStepsByDependencyOrder (g.steps.map (stepStatus ready))).map (·.issue.id) =
      g.stepIDs.mergeSort fun x y => g.blocksRows x ≤ g.blocksRows y := by
  have ids : (g.steps.map (stepStatus ready)).map (·.issue.id) = g.stepIDs := by
    simp [stepIDs, Function.comp_def]
  rw [sortStepsByDependencyOrder, ← ids]
  apply List.map_mergeSort
  intro a _ b _
  rw [depCount_eq, depCount_eq]

private theorem sortStepsByDependencyOrder_perm (ready : String → Bool) :
    ((g.sortStepsByDependencyOrder (g.steps.map (stepStatus ready))).map (·.issue)).Perm g.steps := by
  have sorted : (g.sortStepsByDependencyOrder (g.steps.map (stepStatus ready))).Perm
      (g.steps.map (stepStatus ready)) :=
    List.mergeSort_perm _ _
  simpa [Function.comp_def] using sorted.map (·.issue)

private theorem analyzeMoleculeParallel_returns (order : RangeOrder) :
    ∃ analysis, g.analyzeMoleculeParallel order = some analysis := by
  have closed (a : String) (_ : a ∈ g.ids) (b : String)
      (step : b ∈ (order.keys (.blockers a) (g.blockMaps.blockedBy a)).filter g.isOpen) : b ∈ g.ids :=
    mem_ids_of_isOpen (List.mem_filter.mp step).2
  obtain ⟨depths, run⟩ := Depths.depthsOf_returns closed (Nat.lt_succ_self g.ids.length)
  have run : g.calculateBlockingDepths order = some depths := run
  exact ⟨_, by rw [analyzeMoleculeParallel, run]; rfl⟩

/-- The view lists the steps, sorted by their numbers of rows. -/
theorem getMoleculeProgress_steps (g : Subgraph) (order : RangeOrder) :
    ∃ progress, g.getMoleculeProgress order = some progress ∧
      (progress.steps.map (·.issue)).Perm g.steps ∧
      progress.steps.map (·.issue.id) = g.stepIDs.mergeSort fun x y => g.blocksRows x ≤ g.blocksRows y := by
  obtain ⟨analysis, run⟩ := analyzeMoleculeParallel_returns (g := g) order
  refine ⟨_, by rw [getMoleculeProgress, run]; rfl, ?_, ?_⟩
  · exact sortStepsByDependencyOrder_perm _
  · exact map_sortStepsByDependencyOrder _

/-- The view lists the steps, and it lists every step after the steps it depends on exactly when
along every row the number of rows grows, or stays the same and the steps were in order. -/
theorem steps_inOrder_iff (g : Subgraph) (order : RangeOrder) :
    ∃ progress, g.getMoleculeProgress order = some progress ∧
      (progress.steps.map (·.issue)).Perm g.steps ∧
      ((∀ x y, g.DependsOn x y → Precedes (progress.steps.map (·.issue.id)) y x) ↔
        ∀ x y, g.DependsOn x y → g.blocksRows y < g.blocksRows x ∨
          (g.blocksRows y = g.blocksRows x ∧ Precedes g.stepIDs y x)) := by
  obtain ⟨progress, run, perm, sorted⟩ := getMoleculeProgress_steps g order
  refine ⟨progress, run, perm, ?_⟩
  rw [sorted]
  constructor
  · intro ordered x y depends
    exact (precedes_mergeSort_iff _ nodup_stepIDs depends.2.1 depends.1).mp (ordered x y depends)
  · intro grows x y depends
    exact (precedes_mergeSort_iff _ nodup_stepIDs depends.2.1 depends.1).mpr (grows x y depends)

/-- A step that depends on one step only, which itself depends on two. -/
def joinThenShip : Subgraph where
  root := ⟨"m", .open⟩
  issues := ⟨[⟨"m", .open⟩, ⟨"m.1", .open⟩, ⟨"m.2", .open⟩, ⟨"m.3", .open⟩, ⟨"m.4", .open⟩], by decide⟩
  dependencies := [⟨"m.3", "m.1", .blocks, ""⟩, ⟨"m.3", "m.2", .blocks, ""⟩, ⟨"m.4", "m.3", .blocks, ""⟩]

/-- The last step is listed before the one that it depends on. -/
theorem joinThenShip_listed :
    Acyclic joinThenShip.DependsOn ∧
      ∃ progress, joinThenShip.getMoleculeProgress inOrder = some progress ∧
      joinThenShip.DependsOn "m.4" "m.3" ∧ Precedes (progress.steps.map (·.issue.id)) "m.4" "m.3" ∧
      ¬ Precedes (progress.steps.map (·.issue.id)) "m.3" "m.4" := by
  have acyclic : Acyclic (fun y x => joinThenShip.DependsOn x y) := by
    have listed : joinThenShip.ListedInOrder := by decide +kernel
    apply listed.acyclic.mono
    rintro y x ⟨-, -, dep, held, type, rfl, rfl⟩
    exact ⟨dep, held, rfl, .inl ⟨.inl type, rfl⟩⟩
  obtain ⟨progress, run, -, sorted⟩ := getMoleculeProgress_steps joinThenShip inOrder
  have depends : joinThenShip.DependsOn "m.4" "m.3" :=
    ⟨by decide +kernel, by decide +kernel, ⟨"m.4", "m.3", .blocks, ""⟩, by simp [joinThenShip], rfl, rfl, rfl⟩
  have fewer : joinThenShip.blocksRows "m.4" < joinThenShip.blocksRows "m.3" := by decide +kernel
  have early : Precedes (progress.steps.map (·.issue.id)) "m.4" "m.3" := by
    rw [sorted]
    exact (precedes_mergeSort_iff _ nodup_stepIDs depends.1 depends.2.1).mpr (.inl fewer)
  have distinct : (progress.steps.map (·.issue.id)).Nodup := by
    rw [sorted]
    exact (List.mergeSort_perm _ _).nodup_iff.mpr nodup_stepIDs
  refine ⟨?_, progress, run, depends, early, early.not_swap distinct⟩
  intro a cycle
  exact acyclic a (transGen_swap.mp cycle)

end Subgraph

end Beads.Molecules
