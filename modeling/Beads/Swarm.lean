import Mathlib.Data.List.Sort
import Mathlib.Data.String.Basic
import Mathlib.Logic.Function.Basic
import Beads.Store
import Beads.Lib.CycleCheck

/-! The analysis of an epic for a swarm (`cmd/bd/swarm.go`): the dependencies among the
children of the epic, the check for cycles among them, and the waves of work that can be done
in parallel. The map of the issues is ranged over in any order. Warnings, which nothing else
depends on, are left out. -/
namespace Beads
open Lib

/-- A child of the epic, with its dependency records. -/
structure EpicChild where
  id : String
  title : String := ""
  status : Status := .open
  dependencies : List (String × DependencyType) := []

/-- `IssueNode`. Its wave is kept apart. -/
structure IssueNode where
  id : String
  title : String
  status : Status
  dependsOn : List String
  dependedOnBy : List String

/-- `ReadyFront`. -/
structure ReadyFront where
  wave : Nat
  issues : List String
  titles : List String
  deriving DecidableEq

/-- `AffectsReadyWork`. -/
def DependencyType.AffectsReadyWork (type : DependencyType) : Prop :=
  type = .blocks ∨ type = .parentChild ∨ type = .conditionalBlocks ∨ type = .waitsFor

instance (type : DependencyType) : Decidable type.AffectsReadyWork :=
  inferInstanceAs (Decidable (_ ∨ _))

/-- The nodes of an analysis. A dependency leads to another node, and both its ends record it. -/
structure SwarmGraph where
  issues : Table IssueNode.id
  inside : ∀ node ∈ issues, ∀ depID ∈ node.dependsOn, ∃ dep ∈ issues, dep.id = depID
  mirrored : ∀ node ∈ issues, ∀ dep ∈ issues, node.dependsOn.count dep.id = dep.dependedOnBy.count node.id

namespace SwarmGraph
variable (g : SwarmGraph)

/-- The keys of the map. -/
def ids : List String := g.issues.rows.map IssueNode.id

/-- `issueIsClosed`. -/
def issueIsClosed (id : String) : Bool :=
  match g.issues.find? id with
  | some node => node.status = .closed
  | none => false

def dependsOn (id : String) : List String :=
  match g.issues.find? id with
  | some node => node.dependsOn
  | none => []

def dependedOnBy (id : String) : List String :=
  match g.issues.find? id with
  | some node => node.dependedOnBy
  | none => []

/-- The check of `detectStructuralIssues`: the path on which a cycle is found. -/
def detectCycles (order : List String) : Call Empty (Option (List String)) := do
  match ← (CycleCheck.check g.issueIsClosed g.dependsOn order).outcome with
  | .error (cyclePath, _) => return some cyclePath
  | .ok _ => return none

/-- The ids that have an in-degree. -/
def Tracked (id : String) : Prop := id ∈ g.ids ∧ g.issueIsClosed id = false

instance : DecidablePred g.Tracked := fun _ => inferInstanceAs (Decidable (_ ∧ _))

/-- The blockers of an issue that are not closed, with their number of records. -/
def openBlockers (id : String) : Nat := (g.dependsOn id).countP fun depID => !g.issueIsClosed depID

/-- The next wave while it is put together. -/
structure Release where
  inDegree : String → Int
  nextWave : List String
  waveOf : String → Int

/-- A dependent of a finished issue loses one blocker. -/
def release (wave : Nat) (s : Release) (dependentID : String) : Release :=
  if g.issueIsClosed dependentID = true then s
  else if ¬ g.Tracked dependentID then s
  else
    let degree := s.inDegree dependentID - 1
    let inDegree := Function.update s.inDegree dependentID degree
    if degree = 0 then
      ⟨inDegree, s.nextWave ++ [dependentID], Function.update s.waveOf dependentID (wave + 1)⟩
    else { s with inDegree := inDegree }

/-- The state of the loop over the waves. -/
structure Fronts where
  inDegree : String → Int
  currentWave : List String
  wave : Nat := 0
  waveOf : String → Int
  readyFronts : List ReadyFront := []
  maxParallelism : Nat := 0

/-- One wave. -/
def nextFront (s : Fronts) : Except Empty (Fronts ⊕ Fronts) :=
  if s.currentWave = [] then .ok (.inr s)
  else
    let currentWave := s.currentWave.insertionSort (· ≤ ·)
    let titles := currentWave.filterMap fun id => (g.issues.find? id).map IssueNode.title
    let next :=
      (currentWave.flatMap g.dependedOnBy).foldl (g.release s.wave) ⟨s.inDegree, [], s.waveOf⟩
    .ok (.inl {
      inDegree := next.inDegree
      currentWave := next.nextWave
      wave := s.wave + 1
      waveOf := next.waveOf
      readyFronts := s.readyFronts ++ [⟨s.wave, currentWave, titles⟩]
      maxParallelism := if s.maxParallelism < currentWave.length then currentWave.length else s.maxParallelism })

/-- The first wave, in the order in which the map of the in-degrees is met. -/
def firstFront (order : List String) : Fronts :=
  let currentWave := order.filter fun id => g.issueIsClosed id = false ∧ g.openBlockers id = 0
  { inDegree := fun id => g.openBlockers id
    currentWave := currentWave
    waveOf := fun id => if id ∈ currentWave then 0 else -1 }

/-- `SwarmAnalysis`, with the wave of every node, where -1 is none. -/
structure Analysis where
  cyclePath : Option (List String)
  readyFronts : List ReadyFront := []
  waveOf : String → Int := fun _ => -1
  maxParallelism : Nat := 0
  estimatedSessions : Nat := 0

/-- `Swarmable`: there are no errors. -/
def Analysis.swarmable (a : Analysis) : Bool := a.cyclePath.isNone

/-- `detectStructuralIssues` and `computeReadyFronts`, for the orders in which they meet the
issues. -/
def analyze (checked fronted : List String) : Call Empty Analysis := do
  match ← g.detectCycles checked with
  | some cyclePath => return { cyclePath := some cyclePath }
  | none =>
    let fronts ← Call.loop g.nextFront (g.firstFront fronted)
    return {
      cyclePath := none
      readyFronts := fronts.readyFronts
      waveOf := fronts.waveOf
      maxParallelism := fronts.maxParallelism
      estimatedSessions := (g.ids.filter fun id => g.issueIsClosed id = false).length }

end SwarmGraph

/-! ## The graph of an epic -/

/-- The records of a child that stay within the children of the epic. -/
def EpicChild.blockers (epicID : String) (childIDs : List String) (child : EpicChild) :
    List String :=
  (child.dependencies.filter fun dep => ¬ (dep.1 = epicID ∧ dep.2 = .parentChild) ∧ dep.2.AffectsReadyWork ∧
    dep.1 ∈ childIDs).map Prod.fst

/-- The nodes that `analyzeEpicForSwarm` builds, each with the dependents that the other
children add to it one after the other. -/
def swarmNodes (epicID : String) (children : List EpicChild) : List IssueNode :=
  let childIDs := children.map EpicChild.id
  children.map fun child => {
    id := child.id
    title := child.title
    status := child.status
    dependsOn := child.blockers epicID childIDs
    dependedOnBy := children.flatMap fun other =>
      ((other.blockers epicID childIDs).filter (· = child.id)).map fun _ => other.id }

end Beads
