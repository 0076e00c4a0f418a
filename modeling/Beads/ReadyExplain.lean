import Beads.Cycles
import Beads.Lib.Sorting

/-! `ReadyExplain.hx`: what `ready --explain` says of the issues that are ready, of those that are
blocked, and of the cycles of blocking dependencies. The cycles are found by the walk of
`cycle_report.go`, with a graph of their own and written down differently. -/
namespace Beads.Ready
open Lib

/-- `IssueListDependency`, with the fields that are read here. -/
structure Dependency where
  issueId : String
  dependsOnId : String
  dependencyType : DependencyType
  deriving DecidableEq

/-- `IssueListItem`, with the fields that are read here. -/
structure Issue where
  id : String
  title : String
  status : Status
  priority : Int
  issueType : String
  labels : List String
  dependencies : List Dependency
  dependencyCount : Int
  dependentCount : Int
  blockedBy : List String
  deriving DecidableEq

/-- `ReadyExplainItem`. -/
structure ReadyExplainItem where
  issue : Issue
  reason : String
  resolvedBlockers : Option (List String)
  dependencyCount : Int
  dependentCount : Int
  parent : Option String

/-- `ReadyBlockerInfo`. A blocker that is not known has no status. -/
structure ReadyBlockerInfo where
  id : String
  title : String
  status : Option Status
  priority : Int

/-- `BlockedExplainItem`. -/
structure BlockedExplainItem where
  issue : Issue
  blockedBy : List ReadyBlockerInfo
  blockedByCount : Nat

/-- `ReadyExplanation`. -/
structure ReadyExplanation where
  ready : List ReadyExplainItem
  blocked : List BlockedExplainItem
  cycles : List (List String)

/-! ## Ready and blocked issues -/

/-- The loop over the dependencies of a ready issue: its parent and its blockers. -/
def resolve (dependencies : List Dependency) : Option String × List String :=
  dependencies.foldl (fun (parent, resolved) dependency => match dependency.dependencyType with
    | .blocks | .conditionalBlocks | .waitsFor => (parent, resolved ++ [dependency.dependsOnId])
    | .parentChild =>
      if parent = none then (some dependency.dependsOnId, resolved) else (parent, resolved)
    | .other _ => (parent, resolved)) (none, [])

def explainReady (issue : Issue) : ReadyExplainItem :=
  let (parent, resolved) := resolve issue.dependencies
  { issue, parent
    reason := if resolved.length = 0 then "no blocking dependencies"
      else toString resolved.length ++ " blocker(s) resolved"
    resolvedBlockers := if resolved.length = 0 then none else some resolved
    dependencyCount := issue.dependencyCount
    dependentCount := issue.dependentCount }

/-- `byId.get`; a later candidate replaces an earlier one of the same id. -/
def byId (candidates : List Issue) (id : String) : Option Issue :=
  candidates.reverse.find? (·.id = id)

def blockerInfo (candidates : List Issue) (id : String) : ReadyBlockerInfo :=
  match byId candidates id with
  | none => ⟨id, "", none, 0⟩
  | some blocker => ⟨id, blocker.title, some blocker.status, blocker.priority⟩

def explainBlocked (candidates : List Issue) : List BlockedExplainItem :=
  (candidates.filter fun issue => issue.blockedBy.length ≠ 0).map fun issue =>
    ⟨issue, issue.blockedBy.map (blockerInfo candidates), issue.blockedBy.length⟩

/-! ## Cycles -/

/-- `compareStrings`. -/
def compareStrings (left right : String) : Int := threeWay left right

/-- The blocking dependencies of the issues, in order. -/
def blocking (issues : List Issue) : List Dependency :=
  (issues.flatMap Issue.dependencies).filter fun dependency => dependency.dependencyType.Blocking

/-- Put an edge into a graph; `add` extends the list of its source by its target. -/
def link (add : List String → String → List String) (graph : AdjacencyMap)
    (dependency : Dependency) :
    AdjacencyMap :=
  graph.put (dependency.issueId, add (graph.neighbors dependency.issueId) dependency.dependsOnId)

def collect (add : List String → String → List String) (dependencies : List Dependency) :
    AdjacencyMap :=
  dependencies.foldl (link add) .empty

/-- `addEdge`: a target that is there is not added again. -/
def dependencyGraph (issues : List Issue) : AdjacencyMap :=
  collect (fun targets target => if target ∈ targets then targets else targets ++ [target]) (blocking issues)

/-- `AppendBlockingGraphInTx`, for the same dependencies. -/
def blockingGraph (issues : List Issue) : AdjacencyMap :=
  collect (fun targets target => targets ++ [target]) (blocking issues)

/-- `Array.sort`, for each type that is sorted. -/
structure Sorters where
  ids : Sorter String
  cycles : Sorter (List String)

/-- What cycles are compared by. -/
def cycleKey (cycle : List String) : String := "\x00".intercalate cycle

def compareCycles (left right : List String) : Int :=
  compareStrings (cycleKey left) (cycleKey right)

/-- `detectCycles`. -/
def detectCycles (sorters : Sorters) (issues : List Issue) : Tx (List (List String)) := do
  let graph := dependencyGraph issues
  let nodes := sorters.ids.sort compareStrings (graph.rows.map Prod.fst)
  let neighbors node := sorters.ids.sort compareStrings (graph.neighbors node)
  let cycles ← DepthFirst.enumerate neighbors (fun cycle => cycle) nodes
  return sorters.cycles.sort compareCycles cycles

/-- `build`. -/
def build (sorters : Sorters) (readyIssues candidates : List Issue) : Tx ReadyExplanation := do
  let cycles ← detectCycles sorters candidates
  return ⟨readyIssues.map explainReady, explainBlocked candidates, cycles⟩

end Beads.Ready
