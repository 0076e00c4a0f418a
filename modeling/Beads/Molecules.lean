import Mathlib.Data.List.Sort
import Mathlib.Data.String.Basic
import Beads.Store
import Beads.Lib.Depths
import Beads.Lib.UnionFind
import Beads.GateMetadata

/-! The parallel analysis of a molecule, in Go (`mol_show.go`) and in Haxe (`MoleculeReady.hx`).
Both find out which steps block which, how deep the blockers of a step are stacked, and which
steps of one depth can be worked on at the same time.

Go goes through its maps in an order of its own; the order of every loop over a map is a
parameter. -/
namespace Beads.Molecules
open Lib

/-- `types.Issue`, with the fields that are read here. -/
structure Step where
  id : String
  status : Status
  deriving DecidableEq

/-- `types.Dependency`. -/
structure Dependency where
  issueID : String
  dependsOnID : String
  type : DependencyType
  metadata : String

/-- `TemplateSubgraph`. `IssueMap` is the lookup by id. -/
structure Subgraph where
  root : Step
  issues : Table Step.id
  dependencies : List Dependency

namespace Subgraph
variable (g : Subgraph)

def ids : List String := g.issues.rows.map Step.id

/-- The id is that of an issue which is not closed. -/
def isOpen (id : String) : Bool :=
  match g.issues.find? id with
  | none => false
  | some issue => issue.status ≠ .closed

def isClosed (id : String) : Bool :=
  match g.issues.find? id with
  | none => false
  | some issue => issue.status = .closed

end Subgraph

/-- `ParallelInfo`. -/
structure ParallelInfo where
  stepID : String
  status : Status
  isReady : Bool
  parallelGroup : String
  blockedBy : List String
  blocks : List String
  canParallel : List String
  deriving DecidableEq

/-- `ParallelAnalysis`. -/
structure ParallelAnalysis where
  moleculeID : String
  totalSteps : Nat
  readySteps : Nat
  parallelGroups : List (String × List String)
  steps : List ParallelInfo
  deriving DecidableEq

/-- The info of a step. -/
def ParallelAnalysis.info (analysis : ParallelAnalysis) (id : String) : Option ParallelInfo :=
  analysis.steps.find? (·.stepID = id)

/-! ## Blocking -/

/-- Lists under keys; what is not there is empty. -/
abbrev ListMap := String → List String

/-- `addToMap`, and the writing of `true` under two keys. -/
def addToMap (map : ListMap) (key value : String) : ListMap :=
  Function.update map key (if value ∈ map key then map key else map key ++ [value])

/-- `append` under a key. -/
def appendToMap (map : ListMap) (key value : String) : ListMap :=
  Function.update map key (map key ++ [value])

structure BlockMaps where
  blockedBy : ListMap
  blocks : ListMap

/-- `addBlockingEdge`. -/
def BlockMaps.addBlockingEdge (maps : BlockMaps) (issueID blockerID : String) : BlockMaps where
  blockedBy := addToMap maps.blockedBy issueID blockerID
  blocks := addToMap maps.blocks blockerID issueID

namespace Subgraph
variable (g : Subgraph)

/-- An edge in Go: the maps have keys for the issues only. -/
def recordBlocker (maps : BlockMaps) (issueID blockerID : String) : BlockMaps where
  blockedBy := if issueID ∈ g.ids then addToMap maps.blockedBy issueID blockerID else maps.blockedBy
  blocks := if blockerID ∈ g.ids then addToMap maps.blocks blockerID issueID else maps.blocks

/-- `parentChildren` in Go. -/
def parentChildren : ListMap :=
  g.dependencies.foldl (fun children dep =>
    if dep.type = .parentChild then appendToMap children dep.dependsOnID dep.issueID else children) fun _ => []

/-- A row in the loop over the dependencies. The two codes differ in how the gate is read and
how an edge is stored. -/
def processDependency (children : ListMap) (any : String → Bool)
    (add : BlockMaps → String → String → BlockMaps)
    (maps : BlockMaps) (dep : Dependency) : BlockMaps :=
  match dep.type with
  | .blocks | .conditionalBlocks => add maps dep.issueID dep.dependsOnID
  | .waitsFor =>
    if children dep.dependsOnID = [] then maps
    else if any dep.metadata && (children dep.dependsOnID).any g.isClosed then maps
    else (children dep.dependsOnID).foldl (fun maps childID =>
      if g.isOpen childID then add maps dep.issueID childID else maps) maps
  | _ => maps

/-- The blocking maps of `analyzeMoleculeParallel`. -/
def blockMaps : BlockMaps :=
  g.dependencies.foldl
    (g.processDependency g.parentChildren (fun metadata => parseWaitsForGateMetadata metadata = .anyChildren)
      g.recordBlocker)
    ⟨fun _ => [], fun _ => []⟩

end Subgraph

/-! ## Steps and groups -/

/-- The loops over maps. -/
inductive Loop where
  | blockedBy (id : String)
  | blocks (id : String)
  | blockers (id : String)
  | depths
  | groups (depth : Nat)

/-- The order in which every loop over a map meets the keys. -/
structure RangeOrder where
  keys : Loop → List String → List String
  perm : ∀ loop ids, (keys loop ids).Perm ids

def sortStrings (ids : List String) : List String := ids.insertionSort (· ≤ ·)

/-- The info of a step before groups are assigned, from the open blockers and the blocked steps
as they were collected. -/
def stepInfo (step : Step) (blockedBy blocks : List String) : ParallelInfo where
  stepID := step.id
  status := step.status
  isReady := (step.status = .open || step.status = .inProgress) && blockedBy.length = 0
  parallelGroup := ""
  blockedBy := sortStrings blockedBy
  blocks := sortStrings blocks
  canParallel := []

/-- A step joins a group. -/
def ParallelInfo.join (info : ParallelInfo) (name : String) (members : List String) :
    ParallelInfo :=
  { info with
    parallelGroup := name
    canParallel := sortStrings (info.canParallel ++ members.filter (· ≠ info.stepID)) }

/-- The groups and infos while groups are assigned. -/
structure Grouping where
  groups : List (String × List String)
  steps : List ParallelInfo

/-- A class with two members or more becomes a group. -/
def Grouping.assign (grouping : Grouping) (members : List String) : Grouping :=
  if 1 < members.length then
    let name := "group-" ++ toString (grouping.groups.length + 1)
    { groups := grouping.groups ++ [(name, members)]
      steps := grouping.steps.map fun info => if info.stepID ∈ members then info.join name members else info }
  else grouping

/-- The pairs of a list, each with the earlier element first. -/
def pairs : List String → List (String × String)
  | [] => []
  | id :: rest => rest.map (id, ·) ++ pairs rest

/-- Neither blocks the other. -/
def BlockMaps.compatible (maps : BlockMaps) (a b : String) : Bool :=
  b ∉ maps.blocks a && a ∉ maps.blocks b && b ∉ maps.blockedBy a && a ∉ maps.blockedBy b

/-- The classes of the steps at one depth: compatible pairs are merged one after the other. -/
def mergeCompatible (maps : BlockMaps) (merge : Forest String → String → String → Forest String)
    (ids : List String) :
    Forest String :=
  (pairs ids).foldl (fun f pair => if maps.compatible pair.1 pair.2 then merge f pair.1 pair.2 else f)
    (.discrete String)

/-- The analysis from the infos of the steps and the classes in the order in which they are gone
through. -/
def Subgraph.report (g : Subgraph) (infos : List ParallelInfo) (classes : List (List String)) :
    ParallelAnalysis :=
  let grouping := classes.foldl Grouping.assign ⟨[], infos⟩
  { moleculeID := g.root.id
    totalSteps := g.ids.length
    readySteps := infos.countP (·.isReady)
    parallelGroups := grouping.groups
    steps := grouping.steps }

/-! ## Go -/

namespace Subgraph
variable (g : Subgraph) (order : RangeOrder)

/-- The infos before groups are assigned. -/
def infos : List ParallelInfo :=
  g.issues.rows.map fun issue => stepInfo issue
    ((order.keys (.blockedBy issue.id) (g.blockMaps.blockedBy issue.id)).filter g.isOpen)
    (order.keys (.blocks issue.id) (g.blockMaps.blocks issue.id))

/-- `calculateBlockingDepths`. -/
def calculateBlockingDepths : Option (List (String × Int)) :=
  Depths.depthsOf (fun id => (order.keys (.blockers id) (g.blockMaps.blockedBy id)).filter g.isOpen) false
    (g.ids.length + 1) g.ids

/-- `depthGroups[depth]`. -/
def stepsAtDepth (depths : List (String × Int)) (depth : Nat) : List String :=
  (order.keys .depths (depths.map Prod.fst)).filter fun id => depths.lookup id = some (depth : Int)

/-- `groups`: every step under the root of its class. The forest changes with each lookup. -/
def collectGroups (forest : Forest String) (ids : List String) : ListMap :=
  (ids.foldl (fun state id =>
    let found := state.1.find id
    (found.2, appendToMap state.2 found.1 id)) (forest, (fun _ => [] : ListMap))).2

/-- The classes at a depth, in the order in which they are gone through. -/
def classesAt (depths : List (String × Int)) (depth : Nat) : List (List String) :=
  let ids := stepsAtDepth order depths depth
  let groups := collectGroups (mergeCompatible g.blockMaps Forest.union ids) ids
  (order.keys (.groups depth) (ids.filter (groups · ≠ []))).map groups

/-- `analyzeMoleculeParallel`. -/
def analyzeMoleculeParallel : Option ParallelAnalysis := do
  let depths ← g.calculateBlockingDepths order
  return g.report (g.infos order) ((List.range (g.ids.length + 1)).flatMap (g.classesAt order depths))

end Subgraph

/-! ## Haxe -/

namespace Haxe
variable (g : Subgraph)

/-- Both ends of an edge are steps. -/
def bothExist (dep : Dependency) : Bool := dep.issueID ∈ g.ids && dep.dependsOnID ∈ g.ids

def parentChildren : ListMap :=
  g.dependencies.foldl (fun children dep =>
    if dep.type = .parentChild && bothExist g dep then addToMap children dep.dependsOnID dep.issueID
    else children) fun _ => []

/-- The blocking maps of `analyze`. -/
def blockMaps : BlockMaps :=
  g.dependencies.foldl (fun maps dep =>
    if bothExist g dep then
      g.processDependency (parentChildren g)
        (fun metadata => rawTopLevelStringEquals metadata "gate".toList anyChildren) BlockMaps.addBlockingEdge maps dep
    else maps) ⟨fun _ => [], fun _ => []⟩

/-- `calculateDepths`. -/
def calculateDepths : Option (List (String × Int)) :=
  Depths.depthsOf (fun id => ((blockMaps g).blockedBy id).filter g.isOpen) true (g.ids.length + 1) g.ids

/-- The classes of one round of `assignParallelGroups`. -/
def classesAt (depths : List (String × Int)) (depth : Nat) : List (List String) :=
  let atDepth := g.ids.filter fun id => depths.lookup id = some (depth : Int)
  let forest := mergeCompatible (blockMaps g) Forest.join atDepth
  let grouped := atDepth.foldl (fun grouped id => addToMap grouped (forest.root id) id) fun _ => []
  (atDepth.filter (grouped · ≠ [])).map grouped

/-- The infos before groups are assigned. -/
def infos : List ParallelInfo :=
  g.issues.rows.map fun step =>
    stepInfo step (((blockMaps g).blockedBy step.id).filter g.isOpen) ((blockMaps g).blocks step.id)

/-- `MoleculeReady.analyze`. -/
def analyze : Option ParallelAnalysis := do
  let depths ← calculateDepths g
  return g.report (infos g) ((List.range (g.ids.length + 1)).flatMap (classesAt g depths))

end Haxe
end Beads.Molecules
