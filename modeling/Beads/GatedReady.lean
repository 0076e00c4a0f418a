import Beads.ReadyExplain

/-! Molecules that a closed gate lets go on, in Go (`mol_ready_gated.go`, `mol_current.go`) and in
Haxe (`GatedReady.hx`). Go climbs from all steps at once, one level in each round, with a batch read
per round; Haxe follows the parents of one step at a time.

Go reads through an interface, which may fail. Its loops over maps meet the entries in an order of
their own; the order of each loop is a parameter. -/
namespace Beads.Ready
open Lib

/-- `GatedMolecule`. -/
structure GatedMolecule where
  moleculeId : String
  moleculeTitle : String
  closedGate : Issue
  readyStep : Issue
  deriving DecidableEq

/-- The comparison that molecules are sorted with. -/
def compareMolecules (left right : GatedMolecule) : Int :=
  compareStrings left.moleculeId right.moleculeId

/-- How far up a parent is looked for. -/
def maxParentDepth : Nat := 50

/-- The test for the root of a molecule; `BeadsTemplateLabel` is `template`. -/
def Issue.IsMolecule (issue : Issue) : Prop :=
  issue.issueType = "epic" ∨ issue.issueType = "molecule" ∨ "template" ∈ issue.labels

instance (issue : Issue) : Decidable issue.IsMolecule := inferInstanceAs (Decidable (_ ∨ _))

/-- The first parent-child record. -/
def firstParent (dependencies : List Dependency) : Option String :=
  (dependencies.find? (·.dependencyType = .parentChild)).map Dependency.dependsOnId

/-- Molecules under their ids. -/
abbrev MoleculeMap := Table GatedMolecule.moleculeId

/-! ## Haxe -/

namespace Haxe

/-- `parentOf`, after the loop over the candidates. -/
def parentOf (candidates : List Issue) : String → Option String :=
  candidates.foldl (fun parents issue => issue.dependencies.foldl (fun parents dependency =>
    if dependency.dependencyType = .parentChild ∧ parents issue.id = none
    then Function.update parents issue.id (some dependency.dependsOnId) else parents) parents) fun _ => none

/-- The loop of `moleculeRoot`, with the rounds that are left. -/
def climb (parents : String → Option String) : Nat → List String → String → String
  | 0, _, current => current
  | rounds + 1, visited, current =>
    match parents current with
    | none => current
    | some parent =>
      if current ∈ visited then current else climb parents rounds (current :: visited) parent

/-- `moleculeRoot`. -/
def moleculeRoot (candidates : List Issue) (id : String) : Option Issue :=
  match byId candidates (climb (parentOf candidates) maxParentDepth [] id) with
  | none => none
  | some root => if root.IsMolecule then some root else none

/-- `dependsOn`. -/
def dependsOn (issue : Issue) (targetId : String) : Bool :=
  issue.dependencies.any fun dependency => dependency.dependsOnId = targetId

/-- `hookedMolecules`: the hooked issues and their roots. -/
def hookedMolecules (candidates : List Issue) : List String :=
  (candidates.filter (·.status = .hooked)).flatMap fun issue =>
    issue.id :: ((moleculeRoot candidates issue.id).map Issue.id).toList

/-- One step behind one gate. -/
def consider (readyIssues candidates : List Issue) (gate : Issue) (result : MoleculeMap)
    (dependent : Issue) :
    MoleculeMap :=
  if ¬ readyIssues.any (·.id = dependent.id) ∨ ¬ dependsOn dependent gate.id then result
  else match moleculeRoot candidates dependent.id with
    | none => result
    | some root =>
      if root.id ∈ hookedMolecules candidates then result
      else result.insertIgnore ⟨root.id, root.title, gate, dependent⟩

/-- `discover`. -/
def discover (sorter : Sorter GatedMolecule) (readyIssues candidates : List Issue) :
    List GatedMolecule :=
  let gates := candidates.filter fun issue => issue.issueType = "gate" ∧ issue.status = .closed
  let resultByRoot : MoleculeMap :=
    gates.foldl (fun result gate => candidates.foldl (consider readyIssues candidates gate) result) .empty
  sorter.sort compareMolecules resultByRoot.rows

end Haxe

/-! ## Go -/

/-- `map[string]string`. -/
abbrev StringMap := Table (Prod.fst : String × String → String)

/-- A lookup, with the empty text for what is not there. -/
def StringMap.get (m : StringMap) (key : String) : String := ((m.find? key).map Prod.snd).getD ""

/-- The writing of entries, one after the other. -/
def StringMap.putAll (m : StringMap) (entries : List (String × String)) : StringMap :=
  entries.foldl Table.put m

/-- `molReader`, with the reads that are made here. A search has a clause for the type and one for
the status. -/
structure MolReader where
  searchIssues : Option String → Option Status → Except String (List Issue)
  getReadyWork : Except String (List Issue)
  getDependents : String → Except String (List Issue)
  getIssue : String → Except String (Option Issue)
  getIssuesByIDs : List String → Except String (List Issue)
  getDependencyRecordsForIssues : List String → Except String (String → List Dependency)

/-- The loops over maps in `findParentMolecules`. -/
inductive ClimbLoop where
  | toCheck (round : Nat)
  | advance (round : Nat)
  | unfinished
  | roots

/-- The order in which every loop over a map meets the entries. -/
structure ClimbOrder where
  entries : ClimbLoop → List (String × String) → List (String × String)
  perm : ∀ loop rows, (entries loop rows).Perm rows

/-- `current` and `rootOf`: how far up the steps have got, and where they have ended. -/
structure Climb where
  current : StringMap
  rootOf : StringMap

/-- One level up for all steps. A step whose parent is not found has reached its root. -/
def Climb.advance (entries : List (String × String)) (parentOf : String → Option String)
    (state : Climb) : Climb where
  current := StringMap.putAll .empty (entries.filterMap fun entry => (parentOf entry.2).map (entry.1, ·))
  rootOf := state.rootOf.putAll (entries.filter fun entry => parentOf entry.2 = none)

/-- The rounds of `findParentMolecules`; there is no result when a read fails. -/
def climbRounds (reader : MolReader) (order : ClimbOrder) : Nat → Climb → Option Climb
  | 0, state => some state
  | rounds + 1, state =>
    if state.current.rows.length = 0 then some state
    else
      let toCheck := ((order.entries (.toCheck rounds) state.current.rows).map Prod.snd).eraseDups
      match reader.getDependencyRecordsForIssues toCheck with
      | .error _ => none
      | .ok allDeps =>
        climbRounds reader order rounds
          (state.advance (order.entries (.advance rounds) state.current.rows) fun id => firstParent (allDeps id))

/-- `findParentMolecules`. A nil map is read as an empty one. -/
def findParentMolecules (reader : MolReader) (order : ClimbOrder) (issueIDs : List String) :
    StringMap :=
  let start : Climb := ⟨StringMap.putAll .empty (issueIDs.map fun id => (id, id)), .empty⟩
  if issueIDs.length = 0 then .empty
  else match climbRounds reader order maxParentDepth start with
    | none => .empty
    | some state =>
      let rootOf := state.rootOf.putAll (order.entries .unfinished state.current.rows)
      match reader.getIssuesByIDs ((order.entries .roots rootOf.rows).map Prod.snd).eraseDups with
      | .error _ => .empty
      | .ok rootIssues =>
        rootOf.delete fun entry => ¬ ∃ issue ∈ rootIssues, issue.id = entry.2 ∧ issue.IsMolecule

/-- The climbs of one run of `findGateReadyMolecules`. -/
structure ClimbOrders where
  hooked : ClimbOrder
  dependents : ClimbOrder

/-- `hookedMolecules`. A search that fails is not an error. -/
def hookedMolecules (reader : MolReader) (order : ClimbOrder) : List String :=
  let hookedIssues := (reader.searchIssues none (some .hooked)).toOption.getD []
  if hookedIssues.length = 0 then []
  else
    let hookedIDs := hookedIssues.map Issue.id
    hookedIDs ++ (findParentMolecules reader order hookedIDs).rows.map Prod.snd

/-- The ready issues that depend on a gate; a read that fails is passed over. -/
def readyBehind (reader : MolReader) (readyIssues : List Issue) (gate : Issue) : List Issue :=
  match reader.getDependents gate.id with
  | .error _ => []
  | .ok dependents => dependents.filter fun dependent => readyIssues.any (·.id = dependent.id)

/-- `readyDependents`. -/
def readyDependents (reader : MolReader) (closedGates readyIssues : List Issue) :
    List (Issue × Issue) :=
  closedGates.flatMap fun gate => (readyBehind reader readyIssues gate).map (gate, ·)

/-- One ready step behind one gate. -/
def addMolecule (reader : MolReader) (depMolRoots : StringMap) (hooked : List String)
    (moleculeMap : MoleculeMap) (entry : Issue × Issue) : MoleculeMap :=
  let moleculeID := depMolRoots.get entry.2.id
  if moleculeID = "" then moleculeMap
  else if moleculeID ∈ hooked then moleculeMap
  else match reader.getIssue moleculeID with
    | .error _ | .ok none => moleculeMap
    | .ok (some moleculeIssue) =>
      moleculeMap.insertIgnore ⟨moleculeID, moleculeIssue.title, entry.1, entry.2⟩

/-- `findGateReadyMolecules`. -/
def findGateReadyMolecules (reader : MolReader) (orders : ClimbOrders)
    (sorter : Sorter GatedMolecule) :
    Except String (List GatedMolecule) := do
  let closedGates ← (reader.searchIssues (some "gate") (some .closed)).mapError ("searching closed gates: " ++ ·)
  if closedGates.length = 0 then return []
  let readyIssues ← reader.getReadyWork.mapError ("getting ready work: " ++ ·)
  let hooked := hookedMolecules reader orders.hooked
  let dependents := readyDependents reader closedGates readyIssues
  let depMolRoots := findParentMolecules reader orders.dependents (dependents.map (·.2.id))
  let moleculeMap : MoleculeMap := dependents.foldl (addMolecule reader depMolRoots hooked) .empty
  return sorter.sort compareMolecules moleculeMap.rows

/-! ## What is read -/

/-- The issues of a workspace; the store gives an issue an id when it is created without one. -/
structure Workspace where
  issues : Table Issue.id
  named : ∀ issue ∈ issues, issue.id ≠ ""

namespace Workspace
variable (ws : Workspace)

/-- The dependency records of an id, in order. -/
def records (id : String) : List Dependency := ((ws.issues.find? id).map Issue.dependencies).getD []

/-- The first parent of an issue. -/
def parent (id : String) : Option String := firstParent (ws.records id)

/-- A reader of the workspace: its reads succeed, in whatever order a list comes. -/
structure Reader (readyIssues : List Issue) extends MolReader where
  searches : ∀ type status, ∃ found, searchIssues type status = .ok found ∧ ∀ issue, issue ∈ found ↔
    issue ∈ ws.issues ∧ (∀ t ∈ type, issue.issueType = t) ∧ ∀ s ∈ status, issue.status = s
  readyWork : getReadyWork = .ok readyIssues
  dependents : ∀ id, ∃ found, getDependents id = .ok found ∧ ∀ issue, issue ∈ found ↔
    issue ∈ ws.issues ∧ ∃ dependency ∈ issue.dependencies, dependency.dependsOnId = id
  issue : ∀ issue ∈ ws.issues, getIssue issue.id = .ok (some issue)
  issuesByIDs : ∀ ids, ∃ found, getIssuesByIDs ids = .ok found ∧ ∀ issue, issue ∈ found ↔
    issue ∈ ws.issues ∧ issue.id ∈ ids
  dependencyRecords : ∀ ids, ∃ allDeps, getDependencyRecordsForIssues ids = .ok allDeps ∧
    ∀ id ∈ ids, allDeps id = ws.records id

end Workspace

end Beads.Ready
