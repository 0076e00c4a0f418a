import Mathlib.Data.List.Dedup
import Mathlib.Logic.Function.Basic
import Beads.Swarm
import Beads.Lib.Revisit

/-! The order of the rows of a chunked import (`import_shared.go`): the graph of the readiness
edges within the batch and of the chains of duplicate ids, and the emission of the rows along it.
When no row is free, a row on a cycle is emitted before the rows it waits for. Rows are known by
their position in the file. -/
namespace Beads.Import
open Lib

/-- A dependency record of a row. -/
structure Dependency where
  dependsOnID : String
  type : DependencyType
deriving DecidableEq

/-- What the order reads of a row. A dependency of a row may be nil. -/
structure ImportRow where
  id : String
  dependencies : List (Option Dependency)
deriving DecidableEq

/-- `importOrderGraph`. -/
structure ImportOrderGraph where
  dependents : Nat → List Nat
  blockers : Nat → List Nat
  indegree : Nat → Int

/-- `indexImportIssuesByID`: the positions under an id, rows without an id being skipped. -/
def indexImportIssuesByID (issues : List ImportRow) (id : String) : List Nat :=
  (List.range issues.length).filter fun i => issues[i]?.any fun issue => issue.id ≠ "" ∧ issue.id = id

/-- `parentChildChildrenBySpawner`: a row is listed for each of its records. -/
def parentChildChildrenBySpawner (issues : List ImportRow) (id : String) : List Nat :=
  (List.range issues.length).flatMap fun i =>
    ((issues[i]?.elim [] ImportRow.dependencies).filter fun dep =>
      dep.any fun dep => dep.type = .parentChild ∧ dep.dependsOnID ≠ "" ∧ dep.dependsOnID = id).map fun _ => i

namespace ImportOrderGraph

/-- A graph without edges. -/
def empty : ImportOrderGraph := ⟨fun _ => [], fun _ => [], fun _ => 0⟩

def addEdge (g : ImportOrderGraph) (target dependent : Nat) : ImportOrderGraph where
  dependents := Function.update g.dependents target (g.dependents target ++ [dependent])
  blockers := Function.update g.blockers dependent (g.blockers dependent ++ [target])
  indegree := Function.update g.indegree dependent (g.indegree dependent + 1)

def addEdgesBefore (g : ImportOrderGraph) (dependent : Nat) (targets : List Nat) :
    ImportOrderGraph :=
  targets.foldl (fun g target => if target ≠ dependent then g.addEdge target dependent else g) g

def addRowReadinessEdges (g : ImportOrderGraph) (i : Nat) (issue : ImportRow)
    (indicesByID childrenBySpawnerID : String → List Nat) : ImportOrderGraph :=
  issue.dependencies.foldl (fun g dep =>
    match dep with
    | none => g
    | some dep =>
      if dep.dependsOnID = "" ∨ ¬ dep.type.AffectsReadyWork then g
      else
        let g := g.addEdgesBefore i (indicesByID dep.dependsOnID)
        if dep.type = .waitsFor then g.addEdgesBefore i (childrenBySpawnerID dep.dependsOnID) else g) g

end ImportOrderGraph

private theorem mem_ids (issues : List ImportRow) (id : String) :
    id ∈ ((issues.map ImportRow.id).filter (· ≠ "")).dedup ↔
      indexImportIssuesByID issues id ≠ [] := by
  rw [List.mem_dedup, List.mem_filter, List.mem_map, decide_eq_true_eq]
  constructor
  · rintro ⟨⟨row, held, rfl⟩, named⟩
    obtain ⟨i, listed⟩ := List.mem_iff_getElem?.mp held
    apply List.ne_nil_of_mem (a := i)
    rw [indexImportIssuesByID, List.mem_filter, List.mem_range, listed]
    exact ⟨(List.getElem?_eq_some_iff.mp listed).1, by simpa using named⟩
  · intro indexed
    obtain ⟨i, held⟩ := List.exists_mem_of_ne_nil _ indexed
    rw [indexImportIssuesByID, List.mem_filter, Option.any_eq_true] at held
    obtain ⟨-, row, listed, matches_⟩ := held
    obtain ⟨named, rfl⟩ := of_decide_eq_true matches_
    exact ⟨⟨row, List.mem_of_getElem? listed, rfl⟩, named⟩

/-- An order in which the map of the ids is ranged over. -/
structure KeyOrder (issues : List ImportRow) where
  keys : List String
  distinct : keys.Nodup
  complete : ∀ id, id ∈ keys ↔ indexImportIssuesByID issues id ≠ []

/-- The ids in an order of their own. -/
def KeyOrder.ofIDs (issues : List ImportRow) : KeyOrder issues where
  keys := ((issues.map ImportRow.id).filter (· ≠ "")).dedup
  distinct := List.nodup_dedup _
  complete := mem_ids issues

/-- The edges of a chain of positions. -/
def addChain (g : ImportOrderGraph) (indices : List Nat) : ImportOrderGraph :=
  (indices.zip indices.tail).foldl (fun g pair => g.addEdge pair.1 pair.2) g

/-- `buildImportOrderGraph`. -/
def buildImportOrderGraph (issues : List ImportRow) (order : KeyOrder issues) : ImportOrderGraph :=
  let g := issues.zipIdx.foldl (fun g (issue, i) =>
    g.addRowReadinessEdges i issue (indexImportIssuesByID issues) (parentChildChildrenBySpawner issues)) .empty
  order.keys.foldl (fun g id => addChain g (indexImportIssuesByID issues id)) g

/-! ## Emission -/

/-- The variables of the loop. The rows that have been emitted are listed by position. -/
structure Progress where
  indegree : Nat → Int
  emitted : Nat → Bool
  queue : List Nat
  ordered : List Nat

namespace ImportOrderGraph

/-- The blocker from which `cycleParticipant` goes on. -/
def nextBlocker (g : ImportOrderGraph) (emitted : Nat → Bool) (v : Nat) : Option Nat :=
  (g.blockers v).find? fun b => !emitted b

/-- `cycleParticipant`. Every turn of the walk sees another row, so the number of rows and one
more turn are fuel enough. -/
def cycleParticipant (g : ImportOrderGraph) (n start : Nat) (emitted : Nat → Bool) : Option Nat :=
  revisit (g.nextBlocker emitted) (n + 1) [] start

/-- `nextCycleParticipant`. -/
def nextCycleParticipant (g : ImportOrderGraph) (n : Nat) (emitted : Nat → Bool) : Option Nat :=
  g.cycleParticipant n ((List.range n).findIdx fun i => !emitted i) emitted

def release (g : ImportOrderGraph) (i : Nat) (indegree : Nat → Int) (emitted : Nat → Bool)
    (queue : List Nat) : (Nat → Int) × List Nat :=
  (g.dependents i).foldl (fun (indegree, queue) j =>
    let indegree := Function.update indegree j (indegree j - 1)
    (indegree, if indegree j = 0 ∧ ¬ emitted j then queue ++ [j] else queue)) (indegree, queue)

/-- What a turn of the loop does with the row at the head of the queue. -/
def take (g : ImportOrderGraph) (s : Progress) (i : Nat) (queue : List Nat) : Progress :=
  if s.emitted i then { s with queue := queue }
  else
    let emitted := Function.update s.emitted i true
    let released := g.release i s.indegree emitted queue
    { indegree := released.1, emitted := emitted, queue := released.2, ordered := s.ordered ++ [i] }

/-- A turn of the loop of `topologicalFileOrder`. -/
def turn (g : ImportOrderGraph) (n : Nat) (s : Progress) : Option Progress :=
  match s.queue with
  | i :: queue => some (g.take s i queue)
  | [] => (g.nextCycleParticipant n s.emitted).map fun i => g.take s i []

def loop (g : ImportOrderGraph) (n : Nat) : Nat → Progress → Option Progress
  | 0, s => if s.ordered.length < n then none else some s
  | fuel + 1, s => if s.ordered.length < n then g.turn n s >>= g.loop n fuel else some s

/-- The variables before the loop. -/
def start (g : ImportOrderGraph) (n : Nat) : Progress where
  indegree := g.indegree
  emitted := fun _ => false
  queue := (List.range n).filter fun i => g.indegree i = 0
  ordered := []

/-- `topologicalFileOrder`, as positions. Every turn emits a row. -/
def topologicalFileOrder (g : ImportOrderGraph) (n : Nat) : Option (List Nat) :=
  (g.loop n n (g.start n)).map Progress.ordered

end ImportOrderGraph

/-- The positions of the rows in the order of the import. -/
def importOrder (issues : List ImportRow) (order : KeyOrder issues) : Option (List Nat) :=
  if issues.length < 2 then some (List.range issues.length)
  else (buildImportOrderGraph issues order).topologicalFileOrder issues.length

/-- `orderImportIssuesForChunking`. -/
def orderImportIssuesForChunking (issues : List ImportRow) (order : KeyOrder issues) :
    Option (List ImportRow) :=
  (importOrder issues order).map fun positions => positions.filterMap fun i => issues[i]?

namespace ImportOrderGraph

/-- The states that the loop of `topologicalFileOrder` goes through. -/
inductive Reached (g : ImportOrderGraph) (n : Nat) : Progress → Prop
  | start : Reached g n (g.start n)
  | turn {s s' : Progress} (before : Reached g n s) (more : s.ordered.length < n) (step : g.turn n s = some s') :
      Reached g n s'

end ImportOrderGraph

/-! ## What the order is for -/

/-- A readiness record of a row. -/
def Readiness (issues : List ImportRow) (u : Nat) (dep : Dependency) : Prop :=
  ∃ row, issues[u]? = some row ∧ some dep ∈ row.dependencies ∧ dep.dependsOnID ≠ "" ∧ dep.type.AffectsReadyWork

/-- The two rows have the same id, and the first stands before the second. -/
def Duplicate (issues : List ImportRow) (t u : Nat) : Prop :=
  t < u ∧ ∃ row row', issues[t]? = some row ∧ issues[u]? = some row' ∧ row.id = row'.id ∧ row.id ≠ ""

/-- The ordering graph: a row points at the rows that its readiness records name, for a record of
waiting also at the children of the spawner, and at the row before it under its own id. -/
inductive Points (issues : List ImportRow) : Nat → Nat → Prop
  | named {u t : Nat} {dep : Dependency} {row : ImportRow} (record : Readiness issues u dep) (other : t ≠ u)
      (listed : issues[t]? = some row) (target : row.id = dep.dependsOnID) : Points issues u t
  | child {u t : Nat} {dep dep' : Dependency} {row : ImportRow} (record : Readiness issues u dep) (other : t ≠ u)
      (waits : dep.type = .waitsFor) (listed : issues[t]? = some row) (held : some dep' ∈ row.dependencies)
      (type : dep'.type = .parentChild) (target : dep'.dependsOnID = dep.dependsOnID) : Points issues u t
  | chained {u t : Nat} (twins : Duplicate issues t u) (last : ∀ m, t < m → ¬ Duplicate issues m u) :
      Points issues u t

/-- The row lies on a cycle of the ordering graph. -/
def OnCycle (issues : List ImportRow) (u : Nat) : Prop := Relation.TransGen (Points issues) u u

/-- Of two rows with one id, the later lies on no cycle or the earlier leads to none. -/
def ChainsOffCycles (issues : List ImportRow) : Prop :=
  ∀ t u, Duplicate issues t u → OnCycle issues u → ∀ c, Relation.ReflTransGen (Points issues) t c → ¬ OnCycle issues c

end Beads.Import
