import Mathlib.Data.List.Dedup
import Mathlib.Data.List.Sort
import Mathlib.Data.String.Basic
import Beads.Lifecycle

/-! `delete.go`: deleting one row, and deleting a resolved set of rows from both
planes. Foreign keys remove the edges of a deleted row: those that leave it, in
the table of its plane, and those that point to it, except that
`dependencies.depends_on_wisp_id` has no foreign key and is cleaned up by a
statement of its own. The counts a delete reports are not modelled. -/
namespace Beads
open Lib Lib.Worklist

/-- Deleting rows of plane `p` takes the edge of table `q` along. -/
def Cascades (p : Plane) (gone : String → Prop) (q : Plane) (d : Dep) : Prop :=
  (q = p ∧ gone d.issueId) ∨ ((p = .wisps → q = .wisps) ∧ ∃ id ∈ d.target.column p, gone id)

instance (p : Plane) (gone : String → Prop) [DecidablePred gone] (q : Plane) (d : Dep) :
    Decidable (Cascades p gone q d) :=
  inferInstanceAs (Decidable (_ ∨ (_ ∧ _)))

def deleteBatchSize : Nat := 50

def maxRecursiveResults : Nat := 10000

/-- `SortedDeleteIDs`. -/
def sortedDeleteIDs (ids : List String) : List String := ids.dedup.insertionSort (· ≤ ·)

namespace Store
variable (s : Store)

/-- `DELETE FROM … WHERE id IN (…)`, with the foreign-key cascade of the rows it
removes. -/
def deleteRows (p : Plane) (ids : List String) : Store where
  rows := Function.update s.rows p ((s.rows p).delete fun r => r.id ∈ ids)
  deps q := (s.deps q).delete (Cascades p (fun id => id ∈ ids ∧ s.Holds (p, id)) q)
  coordination := s.coordination

/-- `DeleteWispFromDependenciesInTx`. -/
def deleteWispFromDependencies (id : String) : Store :=
  s.withDeps .issues ((s.deps .issues).delete fun d => d.target = .node (.wisps, id))

/-- `deleteIssueRowInTx`. -/
def deleteIssueRow (n : Node) : Tx Store :=
  if ¬ s.Holds n then throw (.notFound n.2)
  else match n.1 with
    | .wisps => pure ((s.deleteRows .wisps [n.2]).deleteWispFromDependencies n.2)
    | .issues => pure (s.deleteRows .issues [n.2])

/-- The rows of one plane a deletion names. -/
def deletedIn (p : Plane) (ids : List String) : IDs := Function.update (fun _ => []) p ids

/-- `DeleteIssueInTx`. -/
def deleteIssue (id : String) : Tx Store := do
  let n : Node := (s.routed id, id)
  let affected := s.affectedByDeletion (deletedIn n.1 [id])
  let deleted ← s.deleteIssueRow n
  recomputeIsBlocked affected deleted

/-- The sources of the edges, in both tables, whose resolved target is the id. -/
def dependents (id : String) : List String :=
  Plane.all.flatMap fun p => ((s.deps p).rows.filter fun d => d.target.id = id).map Dep.issueId

/-- `FindAllDependentsInTx`. The traversal gives up as soon as it has discovered
too many ids; whatever it discovers it still has to process, so it gives up
exactly when the closure is too large. -/
def findAllDependents (ids : List String) : Tx (List String) :=
  let closure := (Worklist.run deleteBatchSize (fun n (_ : Unit) => s.dependents n.2) [()]
    ((s.deps .issues).rows.length + (s.deps .wisps).rows.length + ids.length + 1)
    ⟨fun _ => [], ⟨fun _ => ids, fun _ => ids⟩⟩).taken ()
  if maxRecursiveResults < closure.dedup.length then throw .cascadeLimit else pure closure

/-- `ResolveDeletionSetInTx`: the named ids, under cascade with everything that
depends on them, split by plane. -/
def resolveDeletionSet (ids : List String) (cascade : Bool) : Tx IDs := do
  let all ←
    if cascade = true then do
      let closure ← s.findAllDependents ids
      pure (sortedDeleteIDs closure)
    else pure ids
  return fun p => all.filter fun id => s.routed id = p

/-- `ExternalDependentsBySourceInTx` for one id. -/
def dependentsOutside (ids : List String) (id : String) : List String :=
  sortedDeleteIDs ((s.dependents id).filter (· ∉ ids))

/-- `DeleteResolvedSetInTx`. -/
def deleteResolvedSet (set : IDs) : Tx Store :=
  if set .issues = [] ∧ set .wisps = [] then pure s
  else do
    let affected := s.affectedByDeletion set
    let deleted ← (set .wisps).foldlM (fun s id => s.deleteIssueRow (.wisps, id)) s
    recomputeIsBlocked affected
      ((batches deleteBatchSize (set .issues)).foldl (fun s batch => s.deleteRows .issues batch) deleted)

/-- `DeleteIssuesInTx`. -/
def deleteIssues (ids : List String) (cascade force dryRun : Bool) : Tx Store :=
  if ids = [] then pure s
  else do
    let set ← s.resolveDeletionSet ids cascade
    if cascade = false ∧ force = false then
      match (set .issues).find? fun id => s.dependentsOutside ids id ≠ [] with
      | some id => throw (.dependentsOutsideRequest id (s.dependentsOutside ids id))
      | none => pure ()
    if dryRun = true then return s
    s.deleteResolvedSet set

end Store
end Beads
