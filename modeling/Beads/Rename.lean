import Beads.Dependencies

/-! `bulk_ops.go`: giving a row another id. The foreign keys carry the new id to the
edges of the row, in the table of its plane and wherever they refer to it; the
other typed targets that name the old id are rewritten by a statement of their own.
A target in the external column is no reference to a row and stays. -/
namespace Beads
open Lib

/-- `replaceDependencyTargetInTx`, with the cascade before it. -/
def Target.rename (p : Plane) (oldId newId : String) : Target → Target
  | .node n => if n.2 = oldId then .node (p, newId) else .node n
  | .external ref => .external ref

/-- An edge of table `q` after a row of plane `p` was renamed. -/
def Dep.rename (p : Plane) (oldId newId : String) (q : Plane) (d : Dep) : Dep :=
  { d with issueId := if q = p ∧ d.issueId = oldId then newId else d.issueId
           target := d.target.rename p oldId newId }

namespace Store
variable (s : Store)

/-- `updateIssueIDInTx` and `updateWispIDInTx`. The row is refused an id that its
plane holds already, an edge one that its source has already. -/
def updateIssueId (now : Nat) (oldId newId : String) : Tx Store :=
  let p := s.routed oldId
  let renamed := fun r : Row => if r.id = oldId then { r with id := newId, updatedAt := now } else r
  if ¬ s.Holds (p, oldId) then throw (.notFound oldId)
  else match (s.rows p).rekey? renamed with
    | none => throw (.duplicateKey newId)
    | some rows =>
      match (s.deps .issues).rekey? (Dep.rename p oldId newId .issues),
          (s.deps .wisps).rekey? (Dep.rename p oldId newId .wisps) with
      | some durable, some ephemeral =>
        pure { s with rows := Function.update s.rows p rows
                      deps := fun | .issues => durable | .wisps => ephemeral }
      | _, _ => throw (.retargetCollision newId)

end Store
end Beads
