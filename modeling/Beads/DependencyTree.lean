import Beads.Lib.DepthLimit
import Beads.Store

/-! `dependency_tree.go`: the flattened dependency tree. The traversal is depth-first
with one set of visited ids for the whole tree, and it goes no deeper than a limit. An
issue that is first met along a long path is shown there, and what lies below it is
cut off at the limit, even when a shorter path leads to it too. -/
namespace Beads
open Lib

/-- `types.TreeNode`. -/
structure TreeNode where
  issue : Row
  depth : Nat
  parentID : String
  edgeFromParent : Option DependencyType
  deriving DecidableEq

namespace DependencyType

/-- `types.DepRelatesTo`. -/
def relatesTo : DependencyType := .other "relates-to"

/-- `isDependencyTreeEdge`. -/
def IsDependencyTreeEdge (type : DependencyType) : Prop := type ≠ relatesTo

instance (type : DependencyType) : Decidable type.IsDependencyTreeEdge :=
  inferInstanceAs (Decidable (type ≠ relatesTo))

end DependencyType

namespace Store
variable (s : Store)

/-- `GetIssueInTx`. -/
def getIssue (id : String) : Option Row := (s.row? (.issues, id)).or (s.row? (.wisps, id))

/-- `GetDependenciesWithMetadataInTx`, and in reverse `GetDependentsWithMetadataInTx`:
the other ends of the edges, in both tables, that are issues. -/
def relatedWithMetadata (reverse : Bool) (id : String) : List (String × DependencyType) :=
  (Plane.all.flatMap fun p => (s.deps p).rows.filterMap fun d =>
    if reverse = true then if d.target.id = id then some (d.issueId, d.type) else none
    else if d.issueId = id then some (d.target.id, d.type) else none).filter fun rel =>
      (s.getIssue rel.1).isSome

/-- `buildDependencyTreeInTx`, with the depth that is left below the limit. Returns the
visited ids along with the nodes. -/
def buildDependencyTree (reverse : Bool) :
    Nat → Nat → String → String → Option DependencyType → List String →
    Except Err (List TreeNode × List String)
  | 0, _, _, _, _, visited => .ok ([], visited)
  | left + 1, depth, issueID, parentID, edgeFromParent, visited =>
    if issueID ∈ visited then .ok ([], visited)
    else match s.getIssue issueID with
      | none => .error (.notFound issueID)
      | some issue =>
        ((s.relatedWithMetadata reverse issueID).filter fun rel => rel.2.IsDependencyTreeEdge).foldlM
          (fun sofar rel => do
            let children ← buildDependencyTree reverse left (depth + 1) rel.1 issueID (some rel.2) sofar.2
            return (sofar.1 ++ children.1, children.2))
          ([⟨issue, depth, parentID, edgeFromParent⟩], issueID :: visited)

/-- `GetDependencyTreeInTx`. -/
def getDependencyTree (issueID : String) (maxDepth : Int) (reverse : Bool) :
    Except Err (List TreeNode) := do
  let tree ← s.buildDependencyTree reverse maxDepth.toNat 0 issueID "" none []
  return tree.1

/-- The issues that the tree goes on to from an issue, in the order in which it does. -/
def treeNeighbors (reverse : Bool) (id : String) : List String :=
  ((s.relatedWithMetadata reverse id).filter fun rel => rel.2.IsDependencyTreeEdge).map Prod.fst

end Store
end Beads
