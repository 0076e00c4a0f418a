import Beads.Lib.Ancestry
import Beads.DependencyTree
import Beads.Search

/-! `tree_walk.go`: the tree walk that is pruned by a status. A node survives if it
carries the status or a node below it does. A walk in both directions is two walks,
each of which is pruned by itself before they are put together. -/
namespace Beads
open Lib

/-- `issueops.TreeDirection`; the empty direction is down. -/
inductive TreeDirection where
  | down
  | up
  | both
  | other (text : String)
  deriving DecidableEq

/-- `issueops.WalkTreeRequest`. The empty status is none. -/
structure WalkTreeRequest where
  rootID : String
  direction : TreeDirection := .other ""
  maxDepth : Int
  status : Option Status := none
  maxRows : Int := 0
  maxRowsSource : String := ""

/-- What a walk is refused with. -/
inductive WalkTreeError where
  | validation (message : String)
  | store (err : Err)
  | tooManyRows (err : ErrTooManyRows)
  deriving DecidableEq

namespace WalkTreeRequest

/-- `ValidateWalkTreeRequest`. -/
def validate (req : WalkTreeRequest) : Except WalkTreeError TreeDirection :=
  if req.rootID = "" then throw (.validation "root id must not be empty")
  else match if req.direction = .other "" then .down else req.direction with
    | .other text =>
      throw (.validation ("direction " ++ text.quote ++ " must be one of \"down\", \"up\", \"both\""))
    | direction =>
      if req.maxDepth < 1 then throw (.validation ("max depth must be at least 1, got " ++ toString req.maxDepth))
      else if req.maxRows < 0 then
        throw (.validation ("max rows must not be negative, got " ++ toString req.maxRows))
      else return direction

end WalkTreeRequest

/-! ## Pruning -/

/-- A walk in progress. -/
abbrev WalkTx := Call WalkTreeError

/-- The map from a node to its parent that `PruneTreeByStatus` builds; of two entries
for one id the later one is kept. -/
def parentOf (nodes : List TreeNode) (id : String) : Option String :=
  ((nodes.filter fun n => n.issue.id = id ∧ n.parentID ≠ "" ∧ n.parentID ≠ n.issue.id).getLast?).map
    TreeNode.parentID

/-- `PruneTreeByStatus`. -/
def pruneTreeByStatus (nodes : List TreeNode) (status : Status) : WalkTx (List TreeNode) := do
  let keep ← Ancestry.keepAll (parentOf nodes)
    ((nodes.filter fun n => n.issue.status = status).map fun n => n.issue.id)
  return nodes.filter fun n => n.issue.id ∈ keep

/-- `MergeBidirectionalTree`: the root is taken from the down walk. -/
def mergeBidirectionalTree (downTree upTree : List TreeNode) (rootID : String) : List TreeNode :=
  (upTree.filter fun n => n.issue.id ≠ rootID) ++ downTree

/-- The root of the down walk is put back into a down half that has lost it, for an up
half that has survived. -/
def restoreRoot (downTree down up : List TreeNode) (rootID : String) : List TreeNode :=
  if up = [] ∨ ∃ n ∈ down, n.issue.id = rootID then down
  else (downTree.find? fun n => n.issue.id = rootID).toList ++ down

/-- `pruneBidirectionalByStatus`. -/
def pruneBidirectionalByStatus (downTree upTree : List TreeNode) (rootID : String)
    (status : Status) :
    WalkTx (List TreeNode × List TreeNode) := do
  let down ← pruneTreeByStatus downTree status
  let up ← pruneTreeByStatus upTree status
  return (restoreRoot downTree down up rootID, up)

namespace Store
variable (s : Store)

/-- `GetDependencyTreeInTx`, as a part of a walk. -/
def walkTree (rootID : String) (maxDepth : Int) (reverse : Bool) : WalkTx (List TreeNode) :=
  .ofExcept ((s.getDependencyTree rootID maxDepth reverse).mapError .store)

/-- `walkTreeDirectionsInTx`. -/
def walkTreeDirections (rootID : String) (maxDepth : Int) (direction : TreeDirection)
    (status : Option Status) :
    WalkTx (List TreeNode) :=
  if direction ≠ .both then do
    let nodes ← s.walkTree rootID maxDepth (direction = .up)
    match status with
    | some status => pruneTreeByStatus nodes status
    | none => return nodes
  else do
    let downTree ← s.walkTree rootID maxDepth false
    let upTree ← s.walkTree rootID maxDepth true
    match status with
    | some status =>
      let halves ← pruneBidirectionalByStatus downTree upTree rootID status
      return mergeBidirectionalTree halves.1 halves.2 rootID
    | none => return mergeBidirectionalTree downTree upTree rootID

/-- `EnforceMaxRowsCap`, last, on the nodes of the answer. -/
def capNodes (req : WalkTreeRequest) (nodes : List TreeNode) :
    Except WalkTreeError (List TreeNode) := do
  (enforceMaxRowsCap nodes.length req.maxRows.toNat req.maxRowsSource).mapError .tooManyRows
  return nodes

/-- `WalkDependencyTreeInTx`. -/
def walkDependencyTree (req : WalkTreeRequest) : WalkTx (List TreeNode) := do
  let direction ← .ofExcept req.validate
  if (s.getIssue req.rootID).isNone then throw (.store (.notFound req.rootID))
  let nodes ← s.walkTreeDirections req.rootID req.maxDepth direction req.status
  .ofExcept (capNodes req nodes)

end Store
end Beads
