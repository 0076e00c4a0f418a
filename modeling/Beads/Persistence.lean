import Beads.Create
import Beads.Delete

/-! `persistence.go` and `promote.go`: moving a row with its edges to the other
plane. The row keeps its id; the edges that leave it change tables and the edges
onto it change columns. Labels, events, comments, counters and leases move along
in the source and are left out here. -/
namespace Beads
open Lib

/-- `types.PersistenceMode`; any other name is refused. -/
inductive PersistenceMode where
  | persistent
  | ephemeral
  | noHistory
  deriving DecidableEq

/-- `persistenceMode`. -/
def Row.persistenceMode (r : Row) : PersistenceMode :=
  if r.noHistory = true then .noHistory
  else if r.ephemeral = true then .ephemeral
  else .persistent

/-- `types.NormalizePersistenceMode`: the two plane flags and the storage class
that the mode asks for. -/
def normalizePersistenceMode (current : Row) (mode : PersistenceMode) :
    Except Err (Bool × Bool × StorageClass) := do
  let wispPlane := current.ephemeral || current.noHistory
  let class_ := current.storageClass
  if current.ephemeral = true ∧ current.noHistory = true then
    throw (.validation "ephemeral and no_history are mutually exclusive")
  if ¬ class_.IsValid then throw (.validation "invalid storage class")
  if wispPlane = true ∧ class_ ≠ .unset ∧ class_ ≠ .ephemeral then
    throw (.validation "storage class conflicts with ephemeral/no_history")
  if wispPlane = false ∧ class_ = .ephemeral then
    throw (.validation "storage class ephemeral requires ephemeral or no_history")
  if class_ = .unversioned ∧ mode ≠ .persistent then
    throw (.validation "cannot move unversioned record to persistence mode")
  if current.persistenceMode = mode then return (current.ephemeral, current.noHistory, class_)
  match mode with
  | .persistent => return (false, false, if class_ = .ephemeral then .unset else class_)
  | .ephemeral => return (true, false, if class_ = .versioned then .unset else class_)
  | .noHistory => return (false, true, if class_ = .versioned then .unset else class_)

/-- The edge with its target moved along. -/
def Dep.retarget (source target : Plane) (id : String) (d : Dep) : Dep :=
  if d.target = .node (source, id) then { d with target := .node (target, id) } else d

theorem Dep.retarget_key (source target : Plane) (id : String) (d : Dep) :
    (d.retarget source target id).key = d.key := by
  unfold Dep.retarget
  split
  · next same => simp only [Dep.key, same, Target.id]
  · rfl

namespace Store
variable (s : Store)

/-- `INSERT IGNORE INTO dependencies` or `wisp_dependencies`: an edge whose key is
taken, or which refers to no row, is left out. -/
def insertDepIgnore (p : Plane) (d : Dep) : Store :=
  if s.Holds (p, d.issueId) ∧ s.TargetKey p d.target then s.withDeps p ((s.deps p).insertIgnore d)
  else s

/-- The edges that leave an id in the table of a plane. -/
def outgoing (p : Plane) (id : String) : List Dep := (s.deps p).rows.filter fun d => d.issueId = id

/-- `DELETE … WHERE issue_id = ?`. -/
def deleteOutgoing (p : Plane) (id : String) : Store :=
  s.withDeps p ((s.deps p).delete fun d => d.issueId = id)

/-- `copyPersistenceAuxiliary`, on the edge tables. -/
def copyDependencies (source target : Plane) (id : String) : Tx Store := do
  let copied ← (s.outgoing source id).foldlM (fun t d => t.insertDep target d) s
  return copied.deleteOutgoing source id

/-- Two edges of one source, one onto the moving target and one onto a target
that it would collide with. -/
def TargetCollision (p : Plane) (moving : Target) (existing : List Target) : Prop :=
  ∃ a ∈ s.deps p, a.target = moving ∧ ∃ b ∈ s.deps p, b.issueId = a.issueId ∧ b.target ∈ existing

instance (p : Plane) (moving : Target) (existing : List Target) :
    Decidable (s.TargetCollision p moving existing) :=
  inferInstanceAs (Decidable (∃ a ∈ s.deps p, a.target = moving ∧ ∃ b ∈ s.deps p, _))

/-- The turn of `RetargetInboundDependenciesToWispInTx` or `…ToIssueInTx` for one
edge table: `checkRetargetTargetCollision`, `checkRenameTargetCollision` and the
update. The row that the new column refers to has been inserted before. -/
def retargetTable (source target : Plane) (id : String) (p : Plane) : Tx Store := do
  if s.TargetCollision p (.node (source, id)) [.node (target, id), .external id] then
    throw (.retargetCollision id)
  if s.TargetCollision p (.node (target, id)) [.node (source, id), .external id] then
    throw (.retargetCollision id)
  return s.withDeps p ((s.deps p).update (Dep.retarget source target id)
    (Dep.retarget_key source target id))

/-- `RetargetInboundDependenciesToWispInTx` and `RetargetInboundDependenciesToIssueInTx`. -/
def retargetInbound (source target : Plane) (id : String) : Tx Store :=
  Plane.all.foldlM (fun t p => t.retargetTable source target id p) s

/-- The part of `MoveIssuePersistenceInTx` that changes planes. The affected rows
are read when everything has moved. -/
def movePlane (source target : Plane) (move : Row) : Tx Store := do
  let inserted ← s.insertIssueStrict target move
  let copied ← inserted.copyDependencies source target move.id
  let retargeted ← copied.retargetInbound source target move.id
  let moved := retargeted.deleteRows source [move.id]
  recomputeIsBlocked (moved.affectedByStatusChange (target, move.id)) moved

/-- `MoveIssuePersistenceInTx`. `current` is the row its callers have read;
`retained` says whether a snapshot table holds the issue. A row that is in the
right plane gets the flags of the mode only. -/
def moveIssuePersistence (current : Row) (mode : PersistenceMode) (retained : Bool) : Tx Store := do
  if current.id = "" then throw (.validation "issue and transaction are required")
  let (ephemeral, noHistory, storageClass) ← .ofExcept (normalizePersistenceMode current mode)
  if s.Holds (.issues, current.id) ∧ s.Holds (.wisps, current.id) then throw (.bothPlanes current.id)
  if s.routed current.id = .ofWisp (ephemeral || noHistory) then
    if current.ephemeral = ephemeral ∧ current.noHistory = noHistory ∧
        current.storageClass.normalize = storageClass.normalize then return s
    if ¬ s.Holds (s.routed current.id, current.id) then throw (.notFound current.id)
    return s.updateRow (s.routed current.id, current.id) (fun r => { r with
      ephemeral := ephemeral, noHistory := noHistory, storageClass := storageClass.normalize }) fun _ => rfl
  if s.routed current.id = .issues ∧ retained = true then throw (.retainedSnapshots current.id)
  s.movePlane (s.routed current.id) (.ofWisp (ephemeral || noHistory)) { current with
    ephemeral := ephemeral, noHistory := noHistory, storageClass := storageClass }

/-- `PromoteFromEphemeralInTx`. `invalid` is what the validation objects to in
columns that `Row` does not have. -/
def promoteFromEphemeral (cfg : Config) (invalid : Option String) (id : String) : Tx Store := do
  if ¬ s.IsActiveWisp id then throw (.notFound id)
  match s.issue? id >>= s.row? with
  | none => throw (.notFound id)
  | some issue =>
    let prepared ← .ofExcept (prepareIssueForInsert cfg invalid { issue with
      ephemeral := false
      noHistory := false
      storageClass := if issue.storageClass = .ephemeral then .unset else issue.storageClass })
    let (inserted, _) ← s.insertIssueIfNew {} .issues prepared
    let copied :=
      (inserted.outgoing .wisps id).foldl (fun t d => t.insertDepIgnore .issues d) inserted
    let retargeted ← (copied.deleteOutgoing .wisps id).retargetInbound .wisps .issues id
    let moved := retargeted.deleteRows .wisps [id]
    recomputeIsBlocked (moved.affectedByStatusChange (.issues, id)) moved

end Store
end Beads
