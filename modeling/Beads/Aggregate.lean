import Beads.Store
import Beads.Lib.Selection

/-! A row with everything that hangs on it: labels, edges with their surrogate
keys, events, comments and the child counter, in the tables of both planes.

`dependencies.go` and `bulk_ops.go` rename a row, `promote.go` and
`persistence.go` move it to the durable plane, and `child_id.go` counts its
children. The columns of the row itself and the blocked flags, which have
modules of their own, are left out. -/
namespace Beads
open Lib

/-! ## Tables -/

/-- A row of `dependencies` or `wisp_dependencies` with its surrogate key. -/
structure DependencyRow where
  id : String
  issueID : String
  target : Target
  type : DependencyType
  createdAt : Option Nat := none
  createdBy : Option String := none
  metadata : Option String := none
  threadID : Option String := none
  deriving DecidableEq

/-- The columns of the `uk_dep_…` unique keys. -/
def DependencyRow.edge (r : DependencyRow) : String × Target := (r.issueID, r.target)

structure LabelRow where
  issueID : String
  label : String
  deriving DecidableEq

def LabelRow.key (r : LabelRow) : String × String := (r.issueID, r.label)

structure EventRow where
  id : String
  issueID : String
  eventType : String
  actor : String
  oldValue : Option String
  newValue : Option String
  comment : Option String
  createdAt : Nat
  deriving DecidableEq

structure CommentRow where
  id : String
  issueID : String
  author : String
  text : String
  createdAt : Nat
  deriving DecidableEq

structure CounterRow where
  parentID : String
  lastChild : Int
  deriving DecidableEq

/-- The tables of a plane. Of `issues` and `wisps` only the ids are kept. -/
structure PlaneTables where
  ids : List String
  labels : Table LabelRow.key
  dependencies : Table DependencyRow.id
  events : Table EventRow.id
  comments : Table CommentRow.id
  counters : Table CounterRow.parentID

abbrev Aggregates := Plane → PlaneTables

namespace Aggregates

/-- The edge tables of both planes with new contents. -/
def withDependencies (s : Aggregates) (tables : Plane → Table DependencyRow.id) : Aggregates :=
  fun q => { s q with dependencies := tables q }

/-- `IsActiveWispInTx`. -/
def isActiveWisp (s : Aggregates) (id : String) : Bool := id ∈ (s .wisps).ids

end Aggregates

/-! ## Rename -/

section Rename
variable (depid : String → String → String)

/-- The primary and the unique keys of an edge table. -/
def dependencyTable (id : String) (rows : List DependencyRow) :
    Except Err (Table DependencyRow.id) :=
  if unique : (rows.map DependencyRow.id).Nodup ∧ (rows.map DependencyRow.edge).Nodup then
    .ok ⟨rows, unique.1⟩
  else .error (.duplicateKey id)

theorem dependencyTable_ok {id : String} {rows : List DependencyRow} {t : Table DependencyRow.id}
    (ok : dependencyTable id rows = .ok t) :
    t.rows = rows := by
  unfold dependencyTable at ok
  split at ok
  · cases ok
    rfl
  · cases ok

/-- `ON UPDATE CASCADE` for a row of plane `p`, in the edge table of plane `q`.
The wisp target of a durable edge is a foreign key only if `wispTargetKey`; the
migrations declare none. -/
def DependencyRow.cascade (wispTargetKey : Bool) (p : Plane) (oldID newID : String) (q : Plane)
    (r : DependencyRow) : DependencyRow :=
  { r with
    issueID := if q = p ∧ r.issueID = oldID then newID else r.issueID
    target :=
      if r.target = .node (p, oldID) ∧ (q = .issues ∧ p = .wisps → wispTargetKey = true) then .node (p, newID)
      else r.target }

/-- A typed target column, of either plane, holds the id. -/
def Target.Names (target : Target) (id : String) : Prop :=
  target = .node (.issues, id) ∨ target = .node (.wisps, id)

instance (target : Target) (id : String) : Decidable (target.Names id) :=
  inferInstanceAs (Decidable (_ ∨ _))

/-- `checkRenameTargetCollision` for the column of plane `p`. -/
def RenameCollision (p : Plane) (newID : String) (rows : List DependencyRow) : Prop :=
  ∃ a ∈ rows, ∃ b ∈ rows, a.issueID = b.issueID ∧ a.target = .node (p, newID) ∧
    b.target ≠ .node (p, newID) ∧ b.target.id = newID

instance (p : Plane) (newID : String) (rows : List DependencyRow) :
    Decidable (RenameCollision p newID rows) :=
  inferInstanceAs (Decidable (∃ a ∈ rows, ∃ b ∈ rows, _))

/-- The row that `replaceDependencyTargetInTx` inserts for one that it deletes. -/
def DependencyRow.replaced (p : Plane) (newID : String) (r : DependencyRow) : DependencyRow :=
  { r with id := depid r.issueID newID, target := .node (p, newID) }

/-- `replaceDependencyTargetInTx` for the column of plane `p`. -/
def replaceDependencyTarget (p : Plane) (oldID newID : String) (table : Table DependencyRow.id) :
    Except Err (Table DependencyRow.id) :=
  if RenameCollision p newID table.rows then .error (.retargetCollision newID)
  else dependencyTable newID
    (table.rows.filter (fun r => ¬ r.target.Names oldID) ++
      (table.rows.filter (fun r => r.target.Names oldID)).map (·.replaced depid p newID))

/-- The rows that `rekeyDependencySourceInTx` finds stale, with the key they should have. -/
def staleSources (oldID newID : String) (rows : List DependencyRow) : List (String × String) :=
  (rows.filter fun r => (r.issueID = newID ∨ r.issueID = oldID) ∧ depid newID r.target.id ≠ r.id).map
    fun r => (r.id, depid newID r.target.id)

/-- `UPDATE dependencies SET id = ?, issue_id = ? WHERE id = ?`. -/
def DependencyRow.rekeyed (newID : String) (rekey : String × String) (r : DependencyRow) :
    DependencyRow :=
  if r.id = rekey.1 then { r with id := rekey.2, issueID := newID } else r

/-- `rekeyDependencySourceInTx`. -/
def rekeyDependencySource (oldID newID : String) (table : Table DependencyRow.id) :
    Except Err (Table DependencyRow.id) :=
  (staleSources depid oldID newID table.rows).foldlM
    (fun table rekey => dependencyTable newID (table.rows.map (·.rekeyed newID rekey))) table

/-- The last step of a rename; the edges of a wisp keep their keys. -/
def rekeySources (p : Plane) (oldID newID : String) (durable : Table DependencyRow.id) :
    Except Err (Table DependencyRow.id) :=
  if p = .issues then rekeyDependencySource depid oldID newID durable else pure durable

/-- `UpdateIssueIDInTx`, with `UpdateIssueIDInDependenciesInTx` for an issue and
`UpdateWispIDInDependenciesInTx` for a wisp. Labels, events and comments follow
by cascades of their own. -/
def Aggregates.updateIssueID (s : Aggregates) (wispTargetKey : Bool) (oldID newID : String) :
    Except Err Aggregates := do
  let p : Plane := if s.isActiveWisp oldID then .wisps else .issues
  if oldID ∉ (s p).ids then throw (.notFound oldID)
  else if newID ∈ (s p).ids then throw (.duplicateKey newID)
  else do
    let cascade (q : Plane) := (s q).dependencies.rows.map (·.cascade wispTargetKey p oldID newID q)
    let durable ← dependencyTable newID (cascade .issues)
    let ephemeral ← dependencyTable newID (cascade .wisps)
    let durable ← replaceDependencyTarget depid p oldID newID durable
    let ephemeral ← replaceDependencyTarget depid p oldID newID ephemeral
    let durable ← rekeySources depid p oldID newID durable
    let renamed (q : Plane) : PlaneTables :=
      if q = p then { s q with ids := (s q).ids.map fun id => if id = oldID then newID else id } else s q
    return Aggregates.withDependencies renamed fun q => if q = .issues then durable else ephemeral

end Rename

/-! ## Promotion -/

/-- An edge with a wisp target moved to the durable column. -/
def DependencyRow.inbound (id : String) (r : DependencyRow) : DependencyRow :=
  if r.target = .node (.wisps, id) then { r with target := .node (.issues, id) } else r

/-- `checkRetargetTargetCollision` from the wisp to the issue column. -/
def RetargetCollision (id : String) (rows : List DependencyRow) : Prop :=
  ∃ moving ∈ rows, ∃ existing ∈ rows, moving.issueID = existing.issueID ∧ moving.target = .node (.wisps, id) ∧
    (existing.target = .node (.issues, id) ∨ existing.target = .external id)

instance (id : String) (rows : List DependencyRow) : Decidable (RetargetCollision id rows) :=
  inferInstanceAs (Decidable (∃ moving ∈ rows, ∃ existing ∈ rows, _))

/-- `RetargetInboundDependenciesToIssueInTx` for one of the edge tables. -/
def retargetInbound (id : String) (table : Table DependencyRow.id) :
    Except Err (Table DependencyRow.id) :=
  if RetargetCollision id table.rows then .error (.retargetCollision id)
  else if RenameCollision .issues id table.rows then .error (.retargetCollision id)
  else dependencyTable id (table.rows.map (·.inbound id))

namespace PlaneTables
variable (t : PlaneTables) (id : String)

def labelsOf : List LabelRow := t.labels.rows.filter (·.issueID = id)

def dependenciesOf : List DependencyRow := t.dependencies.rows.filter (·.issueID = id)

def eventsOf : List EventRow := t.events.rows.filter (·.issueID = id)

def commentsOf : List CommentRow := t.comments.rows.filter (·.issueID = id)

def countersOf : List CounterRow := t.counters.rows.filter (·.parentID = id)

/-- The deletes that follow the copies, in every table but the counters. -/
def withoutCopied : PlaneTables :=
  { t with
    labels := t.labels.delete (·.issueID = id)
    dependencies := t.dependencies.delete (·.issueID = id)
    events := t.events.delete (·.issueID = id)
    comments := t.comments.delete (·.issueID = id) }

/-- `DELETE` of the row with its cascades: every table of the plane has a foreign
key to the row, and so has the target column of the edges. -/
def deleteRow (p : Plane) : PlaneTables :=
  { t with
    ids := t.ids.filter (· ≠ id)
    labels := t.labels.delete (·.issueID = id)
    dependencies := t.dependencies.delete fun r => r.issueID = id ∨ r.target = .node (p, id)
    events := t.events.delete (·.issueID = id)
    comments := t.comments.delete (·.issueID = id)
    counters := t.counters.delete (·.parentID = id) }

/-- `InsertIssueIfNew`, as far as the id goes. -/
def insertIfNew : PlaneTables := if id ∈ t.ids then t else { t with ids := t.ids ++ [id] }

end PlaneTables

/-- An insert that reports the taken key. -/
def insertStrict {ρ κ κ' : Type} {key : ρ → κ} [DecidableEq κ] [DecidableEq κ'] (id : String)
    (unique : ρ → κ') (t : Table key) (rows : List ρ) : Except Err (Table key) :=
  (t.insertAll? unique rows).elim (.error (.duplicateKey id)) .ok

namespace Aggregates
variable (s : Aggregates) (id : String)

/-- The end of both ways to the durable plane: the edges onto the wisp get their
new target, and its row goes. -/
def finishMove : Except Err Aggregates := do
  let durable ← retargetInbound id (s .issues).dependencies
  let ephemeral ← retargetInbound id (s .wisps).dependencies
  let retargeted := s.withDependencies fun q => if q = .issues then durable else ephemeral
  return Function.update retargeted .wisps ((retargeted .wisps).deleteRow id .wisps)

/-- `PromoteFromEphemeralInTx`: the child counter is not among the tables it copies. -/
def promoteFromEphemeral : Except Err Aggregates :=
  if ¬ s.isActiveWisp id then throw (.notFound id)
  else
    let durable := (s .issues).insertIfNew id
    let wisp := s .wisps
    let copied : PlaneTables :=
      { durable with
        labels := durable.labels.insertIgnoreAll LabelRow.key (wisp.labelsOf id)
        dependencies := durable.dependencies.insertIgnoreAll DependencyRow.edge (wisp.dependenciesOf id)
        events := durable.events.insertIgnoreAll EventRow.id (wisp.eventsOf id)
        comments := durable.comments.insertIgnoreAll CommentRow.id (wisp.commentsOf id) }
    finishMove (fun q => if q = .issues then copied else wisp.withoutCopied id) id

/-- `MoveIssuePersistenceInTx` to the durable plane. A durable row stays where it is. -/
def moveIssuePersistence : Except Err Aggregates :=
  if s.isActiveWisp id ∧ id ∈ (s .issues).ids then throw (.duplicateKey id)
  else if ¬ s.isActiveWisp id then return s
  else do
    let durable := s .issues
    let wisp := s .wisps
    let labels ← insertStrict id LabelRow.key durable.labels (wisp.labelsOf id)
    let dependencies ← insertStrict id DependencyRow.edge durable.dependencies (wisp.dependenciesOf id)
    let events ← insertStrict id EventRow.id durable.events (wisp.eventsOf id)
    let comments ← insertStrict id CommentRow.id durable.comments (wisp.commentsOf id)
    let counters ← insertStrict id CounterRow.parentID durable.counters (wisp.countersOf id)
    let moved : PlaneTables :=
      ⟨durable.ids ++ [id], labels, dependencies, events, comments, counters⟩
    let left : PlaneTables :=
      { wisp.withoutCopied id with counters := wisp.counters.delete (·.parentID = id) }
    finishMove (fun q => if q = .issues then moved else left) id

end Aggregates

/-! ## Child ids -/

/-- `unicode.IsSpace` without the newline, at which a scan stops. -/
def isScanSpace (c : Char) : Bool :=
  c ∈ ['\t', '\x0b', '\x0c', '\r', ' ', '\x85', '\xa0', '\u1680', '\u2028', '\u2029', '\u202f', '\u205f',
    '\u3000'] || (0x2000 ≤ c.toNat && c.toNat ≤ 0x200a)

/-- `fmt.Sscanf` with `%d`: spaces, a sign and the digits after it. What follows
the digits is not read. -/
def scanInt (text : List Char) : Option Int :=
  let number := text.dropWhile isScanSpace
  let unsigned := if number.head? = some '+' ∨ number.head? = some '-' then number.tail else number
  let digits := unsigned.takeWhile Char.isDigit
  let size : Int := digits.foldl (fun n d => 10 * n + (d.toNat - '0'.toNat : Nat)) 0
  let value := if number.head? = some '-' then -size else size
  if digits = [] ∨ value < -9223372036854775808 ∨ 9223372036854775807 < value then none else some value

/-- `ParseHierarchicalID`. -/
def parseHierarchicalID (id : String) : Option (String × Int) :=
  let last := id.toList.reverse.takeWhile (· ≠ '.')
  let parent := id.toList.reverse.dropWhile (· ≠ '.')
  if parent = [] then none
  else (scanInt last.reverse).map fun num => (String.ofList parent.tail.reverse, num)

namespace PlaneTables
variable (t : PlaneTables) (parentID : String)

/-- The rows that the query for existing children returns. -/
def directChildren : List String :=
  t.ids.filter fun id =>
    like (parentID.toList ++ ['.', '%']) id.toList && !like (parentID.toList ++ ['.', '%', '.', '%']) id.toList

/-- The larger of the counter, or 0 without one, and the existing children's numbers. -/
def lastChild : Int :=
  (t.directChildren parentID).foldl
    (fun last id =>
      match parseHierarchicalID id with
      | some (_, num) => if num > last then num else last
      | none => last)
    (((t.counters.find? parentID).map CounterRow.lastChild).getD 0)

end PlaneTables

/-- The id of a numbered child. -/
def childID (parentID : String) (num : Int) : String := parentID ++ "." ++ toString num

/-- `GetNextChildIDTx`. -/
def Aggregates.getNextChildID (s : Aggregates) (parentID : String) : String × Aggregates :=
  let p : Plane := if s.isActiveWisp parentID then .wisps else .issues
  let next := (s p).lastChild parentID + 1
  let counters :=
    ((s p).counters.delete (·.parentID = parentID)).insert ⟨parentID, next⟩ fun _ held same =>
      (Table.mem_delete.mp held).2 same
  (childID parentID next, Function.update s p { s p with counters })

end Beads
