import Mathlib.Data.Fintype.Basic
import Beads.Lib.Call
import Beads.Lib.Table

/-! The tables the storage layer works on. `issues` and `wisps` have the same
columns and so have `dependencies` and `wisp_dependencies`; both pairs are
indexed by the plane a row lives in. Columns that no modelled function reads or
writes, and the audit, journal, label, comment and lease tables, are left out. -/
namespace Beads
open Lib

/-- The durable plane (`issues`, `dependencies`) and the ephemeral plane
(`wisps`, `wisp_dependencies`). -/
inductive Plane where
  | issues
  | wisps
  deriving DecidableEq

namespace Plane

/-- The order in which the code goes through the two tables of a pair. -/
def all : List Plane := [.issues, .wisps]

instance : Fintype Plane := ⟨{.issues, .wisps}, fun p => by cases p <;> decide⟩

@[simp]
theorem mem_all (p : Plane) : p ∈ all := by
  cases p <;> decide

/-- `WispTableRouting`. -/
def ofWisp (isWisp : Bool) : Plane := if isWisp then .wisps else .issues

def sibling : Plane → Plane
  | .issues => .wisps
  | .wisps => .issues

end Plane

/-- `types.Status`: the built-in statuses, and names declared in the workspace
configuration, which may not repeat a built-in one. -/
inductive Status where
  | open
  | inProgress
  | blocked
  | deferred
  | closed
  | pinned
  | hooked
  | custom (name : String)
  deriving DecidableEq

/-- `types.StatusCategory`. -/
inductive StatusCategory where
  | active
  | wip
  | done
  | frozen
  | unspecified
  deriving DecidableEq

namespace Status

/-- `status <> 'closed' AND status <> 'pinned'`. -/
def Live (status : Status) : Prop := status ≠ .closed ∧ status ≠ .pinned

instance (status : Status) : Decidable status.Live :=
  inferInstanceAs (Decidable (status ≠ .closed ∧ status ≠ .pinned))

end Status

/-- `types.DependencyType`. The vocabulary is open; the four types the
scheduling code names have constructors of their own. -/
inductive DependencyType where
  | blocks
  | conditionalBlocks
  | parentChild
  | waitsFor
  | other (name : String)
  deriving DecidableEq

namespace DependencyType

/-- The stored text of a type. -/
def text : DependencyType → String
  | .blocks => "blocks"
  | .conditionalBlocks => "conditional-blocks"
  | .parentChild => "parent-child"
  | .waitsFor => "waits-for"
  | .other name => name

/-- `type = 'blocks' OR type = 'conditional-blocks'`. -/
def Blocking (type : DependencyType) : Prop := type = .blocks ∨ type = .conditionalBlocks

instance (type : DependencyType) : Decidable type.Blocking :=
  inferInstanceAs (Decidable (type = .blocks ∨ type = .conditionalBlocks))

theorem Blocking.ne_parentChild {type : DependencyType} (blocking : type.Blocking) :
    type ≠ .parentChild := by
  rcases blocking with rfl | rfl <;> decide

theorem Blocking.ne_waitsFor {type : DependencyType} (blocking : type.Blocking) :
    type ≠ .waitsFor := by
  rcases blocking with rfl | rfl <;> decide

/-- `types.IsSchedulingEdge`. -/
def IsSchedulingEdge (type : DependencyType) : Prop := type.Blocking ∨ type = .parentChild

instance (type : DependencyType) : Decidable type.IsSchedulingEdge :=
  inferInstanceAs (Decidable (type.Blocking ∨ type = .parentChild))

/-- The types that `is_blocked` depends on. -/
def Affects (type : DependencyType) : Prop :=
  type.Blocking ∨ type = .waitsFor ∨ type = .parentChild

instance (type : DependencyType) : Decidable type.Affects :=
  inferInstanceAs (Decidable (_ ∨ _ ∨ _))

end DependencyType

/-- A row of `issues` or `wisps`, named by its plane and id. -/
abbrev Node := Plane × String

/-- The target of an edge: exactly one of `depends_on_issue_id`,
`depends_on_wisp_id` and `depends_on_external` is set, as `ck_dep_one_target`
and `ck_wisp_dep_one_target` demand. -/
inductive Target where
  | node (n : Node)
  | external (ref : String)
  deriving DecidableEq

namespace Target

/-- `COALESCE(depends_on_issue_id, depends_on_wisp_id, depends_on_external)`. -/
def id : Target → String
  | .node n => n.2
  | .external ref => ref

end Target

/-- The JSON object in the `metadata` column of an edge: its top-level members,
with each value as `JSON_UNQUOTE` renders it. A value that is not an object has
no members. -/
structure Metadata where
  members : List (String × String)
  deriving DecidableEq

namespace Metadata

/-- The `{}` an edge without metadata is stored with. -/
def empty : Metadata := ⟨[]⟩

/-- `JSON_UNQUOTE(JSON_EXTRACT(metadata, '$.key'))`. -/
def extract (metadata : Metadata) (key : String) : Option String := metadata.members.lookup key

/-- Metadata without a gate key means the all-children default. -/
def AnyChildren (metadata : Metadata) : Prop :=
  (metadata.extract "gate").getD "all-children" = "any-children"

/-- The marker of a waits-for edge that also carries a collapsed blocks edge. -/
def AlsoBlocks (metadata : Metadata) : Prop :=
  (metadata.extract "also_blocks").getD "false" = "true"

instance (metadata : Metadata) : Decidable metadata.AnyChildren :=
  inferInstanceAs (Decidable (_ = "any-children"))

instance (metadata : Metadata) : Decidable metadata.AlsoBlocks :=
  inferInstanceAs (Decidable (_ = "true"))

end Metadata

/-- `types.StorageClass`; an empty column is unset. -/
inductive StorageClass where
  | unset
  | versioned
  | unversioned
  | ephemeral
  | unknown (name : String)
  deriving DecidableEq

namespace StorageClass

/-- `StorageClass.IsValid`. -/
def IsValid : StorageClass → Prop
  | .unknown _ => False
  | _ => True

instance : (c : StorageClass) → Decidable c.IsValid
  | .unset | .versioned | .unversioned | .ephemeral => inferInstanceAs (Decidable True)
  | .unknown _ => inferInstanceAs (Decidable False)

/-- `StorageClass.Normalize`. -/
def normalize : StorageClass → StorageClass
  | .versioned => .unset
  | c => c

end StorageClass

/-- A row of `issues` or `wisps`. Times are seconds; zero is unset. -/
structure Row where
  id : String
  issueType : String := "task"
  status : Status := .open
  assignee : String := ""
  isBlocked : Bool := false
  pinned : Bool := false
  ephemeral : Bool := false
  noHistory : Bool := false
  startedAt : Option Nat := none
  closedAt : Option Nat := none
  closeReason : String := ""
  closedBySession : String := ""
  deferUntil : Option Nat := none
  storageClass : StorageClass := .unset
  createdAt : Nat := 0
  updatedAt : Nat := 0
  deriving DecidableEq

/-- A row of `dependencies` or `wisp_dependencies`. -/
structure Dep where
  issueId : String
  target : Target
  type : DependencyType
  metadata : Metadata := .empty
  deriving DecidableEq

namespace Dep

/-- `depid.New` derives the primary key from the source and the resolved
target; the edge type is not part of it. -/
def key (d : Dep) : String × String := (d.issueId, d.target.id)

end Dep

/-- The two issue tables, the two edge tables, and the cells of
`local_metadata` that dependency writers use for coordination. -/
structure Store where
  rows : Plane → Table Row.id
  deps : Plane → Table Dep.key
  coordination : Plane → Nat → Nat := fun _ _ => 0

namespace Store
variable (s : Store) (p : Plane) (n : Node)

/-- The store without rows and edges. -/
def empty : Store := ⟨fun _ => Table.empty, fun _ => Table.empty, fun _ _ => 0⟩

def withRows (t : Table Row.id) : Store := { s with rows := Function.update s.rows p t }

def withDeps (t : Table Dep.key) : Store := { s with deps := Function.update s.deps p t }

@[simp] theorem withRows_rows_self (t) : (s.withRows p t).rows p = t := Function.update_self ..
@[simp] theorem withDeps_deps_self (t) : (s.withDeps p t).deps p = t := Function.update_self ..

theorem withRows_rows_ne {q : Plane} (t) (differ : q ≠ p) : (s.withRows p t).rows q = s.rows q :=
  Function.update_of_ne differ ..

theorem withDeps_deps_ne {q : Plane} (t) (differ : q ≠ p) : (s.withDeps p t).deps q = s.deps q :=
  Function.update_of_ne differ ..

/-- The row with the given id in the given plane. -/
def row? : Option Row := (s.rows n.1).find? n.2

/-- The plane holds a row with the id. -/
def Holds : Prop := ∃ r ∈ s.rows n.1, r.id = n.2

instance : Decidable (s.Holds n) := inferInstanceAs (Decidable (∃ r ∈ s.rows n.1, r.id = n.2))

/-- `IsActiveWispInTx`. -/
def IsActiveWisp (id : String) : Prop := s.Holds (.wisps, id)

instance (id : String) : Decidable (s.IsActiveWisp id) :=
  inferInstanceAs (Decidable (s.Holds (.wisps, id)))

/-- The plane a call on an id is routed to. -/
def routed (id : String) : Plane := .ofWisp (s.IsActiveWisp id)

/-- Two ids are related by an edge of such a type, in either table, with the
target of an edge read as `COALESCE` of its three columns. -/
def Related (type : DependencyType → Prop) (a b : String) : Prop :=
  ∃ p, ∃ d ∈ s.deps p, type d.type ∧ d.key = (a, b)

/-- Child and parent. -/
def ParentChild : String → String → Prop := s.Related (· = .parentChild)

/-- The graph that cycle checks walk. -/
def Scheduling : String → String → Prop := s.Related DependencyType.IsSchedulingEdge

/-- No parent-child edge has an empty target: whoever writes one touches the
coordination cell of the parent, which refuses an empty id. -/
def ParentsNamed : Prop := ∀ p, ∀ d ∈ s.deps p, d.type = .parentChild → d.target.id ≠ ""

instance : Decidable s.ParentsNamed :=
  decidable_of_iff (∀ p ∈ Plane.all, ∀ d ∈ s.deps p, d.type = .parentChild → d.target.id ≠ "")
    ⟨fun named p => named p (Plane.mem_all p), fun named p _ => named p⟩

/-- No row has an empty id: the create path assigns one to every row. -/
def IdsNamed : Prop := ∀ p, ¬ s.Holds (p, "")

instance : Decidable s.IdsNamed := inferInstanceAs (Decidable (∀ p, ¬ s.Holds (p, "")))

end Store

/-- What a refused call reports. -/
inductive Err where
  | notFound (id : String)
  | missingDependencySource (issueId dependsOnId : String)
  | missingDependencyTarget (issueId dependsOnId : String)
  | dependencyHierarchyConflict (issueId blockerId : String) (blockerIsAncestor : Bool)
  | selfDependency (id : String)
  | dependencyCycle
  | dependencyTypeConflict (issueId dependsOnId : String) (existing requested : DependencyType)
  | emptyCoordinationParent
  | foreignKey (table : Plane) (issueId target : String)
  | duplicateKey (id : String)
  | duplicateSeq (seq : Nat)
  | retargetCollision (id : String)
  | crossTableCollision (id : String)
  | crossPlaneBatchEdge (sourceId targetId : String)
  | bothPlanes (id : String)
  | prefixMismatch (id : String)
  | retainedSnapshots (id : String)
  | closeOpenChildren (id : String) (openChildren : Nat)
  | closeBlocked (id : String) (blockers : List String)
  | clearClosedAt (id : String) (status : Status)
  | setClosedAt (id : String) (status : Status)
  | invalidIssueType (issueType : String)
  | fieldTooLong (field : String)
  | invalidField
  | cascadeLimit
  | dependentsOutsideRequest (id : String) (dependents : List String)
  | claimConflict (id assignee : String) (status : Status) (alreadyClaimed : Bool)
  | alreadyClaimed (assignee : String)
  | notClaimable (id : String)
  | notOwner (id holder : String)
  | assigneeMismatch (id holder expected : String)
  | duplicateLease (id : String)
  | versionMismatch (expected got : Nat)
  | validation (message : String)
  deriving DecidableEq

/-- The body of a transaction. The state is passed explicitly; a refused body is
rolled back, so its caller keeps the store it started from. -/
abbrev Tx := Call Err

end Beads
