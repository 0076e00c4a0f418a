import Mathlib.Data.String.Basic
import Beads.Query
import Beads.Store
import Beads.Lib.Kahn
import Beads.Lib.Sorting

/-! The order of siblings in the tree that `list` prints, in Go (`list_tree_deps.go`,
`list_tree.go`) and in Haxe (`Application.hx`). With `--deps` a sibling comes after those it
depends on; what this leaves open is decided by priority and then by id. The two compare ids
differently. -/
namespace Beads.ListTree
open Lib

/-- `types.Issue`, with the fields that are read here. -/
structure Issue where
  id : String
  title : String
  priority : Int
  deriving DecidableEq

/-- `types.Dependency`, under the id of the issue that has it. -/
structure Dependency where
  dependsOnID : String
  type : DependencyType
  deriving DecidableEq

/-- `map[string][]*types.Dependency`, with its keys in the order in which a loop over it meets
them. -/
abbrev DepMap := Table (Prod.fst : String × List Dependency → String)

/-- `allDeps[id]`. -/
def DepMap.get (allDeps : DepMap) (id : String) : List Dependency :=
  ((allDeps.find? id).map Prod.snd).getD []

/-- `allDeps[id]` of a map that may be nil. -/
def depsOf (allDeps : Option DepMap) (id : String) : List Dependency :=
  (allDeps.map fun m => m.get id).getD []

/-! ## Comparison -/

/-- The loop of `splitIDSegments`; `segment` is what has been read since the last separator. -/
def splitSegments (segment : List Char) : List Char → List String
  | [] => if segment ≠ [] then [String.ofList segment] else []
  | r :: rest =>
    if r = '.' ∨ r = '-' then (if segment ≠ [] then [String.ofList segment] else []) ++ splitSegments [] rest
    else splitSegments (segment ++ [r]) rest

/-- `splitIDSegments`. -/
def splitIDSegments (id : String) : List String := splitSegments [] id.toList

/-- The loop of `NaturalCompareIDs`. A segment has no `-`, so what `Atoi` reads is not negative and
the difference does not overflow. -/
def compareSegments : List String → List String → Int
  | a :: sa, b :: sb =>
    if a = b then compareSegments sa sb
    else match Query.atoi a, Query.atoi b with
      | some na, some nb => if na ≠ nb then na - nb else compareSegments sa sb
      | _, _ => if a < b then -1 else 1
  | sa, sb => (sa.length : Int) - sb.length

/-- `utils.NaturalCompareIDs`. -/
def naturalCompareIDs (a b : String) : Int :=
  compareSegments (splitIDSegments a) (splitIDSegments b)

/-- `cmp.Compare` of the priorities, and for equal ones the comparison of the ids. -/
def compareByPriority (compareIDs : String → String → Int) (a b : Issue) : Int :=
  if a.priority < b.priority then -1
  else if b.priority < a.priority then 1
  else compareIDs a.id b.id

/-- `compareIssuesByPriority`. -/
def compareIssuesByPriority : Issue → Issue → Int := compareByPriority naturalCompareIDs

/-! ## Ordering by dependencies -/

/-- `depEdgeDisplay`: how an edge reads and whether it constrains the order of execution. Hierarchy
is not shown as an edge. -/
def depEdgeDisplay : DependencyType → Option (String × Bool)
  | .parentChild => none
  | .blocks => some ("depends-on", true)
  | .conditionalBlocks => some ("conditionally-depends-on", true)
  | .waitsFor => some ("waits-for", true)
  | .other "related" => some ("related", false)
  | .other "relates-to" => some ("related", false)
  | .other "discovered-from" => some ("discovered-from", false)
  | .other "duplicates" => some ("duplicates", false)
  | .other "supersedes" => some ("superseded-by", false)
  | .other "replies-to" => some ("replies-to", false)
  | .other name => some (name, false)

def Dependency.scheduling (dep : Dependency) : Bool :=
  ((depEdgeDisplay dep.type).map Prod.snd).getD false

/-- The siblings that one must come after, each once; `seen` are those found before. -/
def schedulingTargets (group : List String) (id : String) :
    List String → List Dependency → List String
  | _, [] => []
  | seen, dep :: deps =>
    if dep.scheduling = false ∨ dep.dependsOnID = id ∨ dep.dependsOnID ∉ group ∨ dep.dependsOnID ∈ seen then
      schedulingTargets group id seen deps
    else dep.dependsOnID :: schedulingTargets group id (dep.dependsOnID :: seen) deps

section Order
variable {α : Type} (sort : List α → List α) (id : α → String) (dependencies : α → List Dependency)
  (siblings : List α)

/-- The pairs that are counted in `indeg` and listed in `dependents`, in the order of the loop. -/
def schedulingEdges : List (String × String) :=
  siblings.flatMap fun s => (schedulingTargets (siblings.map id) (id s) [] (dependencies s)).map fun t => (id s, t)

/-- `byID`; a later sibling of one id replaces an earlier one. -/
def byID (key : String) : Option α := siblings.reverse.find? fun s => id s = key

/-- The order that both versions compute, with their own sort: siblings are emitted when all that
they must come after have been, and those on a cycle come last. -/
def orderByDependencies : Option (List α) :=
  Kahn.emit sort id (byID id siblings) siblings (schedulingEdges id dependencies siblings)

end Order

/-- `orderSiblingsByDeps`. The map may be nil. -/
def orderSiblingsByDeps (sorter : Sorter Issue) (siblings : List Issue) (allDeps : Option DepMap) :
    Option (List Issue) :=
  match allDeps with
  | none => some siblings
  | some allDeps =>
    if siblings.length < 2 then some siblings
    else orderByDependencies (sorter.sort compareIssuesByPriority) Issue.id (fun s => allDeps.get s.id) siblings

/-- `depRender`. -/
structure DepRender where
  mode : String
  allDeps : Option DepMap
  inView : List Issue

/-- How `printPrettyTree` orders the children of a node. -/
def orderChildren (sorter : Sorter Issue) (dr : Option DepRender) (children : List Issue) :
    Option (List Issue) :=
  match dr with
  | some dr => orderSiblingsByDeps sorter children dr.allDeps
  | none => some (sorter.sort compareIssuesByPriority children)

namespace Haxe

/-- `IssueListItem`, with the fields that are read here. -/
structure Item extends Issue where
  parent : String
  dependencies : List Dependency
  deriving DecidableEq

/-- `compareIssueIds`. -/
def compareIssueIds (left right : String) : Int :=
  if left < right then -1 else if left = right then 0 else 1

/-- `compareListItems`. -/
def compareListItems (left right : Item) : Int :=
  compareByPriority compareIssueIds left.toIssue right.toIssue

/-- `sortedListItems`. -/
def sortedListItems (sorter : Sorter Item) (items : List Item) : List Item :=
  sorter.sort compareListItems items

/-- `orderListItemsByDependencies`; `listDependencyPresentation` is the table of `depEdgeDisplay`.
-/
def orderListItemsByDependencies (sorter : Sorter Item) (items : List Item) : Option (List Item) :=
  if items.length < 2 then some items
  else orderByDependencies (sorter.sort compareListItems) (fun i => i.id) Item.dependencies items

/-- How `renderListHuman` orders the items of a group. -/
def orderItems (sorter : Sorter Item) (depsMode : String) (items : List Item) :
    Option (List Item) :=
  if depsMode = "" then some (sortedListItems sorter items) else orderListItemsByDependencies sorter items

/-- An issue as the list query returns it: with its dependencies, and as parent the least of the
ids that it is a child of. -/
def readItem (dependencies : List Dependency) (issue : Issue) : Item where
  toIssue := issue
  parent := (((dependencies.filter (·.type = .parentChild)).map Dependency.dependsOnID).min?).getD ""
  dependencies := dependencies

end Haxe

end Beads.ListTree
