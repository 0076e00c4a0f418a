import Beads.SiblingOrder

/-! The tree that `list` prints, in Go (`list_tree.go`) and in Haxe (`Application.hx`). An issue is
shown below its parent; where it has none the parent is read off a dotted id. Both versions print
recursively and keep no record of what they have printed, so the fuel of the model bounds the depth
of the recursion.

A page is printed as a list of lines. What a line says of an issue, the header and the summary are
left out. -/
namespace Beads.ListTree
open Lib

/-- A row for an edge whose target is in view. -/
structure EdgeRow where
  label : String
  target : String
  title : String

/-- A line that is printed: an issue, an edge to an issue in view, or the edges that lead out of the
view, with their number and the first of their targets. -/
inductive Line where
  | issue (indent : String) (issue : Issue)
  | edge (indent : String) (row : EdgeRow)
  | outside (indent : String) (count : Nat) (named : List String)

/-- The issues that are printed, in order. -/
def issuesOf (lines : List Line) : List Issue := lines.filterMap fun
  | .issue _ issue => some issue
  | _ => none

/-- `slices.SortFunc`, or `Array.sort`, for each type that is sorted. -/
structure Sorters (α : Type) where
  issues : Sorter α
  rows : Sorter EdgeRow
  ids : Sorter String

/-- The entries whose key has not been seen before. -/
def firstsBy {α : Type} (key : α → String) : List String → List α → List α
  | _, [] => []
  | seen, x :: rest =>
    if key x ∈ seen then firstsBy key seen rest else x :: firstsBy key (key x :: seen) rest

/-! ## Annotations -/

/-- The comparison of the rows, by label and then by target. -/
def compareRows (compareIDs : String → String → Int) (a b : EdgeRow) : Int :=
  if a.label < b.label then -1 else if b.label < a.label then 1 else compareIDs a.target b.target

/-- The rows below an issue: its edges into the view, and one line for those that lead out of it. -/
def annotations {α : Type} (sorters : Sorters α) (compareIDs : String → String → Int)
    (mode : String)
    (title : String → Option String) (deps : List Dependency) (indent : String) : List Line :=
  let shown := deps.filterMap fun dep => match depEdgeDisplay dep.type with
    | none => none
    | some (label, scheduling) =>
      if mode ≠ "all" ∧ scheduling = false then none else some (label, dep)
  let kept := firstsBy (fun entry => entry.2.type.text ++ "\x00" ++ entry.2.dependsOnID) [] shown
  let inView := kept.filterMap fun entry =>
    (title entry.2.dependsOnID).map fun title => ⟨entry.1, entry.2.dependsOnID, title⟩
  let outView :=
    (kept.filter fun entry => (title entry.2.dependsOnID).isNone).map fun entry => entry.2.dependsOnID
  (sorters.rows.sort (compareRows compareIDs) inView).map (.edge indent) ++
    if outView = [] then [] else [.outside indent outView.length ((sorters.ids.sort compareIDs outView).take 4)]

/-- `annotationsFor`. -/
def annotationsFor (sorters : Sorters Issue) (dr : Option DepRender) (nodeID indent : String) :
    List Line :=
  match dr with
  | none => []
  | some dr =>
    annotations sorters naturalCompareIDs dr.mode (fun id => (byID Issue.id dr.inView id).map Issue.title)
      (depsOf dr.allDeps nodeID) indent

/-! ## Building the tree -/

/-- All but the last part of an id with dots. -/
def dottedParent (id : String) : Option String :=
  match id.toList.reverse.dropWhile (· ≠ '.') with
  | [] => none
  | _ :: front => some (String.ofList front.reverse)

/-- `childrenMap`, `addedChild` and `isChild`. -/
structure Building where
  childrenMap : String → List Issue
  addedChild : List String
  isChild : List String

def Building.append (b : Building) (parentID : String) (child : Issue) : Building :=
  { b with childrenMap := Function.update b.childrenMap parentID (b.childrenMap parentID ++ [child]) }

/-- The parent-child edges between issues of the page, with the parent's id and the child, in the
order in which the loop meets them. -/
def explicitLinks (issues : List Issue) (allDeps : Option DepMap) : List (String × Issue) :=
  (allDeps.map fun m => m.rows).getD [] |>.flatMap fun entry => entry.2.filterMap fun dep =>
    if dep.type = .parentChild ∧ (byID Issue.id issues dep.dependsOnID).isSome then
      (byID Issue.id issues entry.1).map fun child => (dep.dependsOnID, child)
    else none

/-- `parentID + ":" + issueID`. -/
def linkKey (link : String × Issue) : String := link.1 ++ ":" ++ link.2.id

/-- The body of the loop over the edges. -/
def attachExplicit (b : Building) (link : String × Issue) : Building :=
  let b := if linkKey link ∈ b.addedChild then b
    else { b.append link.1 link.2 with addedChild := linkKey link :: b.addedChild }
  { b with isChild := link.2.id :: b.isChild }

/-- The body of the loop over the issues that have no parent yet. -/
def attachDotted (issues : List Issue) (b : Building) (issue : Issue) : Building :=
  if issue.id ∈ b.isChild then b
  else match dottedParent issue.id with
    | none => b
    | some parentID =>
      if (byID Issue.id issues parentID).isSome then
        { b.append parentID issue with isChild := issue.id :: b.isChild }
      else b

/-- The links of a page before anything is sorted. -/
def buildLinks (issues : List Issue) (allDeps : Option DepMap) : Building :=
  issues.foldl (attachDotted issues) ((explicitLinks issues allDeps).foldl attachExplicit ⟨fun _ => [], [], []⟩)

/-- `buildIssueTreeWithDeps`. -/
def buildIssueTreeWithDeps (sorter : Sorter Issue) (issues : List Issue) (allDeps : Option DepMap) :
    List Issue × (String → List Issue) :=
  let b := buildLinks issues allDeps
  (sorter.sort compareIssuesByPriority (issues.filter (·.id ∉ b.isChild)),
    fun parentID => sorter.sort compareIssuesByPriority (b.childrenMap parentID))

/-! ## Printing it -/

section Print
variable {α : Type}

/-- Every entry with what is printed below it. `row` gives the lines of an entry, from whether it
is the last, and the indentation of what is below. -/
def printEach (id : α → String) (row : Bool → α → List Line × String)
    (below : String → String → Option (List Line)) : List α → Option (List Line)
  | [] => some []
  | entry :: rest => do
    let lines := row rest.isEmpty entry
    let nested ← below (id entry) lines.2
    let others ← printEach id row below rest
    return lines.1 ++ (nested ++ others)

variable (issue : α → Issue) (annotate : α → String → List Line)

def rootRow (_last : Bool) (root : α) : List Line × String :=
  (.issue "" (issue root) :: annotate root "", "")

def childRow (indent : String) (last : Bool) (child : α) : List Line × String :=
  let connector := if last then "└── " else "├── "
  let extension := if last then "    " else "│   "
  (.issue (indent ++ connector) (issue child) :: annotate child (indent ++ extension), indent ++ extension)

end Print

/-- `printPrettyTree`. -/
def printPrettyTree (sorters : Sorters Issue) (childrenMap : String → List Issue)
    (dr : Option DepRender) :
    Nat → String → String → Option (List Line)
  | 0, _, _ => none
  | fuel + 1, parentID, indent => do
    let children ← orderChildren sorters.issues dr (childrenMap parentID)
    printEach Issue.id (childRow (fun child => child) (fun child => annotationsFor sorters dr child.id) indent)
      (printPrettyTree sorters childrenMap dr fuel) children

/-- How `displayPrettyListWithDepsMode` orders the roots. -/
def orderRoots (sorter : Sorter Issue) (allDeps : Option DepMap) (depsMode : String)
    (roots : List Issue) :
    Option (List Issue) :=
  if depsMode ≠ "" then orderSiblingsByDeps sorter roots allDeps else some roots

/-- `displayPrettyListWithDepsMode`. -/
def displayPrettyListWithDepsMode (sorters : Sorters Issue) (issues : List Issue)
    (allDeps : Option DepMap) (depsMode : String) (fuel : Nat) : Option (List Line) := do
  let tree := buildIssueTreeWithDeps sorters.issues issues allDeps
  let dr : Option DepRender := if depsMode ≠ "" then some ⟨depsMode, allDeps, issues⟩ else none
  let roots ← orderRoots sorters.issues allDeps depsMode tree.1
  printEach Issue.id (rootRow (fun root => root) fun root => annotationsFor sorters dr root.id)
    (printPrettyTree sorters tree.2 dr fuel) roots

namespace Haxe

/-- `renderListDependencyAnnotations`. -/
def renderListDependencyAnnotations (sorters : Sorters Item) (items : List Item) (depsMode : String)
    (item : Item) (indent : String) : List Line :=
  annotations sorters compareIssueIds depsMode (fun id => (byID (fun i => i.id) items id).map fun i => i.title)
    item.dependencies indent

/-- The group that an item is put into; the others are roots. -/
def groupOf (items : List Item) (item : Item) : Option String :=
  let parent := if item.parent = "" then
      match dottedParent item.id with
      | some dotted =>
        if dotted ≠ "" ∧ (byID (fun i => i.id) items dotted).isSome then dotted else item.parent
      | none => item.parent
    else item.parent
  if parent ≠ "" ∧ (byID (fun i => i.id) items parent).isSome then some parent else none

/-- `group.children.push`, in a new group if there is none for the parent. -/
def push (parent : String) (item : Item) : List (String × List Item) → List (String × List Item)
  | [] => [(parent, [item])]
  | group :: groups =>
    if group.1 = parent then (group.1, group.2 ++ [item]) :: groups else group :: push parent item groups

/-- The body of the loop over the items. -/
def place (items : List Item) (groups : List (String × List Item)) (item : Item) :
    List (String × List Item) :=
  match groupOf items item with
  | some parent => push parent item groups
  | none => groups

/-- `childGroups`. -/
def childGroups (items : List Item) : List (String × List Item) := items.foldl (place items) []

/-- `renderListChildren`. -/
def renderListChildren (annotate : Item → String → List Line) (groups : List (String × List Item)) :
    Nat → String → String → Option (List Line)
  | 0, _, _ => none
  | fuel + 1, parent, indent =>
    printEach (fun i => i.id) (childRow Item.toIssue annotate indent) (renderListChildren annotate groups fuel)
      ((groups.lookup parent).getD [])

/-- `renderListHuman`. -/
def renderListHuman (sorters : Sorters Item) (items : List Item) (depsMode : String) (fuel : Nat) :
    Option (List Line) := do
  let roots ← orderItems sorters.issues depsMode (items.filter fun item => groupOf items item = none)
  let groups ← (childGroups items).mapM fun group => do
    return (group.1, ← orderItems sorters.issues depsMode group.2)
  let annotate : Item → String → List Line := fun item indent =>
    if depsMode ≠ "" then renderListDependencyAnnotations sorters items depsMode item indent else []
  printEach (fun i => i.id) (rootRow Item.toIssue annotate) (renderListChildren annotate groups fuel) roots

end Haxe

end Beads.ListTree
