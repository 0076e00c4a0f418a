import Beads.TreeWalk
import Beads.DependencyTreeProofs

/-! What a pruned walk answers with. In a walk every node but the root hangs below
another node of the walk, one level higher, so the parents that pruning follows are the
ancestors of the walk and all of them lead to the root. -/
namespace Beads
open Lib Relation

/-! ## The shape of a walk -/

/-- The nodes hang below the given one: the first is on its own level, and every other
node has its parent in the list, one level higher. -/
structure Rooted (s : Store) (id parentID : String) (depth : Nat) (nodes : List TreeNode) :
    Prop where
  first : ∀ n ∈ nodes.head?, n.issue.id = id ∧ n.parentID = parentID
  below : ∀ n ∈ nodes, (n.issue.id = id ∧ n.parentID = parentID ∧ n.depth = depth) ∨
    ∃ m ∈ nodes, m.issue.id = n.parentID ∧ m.depth + 1 = n.depth
  stored : ∀ n ∈ nodes, s.getIssue n.issue.id = some n.issue

theorem Rooted.nil {s : Store} {id parentID : String} {depth : Nat} :
    Rooted s id parentID depth [] where
  first := by simp
  below := by simp
  stored := by simp

/-- The nodes of a child are added behind its parent. -/
theorem Rooted.append {s : Store} {id parentID childID : String} {depth : Nat}
    {nodes more : List TreeNode}
    (rooted : Rooted s id parentID depth nodes)
    (top : ∃ n ∈ nodes, n.issue.id = id ∧ n.depth = depth)
    (child : Rooted s childID id (depth + 1) more) :
    Rooted s id parentID depth (nodes ++ more) where
  first := by
    obtain ⟨n, held, -⟩ := top
    cases nodes with
    | nil => cases held
    | cons first rest => simpa using rooted.first
  below n listed := by
    rcases List.mem_append.mp listed with early | late
    · rcases rooted.below n early with here | ⟨m, held, above⟩
      · exact Or.inl here
      · exact Or.inr ⟨m, List.mem_append_left _ held, above⟩
    · rcases child.below n late with ⟨-, parent, level⟩ | ⟨m, held, above⟩
      · obtain ⟨m, held, same, depth⟩ := top
        exact Or.inr ⟨m, List.mem_append_left _ held, by simp [same, parent],
          by simp [depth, level]⟩
      · exact Or.inr ⟨m, List.mem_append_right _ held, above⟩
  stored n listed := by
    rcases List.mem_append.mp listed with early | late
    · exact rooted.stored n early
    · exact child.stored n late

namespace Store
variable {s : Store} {reverse : Bool}

private theorem buildDependencyTree_rooted {left depth : Nat} {id parentID : String}
    {edge : Option DependencyType} {visited visited' : List String} {nodes : List TreeNode}
    (built : s.buildDependencyTree reverse left depth id parentID edge visited = .ok (nodes, visited')) :
    Rooted s id parentID depth nodes := by
  induction left generalizing depth id parentID edge visited nodes visited' with
  | zero =>
    cases built
    exact .nil
  | succ left ih =>
    rw [buildDependencyTree] at built
    split at built
    · cases built
      exact .nil
    · split at built
      · cases built
      · next issue found =>
        obtain rfl := getIssue_id found
        -- The nodes grow behind the first one, child by child.
        suffices grows : ∀ (rels : List (String × DependencyType)) (sofar : List TreeNode)
            (before : List String),
            Rooted s issue.id parentID depth sofar → (∃ n ∈ sofar, n.issue.id = issue.id ∧ n.depth = depth) →
            rels.foldlM (fun sofar rel => do
              let children ← s.buildDependencyTree reverse left (depth + 1) rel.1 issue.id (some rel.2) sofar.2
              return (sofar.1 ++ children.1, children.2)) (sofar, before) = .ok (nodes, visited') →
            Rooted s issue.id parentID depth nodes by
          apply grows _ _ _ _ _ built
          · constructor
            · simp
            · simp
            · simpa using found
          · exact ⟨_, List.mem_singleton.mpr rfl, rfl, rfl⟩
        intro rels
        induction rels with
        | nil =>
          intro sofar before rooted _ done
          cases done
          exact rooted
        | cons rel rest each =>
          intro sofar before rooted top folded
          rw [List.foldlM_cons] at folded
          obtain ⟨step, made, folded⟩ := bind_eq_ok.mp folded
          obtain ⟨children, called, made⟩ := bind_eq_ok.mp made
          cases made
          apply each _ _ (rooted.append top (ih called)) _ folded
          obtain ⟨n, held, here⟩ := top
          exact ⟨n, List.mem_append_left _ held, here⟩

end Store

/-- The whole walk from a root: it starts with the root, whose parent is empty, and no
id occurs twice. -/
structure WholeWalk (s : Store) (root : String) (nodes : List TreeNode) : Prop where
  rooted : Rooted s root "" 0 nodes
  nodup : (Store.shown nodes).Nodup
  nonempty : nodes ≠ []

private theorem Store.getDependencyTree_whole {s : Store} {root : String}
    (held : (s.getIssue root).isSome = true)
    {maxDepth : Int} (deep : 1 ≤ maxDepth) (reverse : Bool) :
    ∃ nodes, s.getDependencyTree root maxDepth reverse = .ok nodes ∧ WholeWalk s root nodes := by
  obtain ⟨nodes, built, nodup, visits⟩ := getDependencyTree_shown reverse held maxDepth
  refine ⟨nodes, built, ?_, nodup, ?_⟩
  · obtain ⟨⟨nodes', visited'⟩, called, same⟩ := bind_eq_ok.mp built
    cases same
    exact buildDependencyTree_rooted called
  · rintro rfl
    exact List.not_mem_nil ((visits root).mpr (Lib.DepthLimit.root_mem_search (by omega)))

namespace WholeWalk
variable {s : Store} {root : String} {nodes : List TreeNode} {n m : TreeNode}

private theorem eq_of_id (walk : WholeWalk s root nodes) (left : n ∈ nodes) (right : m ∈ nodes)
    (same : n.issue.id = m.issue.id) : n = m :=
  List.inj_on_of_nodup_map walk.nodup left right same

/-- The walk starts with the root. -/
theorem exists_root (walk : WholeWalk s root nodes) : ∃ first rest, nodes = first :: rest ∧
    first.issue.id = root ∧ first.parentID = "" ∧ ∀ n ∈ rest, n.issue.id ≠ root := by
  obtain ⟨first, rest, rfl⟩ := List.exists_cons_of_ne_nil walk.nonempty
  obtain ⟨here, parent⟩ := walk.rooted.first first rfl
  refine ⟨first, rest, rfl, here, parent, fun n held same => ?_⟩
  have distinct := (List.nodup_cons.mp walk.nodup).1
  exact distinct (List.mem_map.mpr ⟨n, held, by simp [same, here]⟩)

private theorem id_ne_empty (walk : WholeWalk s root nodes) (named : s.IdsNamed)
    (held : n ∈ nodes) :
    n.issue.id ≠ "" := by
  intro empty
  have stored := walk.rooted.stored n held
  rw [empty] at stored
  rcases Option.or_eq_some_iff.mp stored with durable | ⟨-, wisp⟩
  · exact named .issues ⟨n.issue, (Store.row?_eq_some.mp durable).1, empty⟩
  · exact named .wisps ⟨n.issue, (Store.row?_eq_some.mp wisp).1, empty⟩

end WholeWalk

/-! ## Survivors -/

/-- The second id is the parent of the first in the walk. -/
def ChildOf (nodes : List TreeNode) (a b : String) : Prop :=
  ∃ n ∈ nodes, n.issue.id = a ∧ n.parentID = b ∧ ∃ m ∈ nodes, m.issue.id = b

/-- The node carries the status, or is an ancestor of a node that does. -/
def Survives (nodes : List TreeNode) (status : Status) (id : String) : Prop :=
  ∃ n ∈ nodes, n.issue.status = status ∧ ReflTransGen (ChildOf nodes) n.issue.id id

open Classical in
/-- The nodes that survive, in the order of the walk. -/
noncomputable def survivors (nodes : List TreeNode) (status : Status) : List TreeNode :=
  nodes.filter fun n => Survives nodes status n.issue.id

theorem mem_survivors {nodes : List TreeNode} {status : Status} {n : TreeNode} :
    n ∈ survivors nodes status ↔ n ∈ nodes ∧ Survives nodes status n.issue.id := by
  simp [survivors]

namespace WholeWalk
variable {s : Store} {root : String} {nodes : List TreeNode} {n m : TreeNode}

/-- The map of parents is the relation between the nodes of the walk. -/
theorem parentOf_iff (walk : WholeWalk s root nodes) (named : s.IdsNamed) (a b : String) :
    Ancestry.Parent (parentOf nodes) a b ↔ ChildOf nodes a b := by
  have entries : Ancestry.Parent (parentOf nodes) a b ↔
      ∃ n ∈ nodes, n.issue.id = a ∧ n.parentID = b ∧ b ≠ "" ∧ b ≠ a := by
    unfold Ancestry.Parent parentOf
    rw [Option.map_eq_some_iff]
    constructor
    · rintro ⟨n, last, rfl⟩
      have listed := List.mem_of_mem_getLast? last
      simp only [List.mem_filter, decide_eq_true_eq] at listed
      obtain ⟨held, rfl, nonempty, differs⟩ := listed
      exact ⟨n, held, rfl, rfl, nonempty, differs⟩
    · rintro ⟨n, held, rfl, rfl, nonempty, differs⟩
      have listed : n ∈ nodes.filter fun m =>
          m.issue.id = n.issue.id ∧ m.parentID ≠ "" ∧ m.parentID ≠ m.issue.id := by
        simp [held, nonempty, differs]
      obtain ⟨last, found⟩ : ∃ last, (nodes.filter fun m =>
          m.issue.id = n.issue.id ∧ m.parentID ≠ "" ∧ m.parentID ≠ m.issue.id).getLast? = some last :=
        ⟨_, List.getLast?_eq_some_getLast (List.ne_nil_of_mem listed)⟩
      have there := List.mem_of_mem_getLast? found
      simp only [List.mem_filter, decide_eq_true_eq] at there
      refine ⟨last, found, ?_⟩
      rw [walk.eq_of_id there.1 held there.2.1]
  rw [entries]
  constructor
  · rintro ⟨n, held, here, parent, nonempty, -⟩
    rcases walk.rooted.below n held with ⟨-, top, -⟩ | ⟨m, there, above, -⟩
    · exact absurd (parent.symm.trans top) nonempty
    · exact ⟨n, held, here, parent, m, there, above.trans parent⟩
  · rintro ⟨n, held, rfl, rfl, m, there, above⟩
    have nonempty : n.parentID ≠ "" := above ▸ walk.id_ne_empty named there
    refine ⟨n, held, rfl, rfl, nonempty, fun same => ?_⟩
    rcases walk.rooted.below n held with ⟨-, top, -⟩ | ⟨m', there', above', level⟩
    · exact nonempty top
    · obtain rfl := walk.eq_of_id there' held (above'.trans same)
      omega

private theorem pruneTreeByStatus_returns (walk : WholeWalk s root nodes) (named : s.IdsNamed)
    (status : Status) : (pruneTreeByStatus nodes status).Returns (survivors nodes status) := by
  have known : ∀ a b, Ancestry.Parent (parentOf nodes) a b → b ∈ nodes.map fun n => n.issue.id := by
    intro a b parent
    obtain ⟨n, held, -, -, m, there, rfl⟩ := (walk.parentOf_iff named a b).mp parent
    exact List.mem_map_of_mem there
  obtain ⟨keep, returns, members⟩ := Ancestry.keepAll_spec (ε := WalkTreeError) known
    ((nodes.filter fun n => n.issue.status = status).map fun n => n.issue.id)
  refine Call.returns_bind.mpr ⟨keep, returns, Call.returns_pure.mpr ?_⟩
  have above : Ancestry.Parent (parentOf nodes) = ChildOf nodes := by
    funext a b
    exact propext (walk.parentOf_iff named a b)
  apply List.filter_congr
  intro n _
  rw [decide_eq_decide, members]
  simp only [Ancestry.Above, above, List.mem_map, List.mem_filter, decide_eq_true_eq, Survives]
  constructor
  · rintro ⟨_, ⟨m, ⟨held, carries⟩, rfl⟩, path⟩
    exact ⟨m, held, carries, path⟩
  · rintro ⟨m, held, carries, path⟩
    exact ⟨_, ⟨m, ⟨held, carries⟩, rfl⟩, path⟩

/-- The ancestors of a node lead to the root. -/
theorem reaches_root (walk : WholeWalk s root nodes) (held : n ∈ nodes) :
    ReflTransGen (ChildOf nodes) n.issue.id root := by
  induction level : n.depth generalizing n with
  | zero =>
    rcases walk.rooted.below n held with ⟨here, -, -⟩ | ⟨m, -, -, above⟩
    · rw [here]
    · omega
  | succ depth ih =>
    rcases walk.rooted.below n held with ⟨here, -, -⟩ | ⟨m, there, parent, above⟩
    · rw [here]
    · have rest := ih there (by omega)
      rw [parent] at rest
      exact ReflTransGen.head ⟨n, held, rfl, rfl, m, there, parent⟩ rest

/-- If anything survives, the root does. -/
theorem survives_root (walk : WholeWalk s root nodes) {status : Status} {id : String}
    (survives : Survives nodes status id) : Survives nodes status root := by
  obtain ⟨n, held, carries, -⟩ := survives
  exact ⟨n, held, carries, walk.reaches_root held⟩

/-- The parent of a survivor survives. -/
theorem parent_survives (walk : WholeWalk s root nodes) {status : Status}
    (survivor : n ∈ survivors nodes status)
    (below : n.issue.id ≠ root) : ∃ m ∈ survivors nodes status, m.issue.id = n.parentID := by
  obtain ⟨held, x, listed, carries, path⟩ := mem_survivors.mp survivor
  rcases walk.rooted.below n held with ⟨here, -, -⟩ | ⟨m, there, parent, -⟩
  · exact absurd here below
  · refine ⟨m, mem_survivors.mpr ⟨there, x, listed, carries, ?_⟩, parent⟩
    rw [parent]
    exact path.tail ⟨n, held, rfl, rfl, m, there, parent⟩

/-- A survivor is below the root, or there is no survivor at all. -/
theorem survivors_eq (walk : WholeWalk s root nodes) (status : Status) : ∃ first, first ∈ nodes ∧
    first.issue.id = root ∧ nodes.find? (fun n => n.issue.id = root) = some first ∧
    survivors nodes status = (if survivors nodes status = [] then [] else [first]) ++
      (survivors nodes status).filter fun n => n.issue.id ≠ root := by
  obtain ⟨first, rest, rfl, here, -, others⟩ := walk.exists_root
  refine ⟨first, List.mem_cons_self, here, by simp [here], ?_⟩
  by_cases none : survivors (first :: rest) status = []
  · simp [none]
  · obtain ⟨n, survivor⟩ := List.exists_mem_of_ne_nil _ none
    have top : Survives (first :: rest) status first.issue.id := by
      rw [here]
      exact walk.survives_root (mem_survivors.mp survivor).2
    have rest_ne : ∀ m ∈ rest.filter
        (fun n => open Classical in decide (Survives (first :: rest) status n.issue.id)),
        decide (m.issue.id ≠ root) = true := by
      intro m held
      simp [others m (List.mem_filter.mp held).1]
    rw [if_neg none, survivors, List.filter_cons_of_pos (by simpa using top)]
    rw [List.filter_cons_of_neg (by simp [here]), List.filter_eq_self.mpr rest_ne]
    rfl

end WholeWalk

/-! ## The answer of a walk -/

/-- The walks that a direction asks for, up before down; true is up. -/
def TreeDirection.halves : TreeDirection → List Bool
  | .both => [true, false]
  | .up => [true]
  | .down | .other _ => [false]

/-- The survivors of a walk below its root. -/
noncomputable def half (root : String) (status : Status) (walked : List TreeNode) : List TreeNode :=
  (survivors walked status).filter fun n => n.issue.id ≠ root

/-- What is left of the walks of a direction. Below the root these are the survivors of
each walk, and the root is there exactly once unless nothing survives. -/
structure PrunedWalk (root : String) (status : Status) (walked : Bool → List TreeNode)
    (direction : TreeDirection) (nodes : List TreeNode) : Prop where
  one : direction ≠ .both → nodes = survivors (walked (direction = .up)) status
  both : direction = .both → ∃ top ∈ walked false, top.issue.id = root ∧ nodes = half root status (walked true) ++
    (if ∀ reverse, survivors (walked reverse) status = [] then [] else [top]) ++ half root status (walked false)
  below : (nodes.filter fun n => n.issue.id ≠ root) = direction.halves.flatMap fun reverse =>
    half root status (walked reverse)
  once : nodes.countP (fun n => n.issue.id = root) =
    if ∀ reverse ∈ direction.halves, survivors (walked reverse) status = [] then 0 else 1
  parents : ∀ reverse ∈ direction.halves, ∀ n ∈ half root status (walked reverse),
    n.parentID = root ∨ ∃ m ∈ half root status (walked reverse), m.issue.id = n.parentID

section Answer
variable {s : Store} {root : String} {status : Status} {walked : Bool → List TreeNode}
  {direction : TreeDirection}

theorem parents_of_whole {nodes : List TreeNode} (walk : WholeWalk s root nodes) :
    ∀ n ∈ half root status nodes, n.parentID = root ∨
      ∃ m ∈ half root status nodes, m.issue.id = n.parentID := by
  intro n listed
  simp only [half, List.mem_filter, decide_eq_true_eq] at listed
  obtain ⟨m, survivor, parent⟩ := walk.parent_survives listed.1 listed.2
  by_cases top : n.parentID = root
  · exact Or.inl top
  · refine Or.inr ⟨m, ?_, parent⟩
    simp [half, survivor, parent, top]

theorem countP_half (walked : List TreeNode) :
    (half root status walked).countP (fun n => n.issue.id = root) = 0 := by
  simp [half, List.countP_eq_zero]

/-- A walk in one direction. -/
theorem prunedWalk_one (walks : ∀ reverse, WholeWalk s root (walked reverse))
    (single : direction ≠ .both) :
    PrunedWalk root status walked direction (survivors (walked (direction = .up)) status) := by
  have halves : direction.halves = [decide (direction = .up)] := by
    cases direction <;> simp_all [TreeDirection.halves]
  obtain ⟨top, -, here, -, shape⟩ := (walks (direction = .up)).survivors_eq status
  constructor
  · exact fun _ => rfl
  · exact fun both => absurd both single
  · simp [halves, half]
  · rw [shape, List.countP_append]
    have rest : ((survivors (walked (direction = .up)) status).filter fun n => n.issue.id ≠ root).countP
        (fun n => n.issue.id = root) = 0 := countP_half _
    rw [rest, halves]
    by_cases none : survivors (walked (direction = .up)) status = []
    · simp [none]
    · simp [none, here]
  · rw [halves]
    simp only [List.mem_singleton, forall_eq]
    exact parents_of_whole (walks _)

/-- Two walks that are put together. -/
theorem prunedWalk_both (walks : ∀ reverse, WholeWalk s root (walked reverse)) :
    PrunedWalk root status walked .both (mergeBidirectionalTree
      (restoreRoot (walked false) (survivors (walked false) status) (survivors (walked true) status) root)
      (survivors (walked true) status) root) := by
  obtain ⟨top, held, here, found, shape⟩ := (walks false).survivors_eq status
  have merged : mergeBidirectionalTree
      (restoreRoot (walked false) (survivors (walked false) status) (survivors (walked true) status) root)
      (survivors (walked true) status) root = half root status (walked true) ++
        (if ∀ reverse, survivors (walked reverse) status = [] then [] else [top]) ++
          half root status (walked false) := by
    rw [mergeBidirectionalTree, List.append_assoc]
    apply congrArg (half root status (walked true) ++ ·)
    unfold restoreRoot
    by_cases down : survivors (walked false) status = []
    · by_cases up : survivors (walked true) status = []
      · simp [down, up, half]
      · simp [down, up, half, found]
    · have top_survives : ∃ n ∈ survivors (walked false) status, n.issue.id = root := by
        refine ⟨top, ?_, here⟩
        rw [shape, if_neg down]
        simp
      rw [if_pos (Or.inr top_survives)]
      simpa [down, half] using shape
  rw [merged]
  constructor
  · exact fun single => absurd rfl single
  · exact fun _ => ⟨top, held, here, rfl⟩
  · have kept : ∀ reverse, ((half root status (walked reverse)).filter fun n => n.issue.id ≠ root) =
        half root status (walked reverse) := by
      simp [half]
    simp only [List.filter_append, kept, TreeDirection.halves, List.flatMap_cons, List.flatMap_nil,
      List.append_nil]
    split
    · simp
    · simp [here]
  · simp only [List.countP_append, countP_half, TreeDirection.halves]
    have all : (∀ reverse ∈ [true, false], survivors (walked reverse) status = []) ↔
        ∀ reverse, survivors (walked reverse) status = [] := by
      simp [Bool.forall_bool]
    simp only [all]
    split
    · simp
    · simp [here]
  · exact fun reverse _ => parents_of_whole (walks reverse)

end Answer

private theorem WalkTreeRequest.depth_of_validate {req : WalkTreeRequest}
    {direction : TreeDirection} (valid : req.validate = .ok direction) : 1 ≤ req.maxDepth := by
  unfold validate at valid
  obtain ⟨-, valid⟩ := guard_eq_ok.mp valid
  split at valid
  · cases valid
  · have deep := (guard_eq_ok.mp valid).1
    omega

namespace Store
variable {s : Store} {root : String}

private theorem walkTree_returns {maxDepth : Int} {reverse : Bool} {nodes : List TreeNode}
    (built : s.getDependencyTree root maxDepth reverse = .ok nodes) :
    (s.walkTree root maxDepth reverse).Returns nodes := by
  apply Call.returns_ofExcept.mpr
  rw [built]
  rfl

private theorem walkTreeDirections_pruned (named : s.IdsNamed) {maxDepth : Int}
    {walked : Bool → List TreeNode} (direction : TreeDirection) (status : Status)
    (built : ∀ reverse, s.getDependencyTree root maxDepth reverse = .ok (walked reverse))
    (walks : ∀ reverse, WholeWalk s root (walked reverse)) :
    ∃ nodes, (s.walkTreeDirections root maxDepth direction (some status)).Returns nodes ∧
      PrunedWalk root status walked direction nodes := by
  have prunes (reverse : Bool) := (walks reverse).pruneTreeByStatus_returns named status
  unfold walkTreeDirections
  by_cases both : direction = .both
  · subst both
    refine ⟨_, ?_, prunedWalk_both walks⟩
    have halves : (pruneBidirectionalByStatus (walked false) (walked true) root status).Returns
        (restoreRoot (walked false) (survivors (walked false) status) (survivors (walked true) status) root,
          survivors (walked true) status) :=
      Call.returns_bind.mpr ⟨_, prunes false, Call.returns_bind.mpr ⟨_, prunes true, Call.returns_pure.mpr rfl⟩⟩
    apply Call.returns_bind.mpr
    refine ⟨_, walkTree_returns (built false),
      Call.returns_bind.mpr ⟨_, walkTree_returns (built true), ?_⟩⟩
    exact Call.returns_bind.mpr ⟨_, halves, Call.returns_pure.mpr rfl⟩
  · refine ⟨_, ?_, prunedWalk_one walks both⟩
    rw [if_pos both]
    exact Call.returns_bind.mpr ⟨_, walkTree_returns (built _), prunes _⟩

end Store

/-- A walk that is pruned by a status, from a root that is stored: its answer is the
pruned one, which is handed over unless it is larger than the cap. -/
theorem walkDependencyTree_pruned (s : Store) (named : s.IdsNamed) (req : WalkTreeRequest)
    (direction : TreeDirection) (valid : req.validate = .ok direction)
    (held : (s.getIssue req.rootID).isSome = true)
    (status : Status) (pruned : req.status = some status) :
    ∃ walked nodes, (∀ reverse, s.getDependencyTree req.rootID req.maxDepth reverse = .ok (walked reverse)) ∧
      PrunedWalk req.rootID status walked direction nodes ∧
      (s.walkDependencyTree req).Ends (Store.capNodes req nodes) := by
  choose walked built walks using Store.getDependencyTree_whole held (WalkTreeRequest.depth_of_validate valid)
  obtain ⟨nodes, returns, answer⟩ :=
    Store.walkTreeDirections_pruned named direction status built walks
  refine ⟨walked, nodes, built, answer, ?_⟩
  apply Call.ends_bind_ok (Call.returns_ofExcept.mpr valid)
  rw [if_neg (by simp [Option.isSome_iff_ne_none.mp held])]
  rw [pruned]
  exact Call.ends_bind_ok returns Call.ends_ofExcept

/-- The fourth issue is closed, the others lead to it. -/
def closedBelow : Store where
  rows
    | .issues =>
      ⟨[{ id := "bd-1" }, { id := "bd-2" }, { id := "bd-3" }, { id := "bd-4", status := .closed }], by decide⟩
    | .wisps => Table.empty
  deps
    | .issues => ⟨[⟨"bd-1", .node (.issues, "bd-2"), .blocks, .empty⟩,
        ⟨"bd-3", .node (.issues, "bd-1"), .blocks, .empty⟩,
        ⟨"bd-4", .node (.issues, "bd-3"), .blocks, .empty⟩], by decide⟩
    | .wisps => Table.empty

theorem walkDependencyTree_pruned_closedBelow : ∃ walked nodes,
    PrunedWalk "bd-1" .closed walked .both nodes ∧
      (closedBelow.walkDependencyTree
        { rootID := "bd-1", direction := .both, maxDepth := 5, status := some .closed }).Ends
        (.ok nodes) := by
  obtain ⟨walked, nodes, -, answer, ends⟩ := walkDependencyTree_pruned closedBelow (by decide)
    { rootID := "bd-1", direction := .both, maxDepth := 5, status := some .closed } .both rfl (by decide) .closed rfl
  exact ⟨walked, nodes, answer, ends⟩

example : ((closedBelow.walkDependencyTree
      { rootID := "bd-1", direction := .both, maxDepth := 5, status := some .closed }).value? 5).map Store.shown =
    some ["bd-3", "bd-4", "bd-1"] := by decide +kernel

end Beads
