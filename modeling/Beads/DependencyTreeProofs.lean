import Beads.DependencyTree
import Beads.BlockedStateProofs

/-! What the flattened tree contains. The traversal is a depth-first search with a limit:
every node is shown once, at the end of a path, and an issue within reach is missing only
below a node that was first met at the limit. -/
namespace Beads
open Lib

namespace Store
variable {s : Store} {reverse : Bool} {root : String} {visited visited' visited'' : List String}
  {nodes nodes' : List TreeNode}

/-- The ids of the nodes. -/
def shown (nodes : List TreeNode) : List String := nodes.map fun n => n.issue.id

/-- What a part of the traversal has shown, and that it has visited nothing else. -/
structure Explored (visited : List String) (nodes : List TreeNode) (visited' : List String) :
    Prop where
  visits : ∀ x, x ∈ visited' ↔ x ∈ visited ∨ x ∈ shown nodes
  fresh : ∀ x ∈ shown nodes, x ∉ visited
  nodup : (shown nodes).Nodup

namespace Explored

private theorem refl : Explored visited [] visited where
  visits x := by simp [shown]
  fresh x none := absurd none List.not_mem_nil
  nodup := List.nodup_nil

private theorem trans (first : Explored visited nodes visited')
    (second : Explored visited' nodes' visited'') :
    Explored visited (nodes ++ nodes') visited'' := by
  have both : shown (nodes ++ nodes') = shown nodes ++ shown nodes' := List.map_append
  constructor
  · intro x
    rw [second.visits, first.visits, both, List.mem_append, or_assoc]
  · intro x listed
    rw [both] at listed
    rcases List.mem_append.mp listed with early | late
    · exact first.fresh x early
    · exact fun held => second.fresh x late ((first.visits x).mpr (Or.inl held))
  · rw [both]
    refine List.nodup_append.mpr ⟨first.nodup, second.nodup, ?_⟩
    rintro x early _ late rfl
    exact second.fresh x late ((first.visits x).mpr (Or.inr early))

/-- A node in front of everything that was explored below it. -/
theorem cons (node : TreeNode) (unseen : node.issue.id ∉ visited)
    (below : Explored (node.issue.id :: visited) nodes visited') :
    Explored visited (node :: nodes) visited' := by
  have both : shown (node :: nodes) = node.issue.id :: shown nodes := List.map_cons
  constructor
  · intro x
    rw [below.visits, both, List.mem_cons, List.mem_cons]
    tauto
  · intro x listed
    rw [both] at listed
    rcases List.mem_cons.mp listed with rfl | later
    · exact unseen
    · exact fun held => below.fresh x later (List.mem_cons_of_mem _ held)
  · rw [both]
    exact List.nodup_cons.mpr ⟨fun again => below.fresh _ again List.mem_cons_self, below.nodup⟩

end Explored

theorem getIssue_id {id : String} {r : Row} (found : s.getIssue id = some r) : r.id = id := by
  rcases Option.or_eq_some_iff.mp found with durable | ⟨-, wisp⟩
  · exact (row?_eq_some.mp durable).2
  · exact (row?_eq_some.mp wisp).2

private theorem isIssue_of_related {id : String} {rel : String × DependencyType}
    (listed : rel ∈ s.relatedWithMetadata reverse id) : (s.getIssue rel.1).isSome = true :=
  (List.mem_filter.mp listed).2

/-- A call on an issue visits what the search with the levels that are left visits, and
shows what it adds to the visited ids. -/
theorem buildDependencyTree_spec (reverse : Bool) (left depth : Nat) (id parentID : String)
    (edge : Option DependencyType) (visited : List String)
    (isIssue : (s.getIssue id).isSome = true) :
    ∃ nodes, s.buildDependencyTree reverse left depth id parentID edge visited =
        .ok (nodes, DepthLimit.search (s.treeNeighbors reverse) left id visited) ∧
      Explored visited nodes (DepthLimit.search (s.treeNeighbors reverse) left id visited) := by
  induction left generalizing depth id parentID edge visited with
  | zero => exact ⟨[], rfl, .refl⟩
  | succ left ih =>
    rw [buildDependencyTree, DepthLimit.search]
    by_cases seen : id ∈ visited
    · rw [if_pos seen, if_pos seen]
      exact ⟨[], rfl, .refl⟩
    · rw [if_neg seen, if_neg seen]
      obtain ⟨issue, found⟩ := Option.isSome_iff_exists.mp isIssue
      obtain rfl := getIssue_id found
      rw [found]
      -- The loop over the edges, from any set of visited ids.
      have children : ∀ (rels : List (String × DependencyType)) (sofar : List TreeNode)
          (before : List String),
          (∀ rel ∈ rels, rel ∈ s.relatedWithMetadata reverse issue.id) →
          ∃ more, rels.foldlM (fun sofar rel => do
              let children ← s.buildDependencyTree reverse left (depth + 1) rel.1 issue.id (some rel.2) sofar.2
              return (sofar.1 ++ children.1, children.2)) (sofar, before) =
              .ok (sofar ++ more, (rels.map Prod.fst).foldl
                (fun visited y => DepthLimit.search (s.treeNeighbors reverse) left y visited) before) ∧
            Explored before more ((rels.map Prod.fst).foldl
              (fun visited y => DepthLimit.search (s.treeNeighbors reverse) left y visited) before) := by
        intro rels
        induction rels with
        | nil =>
          intro sofar before _
          refine ⟨[], ?_, .refl⟩
          rw [List.append_nil]
          rfl
        | cons rel rest each =>
          intro sofar before edges
          obtain ⟨listed, others⟩ := List.forall_mem_cons.mp edges
          obtain ⟨nodes, built, explored⟩ := ih (depth + 1) rel.1 issue.id (some rel.2) before
            (isIssue_of_related listed)
          obtain ⟨more, folded, explored'⟩ := each (sofar ++ nodes) _ others
          refine ⟨nodes ++ more, ?_, explored.trans explored'⟩
          rw [List.foldlM_cons, built, ← List.append_assoc]
          exact folded
      obtain ⟨more, folded, explored⟩ := children
        ((s.relatedWithMetadata reverse issue.id).filter fun rel => rel.2.IsDependencyTreeEdge)
        [⟨issue, depth, parentID, edge⟩] (issue.id :: visited) fun rel listed => (List.mem_filter.mp listed).1
      exact ⟨_, folded, explored.cons ⟨issue, depth, parentID, edge⟩ seen⟩

/-- The nodes of the tree of an issue are what the search from it visits, each once. -/
theorem getDependencyTree_shown (reverse : Bool) (isIssue : (s.getIssue root).isSome = true)
    (maxDepth : Int) :
    ∃ nodes, s.getDependencyTree root maxDepth reverse = .ok nodes ∧ (shown nodes).Nodup ∧
      ∀ id, id ∈ shown nodes ↔ id ∈ DepthLimit.search (s.treeNeighbors reverse) maxDepth.toNat root [] := by
  obtain ⟨nodes, built, explored⟩ :=
    buildDependencyTree_spec reverse maxDepth.toNat 0 root "" none [] isIssue
  refine ⟨nodes, ?_, explored.nodup, fun id => ?_⟩
  · rw [getDependencyTree, built]
    rfl
  · rw [explored.visits, or_iff_right List.not_mem_nil]

/-- The tree of an issue shows every id once, and only ids that a path of fewer edges
than the limit leads to. It shows all of them exactly if ways to them can be laid in the
order of the rows. -/
theorem getDependencyTree_exact (s : Store) (root : String)
    (isIssue : (s.getIssue root).isSome = true) (maxDepth : Int) (reverse : Bool) :
    ∃ nodes, s.getDependencyTree root maxDepth reverse = .ok nodes ∧ (shown nodes).Nodup ∧
      (∀ id ∈ shown nodes, DepthLimit.Within (s.treeNeighbors reverse) root maxDepth.toNat id) ∧
      ((∀ id, id ∈ shown nodes ↔ DepthLimit.Within (s.treeNeighbors reverse) root maxDepth.toNat id) ↔
        ∃ way, DepthLimit.Laid (s.treeNeighbors reverse) root maxDepth.toNat way) := by
  obtain ⟨nodes, built, nodup, visits⟩ := getDependencyTree_shown reverse isIssue maxDepth
  have sound : ∀ id ∈ shown nodes, DepthLimit.Within
      (s.treeNeighbors reverse) root maxDepth.toNat id := by
    intro id listed
    exact (DepthLimit.within_of_search maxDepth.toNat (Nat.zero_add _) (.nil _ root)
      ((visits id).mp listed)).resolve_left List.not_mem_nil
  refine ⟨nodes, built, nodup, sound, ?_⟩
  rw [← DepthLimit.search_complete_iff]
  constructor
  · exact fun whole id within => (visits id).mp ((whole id).mpr within)
  · exact fun complete id => ⟨sound id, fun within => (visits id).mpr (complete id within)⟩

/-- Four issues: the second is a detour from the first to the fourth, which leads to the
third. -/
def detour : Store where
  rows
    | .issues =>
      ⟨[{ id := "bd-1" }, { id := "bd-2" }, { id := "bd-3" }, { id := "bd-4" }], by decide⟩
    | .wisps => Table.empty
  deps
    | .issues => ⟨[⟨"bd-1", .node (.issues, "bd-2"), .blocks, .empty⟩,
        ⟨"bd-1", .node (.issues, "bd-4"), .blocks, .empty⟩,
        ⟨"bd-2", .node (.issues, "bd-4"), .blocks, .empty⟩,
        ⟨"bd-4", .node (.issues, "bd-3"), .blocks, .empty⟩], by decide⟩
    | .wisps => Table.empty

private theorem detour_within_two {id : String}
    (within : DepthLimit.Within (detour.treeNeighbors false) "bd-1" 2 id) :
    id = "bd-1" ∨ id = "bd-2" ∨ id = "bd-4" := by
  obtain ⟨_, short, path, chain, head, last, rfl⟩ := within
  match path with
  | [] => cases head
  | [_] =>
    cases head
    cases last
    exact .inl rfl
  | [_, _] =>
    cases head
    cases last
    have edge := (List.isChain_cons_cons.mp chain).1
    rw [show detour.treeNeighbors false "bd-1" = ["bd-2", "bd-4"] by decide] at edge
    exact .inr (by simpa using edge)
  | _ :: _ :: _ :: _ => exact absurd short (by simp)

/-- With two levels the detour is not long enough to hide anything: the ways to the second
and the fourth issue are the two rows of the first. -/
theorem getDependencyTree_exact_detour :
    ∃ nodes, detour.getDependencyTree "bd-1" 2 false = .ok nodes ∧
    ∀ id, id ∈ shown nodes ↔ DepthLimit.Within (detour.treeNeighbors false) "bd-1" 2 id := by
  obtain ⟨nodes, built, -, -, whole⟩ := getDependencyTree_exact detour "bd-1" (by decide) 2 false
  have top : DepthLimit.Within (detour.treeNeighbors false) "bd-1" 2 "bd-1" :=
    ⟨1, by decide, .nil _ _⟩
  refine ⟨nodes, built, whole.mpr
    ⟨fun id => if id = "bd-2" then [0] else if id = "bd-4" then [1] else [], rfl, ?_, ?_, ?_⟩⟩
  · intro y within away
    rcases detour_within_two within with rfl | rfl | rfl
    · exact absurd rfl away
    · exact ⟨"bd-1", 0, top, by decide, rfl⟩
    · exact ⟨"bd-1", 1, top, by decide, rfl⟩
  · intro y within
    rcases detour_within_two within with rfl | rfl | rfl <;> decide
  · intro x within room k y listed
    rcases detour_within_two within with rfl | rfl | rfl
    · rw [show detour.treeNeighbors false "bd-1" = ["bd-2", "bd-4"] by decide] at listed
      match k with
      | 0 =>
        cases listed
        decide
      | 1 =>
        cases listed
        decide
      | k + 2 => cases listed
    · exact absurd room (by decide)
    · exact absurd room (by decide)

/-- With three levels the third issue is two edges away and is not shown. -/
theorem detour_hides_issue : ¬ ∃ nodes, detour.getDependencyTree "bd-1" 3 false = .ok nodes ∧
    ∀ id, id ∈ shown nodes ↔ DepthLimit.Within (detour.treeNeighbors false) "bd-1" 3 id := by
  rintro ⟨nodes, built, exact_⟩
  have tree : (detour.getDependencyTree "bd-1" 3 false).map shown = .ok
      ["bd-1", "bd-2", "bd-4"] := by
    decide +kernel
  rw [built] at tree
  have same : shown nodes = ["bd-1", "bd-2", "bd-4"] := Except.ok.inj tree
  have away : "bd-3" ∉ shown nodes := by
    rw [same]
    decide
  refine away ((exact_ "bd-3").mpr ⟨3, by decide, ["bd-1", "bd-4", "bd-3"], ?_, rfl, rfl, rfl⟩)
  exact List.isChain_cons_cons.mpr ⟨by decide, List.isChain_cons_cons.mpr ⟨by decide, .singleton _⟩⟩

end Store
end Beads
