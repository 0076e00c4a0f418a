import Mathlib.Algebra.GroupWithZero.Nat
import Mathlib.Algebra.Order.BigOperators.Group.List
import Beads.GraphLayout
import Beads.Lib.Numbering
import Beads.Lib.Ranks

/-! The layers of a layout. The first loop gives every node the length of its longest chain of
`blocks` edges, and the second one the highest such length among the node and its ancestors. So
no child is below its parent, and a node is above one that it is blocked by exactly when some
ancestor of the first outranks every ancestor of the second. -/
namespace Beads
open Lib Lib.Graph Relation

namespace TemplateSubgraph
variable {g : TemplateSubgraph} {x y z : String} {layer : String → Int}

/-- The first issue is blocked by the second one. -/
def Blocks (g : TemplateSubgraph) (x y : String) : Prop :=
  ∃ dep ∈ g.dependencies, dep.type = .blocks ∧ dep.issueID = x ∧ dep.dependsOnID = y

/-- The first issue is a child of the second one, and both are in the subgraph. -/
def Parent (g : TemplateSubgraph) (x y : String) : Prop :=
  (∃ dep ∈ g.dependencies, dep.type = .parentChild ∧ dep.issueID = x ∧ dep.dependsOnID = y) ∧
    x ∈ g.nodes ∧ y ∈ g.nodes

/-- The second issue is the first one or above it in the hierarchy. -/
abbrev Within (g : TemplateSubgraph) : String → String → Prop := ReflTransGen g.Parent

/-- A longer chain of blockers leads from the first issue than any from the second one. -/
def Outranks (g : TemplateSubgraph) (x y : String) : Prop :=
  ∃ n, Chain g.Blocks n x ∧ ¬ Chain g.Blocks n y

/-- What a layout is asked for: the `blocks` edges are inside and without a cycle, and no
issue has two parents. -/
structure Regular (g : TemplateSubgraph) : Prop where
  inside : ∀ x y, g.Blocks x y → x ∈ g.nodes ∧ y ∈ g.nodes
  acyclic : Acyclic g.Blocks
  single : ∀ a ∈ g.dependencies, ∀ b ∈ g.dependencies, a.type = .parentChild → b.type = .parentChild →
    a.issueID = b.issueID → a.dependsOnID = b.dependsOnID

theorem mem_dependsOn : y ∈ g.dependsOn x ↔ g.Blocks x y := by
  simp only [dependsOn, Blocks, List.mem_map, List.mem_filter, decide_eq_true_eq]
  constructor
  · rintro ⟨dep, ⟨held, type, source⟩, target⟩
    exact ⟨dep, held, type, source, target⟩
  · rintro ⟨dep, held, type, source, target⟩
    exact ⟨dep, ⟨held, type, source⟩, target⟩

/-- The parent that is recorded is the one there is. -/
theorem Regular.parentOf_iff (regular : g.Regular) : g.parentOf x = some y ↔
    ∃ dep ∈ g.dependencies, dep.type = .parentChild ∧ dep.issueID = x ∧ dep.dependsOnID = y := by
  have listed {dep : GraphDependency} : dep ∈ g.dependencies.filter (fun dep =>
      dep.type = .parentChild ∧ dep.issueID = x) ↔
      dep ∈ g.dependencies ∧ dep.type = .parentChild ∧ dep.issueID = x := by
    simp only [List.mem_filter, decide_eq_true_eq]
  rw [parentOf, Option.map_eq_some_iff]
  constructor
  · rintro ⟨dep, last, target⟩
    obtain ⟨held, type, source⟩ := listed.mp (List.mem_of_getLast? last)
    exact ⟨dep, held, type, source, target⟩
  · rintro ⟨dep, held, type, source, target⟩
    cases last : (g.dependencies.filter fun dep => dep.type = .parentChild ∧ dep.issueID = x).getLast? with
    | none =>
      have empty := List.getLast?_eq_none_iff.mp last
      have there := listed.mpr ⟨held, type, source⟩
      rw [empty] at there
      cases there
    | some other =>
      obtain ⟨held', type', source'⟩ := listed.mp (List.mem_of_getLast? last)
      refine ⟨other, rfl, ?_⟩
      rw [← target]
      exact regular.single other held' dep held type' type (source'.trans source.symm)

private theorem Regular.mem_children (regular : g.Regular) (recorded : g.parentOf x = some y) :
    x ∈ g.children := by
  obtain ⟨dep, held, type, source, -⟩ := regular.parentOf_iff.mp recorded
  rw [children, List.mem_dedup, List.mem_map]
  exact ⟨dep, by simp [held, type], source⟩

/-! ## The first loop -/

/-- Every layer that is given is the rank of its node. -/
structure Assigned (g : TemplateSubgraph) (layer : String → Int) : Prop where
  ranked : ∀ x, 0 ≤ layer x → ∃ n : Nat, layer x = n ∧ Rank g.Blocks x n

/-- The nodes that wait for a layer. -/
def waiting (g : TemplateSubgraph) (layer : String → Int) : Nat :=
  (g.nodes.map fun x => if 0 ≤ layer x then 0 else 1).sum

theorem le_foldl_max (layer : String → Int) {deps : List String} {depID : String}
    (held : depID ∈ deps) (start : Int) :
    layer depID ≤ deps.foldl (fun highest depID => max highest (layer depID)) start := by
  apply le_foldl_of_mem _ _ held
  · exact fun highest other => le_max_left highest (layer other)
  · exact fun highest => le_max_right highest (layer depID)

private theorem foldl_max_mem (layer : String → Int) (deps : List String) (start : Int) :
    deps.foldl (fun highest depID => max highest (layer depID)) start = start ∨
      ∃ depID ∈ deps, layer depID = deps.foldl (fun highest depID => max highest (layer depID)) start := by
  induction deps generalizing start with
  | nil => exact Or.inl rfl
  | cons first rest ih =>
    rw [List.foldl_cons]
    rcases ih (max start (layer first)) with same | ⟨depID, held, same⟩
    · rw [same]
      rcases max_choice start (layer first) with left | right
      · exact Or.inl left
      · exact Or.inr ⟨first, List.mem_cons_self, right.symm⟩
    · exact Or.inr ⟨depID, List.mem_cons_of_mem _ held, same⟩

/-- A layer is given when all blockers have one, and then it is the rank. -/
theorem assignLayer_eq (assigned : g.Assigned layer) {next : String → Int}
    (change : g.assignLayer x layer = some next) :
    layer x < 0 ∧ ∃ n : Nat, Rank g.Blocks x n ∧ next = Function.update layer x n := by
  rw [assignLayer] at change
  split at change
  · cases change
  · next open_ =>
    refine ⟨not_le.mp open_, ?_⟩
    split at change
    · next none =>
      refine ⟨0, Rank.zero fun y blocks => ?_, (Option.some.inj change).symm⟩
      rw [← mem_dependsOn, none] at blocks
      cases blocks
    · next some_ =>
      split at change
      · next all =>
        have each (depID : String) (held : depID ∈ g.dependsOn x) := le_foldl_max layer held (-1)
        have highest : ∃ depID ∈ g.dependsOn x, layer depID =
            (g.dependsOn x).foldl (fun highest depID => max highest (layer depID)) (-1) := by
          rcases foldl_max_mem layer (g.dependsOn x) (-1) with low | found
          · obtain ⟨first, rest, shape⟩ := List.exists_cons_of_ne_nil some_
            have held : first ∈ g.dependsOn x := shape ▸ List.mem_cons_self
            have le := each first held
            have assigned := (all first held).2
            omega
          · exact found
        obtain ⟨top, held, same⟩ := highest
        obtain ⟨n, value, rank⟩ := assigned.ranked top (all top held).2
        refine ⟨n + 1, ?_, ?_⟩
        · apply Rank.succ (mem_dependsOn.mp held) rank
          intro z blocks
          have listed := mem_dependsOn.mpr blocks
          obtain ⟨m, value', rank'⟩ := assigned.ranked z (all z listed).2
          have le := each z listed
          exact ⟨m, by omega, rank'⟩
        · rw [← Option.some.inj change, ← same, value]
          rfl
      · cases change

/-- A sum falls with one of its terms, when no other one rises. -/
theorem sum_update_lt {nodes : List String} (held : x ∈ nodes) {f : Int → Nat} {value : Int}
    (lower : f value < f (layer x)) :
    (nodes.map fun id => f (Function.update layer x value id)).sum < (nodes.map fun id => f (layer id)).sum := by
  apply List.sum_lt_sum
  · intro id _
    by_cases same : id = x
    · subst same
      simpa using lower.le
    · simp [same]
  · exact ⟨x, held, by simpa using lower⟩

/-- The first loop ends, and gives every node its rank. -/
theorem Regular.assign_returns (regular : g.Regular) (orders : Sweeps.Orders g.nodes) :
    ∃ layer, (Sweeps.untilQuiet g.assignLayer orders.order fun _ => -1 : Call Empty _).Returns layer ∧
      ∀ x ∈ g.nodes, ∃ n : Nat, layer x = n ∧ Rank g.Blocks x n := by
  have changes : ∀ x ∈ g.nodes, ∀ layer next, g.Assigned layer → g.assignLayer x layer = some next →
      g.Assigned next ∧ g.waiting next < g.waiting layer := by
    intro x held layer next assigned change
    obtain ⟨open_, n, rank, rfl⟩ := assignLayer_eq assigned change
    constructor
    · constructor
      intro id given
      by_cases same : id = x
      · subst same
        exact ⟨n, by simp, rank⟩
      · rw [Function.update_of_ne same] at given ⊢
        exact assigned.ranked id given
    · apply sum_update_lt (f := fun value => if 0 ≤ value then 0 else 1) held
      simp [not_le.mpr open_]
  have start : g.Assigned fun _ => -1 := ⟨fun x given => absurd given (by decide)⟩
  obtain ⟨layer, returns, assigned, quiet⟩ :=
    Sweeps.untilQuiet_returns g.Assigned g.waiting changes orders start
  refine ⟨layer, returns, ?_⟩
  intro x held
  apply assigned.ranked
  by_contra open_
  -- Among the nodes without a layer one is blocked by none of the others.
  have finite : {id | id ∈ g.nodes ∧ ¬ 0 ≤ layer id}.Finite :=
    g.nodes.finite_toSet.subset fun id inside => inside.1
  obtain ⟨last, ⟨listed, waits⟩, alone⟩ := regular.acyclic.exists_last finite ⟨x, held, open_⟩
  have stuck := quiet last listed
  rw [assignLayer, if_neg waits] at stuck
  have ready : ∀ depID ∈ g.dependsOn last, depID ∈ g.nodes ∧ 0 ≤ layer depID := by
    intro depID blocker
    have blocks := mem_dependsOn.mp blocker
    have inside := (regular.inside last depID blocks).2
    refine ⟨inside, ?_⟩
    by_contra open_
    exact alone depID ⟨inside, open_⟩ blocks
  simp only [if_pos ready] at stuck
  split at stuck <;> cases stuck

/-! ## The second loop -/

/-- The layer is the rank of the node or of one above it, and not below its own. -/
structure Lifted (g : TemplateSubgraph) (bound : Int) (layer : String → Int) : Prop where
  bounded : ∀ x ∈ g.nodes, layer x ≤ bound
  borrowed : ∀ x ∈ g.nodes, ∃ w n, g.Within x w ∧ Rank g.Blocks w n ∧ layer x = (n : Int)
  own : ∀ x ∈ g.nodes, ∀ n, Rank g.Blocks x n → (n : Int) ≤ layer x

/-- How far the nodes could still be lifted. -/
def room (g : TemplateSubgraph) (bound : Int) (layer : String → Int) : Nat :=
  (g.nodes.map fun x => (bound - layer x).toNat).sum

private theorem Regular.liftChild_eq (regular : g.Regular) {next : String → Int}
    (change : g.liftChild x layer = some next) :
    ∃ y, g.Parent x y ∧ layer x < layer y ∧ next = Function.update layer x (layer y) := by
  rw [liftChild] at change
  split at change
  · cases change
  · next parent recorded =>
    split at change
    · next below =>
      exact ⟨parent, ⟨regular.parentOf_iff.mp recorded, below.1, below.2.1⟩, below.2.2,
        (Option.some.inj change).symm⟩
    · cases change

/-- The second loop ends, and leaves no child below its parent. -/
theorem Regular.lift_returns (regular : g.Regular) (orders : Sweeps.Orders g.children) {bound : Int}
    (start : g.Lifted bound layer) :
    ∃ lifted, (Sweeps.untilQuiet g.liftChild orders.order layer : Call Empty _).Returns lifted ∧
      g.Lifted bound lifted ∧ ∀ x y, g.Parent x y → lifted y ≤ lifted x := by
  have changes : ∀ x ∈ g.children, ∀ layer next, g.Lifted bound layer → g.liftChild x layer = some next →
      g.Lifted bound next ∧ g.room bound next < g.room bound layer := by
    intro x _ layer next lifted change
    obtain ⟨y, parent, below, rfl⟩ := regular.liftChild_eq change
    have top := lifted.bounded y parent.2.2
    constructor
    · constructor
      · intro id held
        by_cases same : id = x
        · subst same
          simpa using top
        · simpa [same] using lifted.bounded id held
      · intro id held
        by_cases same : id = x
        · subst same
          obtain ⟨w, n, above, rank, value⟩ := lifted.borrowed y parent.2.2
          exact ⟨w, n, ReflTransGen.head parent above, rank, by simpa using value⟩
        · simpa [same] using lifted.borrowed id held
      · intro id held n rank
        by_cases same : id = x
        · subst same
          have own := lifted.own id held n rank
          simpa using own.trans below.le
        · simpa [same] using lifted.own id held n rank
    · apply sum_update_lt (f := fun value => (bound - value).toNat) parent.2.1
      omega
  obtain ⟨lifted, returns, held, quiet⟩ :=
    Sweeps.untilQuiet_returns (g.Lifted bound) (g.room bound) changes orders start
  refine ⟨lifted, returns, held, ?_⟩
  intro x y parent
  have recorded := regular.parentOf_iff.mpr parent.1
  have none := quiet x (regular.mem_children recorded)
  simp only [liftChild, recorded, parent.2.1, parent.2.2, true_and] at none
  by_contra below
  rw [if_pos (not_le.mp below)] at none
  cases none

/-! ## The layout -/

/-- Where no child is below its parent, no node is below one of its ancestors. -/
theorem Within.le (ordered : ∀ x y, g.Parent x y → layer y ≤ layer x) (held : x ∈ g.nodes)
    (within : g.Within x z) :
    z ∈ g.nodes ∧ layer z ≤ layer x := by
  induction within with
  | refl => exact ⟨held, le_refl _⟩
  | tail _ parent ih => exact ⟨parent.2.2, (ordered _ _ parent).trans ih.2⟩

/-- A node is above one that it is blocked by exactly when it or an ancestor outranks that one
and every ancestor of it. -/
theorem Lifted.lt_iff {bound : Int} (lifted : g.Lifted bound layer)
    (ranked : ∀ x ∈ g.nodes, ∃ n : Nat, Rank g.Blocks x n)
    (ordered : ∀ x y, g.Parent x y → layer y ≤ layer x) (left : x ∈ g.nodes) (right : y ∈ g.nodes) :
    layer y < layer x ↔ ∀ z, g.Within y z → ∃ w, g.Within x w ∧ g.Outranks w z := by
  constructor
  · intro below z within
    obtain ⟨there, le⟩ := Within.le ordered right within
    obtain ⟨m, rank'⟩ := ranked z there
    obtain ⟨w, n, within', rank, value⟩ := lifted.borrowed x left
    refine ⟨w, within', (rank.lt_iff rank').mp ?_⟩
    have own := lifted.own z there m rank'
    omega
  · intro outranked
    obtain ⟨z, m, within, rank', value⟩ := lifted.borrowed y right
    obtain ⟨w, within', longer⟩ := outranked z within
    obtain ⟨there, le⟩ := Within.le ordered left within'
    obtain ⟨n, rank⟩ := ranked w there
    have own := lifted.own w there n rank
    have lt := (rank.lt_iff rank').mpr longer
    omega

/-- The layout is computed whatever the orders of the maps are, no child is below its parent,
and every issue is above those it is blocked by if and only if, for each of them, it or an
ancestor of it outranks that one and every ancestor of that one. -/
theorem computeLayout_layers (g : TemplateSubgraph) (regular : g.Regular)
    (assigned : Sweeps.Orders g.nodes) (lifted : Sweeps.Orders g.children) :
    ∃ layout, (g.computeLayout assigned lifted).Returns layout ∧
      (((∀ x y, g.Blocks x y → layout.layer y < layout.layer x) ∧
          ∀ x y, g.Parent x y → layout.layer y ≤ layout.layer x) ↔
        ∀ x y, g.Blocks x y → ∀ z, g.Within y z → ∃ w, g.Within x w ∧ g.Outranks w z) ∧
      ∀ x y, g.Parent x y → layout.layer y ≤ layout.layer x := by
  obtain ⟨first, returns, ranked⟩ := regular.assign_returns assigned
  obtain ⟨bound, top⟩ : ∃ bound, ∀ x ∈ g.nodes, first x ≤ bound :=
    ⟨_, fun _ held => le_foldl_max first held 0⟩
  have kept : ∀ x ∈ g.nodes, (if first x < 0 then 0 else first x) = first x := by
    intro x held
    obtain ⟨n, value, -⟩ := ranked x held
    rw [if_neg (by omega)]
  have start : g.Lifted bound fun x => if first x < 0 then 0 else first x := by
    constructor
    · intro x held
      rw [kept x held]
      exact top x held
    · intro x held
      obtain ⟨n, value, rank⟩ := ranked x held
      exact ⟨x, n, ReflTransGen.refl, rank, by rw [kept x held, value]⟩
    · intro x held n rank
      obtain ⟨m, value, rank'⟩ := ranked x held
      rw [kept x held, value, rank.unique rank']
  obtain ⟨last, returns', held, ordered⟩ := regular.lift_returns lifted start
  have rank_exists : ∀ x ∈ g.nodes, ∃ n : Nat, Rank g.Blocks x n := by
    intro x inside
    obtain ⟨n, -, rank⟩ := ranked x inside
    exact ⟨n, rank⟩
  refine ⟨_, Call.returns_bind.mpr ⟨first, returns, Call.returns_bind.mpr ⟨last, returns', Call.returns_pure.mpr rfl⟩⟩,
    ?_, ordered⟩
  constructor
  · rintro ⟨above, -⟩ x y blocks
    obtain ⟨left, right⟩ := regular.inside x y blocks
    exact (held.lt_iff rank_exists ordered left right).mp (above x y blocks)
  · intro outranked
    refine ⟨?_, ordered⟩
    intro x y blocks
    obtain ⟨left, right⟩ := regular.inside x y blocks
    exact (held.lt_iff rank_exists ordered left right).mpr (outranked x y blocks)

/-- An epic that is blocked by a task, and a child of the epic. -/
def blockedEpic : TemplateSubgraph where
  issues := ["bd-1", "bd-2", "bd-3"]
  dependencies := [⟨"bd-2", "bd-1", .blocks⟩, ⟨"bd-3", "bd-2", .parentChild⟩]

/-- A map whose keys are always met in the same order. -/
def inOrder (keys : List String) : Sweeps.Orders keys :=
  ⟨fun _ => keys, fun _ => List.Perm.refl keys⟩

/-- Edges that lead out of a set of issues, and never into it, have no cycle. -/
theorem acyclic_of_split (blocked : String → Prop)
    (split : ∀ x y, g.Blocks x y → blocked x ∧ ¬ blocked y) :
    Acyclic g.Blocks := by
  intro x cycle
  obtain ⟨y, first, -⟩ := TransGen.head'_iff.mp cycle
  obtain ⟨z, -, last⟩ := TransGen.tail'_iff.mp cycle
  exact (split z x last).2 (split x y first).1

theorem blockedEpic_blocks : blockedEpic.Blocks x y ↔ x = "bd-2" ∧ y = "bd-1" := by
  simp [Blocks, blockedEpic, eq_comm]

private theorem blockedEpic_regular : blockedEpic.Regular where
  inside := by
    intro x y blocks
    obtain ⟨rfl, rfl⟩ := blockedEpic_blocks.mp blocks
    decide
  acyclic := acyclic_of_split (· = "bd-2") fun x y blocks => by
    obtain ⟨rfl, rfl⟩ := blockedEpic_blocks.mp blocks
    decide
  single := by decide

theorem computeLayout_layers_blockedEpic :
    ∃ layout, (blockedEpic.computeLayout (inOrder _) (inOrder _)).Returns layout ∧
      layout.layer "bd-1" < layout.layer "bd-2" ∧ layout.layer "bd-2" ≤ layout.layer "bd-3" := by
  obtain ⟨layout, returns, exactly, -⟩ :=
    computeLayout_layers blockedEpic blockedEpic_regular (inOrder _) (inOrder _)
  have outranked : ∀ x y, blockedEpic.Blocks x y → ∀ z, blockedEpic.Within y z →
      ∃ w, blockedEpic.Within x w ∧ blockedEpic.Outranks w z := by
    intro x y blocks z within
    obtain ⟨rfl, rfl⟩ := blockedEpic_blocks.mp blocks
    refine ⟨"bd-2", ReflTransGen.refl, 1, ⟨"bd-1", blocks, trivial⟩, ?_⟩
    rintro ⟨w, blocked, -⟩
    obtain ⟨rfl, -⟩ := blockedEpic_blocks.mp blocked
    cases within.cases_head with
    | inl same => simp at same
    | inr up =>
      obtain ⟨parent, ⟨⟨dep, held, type, child, -⟩, -⟩, -⟩ := up
      simp only [blockedEpic, List.mem_cons, List.not_mem_nil, or_false] at held
      rcases held with rfl | rfl <;> simp at type child
  obtain ⟨above, ordered⟩ := exactly.mpr outranked
  refine ⟨layout, returns, above _ _ (blockedEpic_blocks.mpr ⟨rfl, rfl⟩), ordered _ _ ?_⟩
  exact ⟨⟨⟨"bd-3", "bd-2", .parentChild⟩, by simp [blockedEpic], rfl, rfl, rfl⟩, by decide,
    by decide⟩

/-- The same with a task that is blocked by the child: the child is lifted to the layer that
this task has by its own chain. -/
def blockedByChild : TemplateSubgraph where
  issues := ["bd-1", "bd-2", "bd-3", "bd-4"]
  dependencies := [⟨"bd-2", "bd-1", .blocks⟩, ⟨"bd-3", "bd-2", .parentChild⟩, ⟨"bd-4", "bd-3", .blocks⟩]

theorem blockedByChild_blocks :
    blockedByChild.Blocks x y ↔ (x = "bd-2" ∧ y = "bd-1") ∨ (x = "bd-4" ∧ y = "bd-3") := by
  simp [Blocks, blockedByChild, eq_comm]

private theorem blockedByChild_regular : blockedByChild.Regular where
  inside := by
    intro x y blocks
    rcases blockedByChild_blocks.mp blocks with ⟨rfl, rfl⟩ | ⟨rfl, rfl⟩ <;> decide
  acyclic := acyclic_of_split (fun x => x = "bd-2" ∨ x = "bd-4") fun x y blocks => by
    rcases blockedByChild_blocks.mp blocks with ⟨rfl, rfl⟩ | ⟨rfl, rfl⟩ <;> decide
  single := by decide

theorem blockedByChild_same_layer : blockedByChild.Regular ∧ blockedByChild.Blocks "bd-4" "bd-3" ∧
    ∃ layout, (blockedByChild.computeLayout (inOrder _) (inOrder _)).Returns layout ∧
      layout.layer "bd-3" = 1 ∧ layout.layer "bd-4" = 1 := by
  refine ⟨blockedByChild_regular, blockedByChild_blocks.mpr (Or.inr ⟨rfl, rfl⟩), ?_⟩
  have run : ((blockedByChild.computeLayout (inOrder _) (inOrder _)).exec 5).map
      (Except.map fun layout => (layout.layer "bd-3", layout.layer "bd-4")) = some (.ok (1, 1)) := by
    decide +kernel
  obtain ⟨outcome, ends, value⟩ := Option.map_eq_some_iff.mp run
  cases outcome with
  | error e => exact e.elim
  | ok layout =>
    obtain ⟨left, right⟩ := Prod.mk.inj (Except.ok.inj value)
    exact ⟨layout, ⟨5, ends⟩, left, right⟩

end TemplateSubgraph
end Beads
