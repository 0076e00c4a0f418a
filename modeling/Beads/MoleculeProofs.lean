import Beads.Molecules
import Beads.Lib.Window

/-! What the parallel analysis of a molecule computes. The rows of a molecule say which step
blocks which (`Blocks`); the depth of a step is the number of open steps stacked up before it;
steps of one depth are in one class when a series of steps, each compatible with the next, leads
from one to the other (`Linked`). Both codes go through the classes of that relation, each
exactly once (`Partitions`), and the infos follow from it. -/
namespace Beads.Molecules
open Lib Lib.Graph Relation

/-! ## The blocking relation -/

section Maps
variable {map : ListMap} {key value k v : String}

theorem mem_addToMap : v ∈ addToMap map key value k ↔ v ∈ map k ∨ (key = k ∧ value = v) := by
  by_cases same : k = key
  · subst same
    by_cases held : value ∈ map k
    · simp only [addToMap, Function.update_self, if_pos held, true_and]
      constructor
      · exact Or.inl
      · rintro (before | rfl)
        · exact before
        · exact held
    · simp only [addToMap, Function.update_self, if_neg held, List.mem_append, List.mem_singleton,
        true_and]
      rw [eq_comm]
  · simp [addToMap, same, Ne.symm same]

private theorem mem_appendToMap :
    v ∈ appendToMap map key value k ↔ v ∈ map k ∨ (key = k ∧ value = v) := by
  by_cases same : k = key
  · subst same
    simp [appendToMap, eq_comm]
  · simp [appendToMap, same, Ne.symm same]

theorem nodup_addToMap (distinct : ∀ k, (map k).Nodup) (k : String) :
    (addToMap map key value k).Nodup := by
  by_cases same : k = key
  · subst same
    by_cases held : value ∈ map k
    · simpa [addToMap, held] using distinct k
    · simp [addToMap, held, List.nodup_append, distinct k]
      rintro a inside rfl
      exact held inside
  · simpa [addToMap, same] using distinct k

end Maps

namespace Subgraph
variable (g : Subgraph)

/-- The row of a child under its parent. -/
def Child (parent child : String) : Prop :=
  ∃ dep ∈ g.dependencies, dep.type = .parentChild ∧ dep.dependsOnID = parent ∧ dep.issueID = child

/-- What a row says about two steps, when the gates of the edges are read as given. -/
def Declares (any : String → Bool) (dep : Dependency) (blocker issue : String) : Prop :=
  dep.issueID = issue ∧
    ((dep.type.Blocking ∧ dep.dependsOnID = blocker) ∨
      (dep.type = .waitsFor ∧ g.Child dep.dependsOnID blocker ∧ g.isOpen blocker = true ∧
        ¬ (any dep.metadata = true ∧ ∃ child, g.Child dep.dependsOnID child ∧ g.isClosed child = true)))

def isAny (metadata : String) : Bool := parseWaitsForGateMetadata metadata = .anyChildren

/-- The first step blocks the second. -/
def Blocks (blocker issue : String) : Prop :=
  ∃ dep ∈ g.dependencies, g.Declares isAny dep blocker issue

/-- Every row is between two steps. -/
def Closed : Prop := ∀ dep ∈ g.dependencies, dep.issueID ∈ g.ids ∧ dep.dependsOnID ∈ g.ids

variable {g}

private theorem Closed.of_blocks (closed : g.Closed) {x y : String} (blocks : g.Blocks x y) :
    x ∈ g.ids ∧ y ∈ g.ids := by
  obtain ⟨dep, held, rfl, ⟨-, rfl⟩ | ⟨-, ⟨row, listed, -, -, rfl⟩, -⟩⟩ := blocks
  · exact (closed dep held).symm
  · exact ⟨(closed row listed).1, (closed dep held).1⟩

end Subgraph

/-- The two maps. -/
inductive Side where
  | blockedBy
  | blocks

/-- The key under which a map has an edge. -/
def Side.key (side : Side) (blocker issue : String) : String :=
  match side with
  | .blockedBy => issue
  | .blocks => blocker

/-- The map has the edge. -/
def BlockMaps.Holds (maps : BlockMaps) (side : Side) (blocker issue : String) : Prop :=
  match side with
  | .blockedBy => blocker ∈ maps.blockedBy issue
  | .blocks => issue ∈ maps.blocks blocker

def BlockMaps.Distinct (maps : BlockMaps) : Prop :=
  ∀ k, (maps.blockedBy k).Nodup ∧ (maps.blocks k).Nodup

/-- How an edge gets into the two maps: only under a key that is admitted. -/
structure Adds (admitted : String → Prop) (add : BlockMaps → String → String → BlockMaps) :
    Prop where
  holds : ∀ maps side i b x y,
    (add maps i b).Holds side x y ↔ maps.Holds side x y ∨ (admitted (side.key x y) ∧ i = y ∧ b = x)
  distinct : ∀ maps i b, maps.Distinct → (add maps i b).Distinct

theorem Adds.addBlockingEdge : Adds (fun _ => True) BlockMaps.addBlockingEdge where
  holds maps side i b x y := by
    cases side <;> simp [BlockMaps.addBlockingEdge, BlockMaps.Holds, mem_addToMap, and_comm]
  distinct maps i b distinct k :=
    ⟨nodup_addToMap (fun k => (distinct k).1) k, nodup_addToMap (fun k => (distinct k).2) k⟩

private theorem mem_addToMap_if (known : String → Prop) [DecidablePred known] {map : ListMap}
    {key value k v : String} :
    v ∈ (if known key then addToMap map key value else map) k ↔
      v ∈ map k ∨ (known k ∧ key = k ∧ value = v) := by
  split
  · next admitted =>
    rw [mem_addToMap]
    constructor
    · exact Or.imp_right fun ⟨here, same⟩ => ⟨here ▸ admitted, here, same⟩
    · exact Or.imp_right fun ⟨_, here, same⟩ => ⟨here, same⟩
  · next refused =>
    constructor
    · exact Or.inl
    · rintro (before | ⟨admitted, rfl, -⟩)
      · exact before
      · exact absurd admitted refused

private theorem nodup_addToMap_if {known : Prop} [Decidable known] {map : ListMap}
    {key value : String} (distinct : ∀ k, (map k).Nodup) (k : String) :
    ((if known then addToMap map key value else map) k).Nodup := by
  split
  · exact nodup_addToMap distinct k
  · exact distinct k

theorem Adds.recordBlocker (g : Subgraph) : Adds (· ∈ g.ids) g.recordBlocker where
  holds maps side i b x y := by
    cases side with
    | blockedBy => exact mem_addToMap_if (· ∈ g.ids)
    | blocks =>
      rw [and_comm (a := i = y)]
      exact mem_addToMap_if (· ∈ g.ids)
  distinct maps i b distinct k :=
    ⟨nodup_addToMap_if (fun k => (distinct k).1) k, nodup_addToMap_if (fun k => (distinct k).2) k⟩

section Rows
variable {g : Subgraph} {admitted : String → Prop} {add : BlockMaps → String → String → BlockMaps}
  {children : ListMap} {any : String → Bool} {maps : BlockMaps} {x y : String}

private theorem Adds.foldl_children (adds : Adds admitted add) (ids : List String) (issue : String)
    (side : Side) :
    (ids.foldl (fun maps id => if g.isOpen id then add maps issue id else maps) maps).Holds side x y ↔
      maps.Holds side x y ∨ (admitted (side.key x y) ∧ issue = y ∧ x ∈ ids ∧
        g.isOpen x = true) := by
  induction ids generalizing maps with
  | nil => simp
  | cons id rest ih =>
    rw [List.foldl_cons, ih]
    split
    · next unclosed =>
      rw [adds.holds, or_assoc]
      apply or_congr_right
      constructor
      · rintro (⟨known, here, rfl⟩ | ⟨known, here, inside, unclosed'⟩)
        · exact ⟨known, here, by simp, unclosed⟩
        · exact ⟨known, here, by simp [inside], unclosed'⟩
      · rintro ⟨known, here, inside, unclosed'⟩
        rcases List.mem_cons.mp inside with rfl | inside
        · exact .inl ⟨known, here, rfl⟩
        · exact .inr ⟨known, here, inside, unclosed'⟩
    · next closed =>
      apply or_congr_right
      constructor
      · rintro ⟨known, here, inside, unclosed⟩
        exact ⟨known, here, by simp [inside], unclosed⟩
      · rintro ⟨known, here, inside, unclosed⟩
        rcases List.mem_cons.mp inside with rfl | inside
        · exact absurd unclosed closed
        · exact ⟨known, here, inside, unclosed⟩

private theorem Adds.foldl_children_distinct (adds : Adds admitted add) (ids : List String)
    (issue : String) (distinct : maps.Distinct) :
    (ids.foldl (fun maps id => if g.isOpen id then add maps issue id else maps) maps).Distinct := by
  induction ids generalizing maps with
  | nil => exact distinct
  | cons id rest ih =>
    rw [List.foldl_cons]
    apply ih
    split
    · exact adds.distinct _ _ _ distinct
    · exact distinct

/-- A row adds the edges that it declares. -/
theorem Adds.processDependency (adds : Adds admitted add)
    (indexed : ∀ s c, c ∈ children s ↔ g.Child s c) (dep : Dependency) (side : Side) :
    (g.processDependency children any add maps dep).Holds side x y ↔
      maps.Holds side x y ∨ (admitted (side.key x y) ∧ g.Declares any dep x y) := by
  have closedChild : (children dep.dependsOnID).any g.isClosed = true ↔
      ∃ child, g.Child dep.dependsOnID child ∧ g.isClosed child = true := by
    simp [List.any_eq_true, indexed]
  rw [Subgraph.processDependency, Subgraph.Declares]
  cases type : dep.type with
  | blocks => simp [adds.holds, DependencyType.Blocking]
  | conditionalBlocks => simp [adds.holds, DependencyType.Blocking]
  | parentChild => simp [DependencyType.Blocking]
  | other name => simp [DependencyType.Blocking]
  | waitsFor =>
    simp only [DependencyType.Blocking, reduceCtorEq, or_self, false_and, false_or, true_and]
    split
    · next empty =>
      have childless : ¬ g.Child dep.dependsOnID x := by
        rw [← indexed, empty]
        simp
      simp [childless]
    · split
      · next gone =>
        rw [Bool.and_eq_true, closedChild] at gone
        simp [gone]
      · next waits =>
        rw [Bool.and_eq_true, closedChild] at waits
        rw [adds.foldl_children, indexed]
        simp [waits]

private theorem Adds.processDependency_distinct (adds : Adds admitted add) (dep : Dependency)
    (distinct : maps.Distinct) : (g.processDependency children any add maps dep).Distinct := by
  rw [Subgraph.processDependency]
  split
  · exact adds.distinct _ _ _ distinct
  · exact adds.distinct _ _ _ distinct
  · split
    · exact distinct
    · split
      · exact distinct
      · exact adds.foldl_children_distinct _ _ distinct
  · exact distinct

theorem holds_nil (side : Side) : ¬ (⟨fun _ => [], fun _ => []⟩ : BlockMaps).Holds side x y := by
  cases side <;> simp [BlockMaps.Holds]

/-- The edges after all rows. -/
theorem Adds.foldl_rows (adds : Adds admitted add) (indexed : ∀ s c, c ∈ children s ↔ g.Child s c)
    (rows : List Dependency) (side : Side) :
    (rows.foldl (g.processDependency children any add) maps).Holds side x y ↔
      maps.Holds side x y ∨ (admitted (side.key x y) ∧ ∃ dep ∈ rows, g.Declares any dep x y) := by
  induction rows generalizing maps with
  | nil => simp
  | cons dep rest ih =>
    rw [List.foldl_cons, ih, adds.processDependency indexed, or_assoc, ← and_or_left]
    simp

theorem Adds.foldl_rows_distinct (adds : Adds admitted add) (rows : List Dependency)
    (distinct : maps.Distinct) :
    (rows.foldl (g.processDependency children any add) maps).Distinct := by
  induction rows generalizing maps with
  | nil => exact distinct
  | cons dep rest ih => exact ih (adds.processDependency_distinct dep distinct)

end Rows

namespace Subgraph
variable {g : Subgraph} {x y : String}

private theorem mem_parentChildren (parent child : String) :
    child ∈ g.parentChildren parent ↔ g.Child parent child := by
  suffices general : ∀ (rows : List Dependency) (index : ListMap),
      child ∈ rows.foldl (fun children dep => if dep.type = .parentChild then
        appendToMap children dep.dependsOnID dep.issueID else children) index parent ↔
      child ∈ index parent ∨
        ∃ dep ∈ rows, dep.type = .parentChild ∧ dep.dependsOnID = parent ∧ dep.issueID = child by
    simpa [parentChildren, Child] using general g.dependencies fun _ => []
  intro rows
  induction rows with
  | nil => simp
  | cons dep rest ih =>
    intro index
    rw [List.foldl_cons, ih]
    by_cases row : dep.type = .parentChild
    · simp [row, mem_appendToMap, or_assoc]
    · simp [row]

/-- The maps of Go have the declared edges, under the ids of issues. -/
theorem blockMaps_holds (side : Side) :
    g.blockMaps.Holds side x y ↔ side.key x y ∈ g.ids ∧ g.Blocks x y := by
  rw [blockMaps, (Adds.recordBlocker g).foldl_rows mem_parentChildren,
    or_iff_right (holds_nil side)]
  rfl

theorem blockMaps_distinct : g.blockMaps.Distinct :=
  (Adds.recordBlocker g).foldl_rows_distinct _ (by simp [BlockMaps.Distinct])

end Subgraph

namespace Haxe
variable {g : Subgraph} {x y : String}

theorem bothExist_eq_true (closed : g.Closed) {dep : Dependency} (held : dep ∈ g.dependencies) :
    bothExist g dep = true := by
  simp [bothExist, closed dep held]

private theorem mem_parentChildren (closed : g.Closed) (parent child : String) :
    child ∈ parentChildren g parent ↔ g.Child parent child := by
  suffices general :
      ∀ (rows : List Dependency) (index : ListMap), (∀ dep ∈ rows, bothExist g dep = true) →
      (child ∈ rows.foldl (fun children dep => if dep.type = .parentChild && bothExist g dep then
        addToMap children dep.dependsOnID dep.issueID else children) index parent ↔
      child ∈ index parent ∨
        ∃ dep ∈ rows, dep.type = .parentChild ∧ dep.dependsOnID = parent ∧ dep.issueID = child) by
    simpa [parentChildren, Subgraph.Child] using
      general g.dependencies (fun _ => []) fun dep held => bothExist_eq_true closed held
  intro rows
  induction rows with
  | nil => simp
  | cons dep rest ih =>
    intro index known
    rw [List.foldl_cons, ih _ fun row held => known row (by simp [held])]
    by_cases row : dep.type = .parentChild
    · simp [row, known dep, mem_addToMap, or_assoc]
    · simp [row]

/-- Every waits-for row holds a gate. -/
def Gated (g : Subgraph) : Prop :=
  ∀ dep ∈ g.dependencies, dep.type = .waitsFor → HoldsGate dep.metadata

private theorem declares_iff (gated : Gated g) {dep : Dependency} (held : dep ∈ g.dependencies) :
    g.Declares (fun metadata => rawTopLevelStringEquals metadata "gate".toList anyChildren) dep x y ↔
      g.Declares Subgraph.isAny dep x y := by
  rw [Subgraph.Declares, Subgraph.Declares]
  apply and_congr_right'
  apply or_congr_right
  apply and_congr_right
  intro waits
  have same := rawTopLevelStringEquals_iff (gated dep held waits)
  simp only [Subgraph.isAny, decide_eq_true_eq, same]

theorem blockMaps_eq (closed : g.Closed) :
    blockMaps g = g.dependencies.foldl (g.processDependency (parentChildren g)
      (fun metadata => rawTopLevelStringEquals metadata "gate".toList anyChildren) BlockMaps.addBlockingEdge)
      ⟨fun _ => [], fun _ => []⟩ := by
  apply List.foldl_ext
  intro maps dep held
  rw [if_pos (bothExist_eq_true closed held)]

/-- The maps of Haxe have the declared edges. -/
theorem blockMaps_holds (closed : g.Closed) (gated : Gated g) (side : Side) :
    (blockMaps g).Holds side x y ↔ g.Blocks x y := by
  rw [blockMaps_eq closed, Adds.addBlockingEdge.foldl_rows (mem_parentChildren closed),
    or_iff_right (holds_nil side), true_and, Subgraph.Blocks]
  constructor
  · rintro ⟨dep, held, declared⟩
    exact ⟨dep, held, (declares_iff gated held).mp declared⟩
  · rintro ⟨dep, held, declared⟩
    exact ⟨dep, held, (declares_iff gated held).mpr declared⟩

theorem blockMaps_distinct (closed : g.Closed) : (blockMaps g).Distinct := by
  rw [blockMaps_eq closed]
  exact Adds.addBlockingEdge.foldl_rows_distinct _ (by simp [BlockMaps.Distinct])

end Haxe

/-! ## Infos -/

theorem sortStrings_congr {xs ys : List String} (perm : xs.Perm ys) :
    sortStrings xs = sortStrings ys := by
  have separates : Window.Separates (· ≤ ·) xs := fun a _ b _ left right => le_antisymm left right
  apply Window.sort_unique separates
  · exact List.pairwise_insertionSort _ ys
  · exact (List.perm_insertionSort _ ys).trans perm.symm

/-- An info without the name of its group. -/
def ParallelInfo.facts (info : ParallelInfo) : ParallelInfo := { info with parallelGroup := "" }

/-- A class comes to be known to a step. -/
def ParallelInfo.meet (info : ParallelInfo) (members : List String) : ParallelInfo :=
  if 1 < members.length ∧ info.stepID ∈ members then
    { info with canParallel := sortStrings (info.canParallel ++ members.filter (· ≠ info.stepID)) }
  else info

private theorem Grouping.assign_facts (grouping : Grouping) (members : List String) :
    (grouping.assign members).steps.map ParallelInfo.facts =
      (grouping.steps.map ParallelInfo.facts).map (·.meet members) := by
  rw [Grouping.assign]
  split
  · next large =>
    simp only [List.map_map]
    apply List.map_congr_left
    intro info _
    by_cases member : info.stepID ∈ members
    · simp only [Function.comp, ParallelInfo.facts, ParallelInfo.meet, ParallelInfo.join, large,
        member, and_self,
        if_true]
      rfl
    · simp [ParallelInfo.facts, ParallelInfo.meet, member]
  · next small =>
    rw [List.map_map]
    apply List.map_congr_left
    intro info _
    simp [ParallelInfo.meet, small]

theorem Grouping.foldl_assign_facts (grouping : Grouping) (classes : List (List String)) :
    (classes.foldl Grouping.assign grouping).steps.map ParallelInfo.facts =
      (grouping.steps.map ParallelInfo.facts).map fun info => classes.foldl ParallelInfo.meet info := by
  induction classes generalizing grouping with
  | nil => simp
  | cons c rest ih =>
    rw [List.foldl_cons, ih, Grouping.assign_facts, List.map_map]
    rfl

private theorem ParallelInfo.foldl_meet_absent {info : ParallelInfo} {classes : List (List String)}
    (absent : ∀ c ∈ classes, info.stepID ∉ c) : classes.foldl ParallelInfo.meet info = info := by
  induction classes with
  | nil => rfl
  | cons c rest ih =>
    have skipped : info.meet c = info := by simp [ParallelInfo.meet, absent c]
    rw [List.foldl_cons, skipped]
    exact ih fun d held => absent d (by simp [held])

/-- Of separate classes a step gets to know its own. -/
theorem ParallelInfo.foldl_meet {info : ParallelInfo} {classes : List (List String)}
    {c : List String}
    (apart : classes.Pairwise List.Disjoint) (held : c ∈ classes) (member : info.stepID ∈ c)
    (blank : info.canParallel = []) (distinct : c.Nodup) :
    classes.foldl ParallelInfo.meet info =
      { info with canParallel := sortStrings (c.filter (· ≠ info.stepID)) } := by
  induction classes with
  | nil => exact absurd held (by simp)
  | cons d rest ih =>
    rw [List.pairwise_cons] at apart
    rw [List.foldl_cons]
    rcases List.mem_cons.mp held with rfl | later
    · have absent : ∀ e ∈ rest, info.stepID ∉ e :=
        fun e inside other => apart.1 e inside member other
      have met : info.meet c = { info with canParallel := sortStrings (c.filter (· ≠ info.stepID)) } := by
        by_cases large : 1 < c.length
        · simp [ParallelInfo.meet, large, member, blank]
        · have some := List.length_pos_of_mem member
          have single : c.length = 1 := by omega
          obtain ⟨s, rfl⟩ := List.length_eq_one_iff.mp single
          rw [List.mem_singleton] at member
          cases info
          simp_all [ParallelInfo.meet, sortStrings]
      rw [met]
      exact ParallelInfo.foldl_meet_absent absent
    · have other : info.stepID ∉ d := fun inside => apart.1 c later inside member
      have skipped : info.meet d = info := by simp [ParallelInfo.meet, other]
      rw [skipped]
      exact ih apart.2 later

/-! ## Depths -/

namespace Subgraph
variable (g : Subgraph)

/-- The first step waits for the second, which is open. -/
def Awaits (issue blocker : String) : Prop :=
  issue ∈ g.ids ∧ g.Blocks blocker issue ∧ g.isOpen blocker = true

/-- Every step has a depth, which is its rank. -/
structure Levels (depths : List (String × Int)) : Prop where
  perm : (depths.map Prod.fst).Perm g.ids
  rank : ∀ id ∈ g.ids, ∃ n : Nat, Rank g.Awaits id n ∧ depths.lookup id = some (n : Int)

variable {g} {depths : List (String × Int)}

theorem mem_ids_of_isOpen {id : String} (unclosed : g.isOpen id = true) : id ∈ g.ids := by
  rw [isOpen] at unclosed
  split at unclosed
  · cases unclosed
  · next issue found =>
    obtain ⟨held, rfl⟩ := Table.find?_eq_some.mp found
    exact List.mem_map_of_mem held

private theorem rank_lt_length (acyclic : Acyclic g.Awaits) {id : String} (known : id ∈ g.ids)
    {n : Nat} (rank : Rank g.Awaits id n) : n < g.ids.length :=
  rank.1.lt_length acyclic (fun _ _ _ step => mem_ids_of_isOpen step.2.2) known

theorem exists_levels (acyclic : Acyclic g.Awaits) {next : String → List String}
    (leads : ∀ x y, y ∈ next x ↔ g.Awaits x y) (takesAway : Bool) :
    ∃ depths, Depths.depthsOf next takesAway (g.ids.length + 1) g.ids = some depths ∧
      g.Levels depths := by
  have same : Depths.Leads next = g.Awaits := by
    funext x y
    exact propext (leads x y)
  have closed (a : String) (_ : a ∈ g.ids) (b : String) (step : b ∈ next a) : b ∈ g.ids :=
    mem_ids_of_isOpen ((leads a b).mp step).2.2
  obtain ⟨depths, run, perm, rank⟩ :=
    Depths.depthsOf_spec (same ▸ acyclic) closed g.issues.distinct (Nat.le_succ g.ids.length)
  exact ⟨depths, run, perm, same ▸ rank⟩

theorem Levels.lookup_iff (levels : g.Levels depths) {id : String} (known : id ∈ g.ids) (n : Nat) :
    depths.lookup id = some (n : Int) ↔ Rank g.Awaits id n := by
  obtain ⟨m, rank, found⟩ := levels.rank id known
  rw [found]
  constructor
  · intro same
    have cast := Option.some.inj same
    obtain rfl : m = n := by omega
    exact rank
  · intro rank'
    rw [rank.unique rank']

/-! ## Classes -/

variable (g) in
/-- As many open steps are stacked up before both steps, and neither blocks the other. -/
def Beside (x y : String) : Prop :=
  x ∈ g.ids ∧ y ∈ g.ids ∧ (∃ n, Rank g.Awaits x n ∧ Rank g.Awaits y n) ∧ ¬ g.Blocks x y ∧ ¬ g.Blocks y x

variable (g) in
/-- A series of steps, each beside the next, leads from one step to the other. -/
def Linked : String → String → Prop := EqvGen g.Beside

theorem Linked.rank_iff {x y : String} (linked : g.Linked x y) (n : Nat) :
    Rank g.Awaits x n ↔ Rank g.Awaits y n := by
  induction linked with
  | rel x y step =>
    obtain ⟨-, -, ⟨m, rankX, rankY⟩, -⟩ := step
    constructor
    · intro rank
      rwa [rank.unique rankX]
    · intro rank
      rwa [rank.unique rankY]
  | refl x => exact Iff.rfl
  | symm x y _ ih => exact ih.symm
  | trans x y z _ _ left right => exact left.trans right

private theorem Linked.mem_iff {x y : String} (linked : g.Linked x y) : x ∈ g.ids ↔ y ∈ g.ids := by
  induction linked with
  | rel x y step => exact iff_of_true step.1 step.2.1
  | refl x => exact Iff.rfl
  | symm x y _ ih => exact ih.symm
  | trans x y z _ _ left right => exact left.trans right

end Subgraph

private theorem mem_pairs {ids : List String} {a b : String} (pair : (a, b) ∈ pairs ids) :
    a ∈ ids ∧ b ∈ ids := by
  induction ids with
  | nil => exact absurd pair (by simp [pairs])
  | cons id rest ih =>
    rcases List.mem_append.mp pair with first | later
    · obtain ⟨c, held, same⟩ := List.mem_map.mp first
      cases same
      exact ⟨by simp, by simp [held]⟩
    · exact ⟨by simp [(ih later).1], by simp [(ih later).2]⟩

private theorem pairs_of_ne {ids : List String} {a b : String} (left : a ∈ ids) (right : b ∈ ids)
    (ne : a ≠ b) : (a, b) ∈ pairs ids ∨ (b, a) ∈ pairs ids := by
  induction ids with
  | nil => exact absurd left (by simp)
  | cons id rest ih =>
    rcases List.mem_cons.mp left with rfl | inA
    · rcases List.mem_cons.mp right with rfl | inB
      · exact absurd rfl ne
      · exact .inl (List.mem_append_left _ (List.mem_map_of_mem inB))
    · rcases List.mem_cons.mp right with rfl | inB
      · exact .inr (List.mem_append_left _ (List.mem_map_of_mem inA))
      · exact (ih inA inB).imp (List.mem_append_right _) (List.mem_append_right _)

private theorem mergeCompatible_eq (maps : BlockMaps)
    (merge : Forest String → String → String → Forest String) (ids : List String) :
    mergeCompatible maps merge ids =
      Forest.joinAll merge ((pairs ids).filter fun pair => maps.compatible pair.1 pair.2) := by
  rw [mergeCompatible, Forest.joinAll, List.foldl_filter]

/-- The maps tell which steps are compatible. -/
def BlockMaps.Tells (maps : BlockMaps) (g : Subgraph) : Prop :=
  ∀ a ∈ g.ids, ∀ b ∈ g.ids, maps.compatible a b = true ↔ ¬ g.Blocks a b ∧ ¬ g.Blocks b a

section Level
variable {g : Subgraph} {maps : BlockMaps} {merge : Forest String → String → String → Forest String}
  {keys : List String} {n : Nat}

/-- Between steps of one depth the merged pairs connect what is linked. -/
theorem joined_mergeCompatible (merging : Forest.Merging merge) (tells : maps.Tells g)
    (level : ∀ id, id ∈ keys ↔ id ∈ g.ids ∧ Rank g.Awaits id n) {x : String} (inside : x ∈ keys)
    (y : String) :
    (mergeCompatible maps merge keys).Joined x y ↔ y ∈ keys ∧ g.Linked x y := by
  rw [mergeCompatible_eq, Forest.joined_joinAll merging]
  let r (a b : String) : Prop :=
    (a, b) ∈ (pairs keys).filter fun pair => maps.compatible pair.1 pair.2
  have pair {a b : String} (step : r a b) : a ∈ keys ∧ b ∈ keys ∧ g.Beside a b := by
    obtain ⟨listed, compatible⟩ := List.mem_filter.mp step
    obtain ⟨left, right⟩ := mem_pairs listed
    obtain ⟨knownA, rankA⟩ := (level a).mp left
    obtain ⟨knownB, rankB⟩ := (level b).mp right
    exact ⟨left, right, knownA, knownB, ⟨n, rankA, rankB⟩, (tells a knownA b knownB).mp compatible⟩
  have stays {a b : String} (path : EqvGen r a b) : (a ∈ keys ↔ b ∈ keys) ∧ g.Linked a b := by
    induction path with
    | rel a b step => exact ⟨iff_of_true (pair step).1 (pair step).2.1, .rel a b (pair step).2.2⟩
    | refl a => exact ⟨Iff.rfl, .refl a⟩
    | symm a b _ ih => exact ⟨ih.1.symm, .symm a b ih.2⟩
    | trans a b c _ _ left right => exact ⟨left.1.trans right.1, .trans a b c left.2 right.2⟩
  have same {a b : String} (path : g.Linked a b) : a ∈ keys ↔ b ∈ keys := by
    rw [level, level, path.mem_iff, path.rank_iff]
  have back {a b : String} (path : g.Linked a b) (held : a ∈ keys) : EqvGen r a b := by
    induction path with
    | rel a b step =>
      by_cases equal : a = b
      · subst equal
        exact .refl a
      · rcases pairs_of_ne held ((same (.rel a b step)).mp held) equal with listed | listed
        · exact .rel a b (List.mem_filter.mpr ⟨listed, (tells a step.1 b step.2.1).mpr step.2.2.2⟩)
        · exact .symm b a (.rel b a (List.mem_filter.mpr ⟨listed, (tells b step.2.1 a step.1).mpr step.2.2.2.symm⟩))
    | refl a => exact .refl a
    | symm a b path ih => exact .symm a b (ih ((same path).mpr held))
    | trans a b c path _ left right => exact .trans a b c (left held) (right ((same path).mp held))
  constructor
  · intro path
    exact ⟨(stays path).1.mp inside, (stays path).2⟩
  · rintro ⟨-, linked⟩
    exact back linked inside

/-- The classes of one depth, put together by their roots. -/
theorem classes_at (merging : Forest.Merging merge) (tells : maps.Tells g) (distinct : keys.Nodup)
    (level : ∀ id, id ∈ keys ↔ id ∈ g.ids ∧ Rank g.Awaits id n) {groups : ListMap}
    (grouped : ∀ k, groups k = keys.filter fun x => (mergeCompatible maps merge keys).root x = k)
    {roots : List String} (perm : roots.Perm (keys.filter (groups · ≠ []))) :
    Classes g.Linked keys (roots.map groups) := by
  have joined {x : String} (inside : x ∈ keys) := joined_mergeCompatible merging tells level inside
  have rooted (x : String) (inside : x ∈ keys) : (mergeCompatible maps merge keys).root x ∈ keys :=
    ((joined inside _).mp (Forest.root_root x).symm).1
  have classes := Forest.classes_of_roots _ distinct rooted grouped perm
  apply classes.congr
  intro x left y right
  rw [joined left, and_iff_right right]

/-- The classes of all depths, one depth after the other. -/
theorem classes_of_levels (acyclic : Acyclic g.Awaits) {classesAt : Nat → List (List String)}
    {at_ : Nat → List String} (level : ∀ n id, id ∈ at_ n ↔ id ∈ g.ids ∧ Rank g.Awaits id n)
    (each : ∀ n, Classes g.Linked (at_ n) (classesAt n)) :
    Classes g.Linked g.ids ((List.range (g.ids.length + 1)).flatMap classesAt) := by
  apply Classes.flatMap List.nodup_range (fun n _ => each n)
  · intro n _ x inside
    exact ((level n x).mp inside).1
  · intro x known
    have long : ¬ Chain g.Awaits g.ids.length x := fun chain =>
      Nat.lt_irrefl _ (chain.lt_length acyclic (fun _ _ _ step => Subgraph.mem_ids_of_isOpen step.2.2) known)
    obtain ⟨n, rank⟩ := Rank.of_bounded long
    have low := Subgraph.rank_lt_length acyclic known rank
    exact ⟨n, List.mem_range.mpr (by omega), (level n x).mpr ⟨known, rank⟩⟩
  · intro n _ m _ x left right
    exact ((level n x).mp left).2.unique ((level m x).mp right).2
  · intro n _ x inside y known linked
    have rank := ((level n x).mp inside).2
    rw [level, and_iff_right known]
    exact (linked.rank_iff n).mp rank

end Level

/-! ## What the two codes go through -/

namespace Subgraph
variable {g : Subgraph} {order : RangeOrder} {depths : List (String × Int)}

theorem leads_go (x y : String) :
    y ∈ (order.keys (.blockers x) (g.blockMaps.blockedBy x)).filter g.isOpen ↔ g.Awaits x y := by
  have held : y ∈ g.blockMaps.blockedBy x ↔ x ∈ g.ids ∧ g.Blocks y x := blockMaps_holds .blockedBy
  rw [List.mem_filter, (order.perm _ _).mem_iff, held, Awaits, and_assoc]

private theorem tells_go : g.blockMaps.Tells g := by
  intro a knownA b knownB
  have blocks {x y : String} (known : x ∈ g.ids) : y ∈ g.blockMaps.blocks x ↔ g.Blocks x y :=
    (blockMaps_holds .blocks).trans (and_iff_right known)
  have blockedBy {x y : String} (known : y ∈ g.ids) : x ∈ g.blockMaps.blockedBy y ↔ g.Blocks x y :=
    (blockMaps_holds .blockedBy).trans (and_iff_right known)
  simp only [BlockMaps.compatible, Bool.and_eq_true, decide_eq_true_eq, blocks knownA,
    blocks knownB, blockedBy knownA, blockedBy knownB]
  tauto

private theorem collectGroups_eq (forest : Forest String) (ids : List String) (k : String) :
    collectGroups forest ids k = ids.filter fun id => forest.root id = k := by
  suffices general : ∀ (f : Forest String) (groups : ListMap), (∀ x, f.root x = forest.root x) →
      (ids.foldl (fun state id => ((state.1.find id).2, appendToMap state.2 (state.1.find id).1 id)) (f, groups)).2 k =
        groups k ++ ids.filter fun id => forest.root id = k by
    exact general forest (fun _ => []) fun _ => rfl
  induction ids with
  | nil => simp
  | cons id rest ih =>
    intro f groups same
    obtain ⟨root, kept⟩ := f.find_spec id
    rw [List.foldl_cons, ih _ _ fun x => (kept x).trans (same x), root, same]
    by_cases here : forest.root id = k
    · simp [appendToMap, here]
    · simp [appendToMap, here, Ne.symm here]

private theorem mem_stepsAtDepth (levels : g.Levels depths) (n : Nat) (id : String) :
    id ∈ stepsAtDepth order depths n ↔ id ∈ g.ids ∧ Rank g.Awaits id n := by
  rw [stepsAtDepth, List.mem_filter, (order.perm _ _).mem_iff, levels.perm.mem_iff,
    decide_eq_true_eq]
  apply and_congr_right
  intro known
  exact levels.lookup_iff known n

private theorem nodup_stepsAtDepth (levels : g.Levels depths) (n : Nat) :
    (stepsAtDepth order depths n).Nodup := by
  apply List.Nodup.filter
  exact (order.perm _ _).nodup_iff.mpr (levels.perm.nodup_iff.mpr g.issues.distinct)

theorem classes_go (acyclic : Acyclic g.Awaits) (levels : g.Levels depths) :
    Classes g.Linked g.ids ((List.range (g.ids.length + 1)).flatMap (g.classesAt order depths)) := by
  have level (n : Nat) (id : String) :
      id ∈ stepsAtDepth order depths n ↔ id ∈ g.ids ∧ Rank g.Awaits id n :=
    mem_stepsAtDepth levels n id
  apply classes_of_levels acyclic level
  intro n
  exact classes_at Forest.merging_union tells_go (nodup_stepsAtDepth levels n) (level n)
    (collectGroups_eq _ _) (order.perm _ _)

end Subgraph

namespace Haxe
variable {g : Subgraph} {depths : List (String × Int)}

theorem leads_haxe (closed : g.Closed) (gated : Gated g) (x y : String) :
    y ∈ ((blockMaps g).blockedBy x).filter g.isOpen ↔ g.Awaits x y := by
  have held : y ∈ (blockMaps g).blockedBy x ↔ g.Blocks y x :=
    blockMaps_holds closed gated .blockedBy
  rw [List.mem_filter, held, Subgraph.Awaits]
  constructor
  · rintro ⟨blocks, unclosed⟩
    exact ⟨(closed.of_blocks blocks).2, blocks, unclosed⟩
  · exact And.right

private theorem tells_haxe (closed : g.Closed) (gated : Gated g) : (blockMaps g).Tells g := by
  intro a _ b _
  have blocks {x y : String} : y ∈ (blockMaps g).blocks x ↔ g.Blocks x y :=
    blockMaps_holds closed gated .blocks
  have blockedBy {x y : String} : x ∈ (blockMaps g).blockedBy y ↔ g.Blocks x y :=
    blockMaps_holds closed gated .blockedBy
  simp only [BlockMaps.compatible, Bool.and_eq_true, decide_eq_true_eq, blocks, blockedBy]
  tauto

private theorem grouped_eq (root : String → String) {ids : List String} (distinct : ids.Nodup)
    (k : String) :
    ids.foldl (fun grouped id => addToMap grouped (root id) id) (fun _ => []) k =
      ids.filter fun id => root id = k := by
  suffices general : ∀ groups : ListMap, (∀ id ∈ ids, ∀ k, id ∉ groups k) →
      ids.foldl (fun grouped id => addToMap grouped (root id) id) groups k =
        groups k ++ ids.filter fun id => root id = k by
    simpa using general (fun _ => []) (by simp)
  induction ids with
  | nil => simp
  | cons id rest ih =>
    intro groups fresh
    rw [List.nodup_cons] at distinct
    have absent := fresh id (by simp)
    have fresh' : ∀ other ∈ rest, ∀ k, other ∉ addToMap groups (root id) id k := by
      intro other held k inside
      rcases mem_addToMap.mp inside with before | ⟨-, rfl⟩
      · exact fresh other (by simp [held]) k before
      · exact distinct.1 held
    rw [List.foldl_cons, ih distinct.2 _ fresh']
    by_cases here : root id = k
    · simp [addToMap, here, absent]
    · simp [addToMap, here, Ne.symm here]

theorem classes_haxe (closed : g.Closed) (gated : Gated g) (acyclic : Acyclic g.Awaits)
    (levels : g.Levels depths) :
    Classes g.Linked g.ids ((List.range (g.ids.length + 1)).flatMap (classesAt g depths)) := by
  have level (n : Nat) (id : String) :
      id ∈ (g.ids.filter fun id => depths.lookup id = some (n : Int)) ↔
      id ∈ g.ids ∧ Rank g.Awaits id n := by
    rw [List.mem_filter, decide_eq_true_eq]
    apply and_congr_right
    intro known
    exact levels.lookup_iff known n
  apply classes_of_levels acyclic level
  intro n
  have distinct : (g.ids.filter fun id => depths.lookup id = some (n : Int)).Nodup :=
    g.issues.distinct.filter _
  exact classes_at Forest.merging_join (tells_haxe closed gated) distinct (level n)
    (grouped_eq _ distinct) (.refl _)

end Haxe

end Beads.Molecules
