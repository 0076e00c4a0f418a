import Beads.SiblingOrder

/-! What the order of siblings guarantees (`siblings_dependenciesFirst`), and when Haxe orders a
group as Go does (`orderItems_agree_iff`). -/
namespace Beads.ListTree
open Lib Relation Graph

/-! ## The edges of a group -/

section Edges
variable {α : Type} {id : α → String} {dependencies : α → List Dependency} {siblings : List α}

/-- One sibling depends on another through an edge that constrains the order of execution. An edge
from an issue to itself counts for nothing. -/
def DependsOn (id : α → String) (dependencies : α → List Dependency) (siblings : List α)
    (x t : String) : Prop :=
  (∃ s ∈ siblings, id s = x ∧ ∃ dep ∈ dependencies s, dep.scheduling = true ∧ dep.dependsOnID = t) ∧
    t ∈ siblings.map id ∧ x ≠ t

theorem mem_schedulingTargets {group : List String} {x t : String} {seen : List String}
    {deps : List Dependency} :
    t ∈ schedulingTargets group x seen deps ↔
      (∃ dep ∈ deps, dep.scheduling = true ∧ dep.dependsOnID = t) ∧ x ≠ t ∧ t ∈ group ∧
        t ∉ seen := by
  induction deps generalizing seen with
  | nil => simp [schedulingTargets]
  | cons dep deps ih =>
    rw [schedulingTargets]
    split
    · next skipped =>
      rw [ih]
      simp only [List.mem_cons, exists_eq_or_imp]
      grind
    · next kept =>
      rw [List.mem_cons, ih]
      simp only [List.mem_cons, exists_eq_or_imp]
      grind

private theorem nodup_schedulingTargets {group : List String} {x : String} {seen : List String}
    {deps : List Dependency} : (schedulingTargets group x seen deps).Nodup := by
  induction deps generalizing seen with
  | nil => simp [schedulingTargets]
  | cons dep deps ih =>
    rw [schedulingTargets]
    split
    · exact ih
    · rw [List.nodup_cons]
      refine ⟨?_, ih⟩
      simp [mem_schedulingTargets]

theorem edge_schedulingEdges {x t : String} :
    Edge (schedulingEdges id dependencies siblings) x t ↔
      DependsOn id dependencies siblings x t := by
  simp only [Edge, schedulingEdges, List.mem_flatMap, List.mem_map, mem_schedulingTargets,
    DependsOn, Prod.mk.injEq]
  constructor
  · rintro ⟨s, held, t', ⟨dep, ne, inside, -⟩, rfl, rfl⟩
    exact ⟨⟨s, held, rfl, dep⟩, inside, ne⟩
  · rintro ⟨⟨s, held, rfl, dep⟩, inside, ne⟩
    exact ⟨s, held, t, ⟨dep, ne, inside, by simp⟩, rfl, rfl⟩

theorem proper_schedulingEdges (dependencies : α → List Dependency)
    (distinct : (siblings.map id).Nodup) :
    Kahn.Proper (siblings.map id) (schedulingEdges id dependencies siblings) where
  distinct := distinct
  once := by
    rw [schedulingEdges, List.nodup_flatMap]
    constructor
    · intro s _
      apply nodup_schedulingTargets.map
      intro a b same
      exact congrArg Prod.snd same
    · apply (List.pairwise_map.mp distinct).imp
      intro s s' ne e left right
      obtain ⟨_, _, rfl⟩ := List.mem_map.mp left
      obtain ⟨_, _, same⟩ := List.mem_map.mp right
      exact ne (congrArg Prod.fst same).symm
  inside := by
    rintro ⟨x, t⟩ held
    obtain ⟨⟨s, known, rfl, -⟩, inside, -⟩ := edge_schedulingEdges.mp held
    exact ⟨List.mem_map_of_mem known, inside⟩
  loopless := by
    rintro ⟨x, t⟩ held
    exact (edge_schedulingEdges.mp held).2.2

theorem finds_byID (distinct : (siblings.map id).Nodup) :
    Kahn.Finds id (byID id siblings) siblings := by
  intro s held
  cases found : byID id siblings (id s) with
  | none =>
    have missing := List.find?_eq_none.mp found s (by simpa using held)
    simp at missing
  | some s' =>
    have same : id s' = id s := by simpa using List.find?_some found
    have held' : s' ∈ siblings := by simpa using List.mem_of_find?_eq_some found
    rw [List.inj_on_of_nodup_map distinct held' held same]

end Edges

/-! ## Dependencies come first -/

section First
variable {α : Type} {id : α → String} {dependencies : α → List Dependency} {siblings : List α}

/-- Nothing is lost or repeated, and a sibling from which no cycle can be reached comes after all
that it depends on. -/
structure DependenciesFirst (id : α → String) (dependencies : α → List Dependency)
    (siblings result : List α) :
    Prop where
  perm : result.Perm siblings
  first : ∀ x t, DependsOn id dependencies siblings x t →
    (∀ y, ReflTransGen (DependsOn id dependencies siblings) x y →
      ¬ TransGen (DependsOn id dependencies siblings) y y) → Precedes (result.map id) t x

theorem orderByDependencies_spec (dependencies : α → List Dependency) {sort : List α → List α}
    (perm : ∀ l, (sort l).Perm l) (distinct : (siblings.map id).Nodup) :
    ∃ result, orderByDependencies sort id dependencies siblings = some result ∧
      DependenciesFirst id dependencies siblings result := by
  obtain ⟨result, emitted, spec⟩ :=
    Kahn.emit_spec perm (proper_schedulingEdges dependencies distinct)
    (finds_byID distinct)
  refine ⟨result, emitted, spec.perm, ?_⟩
  have relation : DependsOn id dependencies siblings = Edge
      (schedulingEdges id dependencies siblings) := by
    funext x t
    exact propext edge_schedulingEdges.symm
  rw [relation]
  intro x t edge settles
  exact spec.ordered (x, t) edge settles

/-- Fewer than two siblings depend on nothing. -/
theorem dependenciesFirst_of_short (short : siblings.length < 2) :
    DependenciesFirst id dependencies siblings siblings := by
  refine ⟨List.Perm.refl _, ?_⟩
  rintro x t ⟨⟨s, held, rfl, -⟩, inside, ne⟩
  exfalso
  match siblings, short with
  | [], _ => simp at held
  | [a], _ =>
    simp only [List.map_cons, List.map_nil, List.mem_singleton] at held inside
    exact ne (by rw [held, inside])

end First

theorem orderSiblingsByDeps_spec (sorter : Sorter Issue) {siblings : List Issue}
    (distinct : (siblings.map Issue.id).Nodup) (allDeps : Option DepMap) :
    ∃ result, orderSiblingsByDeps sorter siblings allDeps = some result ∧
      DependenciesFirst Issue.id (fun s => depsOf allDeps s.id) siblings result := by
  cases allDeps with
  | none =>
    refine ⟨siblings, rfl, List.Perm.refl _, ?_⟩
    rintro x t ⟨⟨s, -, -, dep, listed, -⟩, -⟩
    simp [depsOf] at listed
  | some allDeps =>
    simp only [orderSiblingsByDeps]
    split
    · next short => exact ⟨_, rfl, dependenciesFirst_of_short short⟩
    · exact orderByDependencies_spec _ (sorter.perm _) distinct

theorem Haxe.orderListItemsByDependencies_spec (sorter : Sorter Item) {items : List Item}
    (distinct : (items.map fun i => i.id).Nodup) :
    ∃ result, orderListItemsByDependencies sorter items = some result ∧
      DependenciesFirst (fun i => i.id) Item.dependencies items result := by
  rw [orderListItemsByDependencies]
  split
  · next short => exact ⟨_, rfl, dependenciesFirst_of_short short⟩
  · exact orderByDependencies_spec _ (sorter.perm _) distinct

theorem siblings_dependenciesFirst :
    (∀ (sorter : Sorter Issue) (siblings : Table Issue.id) (allDeps : Option DepMap),
      ∃ result, orderSiblingsByDeps sorter siblings.rows allDeps = some result ∧
        DependenciesFirst Issue.id (fun s => depsOf allDeps s.id) siblings.rows result) ∧
    (∀ (sorter : Sorter Haxe.Item) (items : Table fun i : Haxe.Item => i.id),
      ∃ result, Haxe.orderListItemsByDependencies sorter items.rows = some result ∧
        DependenciesFirst (fun i => i.id) Haxe.Item.dependencies items.rows result) := by
  constructor
  · intro sorter siblings allDeps
    exact orderSiblingsByDeps_spec sorter siblings.distinct allDeps
  · intro sorter items
    exact Haxe.orderListItemsByDependencies_spec sorter items.distinct

/-- The children of a node are rearranged. -/
theorem orderChildren_perm (sorter : Sorter Issue) (dr : Option DepRender) {children : List Issue}
    (distinct : (children.map Issue.id).Nodup) :
    ∃ ordered, orderChildren sorter dr children = some ordered ∧ ordered.Perm children := by
  cases dr with
  | none => exact ⟨_, rfl, sorter.perm _ _⟩
  | some dr =>
    obtain ⟨result, ordered, spec⟩ := orderSiblingsByDeps_spec sorter distinct dr.allDeps
    exact ⟨result, ordered, spec.perm⟩

theorem Haxe.orderItems_perm (sorter : Sorter Item) (depsMode : String) {items : List Item}
    (distinct : (items.map fun i => i.id).Nodup) :
    ∃ ordered, orderItems sorter depsMode items = some ordered ∧ ordered.Perm items := by
  rw [orderItems]
  split
  · exact ⟨_, rfl, sorter.perm _ _⟩
  · obtain ⟨result, ordered, spec⟩ := orderListItemsByDependencies_spec sorter distinct
    exact ⟨result, ordered, spec.perm⟩

/-! ## The two comparisons -/

private theorem compareSegments_swap (sa sb : List String) :
    compareSegments sb sa = -compareSegments sa sb := by
  induction sa generalizing sb with
  | nil => cases sb <;> simp [compareSegments]
  | cons a sa ih =>
    cases sb with
    | nil => simp [compareSegments]
    | cons b sb =>
      rw [compareSegments, compareSegments, ih sb]
      by_cases same : a = b
      · simp [same]
      · rw [if_neg same, if_neg (Ne.symm same)]
        have order : (if b < a then (-1 : Int) else 1) = -(if a < b then -1 else 1) := by
          rcases lt_or_gt_of_ne same with less | greater
          · rw [if_pos less, if_neg less.asymm]
            rfl
          · rw [if_pos greater, if_neg greater.asymm]
        cases Query.atoi a with
        | none => simpa using order
        | some na =>
          cases Query.atoi b with
          | none => simpa using order
          | some nb =>
            by_cases number : na = nb
            · simp [number]
            · simp only [ne_eq, number, Ne.symm number, not_false_eq_true, if_true]
              omega

theorem naturalCompareIDs_swap (a b : String) : naturalCompareIDs b a = -naturalCompareIDs a b :=
  compareSegments_swap _ _

private theorem Haxe.compareIssueIds_eq : compareIssueIds = threeWay := rfl

section Priority
variable {compareIDs : String → String → Int}

theorem compareByPriority_swap (swap : ∀ a b, compareIDs b a = -compareIDs a b) (a b : Issue) :
    0 < compareByPriority compareIDs a b ↔ compareByPriority compareIDs b a < 0 := by
  have ids := swap a.id b.id
  simp only [compareByPriority]
  split_ifs <;> omega

private theorem compareByPriority_of_eq {a b : Issue} (same : a.priority = b.priority) :
    compareByPriority compareIDs a b = compareIDs a.id b.id := by
  simp [compareByPriority, same]

end Priority

/-- Priority and then id is a linear order. -/
theorem compareByPriority_le_iff {a b : Issue} : compareByPriority Haxe.compareIssueIds a b ≤ 0 ↔
    a.priority < b.priority ∨ (a.priority = b.priority ∧ a.id ≤ b.id) := by
  rw [compareByPriority, Haxe.compareIssueIds_eq]
  rcases lt_trichotomy a.priority b.priority with less | same | greater
  · simp [less]
  · simp [same, threeWay_nonpos]
  · simp [greater, greater.asymm, greater.ne']

private theorem weakOrder_plain (l : List Issue) :
    WeakOrder (compareByPriority Haxe.compareIssueIds) l where
  swap a _ b _ := compareByPriority_swap threeWay_swap a b
  trans := by
    intro a _ b _ c _
    simp only [compareByPriority_le_iff]
    rintro (first | ⟨first, left⟩) (second | ⟨second, right⟩)
    · exact .inl (by omega)
    · exact .inl (by omega)
    · exact .inl (by omega)
    · exact .inr ⟨by omega, left.trans right⟩

/-- Both versions compare the ids of any two siblings of one priority alike. -/
def ComparedAlike (siblings : List Issue) : Prop :=
  ∀ a ∈ siblings, ∀ b ∈ siblings, a.priority = b.priority →
    (naturalCompareIDs a.id b.id < 0 ↔ Haxe.compareIssueIds a.id b.id < 0)

private theorem ComparedAlike.lt_iff {siblings : List Issue} (alike : ComparedAlike siblings)
    {a b : Issue} (left : a ∈ siblings) (right : b ∈ siblings) :
    compareIssuesByPriority a b < 0 ↔ compareByPriority Haxe.compareIssueIds a b < 0 := by
  simp only [compareIssuesByPriority, compareByPriority]
  have ids := alike a left b right
  split_ifs
  · exact Iff.rfl
  · exact Iff.rfl
  · exact ids (by omega)

/-! ## The same order in both versions -/

section Agree
variable {siblings : Table Issue.id} (sorter : Sorter Issue) (sorter' : Sorter Haxe.Item)
  (allDeps : Option DepMap)

/-- The items that the Haxe version gets for the issues. -/
def readItems (allDeps : Option DepMap) (issue : Issue) : Haxe.Item :=
  Haxe.readItem (depsOf allDeps issue.id) issue

theorem ComparedAlike.sort_eq (alike : ComparedAlike siblings.rows) {l : List Issue}
    {l' : List Haxe.Item}
    (inside : ∀ s ∈ l, s ∈ siblings.rows) (perm : l'.Perm (l.map (readItems allDeps))) :
    sorter'.sort Haxe.compareListItems l' = (sorter.sort compareIssuesByPriority l).map (readItems allDeps) := by
  have order : WeakOrder compareIssuesByPriority l := by
    apply (weakOrder_plain l).congr
    · intro a _ b _
      exact compareByPriority_swap naturalCompareIDs_swap a b
    · intro a left b right
      exact alike.lt_iff (inside a left) (inside b right)
  have order' : WeakOrder Haxe.compareListItems (l.map (readItems allDeps)) :=
    (weakOrder_plain _).comap
  apply sort_map sorter sorter' perm order order'
  · intro a left b right
    exact alike.lt_iff (inside a left) (inside b right)
  · intro x left y right le ge
    obtain ⟨a, heldA, rfl⟩ := List.mem_map.mp left
    obtain ⟨b, heldB, rfl⟩ := List.mem_map.mp right
    have first := compareByPriority_le_iff.mp le
    have second := compareByPriority_le_iff.mp ge
    have same : a.id = b.id := by
      rcases first with less | ⟨level, below⟩
      · rcases second with greater | ⟨equal, -⟩
        · omega
        · omega
      · rcases second with greater | ⟨equal, above⟩
        · omega
        · exact le_antisymm below above
    rw [Table.eq_of_key (inside a heldA) (inside b heldB) same]

private theorem orderByDependencies_agree (alike : ComparedAlike siblings.rows) {group : List Issue}
    (perm : group.Perm siblings.rows) :
    orderByDependencies (sorter'.sort Haxe.compareListItems) (fun i => i.id) Haxe.Item.dependencies
        (siblings.rows.map (readItems allDeps)) =
      (orderByDependencies (sorter.sort compareIssuesByPriority) Issue.id (fun s => depsOf allDeps s.id) group).map
        (List.map (readItems allDeps)) := by
  have distinct : (group.map Issue.id).Nodup := (perm.map Issue.id).nodup_iff.mpr siblings.distinct
  have ids : (siblings.rows.map (readItems allDeps)).map
      (fun i => i.id) = siblings.rows.map Issue.id := by
    rw [List.map_map]
    rfl
  have distinct' : ((siblings.rows.map (readItems allDeps)).map fun i => i.id).Nodup := by
    rw [ids]
    exact siblings.distinct
  apply Kahn.Mirrors.emit_eq
  refine ⟨proper_schedulingEdges _ distinct, finds_byID distinct, finds_byID distinct',
    sorter.perm _, ?_, ?_, ?_, ?_⟩
  · intro s
    rfl
  · exact (perm.map _).symm
  · have once := (proper_schedulingEdges (fun s => depsOf allDeps s.id) distinct).once
    apply (List.perm_ext_iff_of_nodup (proper_schedulingEdges _ distinct').once once).mpr
    rintro ⟨x, t⟩
    apply edge_schedulingEdges.trans (Iff.trans _ edge_schedulingEdges.symm)
    simp only [DependsOn, ids, List.mem_map, exists_exists_and_eq_and, (perm.map Issue.id).mem_iff,
      perm.mem_iff]
    rfl
  · intro l l' _ inside rearranged
    exact alike.sort_eq sorter sorter' allDeps (fun s held => perm.mem_iff.mp (inside s held))
      rearranged

theorem map_toIssue_readItems (l : List Issue) :
    (l.map (readItems allDeps)).map Haxe.Item.toIssue = l := by
  rw [List.map_map]
  exact List.map_id l

private theorem map_map_toIssue_readItems (result : Option (List Issue)) :
    (result.map (List.map (readItems allDeps))).map (List.map Haxe.Item.toIssue) = result := by
  cases result with
  | none => rfl
  | some l => rw [Option.map_some, Option.map_some, map_toIssue_readItems]

private theorem perm_eq_of_short {l l' : List Issue} (perm : l'.Perm l) (short : l.length < 2) :
    l' = l := by
  match l, short with
  | [], _ => exact List.perm_nil.mp perm
  | [a], _ => exact List.perm_singleton.mp perm

private theorem schedulingEdges_none (l : List Issue) :
    schedulingEdges Issue.id (fun s => depsOf none s.id) l = [] := by
  simp [schedulingEdges, depsOf, schedulingTargets]

private theorem ComparedAlike.orderItems_eq (alike : ComparedAlike siblings.rows)
    (depsMode : String) (inView : List Issue) :
    (Haxe.orderItems sorter' depsMode (siblings.rows.map (readItems allDeps))).map (List.map Haxe.Item.toIssue) =
      orderChildren sorter (if depsMode = "" then none else some ⟨depsMode, allDeps, inView⟩)
        (sorter.sort compareIssuesByPriority siblings.rows) := by
  have perm := sorter.perm compareIssuesByPriority siblings.rows
  rw [Haxe.orderItems]
  by_cases plain : depsMode = ""
  · have sorted := alike.sort_eq sorter sorter' allDeps
      (fun s held => perm.mem_iff.mp held) (perm.map (readItems allDeps)).symm
    simp only [if_pos plain, orderChildren, Haxe.sortedListItems, Option.map_some, sorted,
      map_toIssue_readItems]
  · simp only [if_neg plain, orderChildren, Haxe.orderListItemsByDependencies, List.length_map]
    by_cases short : siblings.rows.length < 2
    · have same := perm_eq_of_short perm short
      rw [if_pos short, same, Option.map_some, map_toIssue_readItems]
      cases allDeps with
      | none => rfl
      | some allDeps => simp only [orderSiblingsByDeps, if_pos short]
    · have long : ¬ (sorter.sort compareIssuesByPriority siblings.rows).length < 2 := by
        rwa [perm.length_eq]
      rw [if_neg short]
      cases allDeps with
      | none =>
        rw [orderByDependencies_agree sorter sorter' none alike (List.Perm.refl _),
          orderByDependencies, schedulingEdges_none, Kahn.emit_nil (sorter.perm _)]
        simp only [Option.map_some, map_toIssue_readItems, orderSiblingsByDeps]
      | some allDeps =>
        rw [orderByDependencies_agree sorter sorter' (some allDeps) alike perm]
        simp only [orderSiblingsByDeps, if_neg long]
        exact map_map_toIssue_readItems (some allDeps) _

end Agree

/-! ## Where they differ -/

section Pair
variable {α : Type} [DecidableEq α] {id : α → String} {dependencies : α → List Dependency}
  {siblings : List α}
  {cmp : α → α → Int} {a b : α}

omit [DecidableEq α] in
private theorem degreeOf_schedulingEdges_eq_zero {x : String} :
    Kahn.degreeOf (schedulingEdges id dependencies siblings) x = 0 ↔
      ∀ t, ¬ DependsOn id dependencies siblings x t := by
  rw [Kahn.degreeOf, Int.natCast_eq_zero, List.countP_eq_zero]
  constructor
  · intro none t depends
    simpa using none (x, t) (edge_schedulingEdges.mpr depends)
  · rintro none ⟨y, t⟩ held
    rw [decide_eq_true_eq]
    rintro rfl
    exact none t (edge_schedulingEdges.mp held)

/-- When only two siblings come after no other, the sort that favours one emits it first, if it is
not the greater one. -/
theorem orderByDependencies_favouring (distinct : (siblings.map id).Nodup) (left : a ∈ siblings)
    (right : b ∈ siblings) (ne : a ≠ b) (le : cmp a b ≤ 0)
    (free : ∀ s ∈ siblings, (∀ t, ¬ DependsOn id dependencies siblings (id s) t) ↔ s = a ∨ s = b) :
    ∃ rest, orderByDependencies ((Sorter.favouring a).sort cmp) id dependencies siblings = some (a :: rest) := by
  obtain ⟨result, emitted, -⟩ := orderByDependencies_spec dependencies
    ((Sorter.favouring a).perm cmp) distinct
  have ready : (siblings.filter fun s => Kahn.degreeOf (schedulingEdges id dependencies siblings) (id s) = 0).Perm
      [a, b] := by
    apply (List.perm_ext_iff_of_nodup (distinct.of_map.filter _) (by simpa using ne)).mpr
    intro s
    simp only [List.mem_filter, decide_eq_true_eq, degreeOf_schedulingEdges_eq_zero, List.mem_cons,
      List.not_mem_nil, or_false]
    constructor
    · rintro ⟨held, none⟩
      exact (free s held).mp none
    · rintro (rfl | rfl)
      · exact ⟨left, (free s left).mpr (.inl rfl)⟩
      · exact ⟨right, (free s right).mpr (.inr rfl)⟩
  have sorted := Sorter.favouring_pair ne le ready
  obtain ⟨rest, rfl⟩ := Kahn.emit_head emitted sorted
  exact ⟨rest, emitted⟩

end Pair

section Behind
variable {siblings : Table Issue.id} {a b : Issue}

/-- All siblings but two depend on the first of the two. -/
def behind (siblings : Table Issue.id) (a b : Issue) : DepMap where
  rows := siblings.rows.map fun s => (s.id, if s = a ∨ s = b then [] else [⟨a.id, .blocks⟩])
  distinct := by
    rw [List.map_map]
    exact siblings.distinct

private theorem get_behind {s : Issue} (held : s ∈ siblings.rows) :
    (behind siblings a b).get s.id = if s = a ∨ s = b then [] else [⟨a.id, .blocks⟩] := by
  have found : (behind siblings a b).find? s.id = some
      (s.id, if s = a ∨ s = b then [] else [⟨a.id, .blocks⟩]) :=
    Table.find?_eq_some.mpr ⟨List.mem_map.mpr ⟨s, held, rfl⟩, rfl⟩
  rw [DepMap.get, found, Option.map_some, Option.getD_some]

/-- The two are the siblings that come after no other. -/
theorem free_behind {α : Type} {id : α → String} {dependencies : α → List Dependency}
    {group : List α} {f : Issue → α}
    (perm : group.Perm (siblings.rows.map f)) (ids : ∀ s, id (f s) = s.id)
    (deps : ∀ s ∈ siblings.rows, dependencies (f s) = (behind siblings a b).get s.id)
    (left : a ∈ siblings.rows) (right : b ∈ siblings.rows) :
    ∀ s ∈ group, (∀ t, ¬ DependsOn id dependencies group (id s) t) ↔ s = f a ∨ s = f b := by
  have known {s : α} (held : s ∈ group) : ∃ r ∈ siblings.rows, f r = s :=
    List.mem_map.mp (perm.mem_iff.mp held)
  have same {r r' : Issue} (held : r ∈ siblings.rows) (held' : r' ∈ siblings.rows)
      (equal : f r = f r') : r = r' := by
    apply Table.eq_of_key held held'
    rw [← ids, ← ids, equal]
  intro s held
  obtain ⟨r, there, rfl⟩ := known held
  constructor
  · intro none
    by_contra other
    push Not at other
    have apart : ¬ (r = a ∨ r = b) := by
      rintro (rfl | rfl)
      · exact other.1 rfl
      · exact other.2 rfl
    refine none a.id ⟨⟨f r, held, rfl, ⟨a.id, .blocks⟩, ?_, rfl, rfl⟩, ?_, ?_⟩
    · rw [deps r there, get_behind there, if_neg apart]
      exact List.mem_singleton_self _
    · exact List.mem_map.mpr ⟨f a, perm.mem_iff.mpr (List.mem_map_of_mem left), ids a⟩
    · rw [ids]
      intro equal
      exact apart (.inl (Table.eq_of_key there left equal))
  · rintro pair t ⟨⟨s', held', equal, dep, listed, -⟩, -⟩
    obtain ⟨r', there', rfl⟩ := known held'
    rw [ids, ids] at equal
    have one : r' = a ∨ r' = b := by
      rw [Table.eq_of_key there' there equal]
      exact pair.imp (same there left) (same there right)
    rw [deps r' there', get_behind there', if_pos one] at listed
    simp at listed

end Behind

theorem not_short {α : Type} {l : List α} {a b : α} (left : a ∈ l) (right : b ∈ l) (ne : a ≠ b) :
    ¬ l.length < 2 := by
  match l with
  | [] => simp at left
  | [c] =>
    rw [List.mem_singleton] at left right
    exact absurd (left.trans right.symm) ne
  | _ :: _ :: _ => simp

section Differ
variable {siblings : Table Issue.id} {a b : Issue}

/-- Go emits the first of the two before the others when it does not compare as the greater one. -/
theorem orderChildren_behind (left : a ∈ siblings.rows) (right : b ∈ siblings.rows) (ne : a ≠ b)
    (le : compareIssuesByPriority a b ≤ 0) (mode : String) (inView : List Issue) :
    ∃ rest, orderChildren (.favouring a) (some ⟨mode, some (behind siblings a b), inView⟩)
      ((Sorter.favouring a).sort compareIssuesByPriority siblings.rows) = some (a :: rest) := by
  have perm := (Sorter.favouring a).perm compareIssuesByPriority siblings.rows
  have left' := perm.mem_iff.mpr left
  have right' := perm.mem_iff.mpr right
  simp only [orderChildren, orderSiblingsByDeps, if_neg (not_short left' right' ne)]
  apply orderByDependencies_favouring ((perm.map Issue.id).nodup_iff.mpr siblings.distinct) left'
    right' ne le
  exact free_behind (f := fun s => s) (by simpa using perm) (fun _ => rfl) (fun _ _ => rfl) left
    right

/-- Haxe emits the second of the two before the others when it does not compare as the greater
one. -/
theorem orderItems_behind (left : a ∈ siblings.rows) (right : b ∈ siblings.rows) (ne : a ≠ b)
    (le : compareByPriority Haxe.compareIssueIds b a ≤ 0) {mode : String} (shown : mode ≠ "") :
    ∃ rest, Haxe.orderItems (.favouring (readItems (some (behind siblings a b)) b)) mode
      (siblings.rows.map (readItems (some (behind siblings a b)))) =
        some (readItems (some (behind siblings a b)) b :: rest) := by
  have left' := List.mem_map_of_mem (f := readItems (some (behind siblings a b))) left
  have right' := List.mem_map_of_mem (f := readItems (some (behind siblings a b))) right
  have ne' : readItems (some (behind siblings a b)) b ≠ readItems (some (behind siblings a b)) a :=
    fun same => ne (congrArg Haxe.Item.toIssue same).symm
  rw [Haxe.orderItems, if_neg shown, Haxe.orderListItemsByDependencies,
    if_neg (not_short right' left' ne')]
  apply orderByDependencies_favouring (b := readItems (some (behind siblings a b)) a) _ right'
    left' ne' le
  · intro s held
    rw [or_comm]
    exact free_behind (f := readItems (some (behind siblings a b))) (List.Perm.refl _)
      (fun _ => rfl) (fun _ _ => rfl)
      left right s held
  · rw [List.map_map]
    exact siblings.distinct

end Differ

theorem orderItems_agree_iff (siblings : Table Issue.id) :
    (∀ (sorter : Sorter Issue) (sorter' : Sorter Haxe.Item) (depsMode : String) (allDeps : Option DepMap)
      (inView : List Issue),
      (Haxe.orderItems sorter' depsMode (siblings.rows.map (readItems allDeps))).map (List.map Haxe.Item.toIssue) =
        orderChildren sorter (if depsMode = "" then none else some ⟨depsMode, allDeps, inView⟩)
          (sorter.sort compareIssuesByPriority siblings.rows)) ↔
      ComparedAlike siblings.rows := by
  constructor
  · intro agree
    -- Where one version has `a` first and the other `b`, a group behind the two tells them apart.
    have apart {a b : Issue} (left : a ∈ siblings.rows) (right : b ∈ siblings.rows) (ne : a ≠ b)
        (le : compareIssuesByPriority a b ≤ 0) (ge : compareByPriority Haxe.compareIssueIds b a ≤ 0) : False := by
      obtain ⟨rest, go⟩ := orderChildren_behind left right ne le "scheduling" siblings.rows
      obtain ⟨rest', haxe⟩ := orderItems_behind left right ne ge (by decide : "scheduling" ≠ "")
      have same :=
        agree (.favouring a) (.favouring (readItems (some (behind siblings a b)) b)) "scheduling"
        (some (behind siblings a b)) siblings.rows
      rw [if_neg (by decide), go, haxe, Option.map_some, List.map_cons, Option.some.injEq,
        List.cons.injEq] at same
      exact ne same.1.symm
    intro a left b right level
    have natural := naturalCompareIDs_swap a.id b.id
    have plain : Haxe.compareIssueIds b.id a.id = -Haxe.compareIssueIds a.id b.id :=
      threeWay_swap a.id b.id
    have ne (lt : naturalCompareIDs a.id b.id < 0 ∨ Haxe.compareIssueIds a.id b.id < 0) :
        a ≠ b := by
      rintro rfl
      omega
    constructor
    · intro lt
      by_contra le
      refine apart left right (ne (.inl lt)) ?_ ?_
      · rw [compareIssuesByPriority, compareByPriority_of_eq level]
        omega
      · rw [compareByPriority_of_eq level.symm]
        omega
    · intro lt
      by_contra le
      refine apart right left (ne (.inr lt)).symm ?_ ?_
      · rw [compareIssuesByPriority, compareByPriority_of_eq level.symm]
        omega
      · rw [compareByPriority_of_eq level]
        omega
  · intro alike sorter sorter' depsMode allDeps inView
    exact alike.orderItems_eq sorter sorter' allDeps depsMode inView

/-- Two issues of one priority, nine and ten: Go puts nine first, Haxe ten. -/
theorem orderItems_nine_ten :
    orderChildren .stable none (Sorter.stable.sort compareIssuesByPriority [⟨"bd-9", "nine", 2⟩, ⟨"bd-10", "ten", 2⟩]) =
        some [⟨"bd-9", "nine", 2⟩, ⟨"bd-10", "ten", 2⟩] ∧
      (Haxe.orderItems .stable "" (List.map (readItems none) [⟨"bd-9", "nine", 2⟩, ⟨"bd-10", "ten", 2⟩])).map
        (List.map Haxe.Item.toIssue) = some [⟨"bd-10", "ten", 2⟩, ⟨"bd-9", "nine", 2⟩] := by
  decide +kernel

end Beads.ListTree
