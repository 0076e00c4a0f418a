import Beads.Lib.Preorder
import Beads.ListTree
import Beads.SiblingOrderProofs

/-! When the tree listing ends, and when it prints every issue of the page once. -/
namespace Beads.ListTree
open Lib Relation Graph

/-! ## The issues among the lines -/

theorem issuesOf_append (left right : List Line) :
    issuesOf (left ++ right) = issuesOf left ++ issuesOf right :=
  List.filterMap_append

theorem issuesOf_annotations {α : Type} (sorters : Sorters α) (compareIDs : String → String → Int)
    (mode : String) (title : String → Option String) (deps : List Dependency) (indent : String) :
    issuesOf (annotations sorters compareIDs mode title deps indent) = [] := by
  simp only [annotations, issuesOf_append, List.append_eq_nil_iff]
  constructor
  · simp [issuesOf]
  · split
    · rfl
    · rfl

section Print
variable {α : Type} {id : α → String} {issue : α → Issue} {row : Bool → α → List Line × String}
  {below : String → String → Option (List Line)} {listed : String → Option (List α)}

/-- The printed issues are those of the recursion, when each entry prints its own. -/
theorem issuesOf_printEach (own : ∀ last entry, issuesOf (row last entry).1 = [issue entry])
    (nested : ∀ k indent, (below k indent).map issuesOf = (listed k).map (List.map issue))
    (entries : List α) :
    (printEach id row below entries).map issuesOf = (Preorder.visit listed id entries).map (List.map issue) := by
  induction entries with
  | nil => rfl
  | cons entry rest ih =>
    have inner := nested (id entry) (row rest.isEmpty entry).2
    simp only [printEach, Preorder.visit]
    cases printed : below (id entry) (row rest.isEmpty entry).2 with
    | none =>
      rw [printed, Option.map_none, eq_comm, Option.map_eq_none_iff] at inner
      simp [inner]
    | some lines =>
      rw [printed, Option.map_some, eq_comm, Option.map_eq_some_iff] at inner
      obtain ⟨found, here, same⟩ := inner
      cases after : printEach id row below rest with
      | none =>
        rw [after, Option.map_none, eq_comm, Option.map_eq_none_iff] at ih
        simp [here, ih]
      | some others =>
        rw [after, Option.map_some, eq_comm, Option.map_eq_some_iff] at ih
        obtain ⟨found', there, same'⟩ := ih
        simp [here, there, issuesOf_append, own, same, same']

theorem issuesOf_rootRow (issue : α → Issue) {annotate : α → String → List Line}
    (plain : ∀ a indent, issuesOf (annotate a indent) = []) (last : Bool) (entry : α) :
    issuesOf (rootRow issue annotate last entry).1 = [issue entry] := by
  have rest := plain entry ""
  simp only [issuesOf] at rest
  simp [rootRow, issuesOf, rest]

theorem issuesOf_childRow (issue : α → Issue) {annotate : α → String → List Line}
    (plain : ∀ a indent, issuesOf (annotate a indent) = []) (indent : String) (last : Bool)
    (entry : α) :
    issuesOf (childRow issue annotate indent last entry).1 = [issue entry] := by
  have rest := plain entry (indent ++ if last then "    " else "│   ")
  simp only [issuesOf] at rest
  simp [childRow, issuesOf, rest]

end Print

theorem issuesOf_annotationsFor (sorters : Sorters Issue) (dr : Option DepRender)
    (nodeID indent : String) :
    issuesOf (annotationsFor sorters dr nodeID indent) = [] := by
  cases dr with
  | none => rfl
  | some dr =>
    rw [annotationsFor]
    exact issuesOf_annotations sorters _ _ _ _ indent

private theorem issuesOf_printPrettyTree {sorters : Sorters Issue}
    {childrenMap ordered : String → List Issue}
    {dr : Option DepRender} (orders : ∀ k, orderChildren sorters.issues dr (childrenMap k) = some (ordered k))
    (fuel : Nat) (k indent : String) :
    (printPrettyTree sorters childrenMap dr fuel k indent).map issuesOf =
      (Preorder.below Issue.id ordered fuel k).map (List.map fun issue => issue) := by
  induction fuel generalizing k indent with
  | zero => rfl
  | succ fuel ih =>
    rw [printPrettyTree, orders k, Preorder.below]
    apply issuesOf_printEach
    · apply issuesOf_childRow
      intro child indent
      exact issuesOf_annotationsFor sorters dr child.id indent
    · exact ih

private theorem Haxe.issuesOf_renderListChildren {annotate : Item → String → List Line}
    (plain : ∀ a indent, issuesOf (annotate a indent) = []) {groups : List (String × List Item)}
    (fuel : Nat)
    (k indent : String) : (renderListChildren annotate groups fuel k indent).map issuesOf =
      (Preorder.below (fun i => i.id) (fun k => (groups.lookup k).getD []) fuel k).map (List.map Item.toIssue) := by
  induction fuel generalizing k indent with
  | zero => rfl
  | succ fuel ih =>
    rw [renderListChildren, Preorder.below]
    apply issuesOf_printEach
    · exact issuesOf_childRow Item.toIssue plain indent
    · exact ih

/-! ## Links -/

section Links
variable {page : Table Issue.id} {allDeps : Option DepMap} {p : String} {c : Issue}

/-- The issue has a parent-child edge to the parent. -/
def ParentEdge (allDeps : Option DepMap) (p : String) (c : Issue) : Prop :=
  ∃ dep ∈ depsOf allDeps c.id, dep.type = .parentChild ∧ dep.dependsOnID = p

/-- The child has a parent-child edge to the parent, and both are on the page. -/
def Explicit (page : Table Issue.id) (allDeps : Option DepMap) (p : String) (c : Issue) : Prop :=
  c ∈ page.rows ∧ p ∈ page.rows.map Issue.id ∧ ParentEdge allDeps p c

/-- The child has no parent on the page but the one that its id names. -/
def Dotted (page : Table Issue.id) (allDeps : Option DepMap) (p : String) (c : Issue) : Prop :=
  c ∈ page.rows ∧ p ∈ page.rows.map Issue.id ∧ dottedParent c.id = some p ∧ ∀ q, ¬ Explicit page allDeps q c

private theorem byID_eq_some {α : Type} {id : α → String} {rows : List α}
    (distinct : (rows.map id).Nodup)
    {k : String} {r : α} : byID id rows k = some r ↔ r ∈ rows ∧ id r = k := by
  constructor
  · intro found
    exact ⟨by simpa using List.mem_of_find?_eq_some found, by simpa using List.find?_some found⟩
  · rintro ⟨held, rfl⟩
    exact finds_byID distinct r held

theorem byID_isSome {α : Type} {id : α → String} {rows : List α} {k : String} :
    (byID id rows k).isSome ↔ k ∈ rows.map id := by
  simp [byID]

private theorem mem_depsOf {id : String} {dep : Dependency} : dep ∈ depsOf allDeps id ↔
    ∃ entry ∈ (allDeps.map fun m => m.rows).getD [], entry.1 = id ∧ dep ∈ entry.2 := by
  cases allDeps with
  | none => simp [depsOf]
  | some m =>
    simp only [depsOf, Option.map_some, Option.getD_some, DepMap.get]
    constructor
    · intro held
      cases found : m.find? id with
      | none => simp [found] at held
      | some entry =>
        rw [found] at held
        obtain ⟨there, same⟩ := Table.find?_eq_some.mp found
        exact ⟨entry, there, same, held⟩
    · rintro ⟨entry, there, same, held⟩
      rw [Table.find?_eq_some.mpr ⟨there, same⟩]
      exact held

theorem mem_explicitLinks :
    (p, c) ∈ explicitLinks page.rows allDeps ↔ Explicit page allDeps p c := by
  simp only [explicitLinks, List.mem_flatMap, List.mem_filterMap, Explicit, ParentEdge, mem_depsOf]
  constructor
  · rintro ⟨entry, listed, dep, held, link⟩
    split at link
    · next kept =>
      obtain ⟨child, found, same⟩ := Option.map_eq_some_iff.mp link
      obtain ⟨rfl, rfl⟩ := Prod.mk.inj same
      obtain ⟨known, id⟩ := (byID_eq_some page.distinct).mp found
      exact ⟨known, byID_isSome.mp kept.2, dep, ⟨entry, listed, id.symm, held⟩, kept.1, rfl⟩
    · simp at link
  · rintro ⟨known, parent, dep, ⟨entry, listed, id, held⟩, type, rfl⟩
    refine ⟨entry, listed, dep, held, ?_⟩
    rw [if_pos ⟨type, byID_isSome.mpr parent⟩, (byID_eq_some page.distinct).mpr ⟨known, id.symm⟩]
    rfl

end Links

section Firsts
variable {α : Type} {key : α → String} {seen : List String} {l : List α} {x : α}

theorem mem_of_mem_firstsBy (held : x ∈ firstsBy key seen l) : x ∈ l ∧ key x ∉ seen := by
  induction l generalizing seen with
  | nil => simp [firstsBy] at held
  | cons y rest ih =>
    rw [firstsBy] at held
    split at held
    · exact ⟨List.mem_cons_of_mem y (ih held).1, (ih held).2⟩
    · next fresh =>
      rcases List.mem_cons.mp held with rfl | later
      · exact ⟨List.mem_cons_self, fresh⟩
      · obtain ⟨there, unseen⟩ := ih later
        exact ⟨List.mem_cons_of_mem y there, fun known => unseen (List.mem_cons_of_mem _ known)⟩

theorem nodup_firstsBy : ((firstsBy key seen l).map key).Nodup := by
  induction l generalizing seen with
  | nil => simp [firstsBy]
  | cons y rest ih =>
    rw [firstsBy]
    split
    · exact ih
    · rw [List.map_cons, List.nodup_cons]
      refine ⟨?_, ih⟩
      intro again
      obtain ⟨z, held, same⟩ := List.mem_map.mp again
      exact (mem_of_mem_firstsBy held).2 (by simp [same])

/-- Every key that has not been seen before has an entry. -/
theorem exists_mem_firstsBy (held : x ∈ l) (fresh : key x ∉ seen) :
    ∃ y ∈ firstsBy key seen l, key y = key x := by
  induction l generalizing seen with
  | nil => simp at held
  | cons y rest ih =>
    rw [firstsBy]
    split
    · next known =>
      rcases List.mem_cons.mp held with rfl | later
      · exact absurd known fresh
      · exact ih later fresh
    · next unknown =>
      by_cases same : key x = key y
      · exact ⟨y, List.mem_cons_self, same.symm⟩
      · rcases List.mem_cons.mp held with rfl | later
        · exact absurd rfl same
        · have unseen : key x ∉ key y :: seen := by simp [same, fresh]
          obtain ⟨z, there, equal⟩ := ih later unseen
          exact ⟨z, List.mem_cons_of_mem y there, equal⟩

end Firsts

/-! ## What the builder makes of the links -/

section Build
variable {page : Table Issue.id} {allDeps : Option DepMap} {b : Building} {p : String} {c : Issue}

theorem foldl_attachExplicit (links : List (String × Issue)) (b : Building) :
    (∀ p, (links.foldl attachExplicit b).childrenMap p =
      b.childrenMap p ++ ((firstsBy linkKey b.addedChild links).filter (·.1 = p)).map Prod.snd) ∧
    ∀ id, id ∈ (links.foldl attachExplicit b).isChild ↔
      id ∈ b.isChild ∨ ∃ link ∈ links, link.2.id = id := by
  induction links generalizing b with
  | nil => simp [firstsBy]
  | cons link rest ih =>
    obtain ⟨children, childs⟩ := ih (attachExplicit b link)
    rw [List.foldl_cons, firstsBy]
    constructor
    · intro p
      rw [children p]
      by_cases known : linkKey link ∈ b.addedChild
      · simp [attachExplicit, known]
      · by_cases here : link.1 = p
        · subst here
          simp [attachExplicit, known, Building.append]
        · simp [attachExplicit, known, Building.append, here, Ne.symm here]
    · intro id
      rw [childs id]
      have marked : id ∈ (attachExplicit b link).isChild ↔ id = link.2.id ∨ id ∈ b.isChild := by
        simp only [attachExplicit]
        split <;> simp [Building.append]
      rw [marked, List.exists_mem_cons_iff]
      constructor
      · rintro ((rfl | before) | later)
        · exact .inr (.inl rfl)
        · exact .inl before
        · exact .inr (.inr later)
      · rintro (before | rfl | later)
        · exact .inl (.inr before)
        · exact .inl (.inl rfl)
        · exact .inr later

/-- The issue is attached by its id when the loop over the issues gets to it. -/
def Attaches (issues : List Issue) (b : Building) (p : String) (c : Issue) : Prop :=
  c.id ∉ b.isChild ∧ dottedParent c.id = some p ∧ p ∈ issues.map Issue.id

instance (issues : List Issue) (b : Building) (p : String) (c : Issue) :
    Decidable (Attaches issues b p c) :=
  inferInstanceAs (Decidable (_ ∧ _ ∧ _))

/-- What the loop does with an issue. -/
theorem attachDotted_cases (issues : List Issue) (b : Building) (c : Issue) :
    (∃ p, Attaches issues b p c ∧
      attachDotted issues b c = { b.append p c with isChild := c.id :: b.isChild }) ∨
      (∀ p, ¬ Attaches issues b p c) ∧ attachDotted issues b c = b := by
  rw [attachDotted]
  by_cases child : c.id ∈ b.isChild
  · exact .inr ⟨fun p attaches => attaches.1 child, if_pos child⟩
  · rw [if_neg child]
    cases named : dottedParent c.id with
    | none =>
      refine .inr ⟨?_, rfl⟩
      rintro p ⟨-, same, -⟩
      simp [named] at same
    | some parentID =>
      by_cases known : (byID Issue.id issues parentID).isSome
      · exact .inl ⟨parentID, ⟨child, named, byID_isSome.mp known⟩, if_pos known⟩
      · refine .inr ⟨?_, if_neg known⟩
        rintro p ⟨-, same, inside⟩
        obtain rfl := Option.some.inj (named.symm.trans same)
        exact known (byID_isSome.mpr inside)

private theorem foldl_attachDotted (issues l : List Issue) (distinct : (l.map Issue.id).Nodup)
    (b : Building) : (∀ p, (l.foldl (attachDotted issues) b).childrenMap p =
      b.childrenMap p ++ l.filter fun c => Attaches issues b p c) ∧
    ∀ id, id ∈ (l.foldl (attachDotted issues) b).isChild ↔
      id ∈ b.isChild ∨ ∃ c ∈ l, c.id = id ∧ ∃ p, Attaches issues b p c := by
  induction l generalizing b with
  | nil => simp
  | cons c rest ih =>
    rw [List.map_cons, List.nodup_cons] at distinct
    rw [List.foldl_cons]
    rcases attachDotted_cases issues b c with ⟨q, attaches, step⟩ | ⟨free, step⟩
    · obtain ⟨children, childs⟩ := ih distinct.2 (attachDotted issues b c)
      rw [step] at children childs
      -- The ids are distinct, so the others are attached as before.
      have others {d : Issue} (held : d ∈ rest) (p : String) :
          Attaches issues { b.append q c with isChild := c.id :: b.isChild } p d ↔ Attaches issues b p d := by
        have ne : d.id ≠ c.id := fun same => distinct.1 (List.mem_map.mpr ⟨d, held, same⟩)
        simp [Attaches, ne]
      rw [step]
      constructor
      · intro p
        have same : (rest.filter fun d => Attaches issues { b.append q c with isChild := c.id :: b.isChild } p d) =
            rest.filter fun d => Attaches issues b p d := by
          apply List.filter_congr
          intro d held
          rw [decide_eq_decide]
          exact others held p
        rw [children p, same]
        by_cases here : q = p
        · subst here
          simp [Building.append, attaches]
        · have apart : ¬ Attaches issues b p c := by
            intro attaches'
            exact here (Option.some.inj (attaches.2.1.symm.trans attaches'.2.1))
          simp [Building.append, Ne.symm here, apart]
      · intro id
        rw [childs id, List.exists_mem_cons_iff, List.mem_cons]
        constructor
        · rintro ((rfl | before) | ⟨d, held, rfl, p, attaches'⟩)
          · exact .inr (.inl ⟨rfl, q, attaches⟩)
          · exact .inl before
          · exact .inr (.inr ⟨d, held, rfl, p, (others held p).mp attaches'⟩)
        · rintro (before | ⟨rfl, -⟩ | ⟨d, held, rfl, p, attaches'⟩)
          · exact .inl (.inr before)
          · exact .inl (.inl rfl)
          · exact .inr ⟨d, held, rfl, p, (others held p).mpr attaches'⟩
    · obtain ⟨children, childs⟩ := ih distinct.2 b
      rw [step]
      constructor
      · intro p
        rw [children p]
        simp [free p]
      · intro id
        rw [childs id, List.exists_mem_cons_iff]
        simp [free]

/-- The child is below the parent in the tree: by the first edge with its key, or by its id. -/
def Hangs (page : Table Issue.id) (allDeps : Option DepMap) (p : String) (c : Issue) : Prop :=
  (p, c) ∈ firstsBy linkKey [] (explicitLinks page.rows allDeps) ∨ Dotted page allDeps p c

theorem explicit_of_first (first : (p, c) ∈ firstsBy linkKey [] (explicitLinks page.rows allDeps)) :
    Explicit page allDeps p c := mem_explicitLinks.mp (mem_of_mem_firstsBy first).1

theorem Hangs.known (hangs : Hangs page allDeps p c) :
    c ∈ page.rows ∧ p ∈ page.rows.map Issue.id := by
  rcases hangs with first | dotted
  · exact ⟨(explicit_of_first first).1, (explicit_of_first first).2.1⟩
  · exact ⟨dotted.1, dotted.2.1⟩

/-- The links of a page: no child twice below one parent, and marked are those that have a link. -/
structure Linked (page : Table Issue.id) (allDeps : Option DepMap) (b : Building) : Prop where
  nodup : ∀ p, (b.childrenMap p).Nodup
  mem : ∀ p c, c ∈ b.childrenMap p ↔ Hangs page allDeps p c
  isChild : ∀ c ∈ page.rows, c.id ∈ b.isChild ↔ ∃ p, Explicit page allDeps p c ∨ Dotted page allDeps p c

/-- The links after the loop over the explicit ones. -/
def explicitBuilding (issues : List Issue) (allDeps : Option DepMap) : Building :=
  (explicitLinks issues allDeps).foldl attachExplicit ⟨fun _ => [], [], []⟩

theorem mem_isChild_explicitBuilding (known : c ∈ page.rows) :
    c.id ∈ (explicitBuilding page.rows allDeps).isChild ↔ ∃ q, Explicit page allDeps q c := by
  rw [explicitBuilding, (foldl_attachExplicit _ _).2]
  constructor
  · rintro (none | ⟨⟨q, d⟩, listed, same⟩)
    · simp at none
    · have link := mem_explicitLinks.mp listed
      rw [Table.eq_of_key link.1 known same] at link
      exact ⟨q, link⟩
  · rintro ⟨q, link⟩
    exact .inr ⟨(q, c), mem_explicitLinks.mpr link, rfl⟩

private theorem attaches_explicitBuilding (known : c ∈ page.rows) :
    Attaches page.rows (explicitBuilding page.rows allDeps) p c ↔ Dotted page allDeps p c := by
  rw [Attaches, mem_isChild_explicitBuilding known, not_exists]
  constructor
  · rintro ⟨free, named, parent⟩
    exact ⟨known, parent, named, free⟩
  · rintro ⟨-, parent, named, free⟩
    exact ⟨free, named, parent⟩

theorem linked_buildLinks (page : Table Issue.id) (allDeps : Option DepMap) :
    Linked page allDeps (buildLinks page.rows allDeps) := by
  have first := (foldl_attachExplicit (explicitLinks page.rows allDeps) ⟨fun _ => [], [], []⟩).1
  rw [← explicitBuilding] at first
  obtain ⟨children, childs⟩ :=
    foldl_attachDotted page.rows page.rows page.distinct (explicitBuilding page.rows allDeps)
  have opened : buildLinks page.rows allDeps =
      page.rows.foldl (attachDotted page.rows) (explicitBuilding page.rows allDeps) := rfl
  have mem (p : String) (c : Issue) :
      c ∈ (buildLinks page.rows allDeps).childrenMap p ↔ Hangs page allDeps p c := by
    rw [opened, children p, first p, Hangs]
    simp only [List.nil_append, List.mem_append, List.mem_map, List.mem_filter, decide_eq_true_eq]
    apply or_congr
    · constructor
      · rintro ⟨⟨q, d⟩, ⟨held, rfl⟩, rfl⟩
        exact held
      · intro held
        exact ⟨(p, c), ⟨held, rfl⟩, rfl⟩
    · constructor
      · rintro ⟨known, attached⟩
        exact (attaches_explicitBuilding known).mp attached
      · intro dotted
        exact ⟨dotted.1, (attaches_explicitBuilding dotted.1).mpr dotted⟩
  refine ⟨?_, mem, ?_⟩
  · intro p
    rw [opened, children p, first p]
    apply List.nodup_append.mpr
    refine ⟨?_, page.distinct.of_map.filter _, ?_⟩
    · rw [List.nil_append]
      apply (List.nodup_map_iff_inj_on (nodup_firstsBy.of_map.filter _)).mpr
      rintro ⟨q, c⟩ left ⟨q', c'⟩ right rfl
      simp only [List.mem_filter, decide_eq_true_eq] at left right
      rw [left.2, right.2]
    · rintro c left d right rfl
      simp only [List.nil_append, List.mem_map, List.mem_filter, decide_eq_true_eq] at left right
      obtain ⟨⟨q, d⟩, ⟨held, rfl⟩, rfl⟩ := left
      have dotted := (attaches_explicitBuilding right.1).mp right.2
      exact dotted.2.2.2 q (explicit_of_first held)
  · intro c known
    rw [opened, childs, mem_isChild_explicitBuilding known]
    constructor
    · rintro (⟨q, link⟩ | ⟨d, held, same, p, attached⟩)
      · exact ⟨q, .inl link⟩
      · rw [Table.eq_of_key held known same] at attached
        exact ⟨p, .inr ((attaches_explicitBuilding known).mp attached)⟩
    · rintro ⟨p, link | dotted⟩
      · exact .inl ⟨p, link⟩
      · exact .inr ⟨c, known, rfl, p, (attaches_explicitBuilding known).mpr dotted⟩

end Build

/-! ## The listing in Go -/

section Display
variable {page : Table Issue.id} {allDeps : Option DepMap}

/-- One issue is below another in the tree. -/
def Below (page : Table Issue.id) (allDeps : Option DepMap) (a b : String) : Prop :=
  ∃ c, Hangs page allDeps a c ∧ c.id = b

/-- The issue has no parent. -/
def Root (page : Table Issue.id) (allDeps : Option DepMap) (c : Issue) : Prop :=
  c ∈ page.rows ∧ ∀ p, ¬ Explicit page allDeps p c ∧ ¬ Dotted page allDeps p c

/-- What the printer goes through: the roots, and for each parent its children, in any order. -/
structure Shown (page : Table Issue.id) (allDeps : Option DepMap) (roots : List Issue)
    (children : String → List Issue) : Prop where
  rootsNodup : roots.Nodup
  memRoots : ∀ c, c ∈ roots ↔ Root page allDeps c
  nodup : ∀ p, (children p).Nodup
  mem : ∀ p c, c ∈ children p ↔ Hangs page allDeps p c

theorem exists_shown (sorters : Sorters Issue) (page : Table Issue.id) (allDeps : Option DepMap)
    (depsMode : String) :
    ∃ roots children, Shown page allDeps roots children ∧ ∀ fuel,
      (displayPrettyListWithDepsMode sorters page.rows allDeps depsMode fuel).map issuesOf =
        Preorder.listing Issue.id children fuel roots := by
  have linked := linked_buildLinks page allDeps
  have ids {l : List Issue} (nodup : l.Nodup) (inside : ∀ c ∈ l, c ∈ page.rows) :
      (l.map Issue.id).Nodup := by
    apply (List.nodup_map_iff_inj_on nodup).mpr
    intro a left b right same
    exact Table.eq_of_key (inside a left) (inside b right) same
  have ordered (p : String) := orderChildren_perm sorters.issues
    (if depsMode ≠ "" then some ⟨depsMode, allDeps, page.rows⟩ else none)
    (ids ((sorters.issues.perm compareIssuesByPriority ((buildLinks page.rows allDeps).childrenMap p)).nodup_iff.mpr
      (linked.nodup p)) fun c held => by
        rw [(sorters.issues.perm _ _).mem_iff, linked.mem] at held
        exact held.known.1)
  choose children orders rearranged using ordered
  have perm (p : String) : (children p).Perm ((buildLinks page.rows allDeps).childrenMap p) :=
    (rearranged p).trans (sorters.issues.perm _ _)
  have rootsPerm := sorters.issues.perm compareIssuesByPriority
    (page.rows.filter (·.id ∉ (buildLinks page.rows allDeps).isChild))
  have rootsNodup := rootsPerm.nodup_iff.mpr (page.distinct.of_map.filter _)
  obtain ⟨roots, chosen, same⟩ : ∃ roots, orderRoots sorters.issues allDeps depsMode
      (buildIssueTreeWithDeps sorters.issues page.rows allDeps).1 = some roots ∧
        roots.Perm (page.rows.filter (·.id ∉ (buildLinks page.rows allDeps).isChild)) := by
    rw [orderRoots]
    split
    · obtain ⟨roots, ordered, spec⟩ := orderSiblingsByDeps_spec sorters.issues
        (ids rootsNodup fun c held => (List.mem_filter.mp (rootsPerm.mem_iff.mp held)).1) allDeps
      exact ⟨roots, ordered, spec.perm.trans rootsPerm⟩
    · exact ⟨_, rfl, rootsPerm⟩
  refine ⟨roots, children, ⟨?_, ?_, ?_, ?_⟩, ?_⟩
  · exact same.nodup_iff.mpr (page.distinct.of_map.filter _)
  · intro c
    rw [same.mem_iff, List.mem_filter, decide_eq_true_eq, Root]
    apply and_congr_right
    intro known
    rw [linked.isChild c known]
    push Not
    rfl
  · intro p
    exact (perm p).nodup_iff.mpr (linked.nodup p)
  · intro p c
    rw [(perm p).mem_iff, linked.mem]
  · intro fuel
    simp only [displayPrettyListWithDepsMode, chosen, Option.bind_eq_bind, Option.bind_some]
    have plain : Preorder.listing Issue.id children fuel roots =
        (Preorder.visit (Preorder.below Issue.id children fuel) Issue.id roots).map (List.map fun root => root) := by
      simp [Preorder.listing]
    rw [plain]
    apply issuesOf_printEach
    · apply issuesOf_rootRow
      intro root indent
      exact issuesOf_annotationsFor sorters _ root.id indent
    · exact issuesOf_printPrettyTree orders fuel

namespace Shown
variable {roots : List Issue} {children : String → List Issue}

theorem child_eq (shown : Shown page allDeps roots children) :
    Preorder.Child Issue.id children = Below page allDeps := by
  funext a b
  simp only [Preorder.Child, Below, shown.mem]

theorem drawn (shown : Shown page allDeps roots children) :
    Preorder.Drawn Issue.id children roots page.rows where
  distinct := page.distinct
  root c held := ((shown.memRoots c).mp held).1
  child p c held := ((shown.mem p c).mp held).known.1
  parent := by
    intro p some
    obtain ⟨c, held⟩ := List.exists_mem_of_ne_nil _ some
    exact ((shown.mem p c).mp held).known.2

/-- The recursion ends exactly when no root reaches a cycle. -/
theorem exists_listing_iff (shown : Shown page allDeps roots children) :
    (∃ fuel, (Preorder.listing Issue.id children fuel roots).isSome) ↔
      ∀ r, Root page allDeps r → ∀ y, ReflTransGen (Below page allDeps) r.id y →
        ¬ TransGen (Below page allDeps) y y := by
  have ends := Preorder.exists_listing_iff roots shown.drawn.known
  simpa only [shown.child_eq, shown.memRoots] using ends

end Shown

/-- No two parent-child edges of the page have the same key. -/
def KeysApart (page : Table Issue.id) (allDeps : Option DepMap) : Prop :=
  ∀ p c p' c', Explicit page allDeps p c → Explicit page allDeps p' c' → linkKey (p, c) = linkKey (p', c') →
    (p, c) = (p', c')

/-- One issue has the other as its parent, by an edge or by its id. -/
def Link (page : Table Issue.id) (allDeps : Option DepMap) (a b : String) : Prop :=
  ∃ c, (Explicit page allDeps a c ∨ Dotted page allDeps a c) ∧ c.id = b

/-- No issue of the page has parent-child edges to two parents. -/
def SingleParent (page : Table Issue.id) (allDeps : Option DepMap) : Prop :=
  ∀ c ∈ page.rows, ∀ p q, ParentEdge allDeps p c → ParentEdge allDeps q c → p = q

theorem SingleParent.eq (single : SingleParent page allDeps) {p q : String} {c : Issue}
    (left : Explicit page allDeps p c) (right : Explicit page allDeps q c) : p = q :=
  single c left.1 p q left.2.2 right.2.2

theorem KeysApart.hangs_iff (apart : KeysApart page allDeps) {p : String} {c : Issue} :
    Hangs page allDeps p c ↔ Explicit page allDeps p c ∨ Dotted page allDeps p c := by
  constructor
  · exact Or.imp_left explicit_of_first
  · apply Or.imp_left
    intro link
    have fresh : linkKey (p, c) ∉ ([] : List String) := List.not_mem_nil
    obtain ⟨⟨q, d⟩, first, same⟩ := exists_mem_firstsBy (mem_explicitLinks.mpr link) fresh
    rwa [apart q d p c (explicit_of_first first) link same] at first

private theorem Shown.placed {roots : List Issue} {children : String → List Issue}
    (shown : Shown page allDeps roots children)
    (single : SingleParent page allDeps) (c : Issue) (known : c ∈ page.rows)
    (there : c ∈ roots ∨ ∃ k, c ∈ children k) :
    Preorder.Placed Issue.id children roots page.rows c := by
  have root_or : Root page allDeps c ∨ ∃ p, Explicit page allDeps p c ∨ Dotted page allDeps p c := by
    by_cases some : ∃ p, Explicit page allDeps p c ∨ Dotted page allDeps p c
    · exact .inr some
    · push Not at some
      exact .inl ⟨known, some⟩
  have linked {k : String} (held : c ∈ children k) :
      Explicit page allDeps k c ∨ Dotted page allDeps k c :=
    ((shown.mem k c).mp held).imp_left explicit_of_first
  rcases root_or with root | ⟨p, link⟩
  · left
    refine ⟨List.count_eq_one_of_mem shown.rootsNodup ((shown.memRoots c).mpr root), ?_⟩
    intro k held
    rcases linked held with explicit | dotted
    · exact (root.2 k).1 explicit
    · exact (root.2 k).2 dotted
  · right
    have notRoot : c ∉ roots := by
      intro held
      have root := (shown.memRoots c).mp held
      rcases link with explicit | dotted
      · exact (root.2 p).1 explicit
      · exact (root.2 p).2 dotted
    obtain ⟨k, held⟩ := there.resolve_left notRoot
    obtain ⟨parent, onPage, rfl⟩ := List.mem_map.mp ((shown.mem k c).mp held).known.2
    refine ⟨notRoot, parent, onPage, List.count_eq_one_of_mem (shown.nodup _) held, ?_⟩
    -- An issue with an edge is below the one parent it has, any other below the one its id names.
    intro q held'
    rcases linked held with explicit | dotted
    · rcases linked held' with explicit' | dotted'
      · exact single.eq explicit' explicit
      · exact absurd explicit (dotted'.2.2.2 _)
    · rcases linked held' with explicit' | dotted'
      · exact absurd explicit' (dotted.2.2.2 _)
      · exact Option.some.inj (dotted'.2.2.1.symm.trans dotted.2.2.1)

/-- Every issue is shown somewhere exactly when no edge is lost to another with its key. -/
theorem Shown.covered_iff {roots : List Issue} {children : String → List Issue}
    (shown : Shown page allDeps roots children) (single : SingleParent page allDeps) :
    (∀ c ∈ page.rows, c ∈ roots ∨ ∃ k, c ∈ children k) ↔ KeysApart page allDeps := by
  constructor
  · intro covered
    have first {p : String} {c : Issue} (link : Explicit page allDeps p c) :
        (p, c) ∈ firstsBy linkKey [] (explicitLinks page.rows allDeps) := by
      rcases covered c link.1 with root | ⟨k, held⟩
      · exact absurd link (((shown.memRoots c).mp root).2 p).1
      · rcases (shown.mem k c).mp held with first | dotted
        · rwa [single.eq (explicit_of_first first) link] at first
        · exact absurd link (dotted.2.2.2 p)
    intro p c p' c' left right same
    exact List.inj_on_of_nodup_map nodup_firstsBy (first left) (first right) same
  · intro apart c known
    simp only [shown.memRoots, shown.mem, apart.hangs_iff]
    by_cases some : ∃ p, Explicit page allDeps p c ∨ Dotted page allDeps p c
    · exact .inr some
    · push Not at some
      exact .inl ⟨known, some⟩

end Display

/-- Every issue of the page is printed, and none twice. -/
def PrintsOnce (page : List Issue) (print : Nat → Option (List Line)) : Prop :=
  ∃ fuel lines, print fuel = some lines ∧ ∀ issue ∈ page, (issuesOf lines).count issue = 1

theorem printsOnce_iff {page : List Issue} {print : Nat → Option (List Line)}
    {listed : Nat → Option (List Issue)} (same : ∀ fuel, (print fuel).map issuesOf = listed fuel) :
    PrintsOnce page print ↔ ∃ fuel result, listed fuel = some result ∧
      ∀ issue ∈ page, result.count issue = 1 := by
  simp only [PrintsOnce, ← same, Option.map_eq_some_iff]
  constructor
  · rintro ⟨fuel, lines, printed, once⟩
    exact ⟨fuel, issuesOf lines, ⟨lines, printed, rfl⟩, once⟩
  · rintro ⟨fuel, _, ⟨lines, printed, rfl⟩, once⟩
    exact ⟨fuel, lines, printed, once⟩

theorem displayPrettyList_printsOnce_iff (sorters : Sorters Issue) {page : Table Issue.id}
    {allDeps : Option DepMap} (depsMode : String) (single : SingleParent page allDeps) :
    PrintsOnce page.rows (displayPrettyListWithDepsMode sorters page.rows allDeps depsMode) ↔
      KeysApart page allDeps ∧ Acyclic (Link page allDeps) := by
  obtain ⟨roots, children, shown, printed⟩ := exists_shown sorters page allDeps depsMode
  rw [printsOnce_iff printed, shown.drawn.listing_count_iff (shown.placed single),
    shown.covered_iff single, shown.child_eq]
  apply and_congr_right
  intro apart
  have same : Below page allDeps = Link page allDeps := by
    funext a b
    simp only [Below, Link, apart.hangs_iff]
  rw [same]

/-! ## The listing in Haxe -/

namespace Haxe
variable {items : List Item} {p : String} {item : Item}

/-- The item is put below a parent: the one it has, or the one that its id names. -/
def Under (items : List Item) (p : String) (item : Item) : Prop :=
  p ≠ "" ∧ p ∈ items.map (fun i => i.id) ∧
    (item.parent = p ∨ (item.parent = "" ∧ dottedParent item.id = some p))

theorem groupOf_eq_some : groupOf items item = some p ↔ Under items p item := by
  simp only [groupOf, Under, byID_isSome]
  by_cases own : item.parent = ""
  · cases named : dottedParent item.id with
    | none =>
      simp only [own]
      grind
    | some dotted =>
      simp only [own]
      grind
  · simp only [own]
    grind

theorem lookup_group (k : String) (entries : List Item) (groups : List (String × List Item)) :
    ((k, entries) :: groups).lookup p = if p = k then some entries else groups.lookup p := by
  rw [List.lookup_cons]
  by_cases same : p = k
  · simp [same]
  · rw [beq_eq_false_iff_ne.mpr same, if_neg same]

private theorem lookup_push (parent : String) (item : Item) (groups : List (String × List Item)) :
    ((push parent item groups).lookup p).getD [] =
      ((groups.lookup p).getD []) ++ if p = parent then [item] else [] := by
  induction groups with
  | nil =>
    rw [push, lookup_group]
    split
    · rfl
    · rfl
  | cons group groups ih =>
    obtain ⟨k, entries⟩ := group
    rw [push, lookup_group]
    by_cases here : k = parent
    · rw [if_pos here, lookup_group, here]
      split
      · rfl
      · rw [List.append_nil]
    · rw [if_neg here, lookup_group]
      by_cases same : p = k
      · have other : p ≠ parent := fun equal => here (same.symm.trans equal)
        rw [if_pos same, if_pos same, if_neg other, List.append_nil]
      · rw [if_neg same, if_neg same, ih]

private theorem mem_push {parent : String} {group : String × List Item}
    {groups : List (String × List Item)} (held : group ∈ push parent item groups) :
    group ∈ groups ∨ group = (parent, [item]) ∨
      ∃ old, (parent, old) ∈ groups ∧ group = (parent, old ++ [item]) := by
  induction groups with
  | nil => exact .inr (.inl (by simpa [push] using held))
  | cons first rest ih =>
    rw [push] at held
    split at held
    · next here =>
      rcases List.mem_cons.mp held with rfl | later
      · right
        right
        exact ⟨first.2, by rw [← here]; exact List.mem_cons_self, by rw [← here]⟩
      · exact .inl (List.mem_cons_of_mem _ later)
    · rcases List.mem_cons.mp held with rfl | later
      · exact .inl List.mem_cons_self
      · rcases ih later with old | new | ⟨old, there, shape⟩
        · exact .inl (List.mem_cons_of_mem _ old)
        · exact .inr (.inl new)
        · exact .inr (.inr ⟨old, List.mem_cons_of_mem _ there, shape⟩)

/-- The groups of the items that have been gone through: under each parent those that are put
there, and in no group anything else. -/
structure Grouped (items done : List Item) (groups : List (String × List Item)) : Prop where
  found : ∀ p, (groups.lookup p).getD [] = done.filter fun i => groupOf items i = some p
  parts : ∀ group ∈ groups, group.2.Sublist done

theorem Grouped.place {done : List Item} {groups : List (String × List Item)}
    (grouped : Grouped items done groups)
    (item : Item) : Grouped items (done ++ [item]) (place items groups item) := by
  have longer {l : List Item} (part : l.Sublist done) : l.Sublist (done ++ [item]) :=
    part.trans (List.sublist_append_left done [item])
  rw [Haxe.place]
  cases placed : groupOf items item with
  | none =>
    refine ⟨?_, fun group held => longer (grouped.parts group held)⟩
    intro p
    simp [grouped.found p, List.filter_append, placed]
  | some parent =>
    constructor
    · intro p
      rw [lookup_push, grouped.found p, List.filter_append]
      by_cases same : p = parent
      · simp [same, placed]
      · simp [same, Ne.symm same, placed]
    · intro group held
      rcases mem_push held with old | rfl | ⟨old, there, rfl⟩
      · exact longer (grouped.parts group old)
      · exact List.sublist_append_right done [item]
      · exact (grouped.parts _ there).append (List.Sublist.refl [item])

private theorem grouped_childGroups (items : List Item) :
    Grouped items items (childGroups items) := by
  have run (l done : List Item) (groups : List (String × List Item))
      (grouped : Grouped items done groups) :
      Grouped items (done ++ l) (l.foldl (place items) groups) := by
    induction l generalizing done groups with
    | nil => simpa using grouped
    | cons item rest ih =>
      rw [List.foldl_cons, List.append_cons]
      exact ih _ _ (grouped.place item)
  exact run items [] [] ⟨by simp, by simp⟩

/-- The order within the groups does not change which items a group has. -/
theorem orderGroups_perm {order : List Item → Option (List Item)}
    {groups : List (String × List Item)}
    (orders : ∀ group ∈ groups, ∃ ordered, order group.2 = some ordered ∧ ordered.Perm group.2) :
    ∃ groups', (groups.mapM fun group => do return (group.1, ← order group.2)) = some groups' ∧
      ∀ p, ((groups'.lookup p).getD []).Perm ((groups.lookup p).getD []) := by
  induction groups with
  | nil => exact ⟨[], rfl, by simp⟩
  | cons group groups ih =>
    rw [List.forall_mem_cons] at orders
    obtain ⟨ordered, here, perm⟩ := orders.1
    obtain ⟨groups', there, perms⟩ := ih orders.2
    refine ⟨(group.1, ordered) :: groups', ?_, ?_⟩
    · rw [List.mapM_cons, there, here]
      rfl
    · intro p
      obtain ⟨k, entries⟩ := group
      rw [lookup_group, lookup_group]
      split
      · exact perm
      · exact perms p

/-- What the printer goes through: the items without a parent, and under each parent its own. -/
structure Shown (items roots : List Item) (children : String → List Item) : Prop where
  rootsNodup : roots.Nodup
  memRoots : ∀ i, i ∈ roots ↔ i ∈ items ∧ groupOf items i = none
  nodup : ∀ p, (children p).Nodup
  mem : ∀ p i, i ∈ children p ↔ i ∈ items ∧ groupOf items i = some p

private theorem exists_shown (sorters : Sorters Item) (distinct : (items.map fun i => i.id).Nodup)
    (depsMode : String) :
    ∃ roots children, Shown items roots children ∧ ∀ fuel,
      (renderListHuman sorters items depsMode fuel).map issuesOf =
        (Preorder.listing (fun i => i.id) children fuel roots).map (List.map Item.toIssue) := by
  have grouped := grouped_childGroups items
  have ids {l : List Item} (part : l.Sublist items) : (l.map fun i => i.id).Nodup :=
    distinct.sublist (part.map _)
  obtain ⟨roots, chosen, same⟩ := orderItems_perm sorters.issues depsMode
    (ids (List.filter_sublist (p := fun item => groupOf items item = none)))
  obtain ⟨groups, ordered, perm⟩ := orderGroups_perm fun group held =>
    orderItems_perm sorters.issues depsMode (ids (grouped.parts group held))
  refine ⟨roots, fun p => (groups.lookup p).getD [], ⟨?_, ?_, ?_, ?_⟩, ?_⟩
  · exact same.nodup_iff.mpr (distinct.of_map.filter _)
  · intro i
    rw [same.mem_iff, List.mem_filter, decide_eq_true_eq]
  · intro p
    rw [(perm p).nodup_iff, grouped.found p]
    exact distinct.of_map.filter _
  · intro p i
    rw [(perm p).mem_iff, grouped.found p, List.mem_filter, decide_eq_true_eq]
  · intro fuel
    have plain (item : Item) (indent : String) : issuesOf (if depsMode ≠ "" then
        renderListDependencyAnnotations sorters items depsMode item indent else []) = [] := by
      split
      · exact issuesOf_annotations sorters _ _ _ _ indent
      · rfl
    rw [renderListHuman, chosen, ordered, Preorder.listing]
    apply issuesOf_printEach
    · exact issuesOf_rootRow Item.toIssue plain
    · exact issuesOf_renderListChildren plain fuel

namespace Shown
variable {roots : List Item} {children : String → List Item}

theorem drawn (shown : Shown items roots children) (distinct : (items.map fun i => i.id).Nodup) :
    Preorder.Drawn (fun i : Item => i.id) children roots items where
  distinct := distinct
  root i held := ((shown.memRoots i).mp held).1
  child p i held := ((shown.mem p i).mp held).1
  parent := by
    intro p some
    obtain ⟨i, held⟩ := List.exists_mem_of_ne_nil _ some
    exact (groupOf_eq_some.mp ((shown.mem p i).mp held).2).2.1

private theorem placed (shown : Shown items roots children) (item : Item) (known : item ∈ items) :
    Preorder.Placed (fun i : Item => i.id) children roots items item := by
  cases group : groupOf items item with
  | none =>
    left
    refine ⟨List.count_eq_one_of_mem shown.rootsNodup ((shown.memRoots item).mpr ⟨known, group⟩),
      ?_⟩
    intro p held
    simpa [group] using ((shown.mem p item).mp held).2
  | some p =>
    right
    obtain ⟨parent, onPage, same⟩ := List.mem_map.mp (groupOf_eq_some.mp group).2.1
    have held : item ∈ children parent.id := (shown.mem _ item).mpr ⟨known, by rw [group, ← same]⟩
    refine ⟨?_, parent, onPage, List.count_eq_one_of_mem (shown.nodup _) held, ?_⟩
    · intro root
      simpa [group] using ((shown.memRoots item).mp root).2
    · intro q other
      have equal := group.symm.trans ((shown.mem q item).mp other).2
      exact (Option.some.inj equal).symm.trans same.symm

private theorem covered (shown : Shown items roots children) (item : Item) (known : item ∈ items) :
    item ∈ roots ∨ ∃ p, item ∈ children p := by
  cases group : groupOf items item with
  | none => exact .inl ((shown.memRoots item).mpr ⟨known, group⟩)
  | some p => exact .inr ⟨p, (shown.mem p item).mpr ⟨known, group⟩⟩

end Shown

/-- One issue is put below another: by its edge, or by its id when it has no edge to a parent. -/
def Link (page : Table Issue.id) (allDeps : Option DepMap) (a b : String) : Prop :=
  ∃ c ∈ page.rows, c.id = b ∧ a ≠ "" ∧ a ∈ page.rows.map Issue.id ∧
    (ParentEdge allDeps a c ∨ ((∀ p, ParentEdge allDeps p c → p = "") ∧ dottedParent c.id = some a))

section Page
variable {page : Table Issue.id} {allDeps : Option DepMap}

/-- The parent of an item is the one that it has an edge to, or empty. -/
theorem parent_readItems {c : Issue} (single : ∀ p q, ParentEdge allDeps p c → ParentEdge allDeps q c → p = q) :
    (∀ p, p ≠ "" → ((readItems allDeps c).parent = p ↔ ParentEdge allDeps p c)) ∧
      ((readItems allDeps c).parent = "" ↔ ∀ p, ParentEdge allDeps p c → p = "") := by
  have mem (p : String) :
      p ∈ ((depsOf allDeps c.id).filter (·.type = .parentChild)).map Dependency.dependsOnID ↔
      ParentEdge allDeps p c := by
    simp only [List.mem_map, List.mem_filter, decide_eq_true_eq, ParentEdge, and_assoc]
  simp only [readItems, readItem]
  cases least : (((depsOf allDeps c.id).filter (·.type = .parentChild)).map Dependency.dependsOnID).min? with
  | none =>
    rw [List.min?_eq_none_iff] at least
    have none (p : String) : ¬ ParentEdge allDeps p c := by
      rw [← mem, least]
      exact List.not_mem_nil
    constructor
    · intro p some
      simp [none, Ne.symm some]
    · simp [none]
  | some m =>
    have edge := (mem m).mp (List.min?_mem least)
    rw [Option.getD_some]
    constructor
    · intro p _
      constructor
      · rintro rfl
        exact edge
      · exact single m p edge
    · constructor
      · rintro rfl p other
        exact single p "" other edge
      · intro empty
        exact empty m edge

theorem map_id_readItems :
    (page.rows.map (readItems allDeps)).map (fun i => i.id) = page.rows.map Issue.id := by
  rw [List.map_map]
  rfl

private theorem under_readItems {c : Issue} {a : String}
    (single : ∀ p q, ParentEdge allDeps p c → ParentEdge allDeps q c → p = q) :
    Under (page.rows.map (readItems allDeps)) a (readItems allDeps c) ↔
      a ≠ "" ∧ a ∈ page.rows.map Issue.id ∧
      (ParentEdge allDeps a c ∨ ((∀ p, ParentEdge allDeps p c → p = "") ∧ dottedParent c.id = some a)) := by
  obtain ⟨some, none⟩ := parent_readItems single
  rw [Under, map_id_readItems]
  apply and_congr_right
  intro given
  rw [some a given, none]
  rfl

private theorem count_map_toIssue {result : List Item}
    (inside : ∀ i ∈ result, i ∈ page.rows.map (readItems allDeps))
    (issue : Issue) : (result.map Item.toIssue).count issue = result.count (readItems allDeps issue) := by
  have back : (result.map Item.toIssue).map (readItems allDeps) = result.map id := by
    rw [List.map_map]
    apply List.map_congr_left
    intro i held
    obtain ⟨c, -, rfl⟩ := List.mem_map.mp (inside i held)
    rfl
  have injective : Function.Injective (readItems allDeps) :=
    fun a b same => congrArg Item.toIssue same
  rw [← List.count_map_of_injective _ _ injective, back, List.map_id]

theorem renderListHuman_printsOnce_iff (sorters : Sorters Item) (depsMode : String)
    (single : SingleParent page allDeps) :
    PrintsOnce page.rows (renderListHuman sorters (page.rows.map (readItems allDeps)) depsMode) ↔
      Acyclic (Link page allDeps) := by
  have distinct : ((page.rows.map (readItems allDeps)).map fun i => i.id).Nodup := by
    rw [map_id_readItems]
    exact page.distinct
  obtain ⟨roots, children, shown, printed⟩ := exists_shown sorters distinct depsMode
  have drawn := shown.drawn distinct
  have once : PrintsOnce page.rows
      (renderListHuman sorters (page.rows.map (readItems allDeps)) depsMode) ↔
      ∃ fuel result, Preorder.listing (fun i : Item => i.id) children fuel roots = some result ∧
        ∀ i ∈ page.rows.map (readItems allDeps), result.count i = 1 := by
    simp only [printsOnce_iff printed, Option.map_eq_some_iff, List.forall_mem_map]
    constructor
    · rintro ⟨fuel, _, ⟨result, listed, rfl⟩, once⟩
      refine ⟨fuel, result, listed, ?_⟩
      intro c held
      rw [← count_map_toIssue fun i there => drawn.mem_of_listing listed there]
      exact once c held
    · rintro ⟨fuel, result, listed, once⟩
      refine ⟨fuel, _, ⟨result, listed, rfl⟩, ?_⟩
      intro c held
      rw [count_map_toIssue fun i there => drawn.mem_of_listing listed there]
      exact once c held
  have link : Preorder.Child (fun i : Item => i.id) children = Link page allDeps := by
    funext a b
    simp only [Preorder.Child, shown.mem, groupOf_eq_some, Link, eq_iff_iff]
    constructor
    · rintro ⟨i, ⟨listed, under⟩, rfl⟩
      obtain ⟨c, held, rfl⟩ := List.mem_map.mp listed
      exact ⟨c, held, rfl, (under_readItems (single c held)).mp under⟩
    · rintro ⟨c, held, rfl, under⟩
      exact ⟨readItems allDeps c,
        ⟨List.mem_map_of_mem held, (under_readItems (single c held)).mpr under⟩, rfl⟩
  rw [once, drawn.listing_count_iff fun i known _ => shown.placed i known, link]
  exact and_iff_right shown.covered

end Page

end Haxe

/-! ## Printing every issue once -/

theorem listTree_printsOnce_iff (sorters : Sorters Issue) (sorters' : Sorters Haxe.Item)
    (page : Table Issue.id)
    (allDeps : Option DepMap) (depsMode : String) (single : SingleParent page allDeps) :
    (PrintsOnce page.rows (displayPrettyListWithDepsMode sorters page.rows allDeps depsMode) ↔
      KeysApart page allDeps ∧ Acyclic (Link page allDeps)) ∧
    (PrintsOnce page.rows (Haxe.renderListHuman sorters' (page.rows.map (readItems allDeps)) depsMode) ↔
      Acyclic (Haxe.Link page allDeps)) :=
  ⟨displayPrettyList_printsOnce_iff sorters depsMode single,
    Haxe.renderListHuman_printsOnce_iff sorters' depsMode single⟩

/-- The parent-child edges of the page, from the child. -/
def ExplicitEdge (page : Table Issue.id) (allDeps : Option DepMap) (a b : String) : Prop :=
  ∃ c, Explicit page allDeps b c ∧ c.id = a

def stableSorters (α : Type) : Sorters α := ⟨.stable, .stable, .stable⟩

/-- An issue with a subtask that is its parent. -/
def crossedPage : Table Issue.id := ⟨[⟨"a", "issue", 2⟩, ⟨"a.1", "subtask", 2⟩], by decide⟩

def crossedDeps : Option DepMap := some ⟨[("a", [⟨"a.1", .parentChild⟩])], by decide⟩

theorem parentEdge_crossed {p : String} {c : Issue} (known : c ∈ crossedPage.rows)
    (edge : ParentEdge crossedDeps p c) :
    c.id = "a" ∧ p = "a.1" := by
  have all : ∀ c ∈ crossedPage.rows, ∀ dep ∈ depsOf crossedDeps c.id, c.id = "a" ∧ dep.dependsOnID = "a.1" := by
    decide +kernel
  obtain ⟨dep, held, -, rfl⟩ := edge
  exact all c known dep held

theorem singleParent_crossed : SingleParent crossedPage crossedDeps := by
  intro c known p q left right
  rw [(parentEdge_crossed known left).2, (parentEdge_crossed known right).2]

theorem listTree_printsOnce_crossed : SingleParent crossedPage crossedDeps ∧
    (PrintsOnce crossedPage.rows
        (displayPrettyListWithDepsMode (stableSorters Issue) crossedPage.rows crossedDeps "") ↔
      KeysApart crossedPage crossedDeps ∧ Acyclic (Link crossedPage crossedDeps)) ∧
    (PrintsOnce crossedPage.rows
        (Haxe.renderListHuman (stableSorters Haxe.Item) (crossedPage.rows.map (readItems crossedDeps)) "") ↔
      Acyclic (Haxe.Link crossedPage crossedDeps)) :=
  ⟨singleParent_crossed, listTree_printsOnce_iff (stableSorters Issue) (stableSorters Haxe.Item) crossedPage
    crossedDeps "" singleParent_crossed⟩

/-- The issue is the child of its subtask, so neither is below a root and nothing is printed. -/
theorem listTree_crossed :
    SingleParent crossedPage crossedDeps ∧ Acyclic (ExplicitEdge crossedPage crossedDeps) ∧
    ¬ PrintsOnce crossedPage.rows
      (displayPrettyListWithDepsMode (stableSorters Issue) crossedPage.rows crossedDeps "") ∧
    ¬ PrintsOnce crossedPage.rows
      (Haxe.renderListHuman (stableSorters Haxe.Item) (crossedPage.rows.map (readItems crossedDeps)) "") := by
  have edge : ParentEdge crossedDeps "a.1" ⟨"a", "issue", 2⟩ :=
    ⟨⟨"a.1", .parentChild⟩, by decide +kernel, rfl, rfl⟩
  have free (q : String) : ¬ ParentEdge crossedDeps q ⟨"a.1", "subtask", 2⟩ := by
    intro other
    have wrong := (parentEdge_crossed (by decide) other).1
    exact absurd wrong (by decide)
  have named : dottedParent "a.1" = some "a" := by decide +kernel
  refine ⟨singleParent_crossed, ?_, ?_, ?_⟩
  · apply acyclic_of_lt fun id => if id = "a" then 0 else 1
    rintro a b ⟨c, ⟨known, -, link⟩, rfl⟩
    obtain ⟨child, parent⟩ := parentEdge_crossed known link
    simp [child, parent]
  · rw [displayPrettyList_printsOnce_iff _ _ singleParent_crossed]
    rintro ⟨-, acyclic⟩
    have down : Link crossedPage crossedDeps "a" "a.1" :=
      ⟨⟨"a.1", "subtask", 2⟩, .inr ⟨by decide, by decide, named, fun q link => free q link.2.2⟩, rfl⟩
    have up : Link crossedPage crossedDeps "a.1" "a" :=
      ⟨⟨"a", "issue", 2⟩, .inl ⟨by decide, by decide, edge⟩, rfl⟩
    exact acyclic "a" (.tail (.single down) up)
  · rw [Haxe.renderListHuman_printsOnce_iff _ _ singleParent_crossed]
    intro acyclic
    have down : Haxe.Link crossedPage crossedDeps "a" "a.1" :=
      ⟨⟨"a.1", "subtask", 2⟩, by decide, rfl, by decide, by decide, .inr ⟨fun p link => absurd link (free p), named⟩⟩
    have up : Haxe.Link crossedPage crossedDeps "a.1" "a" :=
      ⟨⟨"a", "issue", 2⟩, by decide, rfl, by decide, by decide, .inl edge⟩
    exact acyclic "a" (.tail (.single down) up)

/-! ## Termination -/

theorem displayPrettyList_ends_iff (sorters : Sorters Issue) (page : Table Issue.id)
    (allDeps : Option DepMap) (depsMode : String) :
    (∃ fuel, (displayPrettyListWithDepsMode sorters page.rows allDeps depsMode fuel).isSome) ↔
      ∀ r, Root page allDeps r → ∀ y, ReflTransGen (Below page allDeps) r.id y →
        ¬ TransGen (Below page allDeps) y y := by
  obtain ⟨roots, children, shown, printed⟩ := exists_shown sorters page allDeps depsMode
  rw [← shown.exists_listing_iff]
  simp only [← printed, Option.isSome_map]

/-- An issue with two parents, one of which is its own subtask. -/
def loopingPage : Table Issue.id :=
  ⟨[⟨"r", "root", 2⟩, ⟨"a", "issue", 2⟩, ⟨"a.1", "subtask", 2⟩], by decide⟩

def loopingDeps : Option DepMap :=
  some ⟨[("a", [⟨"r", .parentChild⟩, ⟨"a.1", .parentChild⟩])], by decide⟩

/-- From the root the printer comes to the issue, its subtask and the issue again. -/
theorem displayPrettyList_looping : Acyclic (ExplicitEdge loopingPage loopingDeps) ∧
    ¬ ∃ fuel, (displayPrettyListWithDepsMode (stableSorters Issue) loopingPage.rows loopingDeps "" fuel).isSome := by
  have all : ∀ c ∈ loopingPage.rows, ∀ dep ∈ depsOf loopingDeps c.id, c.id = "a" ∧ dep.dependsOnID ≠ "a" := by
    decide +kernel
  constructor
  · apply acyclic_of_lt fun id => if id = "a" then 0 else 1
    rintro a b ⟨c, ⟨known, -, dep, held, -, rfl⟩, rfl⟩
    obtain ⟨child, parent⟩ := all c known dep held
    simp [child, parent]
  · obtain ⟨roots, children, shown, printed⟩ :=
      exists_shown (stableSorters Issue) loopingPage loopingDeps ""
    have linked := linked_buildLinks loopingPage loopingDeps
    have below {p : String} {c : Issue}
        (held : c ∈ (buildLinks loopingPage.rows loopingDeps).childrenMap p) :
        Below loopingPage loopingDeps p c.id := ⟨c, (linked.mem p c).mp held, rfl⟩
    have first : Below loopingPage loopingDeps "r" "a" :=
      below (show ⟨"a", "issue", 2⟩ ∈ (buildLinks loopingPage.rows loopingDeps).childrenMap "r" by decide +kernel)
    have down : Below loopingPage loopingDeps "a" "a.1" :=
      below (show ⟨"a.1", "subtask", 2⟩ ∈ (buildLinks loopingPage.rows loopingDeps).childrenMap "a" by decide +kernel)
    have up : Below loopingPage loopingDeps "a.1" "a" :=
      below (show ⟨"a", "issue", 2⟩ ∈ (buildLinks loopingPage.rows loopingDeps).childrenMap "a.1" by decide +kernel)
    have root : Root loopingPage loopingDeps ⟨"r", "root", 2⟩ := by
      have unmarked : "r" ∉ (buildLinks loopingPage.rows loopingDeps).isChild := by decide +kernel
      have none := (linked.isChild ⟨"r", "root", 2⟩ (by decide)).not.mp unmarked
      push Not at none
      exact ⟨by decide, none⟩
    simp only [← Option.isSome_map (f := issuesOf), printed]
    rw [shown.exists_listing_iff]
    intro settles
    exact settles _ root "a" (.single first) (.tail (.single down) up)

end Beads.ListTree
