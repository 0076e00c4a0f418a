import Mathlib.Data.List.Count
import Beads.Lib.Ranks

/-! A recursion over children that keeps no marks, as a printer of trees does it: every node of a
list, each followed by all that is below it.

It ends when no cycle can be reached (`exists_listing_iff`). What it lists is the roots and the
children of what it lists (`listing_perm`), so a node that is in one place of a forest is listed
once (`Drawn.listing_count_iff`). -/
namespace Beads.Lib.Preorder
open Relation Graph

variable {α κ : Type} {key : α → κ} {children : κ → List α}

/-- The nodes, each followed by what is below it. -/
def visit (below : κ → Option (List α)) (key : α → κ) : List α → Option (List α)
  | [] => some []
  | n :: rest => do
    let nested ← below (key n)
    let others ← visit below key rest
    return n :: (nested ++ others)

/-- What is below a key. The fuel bounds the depth. -/
def below (key : α → κ) (children : κ → List α) : Nat → κ → Option (List α)
  | 0, _ => none
  | fuel + 1, k => visit (below key children fuel) key (children k)

def listing (key : α → κ) (children : κ → List α) (fuel : Nat) (roots : List α) : Option (List α) :=
  visit (below key children fuel) key roots

/-- One key has a child of the other. -/
def Child (key : α → κ) (children : κ → List α) (a b : κ) : Prop := ∃ c ∈ children a, key c = b

/-! ## When it ends -/

section Ends
variable {fuel : Nat} {l : List α}

theorem visit_isSome {b : κ → Option (List α)} :
    (visit b key l).isSome ↔ ∀ n ∈ l, (b (key n)).isSome := by
  induction l with
  | nil => simp [visit]
  | cons n rest ih =>
    rw [List.forall_mem_cons, ← ih, visit]
    cases b (key n) with
    | none => simp
    | some nested => cases visit b key rest <;> simp

private theorem below_isSome (k : κ) :
    (below key children fuel k).isSome ↔ ¬ Chain (Child key children) fuel k := by
  induction fuel generalizing k with
  | zero => simp [below, Chain]
  | succ fuel ih =>
    rw [below, visit_isSome]
    simp only [ih, Chain, Child]
    constructor
    · rintro short ⟨_, ⟨c, held, rfl⟩, chain⟩
      exact short c held chain
    · intro short c held chain
      exact short ⟨key c, ⟨c, held, rfl⟩, chain⟩

theorem listing_isSome {roots : List α} :
    (listing key children fuel roots).isSome ↔
      ∀ n ∈ roots, ¬ Chain (Child key children) fuel (key n) := by
  simp only [listing, visit_isSome, below_isSome]

/-- Between finitely many keys it ends exactly when no root reaches a cycle. -/
theorem exists_listing_iff (roots : List α) {keys : List κ}
    (known : ∀ a b, Child key children a b → a ∈ keys ∧ b ∈ keys) :
    (∃ fuel, (listing key children fuel roots).isSome) ↔
      ∀ n ∈ roots, ∀ y, ReflTransGen (Child key children) (key n) y →
        ¬ TransGen (Child key children) y y := by
  simp only [listing_isSome, ← exists_not_chain_iff known]
  constructor
  · rintro ⟨fuel, short⟩ n held
    exact ⟨fuel, short n held⟩
  · intro bounded
    obtain ⟨fuel, common⟩ := exists_common_bound (r := Child key children) (roots.map key)
    exact ⟨fuel, fun n held => common (key n) (List.mem_map_of_mem held) (bounded n held)⟩

end Ends

/-! ## What it lists -/

section Lists
variable {fuel : Nat} {roots result : List α} {n : α}

/-- The cases of a listing that ends: nothing, or a first node with what is below it. -/
theorem listing_cons {rest : List α} (listed : listing key children fuel (n :: rest) = some result) :
    ∃ nested others, below key children fuel (key n) = some nested ∧
      listing key children fuel rest = some others ∧
      result = n :: (nested ++ others) := by
  simp only [listing, visit, Option.bind_eq_bind, Option.bind_eq_some_iff, Option.pure_def,
    Option.some.injEq] at listed
  obtain ⟨nested, inner, others, rest, shape⟩ := listed
  exact ⟨nested, others, inner, rest, shape.symm⟩

/-- A fact that holds of an empty listing, and of a node with its two parts, holds of every
listing. -/
theorem listing_induction {motive : List α → List α → Prop} (nil : motive [] [])
    (cons : ∀ n rest nested others, motive (children (key n)) nested → motive rest others →
      motive (n :: rest) (n :: (nested ++ others)))
    (listed : listing key children fuel roots = some result) : motive roots result := by
  induction fuel generalizing roots result with
  | zero =>
    cases roots with
    | nil =>
      simp only [listing, visit, Option.some.injEq] at listed
      rw [← listed]
      exact nil
    | cons n rest =>
      obtain ⟨_, _, inner, -⟩ := listing_cons listed
      simp [below] at inner
  | succ fuel ih =>
    induction roots generalizing result with
    | nil =>
      simp only [listing, visit, Option.some.injEq] at listed
      rw [← listed]
      exact nil
    | cons n rest inner =>
      obtain ⟨nested, others, first, second, rfl⟩ := listing_cons listed
      exact cons n rest nested others (ih first) (inner second)

/-- The listing is the roots and the children of what it lists. -/
theorem listing_perm (listed : listing key children fuel roots = some result) :
    result.Perm (roots ++ result.flatMap fun n => children (key n)) := by
  apply listing_induction (motive := fun roots result =>
    result.Perm (roots ++ result.flatMap fun n => children (key n))) _ _ listed
  · exact List.Perm.refl _
  · intro n rest nested others inner outer
    rw [List.flatMap_cons, List.flatMap_append, List.cons_append]
    apply List.Perm.cons
    have shape : (nested ++ others).Perm
        ((children (key n) ++ nested.flatMap fun n => children (key n)) ++
          (rest ++ others.flatMap fun n => children (key n))) := inner.append outer
    apply shape.trans
    simp only [← List.append_assoc]
    apply List.Perm.append_right
    apply List.perm_append_comm.trans
    rw [← List.append_assoc]

private theorem reaches_of_mem_listing (listed : listing key children fuel roots = some result)
    (held : n ∈ result) :
    ∃ r ∈ roots, ReflTransGen (Child key children) (key r) (key n) := by
  revert held
  apply listing_induction (motive := fun roots result =>
    n ∈ result → ∃ r ∈ roots, ReflTransGen (Child key children) (key r) (key n)) _ _ listed
  · simp
  · intro m rest nested others inner outer held
    rcases List.mem_cons.mp held with rfl | held
    · exact ⟨n, by simp, .refl⟩
    · rcases List.mem_append.mp held with within | after
      · obtain ⟨c, child, path⟩ := inner within
        exact ⟨m, by simp, .head ⟨c, child, rfl⟩ path⟩
      · obtain ⟨r, root, path⟩ := outer after
        exact ⟨r, by simp [root], path⟩

end Lists

/-! ## Drawings -/

section Drawing
variable {fuel : Nat} {roots nodes result : List α} {n : α}

/-- Nodes with distinct keys, of which some are roots and others are children. -/
structure Drawn (key : α → κ) (children : κ → List α) (roots nodes : List α) : Prop where
  distinct : (nodes.map key).Nodup
  root : ∀ n ∈ roots, n ∈ nodes
  child : ∀ k, ∀ n ∈ children k, n ∈ nodes
  parent : ∀ k, children k ≠ [] → k ∈ nodes.map key

namespace Drawn

theorem mem_of_listing (drawn : Drawn key children roots nodes)
    (listed : listing key children fuel roots = some result) (held : n ∈ result) : n ∈ nodes := by
  rcases List.mem_append.mp ((listing_perm listed).mem_iff.mp held) with root | child
  · exact drawn.root n root
  · obtain ⟨z, -, inside⟩ := List.mem_flatMap.mp child
    exact drawn.child (key z) n inside

theorem known (drawn : Drawn key children roots nodes) (a b : κ) (step : Child key children a b) :
    a ∈ nodes.map key ∧ b ∈ nodes.map key := by
  obtain ⟨c, held, rfl⟩ := step
  exact ⟨drawn.parent a (List.ne_nil_of_mem held), List.mem_map_of_mem (drawn.child a c held)⟩

end Drawn

end Drawing

/-! ## Listing every node once -/

section Once
variable [DecidableEq α] {fuel : Nat} {roots nodes result : List α} {n p : α}

/-- The node is a root, or a child in one place. -/
def Placed (key : α → κ) (children : κ → List α) (roots nodes : List α) (n : α) : Prop :=
  (roots.count n = 1 ∧ ∀ k, n ∉ children k) ∨
    (n ∉ roots ∧ ∃ p ∈ nodes, (children (key p)).count n = 1 ∧ ∀ k, n ∈ children k → k = key p)

private theorem count_flatMap_of_one {f : α → List α}
    (one : ∀ z ∈ result, (f z).count n = if z = p then 1 else 0) :
    (result.flatMap f).count n = result.count p := by
  induction result with
  | nil => rfl
  | cons z rest ih =>
    rw [List.forall_mem_cons] at one
    rw [List.flatMap_cons, List.count_append, List.count_cons, ih one.2, one.1, Nat.add_comm]
    simp

namespace Drawn

/-- A root is listed once, and a child as often as its parent. -/
theorem count_eq (drawn : Drawn key children roots nodes)
    (listed : listing key children fuel roots = some result)
    (placed : Placed key children roots nodes n) :
    result.count n = 1 ∨ ∃ p ∈ nodes, Child key children (key p) (key n) ∧
      result.count n = result.count p := by
  have count := (listing_perm listed).count_eq n
  rw [List.count_append] at count
  rcases placed with ⟨root, free⟩ | ⟨free, p, known, once, only⟩
  · left
    have none : (result.flatMap fun n => children (key n)).count n = 0 := by
      apply List.count_eq_zero_of_not_mem
      intro held
      obtain ⟨z, -, inside⟩ := List.mem_flatMap.mp held
      exact free (key z) inside
    omega
  · right
    refine ⟨p, known, ⟨n, ?_, rfl⟩, ?_⟩
    · exact List.count_pos_iff.mp (by omega)
    · rw [count, List.count_eq_zero_of_not_mem free, Nat.zero_add]
      apply count_flatMap_of_one
      intro z held
      split
      · next same => rw [same, once]
      · next other =>
        apply List.count_eq_zero_of_not_mem
        intro inside
        exact other (List.inj_on_of_nodup_map drawn.distinct (drawn.mem_of_listing listed held) known (only _ inside))

/-- Every node is listed once exactly when each is in one place and there is no cycle. -/
theorem listing_count_iff (drawn : Drawn key children roots nodes)
    (unique : ∀ n ∈ nodes, n ∈ roots ∨ (∃ k, n ∈ children k) → Placed key children roots nodes n) :
    (∃ fuel result, listing key children fuel roots = some result ∧
      ∀ n ∈ nodes, result.count n = 1) ↔
      (∀ n ∈ nodes, n ∈ roots ∨ ∃ k, n ∈ children k) ∧ Acyclic (Child key children) := by
  constructor
  · rintro ⟨fuel, result, listed, once⟩
    constructor
    · intro n held
      have there : n ∈ result := List.count_pos_iff.mp (by have := once n held; omega)
      rcases List.mem_append.mp ((listing_perm listed).mem_iff.mp there) with root | child
      · exact .inl root
      · obtain ⟨z, -, inside⟩ := List.mem_flatMap.mp child
        exact .inr ⟨key z, inside⟩
    · intro k cycle
      obtain ⟨n, held, rfl⟩ : ∃ n ∈ nodes, key n = k := by
        obtain ⟨_, step, -⟩ := TransGen.head'_iff.mp cycle
        exact List.mem_map.mp (drawn.known _ _ step).1
      have there : n ∈ result := List.count_pos_iff.mp (by have := once n held; omega)
      obtain ⟨r, root, path⟩ := reaches_of_mem_listing listed there
      have ends := listing_isSome.mp (by rw [listed]; rfl) r root
      exact ends ((Chain.of_cycle cycle fuel).of_reaches path)
  · rintro ⟨covered, acyclic⟩
    obtain ⟨fuel, ends⟩ := (exists_listing_iff roots drawn.known).mpr fun _ _ y _ => acyclic y
    obtain ⟨result, listed⟩ := Option.isSome_iff_exists.mp ends
    refine ⟨fuel, result, listed, ?_⟩
    by_contra wrong
    push Not at wrong
    obtain ⟨n, held, bad⟩ := wrong
    -- Of the nodes that are not listed once, take one whose parent is.
    have upwards : Acyclic fun a b : α => Child key children (key b) (key a) := by
      intro a cycle
      have back : TransGen (Function.swap (Child key children)) (key a) (key a) :=
        TransGen.lift key (fun _ _ step => step) _ _ cycle
      exact acyclic (key a) (transGen_swap.mp back)
    have finite : {m | m ∈ nodes ∧ result.count m ≠ 1}.Finite :=
      nodes.finite_toSet.subset fun m inside => inside.1
    obtain ⟨m, ⟨there, odd⟩, alone⟩ := upwards.exists_last finite ⟨n, held, bad⟩
    rcases drawn.count_eq listed (unique m there (covered m there)) with
      one | ⟨p, known, child, same⟩
    · exact odd one
    · exact alone p ⟨known, by rwa [← same]⟩ child

end Drawn

end Once

end Beads.Lib.Preorder
