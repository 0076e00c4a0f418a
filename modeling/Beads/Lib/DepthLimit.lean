import Mathlib.Data.List.Chain
import Mathlib.Data.List.Lex
import Mathlib.Data.List.Infix
import Mathlib.Logic.Function.Basic
import Mathlib.Tactic.Common

/-! A depth-first search with one set of visited nodes that goes no deeper than a
limit. A node that is first met at the limit is not expanded, though a shorter path
may lead to it too.

`search_complete_iff` says when the search visits every node within the limit: the
ways to them, written by the positions of the nodes in the lists of neighbors, can be
chosen such that no way that goes on from another one comes before the way of its own
end, in the lexicographic order. -/
namespace Beads.Lib.DepthLimit

variable {κ : Type} {next : κ → List κ} {root x y z : κ} {limit left : Nat} {visited : List κ}
  {way way' : κ → List Nat} {p : List Nat}

/-- The visited nodes after a search from a node with so many levels left. -/
def search [DecidableEq κ] (next : κ → List κ) : Nat → κ → List κ → List κ
  | 0, _, visited => visited
  | left + 1, x, visited =>
    if x ∈ visited then visited
    else (next x).foldl (fun visited y => search next left y visited) (x :: visited)

/-- A path of so many nodes leads from the root to the node. -/
def Path (next : κ → List κ) (root : κ) (length : Nat) (y : κ) : Prop :=
  ∃ path : List κ, path.IsChain (fun a b => b ∈ next a) ∧ path.head? = some root ∧ path.getLast? = some y ∧
    path.length = length

/-- A path of fewer edges than the limit leads from the root to the node. -/
def Within (next : κ → List κ) (root : κ) (limit : Nat) (y : κ) : Prop :=
  ∃ length ≤ limit, Path next root length y

/-- A way to every node within the limit, by the positions of the nodes that it takes
in the lists of neighbors. It goes on from the way of the node before, and where a way
can go on, the way of the next node is the one so found or an earlier one. -/
structure Laid (next : κ → List κ) (root : κ) (limit : Nat) (way : κ → List Nat) : Prop where
  start : way root = []
  step : ∀ y, Within next root limit y → y ≠ root →
    ∃ x k, Within next root limit x ∧ (next x)[k]? = some y ∧ way y = way x ++ [k]
  short : ∀ y, Within next root limit y → (way y).length < limit
  first : ∀ x, Within next root limit x → (way x).length + 1 < limit →
    ∀ k y, (next x)[k]? = some y → way y ≤ way x ++ [k]

theorem Path.nil (next : κ → List κ) (root : κ) : Path next root 1 root :=
  ⟨[root], .singleton root, rfl, rfl, rfl⟩

theorem Path.snoc {length : Nat} (path : Path next root length x) (edge : y ∈ next x) :
    Path next root (length + 1) y := by
  obtain ⟨path, chain, head, last, rfl⟩ := path
  refine ⟨path ++ [y], ?_, ?_, by simp, by simp⟩
  · refine chain.append (.singleton y) fun a top b first => ?_
    rw [last] at top
    cases top
    cases first
    exact edge
  · rw [List.head?_append, head]
    rfl

/-- What comes before a position: what comes before the one it goes on from, that one,
and what goes on from it earlier. -/
theorem lt_snoc_iff {w p : List Nat} {k : Nat} :
    w < p ++ [k] ↔ w < p ∨ w = p ∨ ∃ j < k, p ++ [j] <+: w := by
  induction p generalizing w with
  | nil =>
    cases w with
    | nil => simp
    | cons b w => simp [List.cons_lt_cons_iff]
  | cons a p ih =>
    cases w with
    | nil => simp
    | cons b w =>
      simp only [List.cons_append, List.cons_lt_cons_iff, ih, List.cons.injEq,
        List.cons_prefix_cons]
      constructor
      · rintro (less | ⟨rfl, less | same | ⟨j, early, under⟩⟩)
        · exact .inl (.inl less)
        · exact .inl (.inr ⟨rfl, less⟩)
        · exact .inr (.inl ⟨rfl, same⟩)
        · exact .inr (.inr ⟨j, early, rfl, under⟩)
      · rintro ((less | ⟨rfl, less⟩) | ⟨rfl, same⟩ | ⟨j, early, rfl, under⟩)
        · exact .inl less
        · exact .inr ⟨rfl, .inl less⟩
        · exact .inr ⟨rfl, .inr (.inl same)⟩
        · exact .inr ⟨rfl, .inr (.inr ⟨j, early, under⟩)⟩

/-! ## Ways that are laid -/

namespace Laid

theorem path {y : κ} (laid : Laid next root limit way) (within : Within next root limit y) :
    Path next root ((way y).length + 1) y := by
  by_cases same : y = root
  · rw [same, laid.start]
    exact Path.nil next root
  · obtain ⟨x, k, known, edge, way_eq⟩ := laid.step y within same
    have shorter : (way x).length < (way y).length := by simp [way_eq]
    rw [way_eq, List.length_append, List.length_singleton]
    exact (laid.path known).snoc (List.mem_of_getElem? edge)
termination_by (way y).length

/-- A way leads to one node. -/
theorem inj {x y : κ} (laid : Laid next root limit way) (left : Within next root limit x)
    (right : Within next root limit y) (same : way x = way y) : x = y := by
  by_cases first : x = root <;> by_cases second : y = root
  · rw [first, second]
  · obtain ⟨_, _, -, -, way_eq⟩ := laid.step y right second
    rw [← same, first, laid.start] at way_eq
    simp at way_eq
  · obtain ⟨_, _, -, -, way_eq⟩ := laid.step x left first
    rw [same, second, laid.start] at way_eq
    simp at way_eq
  · obtain ⟨a, j, known, edge, way_eq⟩ := laid.step x left first
    obtain ⟨b, k, known', edge', way_eq'⟩ := laid.step y right second
    have shorter : (way a).length < (way x).length := by simp [way_eq]
    rw [same, way_eq'] at way_eq
    obtain ⟨before, last⟩ := List.append_inj' way_eq rfl
    cases List.singleton_inj.mp last
    obtain rfl := laid.inj known known' before.symm
    exact Option.some.inj (edge.symm.trans edge')
termination_by (way x).length

/-- The beginnings of a way are ways of their own ends. -/
theorem beginning {y : κ} {k : Nat} (laid : Laid next root limit way)
    (within : Within next root limit y) (under : p ++ [k] <+: way y) :
    ∃ x z, Within next root limit x ∧ way x = p ∧ (next x)[k]? = some z ∧ Within next root limit z ∧
      way z = p ++ [k] := by
  have away : y ≠ root := by
    rintro rfl
    rw [laid.start] at under
    simp at under
  obtain ⟨x, j, known, edge, way_eq⟩ := laid.step y within away
  have shorter : (way x).length < (way y).length := by simp [way_eq]
  rw [way_eq, List.prefix_concat_iff] at under
  rcases under with whole | earlier
  · obtain ⟨before, last⟩ := List.append_inj' whole rfl
    cases List.singleton_inj.mp last
    exact ⟨x, y, known, before.symm, edge, within, way_eq.trans (by rw [before])⟩
  · exact laid.beginning known earlier
termination_by (way y).length

/-- A search with so many levels left visits the nodes whose ways go on from its position. -/
def Follows [DecidableEq κ] (next : κ → List κ) (root : κ) (limit : Nat) (way : κ → List Nat)
    (left : Nat) : Prop :=
  ∀ {x p visited}, p.length + left = limit →
    (∀ y, Within next root limit y → p <+: way y → Within next root limit x ∧ way x = p) →
    (∀ y, y ∈ visited ↔ Within next root limit y ∧ way y < p) →
    (0 < left → x ∉ visited → Within next root limit x ∧ way x = p) →
    ∀ y, y ∈ search next left x visited ↔
      Within next root limit y ∧ (way y < p ∨ p <+: way y)

/-- A search from one neighbor leaves visited what comes before the next one. -/
private theorem mem_search_neighbor [DecidableEq κ] {k : Nat} {seen : List κ}
    (laid : Laid next root limit way) (follows : Follows next root limit way left)
    (known : Within next root limit x) (sum : (way x).length + (left + 1) = limit)
    (edge : (next x)[k]? = some z)
    (past : ∀ y, y ∈ seen ↔ Within next root limit y ∧ way y < way x ++ [k]) (y : κ) :
    y ∈ search next left z seen ↔ Within next root limit y ∧ way y < way x ++ [k + 1] := by
  have ends (y : κ) (within : Within next root limit y) (under : way x ++ [k] <+: way y) :
      Within next root limit z ∧ way z = way x ++ [k] := by
    obtain ⟨x', z', known', same, edge', within', way'⟩ := laid.beginning within under
    rw [laid.inj known' known same, edge, Option.some.injEq] at edge'
    exact edge' ▸ ⟨within', way'⟩
  rw [follows (by simp; omega) ends past]
  · refine and_congr_right fun within => ?_
    rw [lt_snoc_iff, lt_snoc_iff, or_assoc, or_assoc]
    refine or_congr_right (or_congr_right ?_)
    simp only [Nat.lt_succ_iff_lt_or_eq, or_and_right, exists_or, exists_eq_left]
  · intro more unseen
    have room : (way x).length + 1 < limit := by omega
    have reached : Within next root limit z :=
      ⟨_, room, (laid.path known).snoc (List.mem_of_getElem? edge)⟩
    rcases (laid.first x known room _ _ edge).lt_or_eq with before | same
    · exact absurd ((past z).mpr ⟨reached, before⟩) unseen
    · exact ⟨reached, same⟩

private theorem mem_search_neighbors [DecidableEq κ] (laid : Laid next root limit way)
    (follows : Follows next root limit way left) (known : Within next root limit x)
    (sum : (way x).length + (left + 1) = limit) (rest done : List κ) {seen : List κ}
    (split : next x = done ++ rest)
    (past : ∀ y, y ∈ seen ↔ Within next root limit y ∧ way y < way x ++ [done.length]) :
    ∀ y, y ∈ rest.foldl (fun visited y => search next left y visited) seen ↔
      Within next root limit y ∧ way y < way x ++ [(next x).length] := by
  induction rest generalizing done seen with
  | nil =>
    rw [split, List.append_nil]
    exact past
  | cons z rest each =>
    have edge : (next x)[done.length]? = some z := by simp [split]
    refine each (done ++ [z]) (by simp [split]) fun y => ?_
    rw [List.length_append, List.length_singleton]
    exact laid.mem_search_neighbor follows known sum edge past y

/-- What goes on from the way of a node is the node itself, or goes on to a neighbor. -/
private theorem under_iff (laid : Laid next root limit way) (known : Within next root limit x)
    (within : Within next root limit y) :
    way x <+: way y ↔ way y = way x ∨ ∃ j < (next x).length, way x ++ [j] <+: way y := by
  constructor
  · rintro ⟨rest, same⟩
    cases rest with
    | nil => exact .inl (by rw [← same, List.append_nil])
    | cons j rest =>
      have under : way x ++ [j] <+: way y := ⟨rest, by rw [← same]; simp⟩
      obtain ⟨x', z, known', same', edge, -⟩ := laid.beginning within under
      rw [laid.inj known' known same'] at edge
      exact .inr ⟨j, (List.getElem?_eq_some_iff.mp edge).1, under⟩
  · rintro (same | ⟨j, -, under⟩)
    · exact same ▸ List.prefix_refl _
    · exact (List.prefix_append (way x) [j]).trans under

theorem follows [DecidableEq κ] (laid : Laid next root limit way) (left : Nat) :
    Follows next root limit way left := by
  induction left with
  | zero =>
    intro x p visited sum _ past _ y
    rw [search, past]
    refine and_congr_right fun within => (or_iff_left fun under => ?_).symm
    have short := laid.short y within
    have length := under.length_le
    omega
  | succ left ih =>
    intro x p visited sum leads past here y
    rw [search]
    split
    · next seen =>
      rw [past]
      refine and_congr_right fun within => (or_iff_left fun under => ?_).symm
      have before := ((past x).mp seen).2
      rw [(leads y within under).2] at before
      exact lt_irrefl _ before
    · next unseen =>
      obtain ⟨known, rfl⟩ := here (Nat.succ_pos left) unseen
      rw [laid.mem_search_neighbors ih known sum (next x) [] rfl fun z => ?_]
      · exact and_congr_right fun within => by rw [lt_snoc_iff, laid.under_iff known within]
      · rw [List.mem_cons, past, lt_snoc_iff]
        constructor
        · rintro (rfl | ⟨within, before⟩)
          · exact ⟨known, .inr (.inl rfl)⟩
          · exact ⟨within, .inl before⟩
        · rintro ⟨within, before | same | ⟨j, none, -⟩⟩
          · exact .inr ⟨within, before⟩
          · exact .inl (laid.inj within known same)
          · exact absurd none (Nat.not_lt_zero j)

end Laid

/-! ## Ways that a search takes -/

/-- The nodes that a search adds to the visited ones, with the ways that it takes to them
from its position on. -/
structure Grown (next : κ → List κ) (limit : Nat) (p : List Nat) (visited : List κ)
    (way : κ → List Nat) (visited' : List κ) (way' : κ → List Nat) : Prop where
  grows : ∀ y ∈ visited, y ∈ visited'
  same : ∀ y ∈ visited, way' y = way y
  under : ∀ y ∈ visited', y ∉ visited → p <+: way' y ∧ (way' y).length < limit
  step : ∀ y ∈ visited', y ∉ visited → way' y ≠ p →
    ∃ x ∈ visited', ∃ k, (next x)[k]? = some y ∧ way' y = way' x ++ [k]
  first : ∀ y ∈ visited', y ∉ visited → (way' y).length + 1 < limit →
    ∀ k z, (next y)[k]? = some z → z ∈ visited' ∧ way' z ≤ way' y ++ [k]

theorem Grown.refl : Grown next limit p visited way visited way where
  grows _ held := held
  same _ _ := rfl
  under _ held fresh := absurd held fresh
  step _ held fresh := absurd held fresh
  first _ held fresh := absurd held fresh

/-- A search from a neighbor goes on with what was found. -/
theorem Grown.trans {V₀ V₁ V₂ : List κ} {w₀ w₁ w₂ : κ → List Nat} {k : Nat}
    (early : Grown next limit p V₀ w₀ V₁ w₁) (late : Grown next limit (p ++ [k]) V₁ w₁ V₂ w₂)
    (edge : ∀ y ∈ V₂, y ∉ V₁ → w₂ y = p ++ [k] →
      ∃ x ∈ V₂, ∃ j, (next x)[j]? = some y ∧ w₂ y = w₂ x ++ [j]) :
    Grown next limit p V₀ w₀ V₂ w₂ where
  grows y held := late.grows y (early.grows y held)
  same y held := (late.same y (early.grows y held)).trans (early.same y held)
  under y held fresh := by
    by_cases old : y ∈ V₁
    · rw [late.same y old]
      exact early.under y old fresh
    · exact ⟨(List.prefix_append p [k]).trans (late.under y held old).1, (late.under y held old).2⟩
  step y held fresh other := by
    by_cases old : y ∈ V₁
    · rw [late.same y old] at other ⊢
      obtain ⟨x, known, j, listed, way_eq⟩ := early.step y old fresh other
      exact ⟨x, late.grows x known, j, listed, (late.same x known).symm ▸ way_eq⟩
    · by_cases top : w₂ y = p ++ [k]
      · exact edge y held old top
      · exact late.step y held old top
  first y held fresh room j z listed := by
    by_cases old : y ∈ V₁
    · rw [late.same y old] at room ⊢
      obtain ⟨known, le⟩ := early.first y old fresh room j z listed
      exact ⟨late.grows z known, (late.same z known).symm ▸ le⟩
    · exact late.first y held old room j z listed

section Search
variable [DecidableEq κ]

/-- A search takes ways of its own, all from its position on, and the first ones. -/
def Takes (next : κ → List κ) (limit left : Nat) : Prop :=
  ∀ {p visited} (way : κ → List Nat) (x : κ), p.length + left = limit → (∀ y ∈ visited, way y < p) →
    ∃ way', Grown next limit p visited way (search next left x visited) way' ∧
      (0 < left → x ∈ search next left x visited ∧ (x ∉ visited → way' x = p)) ∧
      ∀ y ∈ search next left x visited, y ∉ visited → way' y = p → y = x

/-- What holds in the loop over the neighbors of a node after so many of them. -/
structure Looped (next : κ → List κ) (limit left : Nat) (p : List Nat) (x : κ) (start : List κ)
    (begun : κ → List Nat) (n : Nat) (seen : List κ) (way : κ → List Nat) : Prop where
  grown : Grown next limit p start begun seen way
  here : x ∈ seen ∧ way x = p
  past : ∀ y ∈ seen, way y < p ++ [n]
  away : ∀ y ∈ seen, y ∉ start → way y ≠ p
  closed : 0 < left → ∀ j < n, ∀ z, (next x)[j]? = some z → z ∈ seen ∧ way z ≤ p ++ [j]

section Loop
variable {start seen : List κ} {begun : κ → List Nat} {n : Nat}

private theorem Looped.step (takes : Takes next limit left) (sum : p.length + (left + 1) = limit)
    (edge : (next x)[n]? = some z) (looped : Looped next limit left p x start begun n seen way) :
    ∃ way', Looped next limit left p x start begun (n + 1) (search next left z seen) way' := by
  obtain ⟨way', added, visits, only⟩ := takes (p := p ++ [n]) way z (by simp; omega) looped.past
  have here : x ∈ search next left z seen ∧ way' x = p :=
    ⟨added.grows x looped.here.1, (added.same x looped.here.1).trans looped.here.2⟩
  refine ⟨way', looped.grown.trans added ?_, here, ?_, ?_, ?_⟩
  · intro y held fresh top
    obtain rfl := only y held fresh top
    exact ⟨x, here.1, n, edge, top.trans (by rw [here.2])⟩
  · intro y held
    rw [lt_snoc_iff]
    by_cases old : y ∈ seen
    · have before := looped.past y old
      rw [lt_snoc_iff, ← added.same y old] at before
      exact before.imp_right (Or.imp_right fun ⟨j, early, under⟩ => ⟨j, by omega, under⟩)
    · exact .inr (.inr ⟨n, by omega, (added.under y held old).1⟩)
  · intro y held fresh
    by_cases old : y ∈ seen
    · rw [added.same y old]
      exact looped.away y old fresh
    · intro same
      have under := (added.under y held old).1.length_le
      rw [same, List.length_append, List.length_singleton] at under
      omega
  · intro more j inside y listed
    by_cases last : j = n
    · subst last
      rw [edge, Option.some.injEq] at listed
      subst listed
      refine ⟨(visits more).1, ?_⟩
      by_cases old : z ∈ seen
      · rw [added.same z old]
        exact (looped.past z old).le
      · exact ((visits more).2 old).le
    · obtain ⟨known, le⟩ := looped.closed more j (by omega) y listed
      exact ⟨added.grows y known, (added.same y known).symm ▸ le⟩

private theorem Looped.run (takes : Takes next limit left) (sum : p.length + (left + 1) = limit)
    (rest done : List κ) (split : next x = done ++ rest)
    (looped : Looped next limit left p x start begun done.length seen way) :
    ∃ way', Looped next limit left p x start begun (next x).length
      (rest.foldl (fun visited y => search next left y visited) seen) way' := by
  induction rest generalizing done seen way with
  | nil =>
    rw [split, List.append_nil]
    exact ⟨way, looped⟩
  | cons z rest ih =>
    have edge : (next x)[done.length]? = some z := by simp [split]
    obtain ⟨way', looped⟩ := looped.step takes sum edge
    rw [← List.length_singleton (a := z), ← List.length_append] at looped
    exact ih (done ++ [z]) (by simp [split]) looped

end Loop

private theorem Looped.start (unseen : x ∉ visited) (past : ∀ y ∈ visited, way y < p) :
    Looped next limit left p x (x :: visited) (Function.update way x p) 0 (x :: visited)
      (Function.update way x p) where
  grown := .refl
  here := ⟨List.mem_cons_self, Function.update_self ..⟩
  past y held := by
    rw [lt_snoc_iff]
    rcases List.mem_cons.mp held with rfl | held
    · exact .inr (.inl (Function.update_self ..))
    · have other : y ≠ x := fun same => unseen (same ▸ held)
      rw [Function.update_of_ne other]
      exact .inl (past y held)
  away _ held fresh := absurd held fresh
  closed _ j none := absurd none (Nat.not_lt_zero j)

/-- After the loop the node itself is among those that were added. -/
private theorem Looped.grown_node {seen : List κ} (unseen : x ∉ visited)
    (sum : p.length + (left + 1) = limit)
    (looped : Looped next limit left p x (x :: visited) (Function.update way x p) (next x).length
      seen way') : Grown next limit p visited way seen way' where
  grows y held := looped.grown.grows y (List.mem_cons_of_mem x held)
  same y held := by
    have other : y ≠ x := fun same => unseen (same ▸ held)
    rw [looped.grown.same y (List.mem_cons_of_mem x held), Function.update_of_ne other]
  under y held fresh := by
    by_cases top : y = x
    · rw [top, looped.here.2]
      exact ⟨List.prefix_refl p, by omega⟩
    · exact looped.grown.under y held (by simp [top, fresh])
  step y held fresh other := by
    have top : y ≠ x := fun same => other (same ▸ looped.here.2)
    exact looped.grown.step y held (by simp [top, fresh]) other
  first y held fresh room := by
    by_cases top : y = x
    · rw [top, looped.here.2] at room ⊢
      intro k z listed
      exact looped.closed (by omega) k (List.getElem?_eq_some_iff.mp listed).1 z listed
    · exact looped.grown.first y held (by simp [top, fresh]) room

theorem takes (next : κ → List κ) (limit left : Nat) : Takes next limit left := by
  induction left with
  | zero =>
    intro p visited way x _ _
    exact ⟨way, .refl, fun none => absurd none (Nat.lt_irrefl 0),
      fun y held fresh => absurd held fresh⟩
  | succ left ih =>
    intro p visited way x sum past
    rw [search]
    split
    · next seen =>
      exact ⟨way, .refl, fun _ => ⟨seen, fun fresh => absurd seen fresh⟩,
        fun y held fresh => absurd held fresh⟩
    · next unseen =>
      obtain ⟨way', looped⟩ := (Looped.start unseen past).run ih sum (next x) [] rfl
      refine ⟨way', looped.grown_node unseen sum, fun _ => ⟨looped.here.1, fun _ => looped.here.2⟩,
        fun y held fresh same => ?_⟩
      by_contra top
      exact looped.away y held (by simp [top, fresh]) same

theorem root_mem_search (positive : 0 < limit) : root ∈ search next limit root [] := by
  obtain ⟨_, _, visits, _⟩ :=
    takes next limit limit (p := []) (fun _ => []) root (Nat.zero_add limit)
      (List.forall_mem_nil _)
  exact (visits positive).1

/-- A search visits nodes that a path from the root leads to. -/
theorem within_of_search (left : Nat) {depth : Nat} (sum : depth + left = limit)
    (path : Path next root (depth + 1) x)
    (held : y ∈ search next left x visited) : y ∈ visited ∨ Within next root limit y := by
  induction left generalizing x depth visited with
  | zero => exact .inl held
  | succ left ih =>
    rw [search] at held
    split at held
    · exact .inl held
    · have loop : ∀ (rest seen : List κ), (∀ z ∈ rest, z ∈ next x) →
          y ∈ rest.foldl (fun visited y => search next left y visited) seen → y ∈ seen ∨ Within next root limit y := by
        intro rest
        induction rest with
        | nil => exact fun seen _ held => .inl held
        | cons z rest each =>
          intro seen edges held
          rcases each _ (fun z later => edges z (List.mem_cons_of_mem _ later)) held with
            before | within
          · exact ih (by omega) (path.snoc (edges z List.mem_cons_self)) before
          · exact .inr within
      rcases loop (next x) (x :: visited) (fun z listed => listed) held with before | within
      · rcases List.mem_cons.mp before with rfl | before
        · exact .inr ⟨_, by omega, path⟩
        · exact .inl before
      · exact .inr within

/-- A search from the root visits every node within the limit exactly if there are ways
to them, one for each, that are laid in the order of the neighbors. -/
theorem search_complete_iff (next : κ → List κ) (root : κ) (limit : Nat) :
    (∀ y, Within next root limit y → y ∈ search next limit root []) ↔
      ∃ way, Laid next root limit way := by
  constructor
  · intro complete
    obtain ⟨way, grown, visits, only⟩ :=
      takes next limit limit (p := []) (fun _ => []) root (Nat.zero_add limit)
        (List.forall_mem_nil _)
    have within {y : κ} (held : y ∈ search next limit root []) : Within next root limit y :=
      (within_of_search limit (Nat.zero_add limit) (Path.nil next root) held).resolve_left List.not_mem_nil
    have positive {y : κ} (within : Within next root limit y) : 0 < limit := by
      have short := (grown.under y (complete y within) List.not_mem_nil).2
      omega
    -- The way of the root may be anything where no search is made.
    refine ⟨Function.update way root [], Function.update_self .., fun y reached away => ?_,
      fun y reached => ?_,
      fun x reached room k y listed => ?_⟩
    all_goals have start := (visits (positive reached)).2 List.not_mem_nil
    all_goals have same : Function.update way root [] = way := Function.update_eq_self_iff.mpr start.symm
    all_goals rw [same]
    · have other : way y ≠ [] := fun top => away (only y (complete y reached) List.not_mem_nil top)
      obtain ⟨x, held, k, listed, way_eq⟩ :=
        grown.step y (complete y reached) List.not_mem_nil other
      exact ⟨x, k, within held, listed, way_eq⟩
    · exact (grown.under y (complete y reached) List.not_mem_nil).2
    · rw [same] at room
      exact (grown.first x (complete x reached) List.not_mem_nil room k y listed).2
  · rintro ⟨way, laid⟩ y reached
    have top (room : 0 < limit) : Within next root limit root ∧ way root = [] :=
      ⟨⟨1, room, Path.nil next root⟩, laid.start⟩
    refine (laid.follows limit (p := []) (Nat.zero_add limit) (fun y reached _ => ?_) (fun y => ?_)
      (fun room _ => ?_) y).mpr ⟨reached, .inr List.nil_prefix⟩
    · exact top (Nat.zero_lt_of_lt (laid.short y reached))
    · simp
    · exact top room

end Search

end Beads.Lib.DepthLimit
