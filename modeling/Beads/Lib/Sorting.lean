import Mathlib.Data.List.Sort
import Mathlib.Data.List.TakeWhile

/-! Sorting with a comparison function, as `slices.SortFunc` and `Array.sort` do it: the result is a
rearrangement, it is in order when the comparison is a strict weak order of the elements, and
elements that compare as equal may end up in any order. -/
namespace Beads.Lib

variable {α : Type} {cmp cmp' : α → α → Int} {l : List α}

/-- The comparison is a strict weak order of the elements. -/
structure WeakOrder (cmp : α → α → Int) (l : List α) : Prop where
  swap : ∀ a ∈ l, ∀ b ∈ l, 0 < cmp a b ↔ cmp b a < 0
  trans : ∀ a ∈ l, ∀ b ∈ l, ∀ c ∈ l, cmp a b ≤ 0 → cmp b c ≤ 0 → cmp a c ≤ 0

/-- A sort, and what is promised of it. -/
structure Sorter (α : Type) where
  sort : (α → α → Int) → List α → List α
  perm : ∀ cmp l, (sort cmp l).Perm l
  sorted : ∀ cmp l, WeakOrder cmp l → (sort cmp l).Pairwise fun a b => cmp a b ≤ 0

namespace WeakOrder

theorem of_subset (order : WeakOrder cmp l) {l' : List α} (sub : ∀ a ∈ l', a ∈ l) :
    WeakOrder cmp l' where
  swap a left b right := order.swap a (sub a left) b (sub b right)
  trans a first b second c third := order.trans a (sub a first) b (sub b second) c (sub c third)

theorem total (order : WeakOrder cmp l) {a b : α} (left : a ∈ l) (right : b ∈ l) :
    cmp a b ≤ 0 ∨ cmp b a ≤ 0 := by
  have swap := order.swap a left b right
  omega

/-- The order of the elements is that of their images. -/
theorem comap {β : Type} {f : β → α} {l : List β} (order : WeakOrder cmp (l.map f)) :
    WeakOrder (fun a b => cmp (f a) (f b)) l where
  swap a left b right := order.swap (f a) (List.mem_map_of_mem left) (f b) (List.mem_map_of_mem right)
  trans a first b second c third := order.trans (f a) (List.mem_map_of_mem first) (f b) (List.mem_map_of_mem second)
    (f c) (List.mem_map_of_mem third)

/-- The order of a comparison that has the same sign. -/
theorem congr (order : WeakOrder cmp l) (swap : ∀ a ∈ l, ∀ b ∈ l, 0 < cmp' a b ↔ cmp' b a < 0)
    (same : ∀ a ∈ l, ∀ b ∈ l, cmp' a b < 0 ↔ cmp a b < 0) : WeakOrder cmp' l := by
  have le {a b : α} (left : a ∈ l) (right : b ∈ l) : cmp' a b ≤ 0 ↔ cmp a b ≤ 0 := by
    have here := swap a left b right
    have there := order.swap a left b right
    have signs := same b right a left
    omega
  refine ⟨swap, ?_⟩
  intro a first b second c third
  rw [le first second, le second third, le first third]
  exact order.trans a first b second c third

end WeakOrder

/-- Without ties there is one way to sort: a comparison of the same sign gives the same result, with
another sort and from another arrangement. -/
theorem sort_map {β : Type} (s : Sorter α) (s' : Sorter β) {f : α → β} {cmp' : β → β → Int}
    {l' : List β}
    (perm : l'.Perm (l.map f)) (order : WeakOrder cmp l) (order' : WeakOrder cmp' (l.map f))
    (same : ∀ a ∈ l, ∀ b ∈ l, cmp a b < 0 ↔ cmp' (f a) (f b) < 0)
    (strict : ∀ a ∈ l.map f, ∀ b ∈ l.map f, cmp' a b ≤ 0 → cmp' b a ≤ 0 → a = b) :
    s'.sort cmp' l' = (s.sort cmp l).map f := by
  have le {a b : α} (left : a ∈ l) (right : b ∈ l) (le : cmp a b ≤ 0) : cmp' (f a) (f b) ≤ 0 := by
    have here := order.swap a left b right
    have there := order'.swap (f a) (List.mem_map_of_mem left) (f b) (List.mem_map_of_mem right)
    have signs := same b right a left
    omega
  have sorted : ((s.sort cmp l).map f).Pairwise fun a b => cmp' a b ≤ 0 := by
    rw [List.pairwise_map]
    apply (s.sorted cmp l order).imp_of_mem
    intro a b left right
    exact le ((s.perm cmp l).mem_iff.mp left) ((s.perm cmp l).mem_iff.mp right)
  have sorted' := s'.sorted cmp' l' (order'.of_subset fun a held => perm.mem_iff.mp held)
  have same' : (s'.sort cmp' l').Perm (l.map f) := (s'.perm cmp' l').trans perm
  have mapped := (s.perm cmp l).map f
  apply List.Perm.eq_of_pairwise _ sorted' sorted (same'.trans mapped.symm)
  intro a b left right
  exact strict a (same'.mem_iff.mp left) b (mapped.mem_iff.mp right)

/-! ## The comparison of an order -/

section ThreeWay
variable [LinearOrder α]

/-- The comparison that an order gives. -/
def threeWay (a b : α) : Int := if a < b then -1 else if a = b then 0 else 1

theorem threeWay_nonpos {a b : α} : threeWay a b ≤ 0 ↔ a ≤ b := by
  unfold threeWay
  rcases lt_trichotomy a b with less | same | greater
  · simp [less, less.le]
  · simp [same]
  · simp [greater.not_gt, greater.ne', greater.not_ge]

theorem threeWay_swap (a b : α) : threeWay b a = -threeWay a b := by
  unfold threeWay
  rcases lt_trichotomy a b with less | same | greater
  · simp [less, less.not_gt, less.ne']
  · simp [same]
  · simp [greater, greater.not_gt, greater.ne']

theorem threeWay_weakOrder (l : List α) : WeakOrder threeWay l where
  swap a _ b _ := by
    rw [threeWay_swap a b]
    omega
  trans a _ b _ c _ := by
    simp only [threeWay_nonpos]
    exact le_trans

theorem Sorter.sort_threeWay (s : Sorter α) (l : List α) :
    s.sort threeWay l = l.insertionSort (· ≤ ·) := by
  have sorted : (s.sort threeWay l).Pairwise (· ≤ ·) :=
    (s.sorted threeWay l (threeWay_weakOrder l)).imp threeWay_nonpos.mp
  have perm := (s.perm threeWay l).trans (List.perm_insertionSort (· ≤ ·) l).symm
  exact perm.eq_of_pairwise' sorted (List.pairwise_insertionSort (· ≤ ·) l)

end ThreeWay

/-! ## Sorts that exist -/

/-- An element goes before the first that is not smaller. -/
theorem pairwise_orderedInsert {a : α} (order : WeakOrder cmp (a :: l))
    (sorted : l.Pairwise fun a b => cmp a b ≤ 0) :
    (l.orderedInsert (fun a b => cmp a b ≤ 0) a).Pairwise fun a b => cmp a b ≤ 0 := by
  induction l with
  | nil => simp
  | cons b rest ih =>
    have below := sorted
    rw [List.pairwise_cons] at below
    rw [List.orderedInsert_cons]
    split
    · next le =>
      rw [List.pairwise_cons]
      refine ⟨?_, sorted⟩
      intro c held
      rcases List.mem_cons.mp held with rfl | later
      · exact le
      · exact order.trans a (by simp) b (by simp) c (by simp [later]) le (below.1 c later)
    · next greater =>
      rw [List.pairwise_cons]
      refine ⟨?_, ih (order.of_subset ?_) below.2⟩
      · intro c held
        rcases (List.mem_orderedInsert _).mp held with rfl | later
        · exact (order.total (by simp) (by simp)).resolve_left greater
        · exact below.1 c later
      · intro c held
        rcases List.mem_cons.mp held with rfl | later
        · simp
        · simp [later]

namespace Sorter

/-- Insertion, after the elements have been rearranged. -/
def inserting (arrange : List α → List α) (perm : ∀ l, (arrange l).Perm l) : Sorter α where
  sort cmp l := (arrange l).insertionSort fun a b => cmp a b ≤ 0
  perm cmp l := (List.perm_insertionSort _ _).trans (perm l)
  sorted := by
    intro cmp l order
    have order' := order.of_subset fun a held => (perm l).mem_iff.mp held
    generalize arrange l = l' at order'
    induction l' with
    | nil => simp
    | cons a rest ih =>
      rw [List.insertionSort_cons]
      apply pairwise_orderedInsert (order'.of_subset ?_)
        (ih (order'.of_subset fun b held => by simp [held]))
      intro b held
      simpa using held

/-- The sort that leaves ties as they are. -/
def stable : Sorter α := inserting id fun l => List.Perm.refl l

variable [DecidableEq α]

/-- The sort that puts one element before those it ties with. -/
def favouring (first : α) : Sorter α :=
  inserting (fun l => l.filter (· = first) ++ l.filter fun a => !decide (a = first)) fun l =>
    List.filter_append_perm (· = first) l

/-- The favoured element comes before all that are not smaller. -/
theorem favouring_sublist {a b : α} (ne : a ≠ b) (left : a ∈ l) (right : b ∈ l) (le : cmp a b ≤ 0) :
    [a, b].Sublist ((favouring a).sort cmp l) := by
  obtain ⟨more, arranged⟩ : ∃ more, l.filter (· = a) = a :: more := by
    cases shape : l.filter (· = a) with
    | nil =>
      have none := List.filter_eq_nil_iff.mp shape a left
      simp at none
    | cons first more =>
      have held : first ∈ l.filter (· = a) := shape ▸ List.mem_cons_self
      rw [of_decide_eq_true (List.mem_filter.mp held).2]
      exact ⟨more, rfl⟩
  have other : b ∈ l.filter fun c => !decide (c = a) := by
    rw [List.mem_filter]
    simp [right, ne.symm]
  simp only [favouring, inserting, arranged, List.cons_append, List.insertionSort_cons]
  generalize sorted : (more ++ l.filter fun c => !decide (c = a)).insertionSort (fun a b => cmp a b ≤ 0) = rest
  have held : b ∈ rest := by
    rw [← sorted, List.mem_insertionSort]
    exact List.mem_append_right _ other
  rw [List.orderedInsert_eq_take_drop]
  rw [← List.takeWhile_append_dropWhile (p := fun c => ¬ cmp a c ≤ 0) (l := rest),
    List.mem_append] at held
  rcases held with before | behind
  · have greater := List.mem_takeWhile_imp before
    simp [le] at greater
  · refine List.Sublist.trans ?_ (List.sublist_append_right _ _)
    exact List.Sublist.cons_cons a (List.singleton_sublist.mpr behind)

/-- Of two elements the favoured one comes first when it is not the greater one. -/
theorem favouring_pair {a b : α} (ne : a ≠ b) (le : cmp a b ≤ 0) (pair : l.Perm [a, b]) :
    (favouring a).sort cmp l = [a, b] := by
  have sub : [a, b].Sublist ((favouring a).sort cmp l) :=
    favouring_sublist ne (pair.mem_iff.mpr (by simp)) (pair.mem_iff.mpr (by simp)) le
  have length := ((favouring a).perm cmp l).trans pair
  exact (sub.eq_of_length length.length_eq.symm).symm

end Sorter

end Beads.Lib
