import Mathlib.Data.List.Sort

/-! Windows on a sorted list that is put together from two: each part may be cut
to the depth the window reaches (`take_sort_parts`). The order has to be total
and, on the elements at hand, antisymmetric; then a sorted list is determined by
its elements (`sort_unique`).

A page is a window whose end is told apart from the end of the list by one more
element (`page_of_probe`, `more_iff_probe`). -/
namespace Beads.Lib.Window

variable {α : Type*} {r : α → α → Prop} {xs ys : List α}

/-- The relation tells the elements of the list apart. -/
def Separates (r : α → α → Prop) (xs : List α) : Prop :=
  ∀ a ∈ xs, ∀ b ∈ xs, r a b → r b a → a = b

theorem Separates.sublist (separates : Separates r ys) (sub : xs ⊆ ys) : Separates r xs :=
  fun a left b right => separates a (sub left) b (sub right)

section Sorting
variable [DecidableRel r] [Std.Total r] [IsTrans α r]

/-- A sorted arrangement of the list is its sort. -/
theorem sort_unique (separates : Separates r xs) (sorted : ys.Pairwise r) (perm : ys.Perm xs) :
    xs.insertionSort r = ys := by
  have same : (xs.insertionSort r).Perm ys := (List.perm_insertionSort r xs).trans perm.symm
  refine List.Perm.eq_of_pairwise ?_ (List.pairwise_insertionSort r xs) sorted same
  intro a b left right
  exact separates a ((List.mem_insertionSort r).mp left) b (perm.mem_iff.mp right)

private theorem sort_append (separates : Separates r (xs ++ ys)) :
    (xs ++ ys).insertionSort r =
      List.merge (xs.insertionSort r) (ys.insertionSort r) (fun a b => decide (r a b)) := by
  refine sort_unique separates ?_ ?_
  · exact (List.pairwise_insertionSort r xs).merge (List.pairwise_insertionSort r ys)
  · exact (List.merge_perm_append _).trans
      ((List.perm_insertionSort r xs).append (List.perm_insertionSort r ys))

/-- A sorted list that is narrowed stays sorted. -/
theorem sort_filter (separates : Separates r xs) (p : α → Prop) [DecidablePred p] :
    (xs.insertionSort r).filter p = (xs.filter p).insertionSort r := by
  have kept : xs.filter p ⊆ xs := fun _ held => (List.mem_filter.mp held).1
  symm
  apply sort_unique (separates.sublist kept)
  · exact (List.pairwise_insertionSort r xs).filter _
  · exact (List.perm_insertionSort r xs).filter _

/-- The first elements of a merge come from the first elements of its parts. -/
theorem take_merge {le : α → α → Bool} {n m k : Nat} (left : n ≤ m) (right : n ≤ k)
    (xs ys : List α) :
    (List.merge (xs.take m) (ys.take k) le).take n = (List.merge xs ys le).take n := by
  induction n generalizing m k xs ys with
  | zero => simp
  | succ n ih =>
    obtain ⟨m, rfl⟩ := Nat.exists_eq_add_of_le' (Nat.lt_of_lt_of_le n.succ_pos left)
    obtain ⟨k, rfl⟩ := Nat.exists_eq_add_of_le' (Nat.lt_of_lt_of_le n.succ_pos right)
    cases xs with
    | nil => simp [List.take_take, Nat.min_eq_left right]
    | cons x xs =>
      cases ys with
      | nil => simp [List.take_take, Nat.min_eq_left (Nat.succ_le_succ_iff.mp left)]
      | cons y ys =>
        simp only [List.take_succ_cons, List.cons_merge_cons]
        split
        · rw [List.take_succ_cons, List.take_succ_cons]
          exact congrArg (x :: ·) (ih (Nat.succ_le_succ_iff.mp left) (Nat.le_of_succ_le right) xs (y :: ys))
        · rw [List.take_succ_cons, List.take_succ_cons]
          exact congrArg (y :: ·) (ih (Nat.le_of_succ_le left) (Nat.succ_le_succ_iff.mp right) (x :: xs) ys)

/-- To find the first elements of a sorted list, its parts are sorted and cut first. -/
theorem take_sort_parts (separates : Separates r (xs ++ ys)) {n m : Nat} (deep : n ≤ m) :
    (((xs.insertionSort r).take m ++ (ys.insertionSort r).take m).insertionSort r).take n =
      ((xs ++ ys).insertionSort r).take n := by
  have inside : (xs.insertionSort r).take m ++ (ys.insertionSort r).take m ⊆ xs ++ ys := by
    intro a held
    rcases List.mem_append.mp held with left | right
    · exact List.mem_append_left _ ((List.mem_insertionSort r).mp (List.mem_of_mem_take left))
    · exact List.mem_append_right _ ((List.mem_insertionSort r).mp (List.mem_of_mem_take right))
  have sorted (zs : List α) :
      ((zs.insertionSort r).take m).insertionSort r = (zs.insertionSort r).take m :=
    ((List.pairwise_insertionSort r zs).sublist (List.take_sublist m _)).insertionSort_eq
  rw [sort_append separates, sort_append (separates.sublist inside), sorted, sorted]
  exact take_merge deep deep _ _

end Sorting

/-- What is put behind a list that is cut already is cut with it. -/
theorem take_take_append (n : Nat) (xs ys : List α) :
    (xs.take n ++ ys).take n = (xs ++ ys).take n := by
  have rest : n - min n xs.length = n - xs.length := by omega
  rw [List.take_append, List.take_append, List.take_take, Nat.min_self, List.length_take, rest]

/-- The given elements are the first ones of a sorted list if and only if no other one is
before any of them. -/
theorem take_perm_iff {n : Nat} (sorted : xs.Pairwise r) (separates : Separates r xs)
    (nodup : xs.Nodup)
    (distinct : ys.Nodup) (inside : ys ⊆ xs) (size : ys.length = min n xs.length) :
    (xs.take n).Perm ys ↔ ∀ a ∈ ys, ∀ b ∈ xs, b ∉ ys → r a b := by
  have before {a b : α} (first : a ∈ xs.take n) (last : b ∈ xs.drop n) : r a b := by
    rw [← List.take_append_drop n xs, List.pairwise_append] at sorted
    exact sorted.2.2 a first b last
  have apart {a : α} (held : a ∈ xs) (other : a ∉ xs.take n) : a ∈ xs.drop n := by
    rw [← List.take_append_drop n xs, List.mem_append] at held
    exact held.resolve_left other
  constructor
  · intro perm a listed b held other
    exact before (perm.mem_iff.mpr listed) (apart held (mt perm.mem_iff.mp other))
  · intro first
    have cut : (xs.take n).Nodup := nodup.sublist (List.take_sublist n xs)
    have length : ys.length = (xs.take n).length := by rw [size, List.length_take]
    -- An element that is cut off leaves its place to one that is not asked for.
    have all : ys ⊆ xs.take n := by
      intro a listed
      by_contra lost
      have more : ¬ xs.take n ⊆ ys := by
        intro sub
        exact lost ((List.subperm_of_subset cut sub).perm_of_length_le length.le |>.mem_iff.mpr listed)
      obtain ⟨b, kept, other⟩ := Set.not_subset.mp more
      have held := List.mem_of_mem_take kept
      have same := separates a (inside listed) b held (first a listed b held other)
        (before kept (apart (inside listed) lost))
      exact other (same ▸ listed)
    exact ((List.subperm_of_subset distinct all).perm_of_length_le length.ge).symm

/-! ## Pages -/

/-- A page that starts at the offset; a limit of zero is none. -/
def page (offset limit : Nat) (rows : List α) : List α :=
  if limit = 0 then rows.drop offset else (rows.drop offset).take limit

/-- There are rows behind the page. -/
def More (offset limit : Nat) (rows : List α) : Prop := 0 < limit ∧ offset + limit < rows.length

instance (offset limit : Nat) (rows : List α) : Decidable (More offset limit rows) :=
  inferInstanceAs (Decidable (_ ∧ _))

/-- The rows that were fetched are all rows, or the first ones with one at least
behind the page. -/
def Reaches (offset limit : Nat) (fetched rows : List α) : Prop :=
  fetched = rows ∨ ∃ bound, fetched = rows.take bound ∧ 0 < limit ∧ offset + limit < bound

namespace Reaches
variable {offset limit : Nat} {fetched rows : List α}

theorem page_eq (reaches : Reaches offset limit fetched rows) :
    page offset limit fetched = page offset limit rows := by
  rcases reaches with rfl | ⟨bound, rfl, positive, deep⟩
  · rfl
  · have enough : limit ≤ bound - offset := by omega
    rw [page, page, if_neg positive.ne', if_neg positive.ne', List.drop_take, List.take_take,
      Nat.min_eq_left enough]

theorem more_iff (reaches : Reaches offset limit fetched rows) :
    More offset limit fetched ↔ More offset limit rows := by
  rcases reaches with rfl | ⟨bound, rfl, positive, deep⟩
  · rfl
  · rw [More, More, List.length_take]
    omega

end Reaches

/-- A page that was read from an earlier row is cut back to its rows. -/
theorem page_page {offset skip limit : Nat} {rows : List α} :
    page skip limit (page offset (if limit = 0 then 0 else limit + skip) rows) = page (offset + skip) limit rows := by
  by_cases none : limit = 0
  · simp only [page, none, if_true, List.drop_drop]
  · have more : limit + skip ≠ 0 := fun zero => none (Nat.eq_zero_of_add_eq_zero_right zero)
    simp only [page, if_neg none, if_neg more]
    rw [List.drop_take, List.take_take, Nat.add_sub_cancel, Nat.min_self, List.drop_drop]

theorem page_sublist {offset limit : Nat} {rows : List α} :
    (page offset limit rows).Sublist rows := by
  rw [page]
  split
  · exact List.drop_sublist _ _
  · exact (List.take_sublist _ _).trans (List.drop_sublist _ _)

theorem page_drop (limit offset : Nat) (rows : List α) :
    page 0 limit (rows.drop offset) = page offset limit rows := by
  rw [page, page, List.drop_zero]

theorem more_drop {limit offset : Nat} {rows : List α} :
    More 0 limit (rows.drop offset) ↔ More offset limit rows := by
  rw [More, More, List.length_drop]
  omega

end Beads.Lib.Window
