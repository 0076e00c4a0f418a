import Mathlib.Data.List.Nodup
import Mathlib.Tactic.Common

/-! Which of two elements stands first in a list, and what a stable sort by a number makes of it
(`precedes_mergeSort_iff`). -/
namespace Beads.Lib

variable {α : Type*} {l : List α} {a b : α}

/-- The first element stands before the second. -/
def Precedes (l : List α) (a b : α) : Prop := [a, b].Sublist l

instance [DecidableEq α] (l : List α) (a b : α) : Decidable (Precedes l a b) :=
  inferInstanceAs (Decidable ([a, b].Sublist l))

private theorem precedes_cons_self {l : List α} (held : b ∈ l) : Precedes (a :: l) a b :=
  List.Sublist.cons_cons a (List.singleton_sublist.mpr held)

private theorem Precedes.cons (before : Precedes l a b) (c : α) : Precedes (c :: l) a b :=
  List.Sublist.cons c before

theorem Precedes.mem (before : Precedes l a b) : a ∈ l ∧ b ∈ l :=
  ⟨before.subset (by simp), before.subset (by simp)⟩

theorem Precedes.of_pairwise {r : α → α → Prop} (before : Precedes l a b) (sorted : l.Pairwise r) :
    r a b := by
  have pair := sorted.sublist before
  simpa using pair

private theorem Precedes.ne (before : Precedes l a b) (distinct : l.Nodup) : a ≠ b :=
  before.of_pairwise distinct

private theorem precedes_or (left : a ∈ l) (right : b ∈ l) (ne : a ≠ b) :
    Precedes l a b ∨ Precedes l b a := by
  induction l with
  | nil => exact absurd left (by simp)
  | cons c rest ih =>
    rcases List.mem_cons.mp left with rfl | inA
    · rcases List.mem_cons.mp right with rfl | inB
      · exact absurd rfl ne
      · exact .inl (precedes_cons_self inB)
    · rcases List.mem_cons.mp right with rfl | inB
      · exact .inr (precedes_cons_self inA)
      · exact (ih inA inB).imp (·.cons c) (·.cons c)

theorem Precedes.not_swap (before : Precedes l a b) (distinct : l.Nodup) : ¬ Precedes l b a := by
  intro after
  induction l with
  | nil => exact absurd before.mem.1 (by simp)
  | cons c rest ih =>
    rw [List.nodup_cons] at distinct
    cases before with
    | cons _ before =>
      cases after with
      | cons _ after => exact ih before distinct.2 after
      | cons_cons _ _ => exact distinct.1 (Precedes.mem before).2
    | cons_cons _ tail =>
      cases after with
      | cons _ after => exact distinct.1 (Precedes.mem after).2
      | cons_cons _ _ => exact distinct.1 (List.singleton_sublist.mp tail)

/-- A stable sort by a number puts the smaller number first, and of equal ones the one that was
first before. -/
theorem precedes_mergeSort_iff (key : α → Nat) (distinct : l.Nodup) (left : a ∈ l) (right : b ∈ l) :
    Precedes (l.mergeSort fun x y => key x ≤ key y) a b ↔
      key a < key b ∨ (key a = key b ∧ Precedes l a b) := by
  have trans (x y z : α) (first : decide (key x ≤ key y) = true)
      (second : decide (key y ≤ key z) = true) :
      decide (key x ≤ key z) = true := by
    simp only [decide_eq_true_eq] at *
    omega
  have total (x y : α) : (decide (key x ≤ key y) || decide (key y ≤ key x)) = true := by
    simp only [Bool.or_eq_true, decide_eq_true_eq]
    omega
  have sorted := List.pairwise_mergeSort trans total l
  have distinct' : (l.mergeSort fun x y => key x ≤ key y).Nodup :=
    (List.mergeSort_perm l _).nodup_iff.mpr distinct
  have stays {x y : α} (le : key x ≤ key y) (before : Precedes l x y) :
      Precedes (l.mergeSort fun x y => key x ≤ key y) x y :=
    List.pair_sublist_mergeSort trans total (by simpa using le) before
  constructor
  · intro before
    have le : key a ≤ key b := by simpa using before.of_pairwise sorted
    rcases Nat.lt_or_eq_of_le le with less | equal
    · exact .inl less
    · refine .inr ⟨equal, ?_⟩
      rcases precedes_or left right (before.ne distinct') with first | second
      · exact first
      · exact absurd (stays (Nat.le_of_eq equal.symm) second) (before.not_swap distinct')
  · rintro (less | ⟨equal, before⟩)
    · have ne : a ≠ b := by
        rintro rfl
        omega
      have heldA := (List.mergeSort_perm l fun x y => key x ≤ key y).mem_iff.mpr left
      have heldB := (List.mergeSort_perm l fun x y => key x ≤ key y).mem_iff.mpr right
      rcases precedes_or heldA heldB ne with first | second
      · exact first
      · have ge : key b ≤ key a := by simpa using second.of_pairwise sorted
        omega
    · exact stays (Nat.le_of_eq equal) before

end Beads.Lib
