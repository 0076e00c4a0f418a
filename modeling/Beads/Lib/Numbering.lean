import Mathlib.Data.List.TakeWhile
import Mathlib.Order.Basic

/-! Names that end in a number after a separator, and the highest of such numbers: a name
determines what stands before its last separator, the digits of a number determine it,
and a scan that only ever raises its result is above everything it has seen. -/
namespace Beads.Lib

/-! ## Separators -/

section Separators
variable {α : Type} [DecidableEq α] {sep : α}

/-- The parts of a text around its last separator. -/
theorem around_last (before : List α) {after : List α} (plain : sep ∉ after) :
    (before ++ sep :: after).reverse.takeWhile (· ≠ sep) = after.reverse ∧
      (before ++ sep :: after).reverse.dropWhile (· ≠ sep) = sep :: before.reverse := by
  have all : ∀ a ∈ after.reverse, decide (a ≠ sep) = true := fun a held =>
    decide_eq_true fun same => plain (same ▸ List.mem_reverse.mp held)
  have shape : (before ++ sep :: after).reverse = after.reverse ++ sep :: before.reverse := by simp
  rw [shape]
  constructor
  · rw [List.takeWhile_append_of_pos all]
    simp
  · rw [List.dropWhile_append_of_pos all]
    simp

theorem eq_around_last {before before' after after' : List α} (plain : sep ∉ after)
    (plain' : sep ∉ after')
    (same : before ++ sep :: after = before' ++ sep :: after') :
    before = before' ∧ after = after' := by
  obtain ⟨last, first⟩ := around_last before plain
  obtain ⟨last', first'⟩ := around_last before' plain'
  rw [same] at last first
  constructor
  · have reversed := (List.cons.inj (first'.symm.trans first)).2
    exact (List.reverse_inj.mp reversed).symm
  · exact (List.reverse_inj.mp (last'.symm.trans last)).symm

end Separators

/-! ## Digits -/

section Digits
variable {num num' : Nat} {c : Char}

theorem toDigits_inj (same : Nat.toDigits 10 num = Nat.toDigits 10 num') : num = num' := by
  rw [← Nat.ofDigitChars_ten_toDigits (n := num), same, Nat.ofDigitChars_ten_toDigits]

theorem isDigit_of_mem (held : c ∈ Nat.toDigits 10 num) : c.isDigit = true :=
  Nat.isDigit_of_mem_toDigits (by decide) (by decide) held

theorem not_mem_toDigits (other : c.isDigit = false) : c ∉ Nat.toDigits 10 num := by
  intro held
  rw [isDigit_of_mem held] at other
  cases other

theorem toDigits_cons (num : Nat) :
    ∃ first rest, Nat.toDigits 10 num = first :: rest ∧ first.isDigit = true := by
  cases digits : Nat.toDigits 10 num with
  | nil => exact absurd digits Nat.toDigits_ne_nil
  | cons first rest => exact ⟨first, rest, rfl, isDigit_of_mem (digits ▸ List.mem_cons_self)⟩

/-- Reading digits from the left gives the number back. -/
theorem foldl_toDigits {f : Int → Char → Int}
    (reads : ∀ n d, f n d = 10 * n + (d.toNat - '0'.toNat : Nat))
    (num : Nat) : (Nat.toDigits 10 num).foldl f 0 = num := by
  have loop : ∀ (l : List Char) (n : Nat), l.foldl f n = (Nat.ofDigitChars 10 l n : Nat) := by
    intro l
    induction l with
    | nil => exact fun _ => rfl
    | cons d l ih =>
      intro n
      rw [List.foldl_cons, Nat.ofDigitChars_cons, ← ih, reads]
      rfl
  have value := loop (Nat.toDigits 10 num) 0
  rwa [Nat.ofDigitChars_ten_toDigits] at value

end Digits

/-! ## Highest numbers -/

section Highest
variable {α β : Type} [Preorder β] {raise : β → α → β}

theorem le_foldl (raises : ∀ b a, b ≤ raise b a) (l : List α) (b : β) : b ≤ l.foldl raise b := by
  induction l generalizing b with
  | nil => exact le_refl b
  | cons a l ih => exact (raises b a).trans (ih _)

theorem le_foldl_of_mem (raises : ∀ b a, b ≤ raise b a) {l : List α} {a : α} {least : β}
    (reaches : ∀ b, least ≤ raise b a) (listed : a ∈ l) (b : β) : least ≤ l.foldl raise b := by
  induction l generalizing b with
  | nil => exact absurd listed List.not_mem_nil
  | cons first l ih =>
    rw [List.foldl_cons]
    rcases List.mem_cons.mp listed with rfl | later
    · exact (reaches b).trans (le_foldl raises l _)
    · exact ih later _

end Highest

end Beads.Lib
