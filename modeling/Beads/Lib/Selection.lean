import Mathlib.Data.List.Infix
import Mathlib.Logic.Function.Basic

/-! Selecting rows by conditions on their columns: the patterns of `LIKE`, and
selections whose conditions look at one column each. -/
namespace Beads.Lib

/-! ## Patterns -/

/-- `LIKE`: `%` stands for any text, `_` for any character, and a backslash takes
what follows it literally. -/
def like : List Char → List Char → Bool
  | [], text => text.isEmpty
  | '%' :: pattern, text => text.tails.any (like pattern)
  | '_' :: pattern, _ :: text => like pattern text
  | '\\' :: literal :: pattern, c :: text => literal == c && like pattern text
  | literal :: pattern, c :: text => literal == c && like pattern text
  | _ :: _, [] => false

namespace like
variable {part pattern text : List Char} {c : Char}

theorem percent :
    like ('%' :: pattern) text = true ↔ ∃ rest, rest <:+ text ∧ like pattern rest = true := by
  simp only [like, List.any_eq_true, List.mem_tails]

/-- A pattern that ends in `%` matches everything that starts like it. -/
theorem trailing : like ['%'] text = true := percent.mpr ⟨[], List.nil_suffix, rfl⟩

/-- A character other than the escape matches itself. -/
theorem cons_self (plain : c ≠ '\\') (rest : like pattern text = true) :
    like (c :: pattern) (c :: text) = true := by
  by_cases any : c = '%'
  · subst any
    exact percent.mpr ⟨text, List.suffix_cons _ _, rest⟩
  · by_cases one : c = '_'
    · subst one
      simpa [like] using rest
    · rw [like] <;> simp_all

theorem append_self (plain : '\\' ∉ part) (rest : like pattern text = true) :
    like (part ++ pattern) (part ++ text) = true := by
  induction part with
  | nil => exact rest
  | cons c part ih =>
    obtain ⟨head, tail⟩ := not_or.mp (List.mem_cons.not.mp plain)
    exact cons_self (Ne.symm head) (ih tail)

/-- `LIKE` with a pattern `part%` finds every text that starts with `part`. -/
theorem of_prefix (plain : '\\' ∉ part) (starts : part <+: text) :
    like (part ++ ['%']) text = true := by
  obtain ⟨rest, rfl⟩ := starts
  exact append_self plain trailing

/-- `LIKE` with a pattern `%part%` finds every text that contains `part`. -/
theorem of_infix (plain : '\\' ∉ part) (inside : part <:+: text) :
    like ('%' :: part ++ ['%']) text = true := by
  obtain ⟨before, after, rfl⟩ := inside
  refine percent.mpr ⟨part ++ after, ?_, append_self plain trailing⟩
  rw [List.append_assoc]
  exact List.suffix_append _ _

/-- A character without a meaning of its own is matched as often as it stands in the pattern. -/
theorem count_le (plain : c ≠ '%' ∧ c ≠ '_' ∧ c ≠ '\\') (matched : like pattern text = true) :
    pattern.count c ≤ text.count c := by
  -- An escape takes two characters of the pattern, so the induction is on its length.
  induction size : pattern.length using Nat.strong_induction_on generalizing pattern text with
  | _ n ih =>
    subst size
    fun_cases like pattern text with
    | case1 => simp
    | case2 pattern =>
      obtain ⟨rest, suffix, matched⟩ := percent.mp matched
      rw [List.count_cons_of_ne (Ne.symm plain.1)]
      exact (ih _ (by simp) matched rfl).trans (suffix.sublist.count_le c)
    | case3 pattern d rest =>
      rw [List.count_cons_of_ne (Ne.symm plain.2.1)]
      rw [like] at matched
      exact (ih _ (by simp) matched rfl).trans ((List.sublist_cons_self d rest).count_le c)
    | case4 literal pattern d rest =>
      rw [like, Bool.and_eq_true, beq_iff_eq] at matched
      rw [List.count_cons_of_ne (Ne.symm plain.2.2), matched.1, List.count_cons, List.count_cons]
      exact Nat.add_le_add_right (ih _ (by simp only [List.length_cons]; omega) matched.2 rfl) _
    | case5 literal pattern d rest any one escape =>
      rw [like.eq_5 _ _ _ _ any one escape, Bool.and_eq_true, beq_iff_eq] at matched
      rw [matched.1, List.count_cons, List.count_cons]
      exact Nat.add_le_add_right (ih _ (by simp) matched.2 rfl) _
    | case6 =>
      simp_all [like]

end like

/-! ## Columns -/

section Columns
variable {ι : Type} {α : ι → Type} {P Q : (c : ι) → α c → Prop}

/-- A selection implies another if one of its conditions cannot be met or each
implies the other's condition on the same column. -/
theorem forall_columns [DecidableEq ι] :
    (∀ row : (c : ι) → α c, (∀ c, P c (row c)) → ∀ c, Q c (row c)) ↔
      (∃ c, ∀ value, ¬ P c value) ∨ ∀ c value, P c value → Q c value := by
  constructor
  · intro implied
    by_contra neither
    simp only [not_or, not_exists, not_forall, Classical.not_not] at neither
    obtain ⟨met, c, value, held, missed⟩ := neither
    choose row meets using met
    -- The offending value goes into a row that meets every other condition.
    refine missed ?_
    have changed := implied (Function.update row c value) fun d => ?_
    · simpa using changed c
    · by_cases same : d = c
      · subst same
        simpa using held
      · simpa [Function.update_of_ne same] using meets d
  · rintro (⟨c, unmet⟩ | implied) row meets
    · exact absurd (meets c) (unmet _)
    · exact fun c => implied c _ (meets c)

end Columns
end Beads.Lib
