import Mathlib.Tactic.Basic

/-! Arithmetic of 64-bit integers, which wraps around. The bounds are written out for `omega`. -/
namespace Beads.Lib

/-- The integers of 64 bits with a sign. -/
def IsInt64 (x : Int) : Prop := -9223372036854775808 ≤ x ∧ x ≤ 9223372036854775807

instance : DecidablePred IsInt64 := fun _ => inferInstanceAs (Decidable (_ ∧ _))

/-- The integer with a sign that has the low 64 bits of `x`. -/
def wrap64 (x : Int) : Int := (x + 9223372036854775808) % 18446744073709551616 - 9223372036854775808

/-- The integer without a sign that has the low 64 bits of `x`. -/
def wrapU64 (x : Int) : Int := x % 18446744073709551616

variable {x y : Int}

theorem isInt64_wrap64 (x : Int) : IsInt64 (wrap64 x) := by
  unfold IsInt64 wrap64
  omega

theorem wrap64_of_isInt64 (fits : IsInt64 x) : wrap64 x = x := by
  unfold IsInt64 at fits
  unfold wrap64
  omega

/-- What wraps around comes back at the other end. -/
theorem wrap64_of_above (above : 9223372036854775807 < x)
    (once : x ≤ 9223372036854775807 + 18446744073709551616) :
    wrap64 x = x - 18446744073709551616 := by
  unfold wrap64
  omega

theorem wrap64_of_below (below : x < -9223372036854775808)
    (once : -9223372036854775808 - 18446744073709551616 ≤ x) :
    wrap64 x = x + 18446744073709551616 := by
  unfold wrap64
  omega

/-- Only the low 64 bits matter. -/
theorem wrap64_congr (same : x % 18446744073709551616 = y % 18446744073709551616) :
    wrap64 x = wrap64 y := by
  unfold wrap64
  omega

theorem wrap64_emod (x : Int) : wrap64 x % 18446744073709551616 = x % 18446744073709551616 := by
  unfold wrap64
  omega

theorem wrap64_wrap64_add (x y : Int) : wrap64 (wrap64 x + y) = wrap64 (x + y) := by
  refine wrap64_congr ?_
  rw [Int.add_emod, wrap64_emod, ← Int.add_emod]

end Beads.Lib
