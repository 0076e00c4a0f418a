import Mathlib.Data.List.Basic
import Mathlib.Tactic.Tauto

/-! The truth values of a `WHERE` clause. A comparison with `NULL` is neither true
nor false, and a clause selects the rows it is true of, so that a clause and its
negation may both pass a row over. `Decides` says that a clause is true or false
and which one; it has one rule per connective. -/
namespace Beads.Lib

/-- True, false, or `NULL`. -/
abbrev Ternary := Option Bool

namespace Ternary
variable {α β : Type*} {t u : Ternary} {P Q : Prop}

/-- `NOT`. -/
def not : Ternary → Ternary := Option.map (!·)

/-- `AND`. -/
def and : Ternary → Ternary → Ternary
  | some false, _ => some false
  | some true, u => u
  | none, some false => some false
  | none, _ => none

/-- `OR`. -/
def or : Ternary → Ternary → Ternary
  | some true, _ => some true
  | some false, u => u
  | none, some true => some true
  | none, _ => none

/-- A comparison of columns that are never `NULL`. -/
def test (P : Prop) [Decidable P] : Ternary := some (decide P)

/-- `=`. -/
def eq [DecidableEq α] : Option α → Option α → Ternary
  | some a, some b => test (a = b)
  | _, _ => none

/-- `IS NOT NULL`. -/
def isNotNull (a : Option α) : Ternary := some a.isSome

/-- The clause is true. -/
def Holds (t : Ternary) : Prop := t = some true

instance : Decidable t.Holds := inferInstanceAs (Decidable (t = some true))

/-- `EXISTS (SELECT 1 FROM … WHERE …)`. -/
def existsRow (rows : List α) (clause : α → Ternary) : Ternary :=
  some (rows.any fun r => decide (clause r).Holds)

/-- `EXISTS (SELECT 1 FROM … JOIN … WHERE …)`. -/
def existsJoin (left : List α) (right : List β) (clause : α → β → Ternary) : Ternary :=
  existsRow left fun a => existsRow right (clause a)

/-! ## Clauses that are true -/

@[simp]
theorem holds_and : (t.and u).Holds ↔ t.Holds ∧ u.Holds := by
  cases t with
  | none => cases u with
    | none => simp [and, Holds]
    | some b => cases b <;> simp [and, Holds]
  | some b => cases b <;> simp [and, Holds]

@[simp]
theorem holds_or : (t.or u).Holds ↔ t.Holds ∨ u.Holds := by
  cases t with
  | none => cases u with
    | none => simp [or, Holds]
    | some b => cases b <;> simp [or, Holds]
  | some b => cases b <;> simp [or, Holds]

@[simp]
theorem holds_test [Decidable P] : (test P).Holds ↔ P := by
  rw [test, Holds, Option.some.injEq, decide_eq_true_eq]

@[simp]
theorem holds_eq [DecidableEq α] {a b : Option α} :
    (eq a b).Holds ↔ ∃ c, a = some c ∧ b = some c := by
  cases a with
  | none => simp [eq, Holds]
  | some a => cases b with
    | none => simp [eq, Holds]
    | some b => simp [eq, eq_comm]

@[simp]
theorem holds_isNotNull {a : Option α} : (isNotNull a).Holds ↔ ∃ c, a = some c := by
  rw [isNotNull, Holds, Option.some.injEq, Option.isSome_iff_exists]

@[simp]
theorem holds_existsRow {rows : List α} {clause : α → Ternary} :
    (existsRow rows clause).Holds ↔ ∃ r ∈ rows, (clause r).Holds := by
  rw [existsRow, Holds, Option.some.injEq, List.any_eq_true]
  simp only [decide_eq_true_eq]

/-! ## Clauses that are true or false -/

/-- The clause is not `NULL`, and it is true exactly when the condition holds. -/
def Decides (t : Ternary) (P : Prop) : Prop := ∃ b, t = some b ∧ (b = true ↔ P)

namespace Decides

theorem holds (decides : Decides t P) : t.Holds ↔ P := by
  obtain ⟨b, rfl, same⟩ := decides
  rw [Holds, Option.some.injEq]
  exact same

theorem of_test [Decidable P] : Decides (test P) P := ⟨_, rfl, decide_eq_true_iff⟩

theorem existsRow {rows : List α} {clause : α → Ternary} :
    Decides (existsRow rows clause) (∃ r ∈ rows, (clause r).Holds) := by
  refine ⟨_, rfl, ?_⟩
  rw [List.any_eq_true]
  simp only [decide_eq_true_eq]

theorem congr (decides : Decides t P) (same : P ↔ Q) : Decides t Q := by
  rwa [← propext same]

theorem not (decides : Decides t P) : Decides t.not (¬ P) := by
  obtain ⟨b, rfl, same⟩ := decides
  refine ⟨!b, rfl, ?_⟩
  rw [← same, Bool.not_eq_true', Bool.not_eq_true]

theorem and (left : Decides t P) (right : Decides u Q) : Decides (t.and u) (P ∧ Q) := by
  obtain ⟨b, rfl, left⟩ := left
  obtain ⟨c, rfl, right⟩ := right
  refine ⟨b && c, ?_, ?_⟩
  · cases b <;> rfl
  · rw [← left, ← right, Bool.and_eq_true]

theorem or (left : Decides t P) (right : Decides u Q) : Decides (t.or u) (P ∨ Q) := by
  obtain ⟨b, rfl, left⟩ := left
  obtain ⟨c, rfl, right⟩ := right
  refine ⟨b || c, ?_, ?_⟩
  · cases b <;> rfl
  · rw [← left, ← right, Bool.or_eq_true]

end Decides
end Ternary
end Beads.Lib
