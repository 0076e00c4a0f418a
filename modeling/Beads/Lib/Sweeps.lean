import Mathlib.Data.List.Perm.Basic
import Beads.Lib.Call

/-! Passes over the keys of a map until one of them changes nothing. A pass may meet the
keys in any order, and every pass in another one. When each change lowers a measure the
passes come to an end, and no key is left at which something would change
(`untilQuiet_returns`). -/
namespace Beads.Lib.Sweeps

variable {K σ ε : Type}

/-- The orders in which the passes meet the keys. -/
structure Orders (keys : List K) where
  order : Nat → List K
  perm : ∀ n, (order n).Perm keys

/-- A change at a key, counted. -/
def visit (step : K → σ → Option σ) (run : σ × Nat) (k : K) : σ × Nat :=
  match step k run.1 with
  | some s => (s, run.2 + 1)
  | none => run

/-- One pass, with the number of its changes. -/
def pass (step : K → σ → Option σ) (order : List K) (s : σ) : σ × Nat :=
  order.foldl (visit step) (s, 0)

/-- The pass with the given number, and the number of the next one. -/
def turn (step : K → σ → Option σ) (order : Nat → List K) (run : σ × Nat) : (σ × Nat) × Nat :=
  let (s, changes) := pass step (order run.2) run.1
  ((s, run.2 + 1), changes)

/-- Passes until one changes nothing. -/
def untilQuiet (step : K → σ → Option σ) (order : Nat → List K) (s : σ) : Call ε σ := do
  let run ← Call.repeatUntilQuiet (turn step order) (s, 0)
  return run.1

section Pass
variable {step : K → σ → Option σ} {inv : σ → Prop} {measure : σ → Nat} {order : List K}

/-- A pass keeps what its changes keep, and lowers the measure with each of them. -/
theorem foldl_visit (changes : ∀ k ∈ order, ∀ s t, inv s → step k s = some t → inv t ∧ measure t < measure s)
    {s : σ} (start : inv s) (count : Nat) : inv (order.foldl (visit step) (s, count)).1 ∧
      measure (order.foldl (visit step) (s, count)).1 + (order.foldl (visit step) (s, count)).2 ≤ measure s + count ∧
      count ≤ (order.foldl (visit step) (s, count)).2 ∧
      ((order.foldl (visit step) (s, count)).2 = count →
        (order.foldl (visit step) (s, count)).1 = s ∧ ∀ k ∈ order, step k s = none) := by
  induction order generalizing s count with
  | nil => simpa using start
  | cons k rest ih =>
    have later : ∀ k ∈ rest, ∀ s t, inv s → step k s = some t → inv t ∧ measure t < measure s :=
      fun other held => changes other (List.mem_cons_of_mem k held)
    rw [List.foldl_cons]
    cases change : step k s with
    | none =>
      have same : visit step (s, count) k = (s, count) := by simp [visit, change]
      rw [same]
      obtain ⟨held, lower, more, quiet⟩ := ih later start count
      refine ⟨held, lower, more, ?_⟩
      intro none
      obtain ⟨back, rest_none⟩ := quiet none
      refine ⟨back, ?_⟩
      intro other listed
      rcases List.mem_cons.mp listed with rfl | listed
      · exact change
      · exact rest_none other listed
    | some t =>
      have next : visit step (s, count) k = (t, count + 1) := by simp [visit, change]
      rw [next]
      obtain ⟨kept, lowered⟩ := changes k List.mem_cons_self s t start change
      obtain ⟨held, lower, more, -⟩ := ih later kept (count + 1)
      refine ⟨held, by omega, by omega, ?_⟩
      intro none
      omega

end Pass

/-- Passes that each lower a measure, where they change something, end in a state that keeps
what the changes keep and has no change left. -/
theorem untilQuiet_returns {keys : List K} {step : K → σ → Option σ} (inv : σ → Prop)
    (measure : σ → Nat)
    (changes : ∀ k ∈ keys, ∀ s t, inv s → step k s = some t → inv t ∧ measure t < measure s)
    (orders : Orders keys) {s : σ} (start : inv s) :
    ∃ t, (untilQuiet step orders.order s : Call ε σ).Returns t ∧ inv t ∧
      ∀ k ∈ keys, step k t = none := by
  have each (n : Nat) :
      ∀ k ∈ orders.order n, ∀ s t, inv s → step k s = some t → inv t ∧ measure t < measure s :=
    fun k held => changes k ((orders.perm n).mem_iff.mp held)
  have keeps : ∀ run : σ × Nat, inv run.1 → (turn step orders.order run).2 ≠ 0 →
      inv (turn step orders.order run).1.1 ∧ measure (turn step orders.order run).1.1 < measure run.1 := by
    intro run held changed
    obtain ⟨kept, lower, -, -⟩ := foldl_visit (each run.2) held 0
    refine ⟨kept, ?_⟩
    simp only [turn, pass] at changed ⊢
    omega
  obtain ⟨⟨t, n⟩, held, quiet, returns⟩ :=
    Call.settles_repeatUntilQuiet (ε := ε) (fun run => inv run.1)
    (fun run => measure run.1) keeps (s := (s, 0)) start
  obtain ⟨-, -, -, same⟩ := foldl_visit (each n) held 0
  obtain ⟨back, none⟩ := same quiet
  refine ⟨t, ?_, held, fun k listed => none k ((orders.perm n).mem_iff.mpr listed)⟩
  apply Call.returns_bind.mpr
  refine ⟨_, returns, ?_⟩
  rw [Call.returns_pure]
  exact back

end Beads.Lib.Sweeps
