import Beads.Lib.Call

/-! Rules that are applied to a state one after the other, each of which may be refused. -/
namespace Beads.Lib

variable {ε ρ σ : Type} {step : σ → ρ → Except ε σ} {holds : σ → ρ → Prop} {s t : σ}
  {rules front : List ρ}

/-- Something holds of each rule and the state that it is applied to. -/
def Along (step : σ → ρ → Except ε σ) (holds : σ → ρ → Prop) : σ → List ρ → Prop
  | _, [] => True
  | s, rule :: rules => holds s rule ∧ ∀ t, step s rule = .ok t → Along step holds t rules

/-- What each rule keeps, holds in the end. -/
theorem Along.run (inv : σ → Prop)
    (kept : ∀ s t, ∀ rule ∈ rules, inv s → holds s rule → step s rule = .ok t → inv t)
    (along : Along step holds s rules) (start : inv s) (done : rules.foldlM step s = .ok t) :
    inv t := by
  induction rules generalizing s with
  | nil =>
    cases done
    exact start
  | cons rule rules ih =>
    rw [List.foldlM_cons] at done
    obtain ⟨next, first, done⟩ := bind_eq_ok.mp done
    have after := kept s next rule List.mem_cons_self start along.1 first
    exact ih (fun s t rule held => kept s t rule (List.mem_cons_of_mem _ held))
      (along.2 next first) after done

theorem Along.of_front (within : front <+: rules) (along : Along step holds s rules) :
    Along step holds s front := by
  induction rules generalizing s front with
  | nil =>
    cases List.prefix_nil.mp within
    trivial
  | cons rule rules ih =>
    cases front with
    | nil => trivial
    | cons first front =>
      obtain ⟨rfl, behind⟩ := List.cons_prefix_cons.mp within
      exact ⟨along.1, fun t done => ih behind (along.2 t done)⟩

end Beads.Lib
