import Beads.Lib.Descent

/-! What a lenient parser reports where a strict one stops. A strict parser stops with its first
error; a lenient one that goes on may note another failure over it. -/
namespace Beads.Lib
variable {τ ε α : Type}

/-- The outcomes of a strict and of a lenient parser side by side: an error of the first and the
last failure of the second are as `stops` says. -/
inductive Outcome (post : τ → Prop) (stops : ε → ε → Prop) :
    Except ε (α × τ) → Option (α × (τ × Option ε)) → Prop where
  | accepted (a : α) {t : τ} (held : post t) : Outcome post stops (.ok (a, t)) (some (a, (t, none)))
  | refused (a : α) (t : τ) {err failure : ε} (ends : stops err failure) :
      Outcome post stops (.error err) (some (a, (t, some failure)))
  | spent (err : ε) : Outcome post stops (.error err) none

/-- What becomes of a failure that a lenient parser is called with. -/
def Residual (residue : τ → ε → ε → Prop) (lenient : Lenient τ ε α) : Prop :=
  ∀ ⦃t failure r⦄, lenient (t, some failure) = some r → ∃ last, r.2.2 = some last ∧ residue t failure last

/-- From states with `pre` the parsers come to states with `post`, or stop as `stops` says. -/
structure Reports (pre post : τ → Prop) (stops : ε → ε → Prop) (residue : τ → ε → ε → Prop)
    (strict : EarlyExit τ ε α) (lenient : Lenient τ ε α) : Prop where
  run : ∀ {t}, pre t → Outcome post stops (strict t) (lenient (t, none))
  residual : Residual residue lenient

/-- The step before a parser that is called whether the step has failed or not. -/
structure StepReports (pre post : τ → Prop) (stops : ε → ε → Prop) (residue : τ → ε → ε → Prop)
    (advance : τ → Except ε τ) (advance' : τ × Option ε → τ × Option ε) : Prop where
  accepted : ∀ {t t'}, pre t → advance t = .ok t' → advance' (t, none) = (t', none) ∧ post t'
  refused : ∀ {t err}, pre t → advance t = .error err →
    ∃ t' failure, advance' (t, none) = (t', some failure) ∧ ∀ last, residue t' failure last → stops err last

section Rules
variable {isOp : τ → Bool} {join : α → α → α} {exhausted : ε} {advance : τ → Except ε τ}
  {advance' : τ × Option ε → τ × Option ε} {operand : EarlyExit τ ε α} {operand' : Lenient τ ε α}
  {pre mid post : τ → Prop} {stops : ε → ε → Prop} {residue : τ → ε → ε → Prop} {t : τ}

theorem Outcome.of_failed {err failure : ε} {y : Option (α × (τ × Option ε))}
    (ends : stops err failure)
    (failed : ∀ r, y = some r → r.2.2 = some failure) : Outcome post stops (.error err) y := by
  cases y with
  | none => exact .spent err
  | some r =>
    obtain ⟨a, t, last⟩ := r
    have kept : last = some failure := failed _ rfl
    subst kept
    exact .refused a t ends

theorem Outcome.after_step (step : StepReports pre mid stops residue advance advance')
    (reports : Reports mid post stops residue operand operand') (held : pre t) :
    Outcome post stops (advance t >>= operand) (operand' (advance' (t, none))) := by
  cases next : advance t with
  | ok t' =>
    obtain ⟨same, held'⟩ := step.accepted held next
    rw [same]
    exact reports.run held'
  | error err =>
    obtain ⟨t', failure, same, ends⟩ := step.refused held next
    rw [same]
    cases result : operand' (t', some failure) with
    | none => exact .spent err
    | some r =>
      obtain ⟨last, noted, left⟩ := reports.residual result
      refine .of_failed (ends last left) fun r' same => ?_
      cases same
      exact noted

/-- A parser that goes on only where nothing has failed. -/
theorem Outcome.bind {x : Except ε (α × τ)} {y : Option (α × (τ × Option ε))}
    {rest : α × τ → Except ε (α × τ)}
    {rest' : α × (τ × Option ε) → Option (α × (τ × Option ε))} (first : Outcome mid stops x y)
    (next : ∀ a {t}, mid t → Outcome post stops (rest (a, t)) (rest' (a, (t, none))))
    (returns : ∀ a t failure r, rest' (a, (t, some failure)) = some r → r.2.2 = some failure) :
    Outcome post stops (x >>= rest) (y >>= rest') := by
  cases first with
  | accepted a held => exact next a held
  | refused a t ends => exact .of_failed ends fun r result => returns _ _ _ r result
  | spent err => exact .spent err

theorem loop_failed {fuel : Nat} {left : α} {failure : ε} {r : α × (τ × Option ε)}
    (result : Lenient.loop isOp join advance' operand' fuel left (t, some failure) = some r) :
    r.2.2 = some failure := by
  cases fuel with
  | zero => cases result
  | succ fuel =>
    rw [Lenient.loop, if_neg (by simp)] at result
    cases result
    rfl

theorem Reports.loop (step : StepReports (fun t => mid t ∧ isOp t = true) pre stops residue advance advance')
    (reports : Reports pre mid stops residue operand operand') {fuel : Nat} {left : α}
    (held : mid t) :
    Outcome (fun t => mid t ∧ isOp t = false) stops (EarlyExit.loop isOp join exhausted advance operand fuel left t)
      (Lenient.loop isOp join advance' operand' fuel left (t, none)) := by
  induction fuel generalizing left t with
  | zero => exact .spent exhausted
  | succ fuel ih =>
    rw [EarlyExit.loop, Lenient.loop]
    by_cases more : isOp t = true
    · rw [if_pos more, if_pos (by simpa using more), ← bind_assoc]
      exact (Outcome.after_step step reports ⟨held, more⟩).bind (fun _ _ held => ih held)
        fun _ _ _ _ result => loop_failed result
    · rw [if_neg more, if_neg (by simpa using more)]
      exact .accepted left ⟨held, Bool.not_eq_true _ ▸ more⟩

theorem Reports.chain (step : StepReports (fun t => mid t ∧ isOp t = true) pre stops residue advance advance')
    (reports : Reports pre mid stops residue operand operand') {fuel : Nat} :
    Reports pre (fun t => mid t ∧ isOp t = false) stops residue
      (EarlyExit.chain isOp join exhausted advance operand fuel)
      (Lenient.chain isOp join advance' operand' fuel) where
  run held := (reports.run held).bind (fun _ _ held => Reports.loop step reports held)
    fun _ _ _ _ result => loop_failed result
  residual := by
    intro t failure r result
    obtain ⟨middle, first, result⟩ := Option.bind_eq_some_iff.mp result
    obtain ⟨last, noted, left⟩ := reports.residual first
    obtain ⟨a, t', failed⟩ := middle
    change failed = some last at noted
    subst noted
    exact ⟨last, loop_failed result, left⟩

end Rules
end Beads.Lib
