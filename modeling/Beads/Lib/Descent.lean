import Mathlib.Logic.Basic

/-! Recursive descent in two styles: parsers that stop at the first error, and
parsers that note the failure and go on until they have returned. A lenient
parser follows a strict one if it accepts what the other accepts, with the same
result, and fails whenever the other stops. -/
namespace Beads.Lib
variable {τ ε α : Type}

/-- A parser over states `τ` that stops at the first error. -/
abbrev EarlyExit (τ ε α : Type) := τ → Except ε (α × τ)

/-- A parser that carries a failure along; it returns nothing when it runs out of fuel. -/
abbrev Lenient (τ ε α : Type) := τ × Option ε → Option (α × (τ × Option ε))

/-! ## Left-associative chains -/

section Chain
variable (isOp : τ → Bool) (join : α → α → α) (exhausted : ε)

/-- More operands to the right of `left`. -/
def EarlyExit.loop (advance : τ → Except ε τ) (operand : EarlyExit τ ε α) :
    Nat → α → EarlyExit τ ε α
  | 0, _, _ => .error exhausted
  | fuel + 1, left, t =>
    if isOp t then do
      let t ← advance t
      let right ← operand t
      loop advance operand fuel (join left right.1) right.2
    else .ok (left, t)

/-- Operands joined to the left. -/
def EarlyExit.chain (advance : τ → Except ε τ) (operand : EarlyExit τ ε α) (fuel : Nat) :
    EarlyExit τ ε α := fun t => do
  let left ← operand t
  loop isOp join exhausted advance operand fuel left.1 left.2

def Lenient.loop (advance : τ × Option ε → τ × Option ε) (operand : Lenient τ ε α) :
    Nat → α → Lenient τ ε α
  | 0, _, _ => none
  | fuel + 1, left, s =>
    if s.2.isNone && isOp s.1 then do
      let right ← operand (advance s)
      loop advance operand fuel (join left right.1) right.2
    else some (left, s)

def Lenient.chain (advance : τ × Option ε → τ × Option ε) (operand : Lenient τ ε α) (fuel : Nat) :
    Lenient τ ε α := fun s => do
  let left ← operand s
  loop isOp join advance operand fuel left.1 left.2

end Chain

/-! ## Following -/

/-- A lenient result for a strict one. Where the strict parser stops the lenient
one has failed or has no fuel left; it has none left where the strict one has none. -/
inductive Matches (exhausted : ε) : Except ε (α × τ) → Option (α × (τ × Option ε)) → Prop where
  | accepted (a : α) (t : τ) : Matches exhausted (.ok (a, t)) (some (a, (t, none)))
  | refused {err : ε} (other : err ≠ exhausted) (a : α) (t : τ) (failure : ε) :
      Matches exhausted (.error err) (some (a, (t, some failure)))
  | spent (err : ε) : Matches exhausted (.error err) none

/-- A failure stays. -/
def Sticky (lenient : Lenient τ ε α) : Prop :=
  ∀ {s r}, s.2 ≠ none → lenient s = some r → r.2.2 ≠ none

/-- The lenient parser follows the strict one. -/
structure Follows (exhausted : ε) (strict : EarlyExit τ ε α) (lenient : Lenient τ ε α) : Prop where
  run : ∀ t, Matches exhausted (strict t) (lenient (t, none))
  sticky : Sticky lenient

/-- A lenient step goes where the strict one goes, and fails where it stops. -/
structure StepFollows (exhausted : ε) (strict : τ → Except ε τ)
    (lenient : τ × Option ε → τ × Option ε) : Prop where
  accepted : ∀ {t t'}, strict t = .ok t' → lenient (t, none) = (t', none)
  refused : ∀ {t err}, strict t = .error err → err ≠ exhausted ∧ (lenient (t, none)).2 ≠ none
  sticky : ∀ {s}, s.2 ≠ none → (lenient s).2 ≠ none

section Following
variable {isOp : τ → Bool} {join : α → α → α} {exhausted : ε} {advance : τ → Except ε τ}
  {advance' : τ × Option ε → τ × Option ε} {operand : EarlyExit τ ε α} {operand' : Lenient τ ε α}

theorem Matches.of_failed {err : ε} {y : Option (α × (τ × Option ε))} (other : err ≠ exhausted)
    (failed : ∀ r, y = some r → r.2.2 ≠ none) : Matches exhausted (.error err) y := by
  cases y with
  | none => exact .spent err
  | some r =>
    obtain ⟨a, t, failure⟩ := r
    cases failure with
    | none => exact absurd rfl (failed _ rfl)
    | some failure => exact .refused other a t failure

theorem Matches.bind {x : Except ε (α × τ)} {y : Option (α × (τ × Option ε))}
    {rest : α × τ → Except ε (α × τ)} {rest' : α × (τ × Option ε) → Option (α × (τ × Option ε))}
    (first : Matches exhausted x y)
    (next : ∀ a t, Matches exhausted (rest (a, t)) (rest' (a, (t, none))))
    (sticky : ∀ a, Sticky fun s => rest' (a, s)) :
    Matches exhausted (x >>= rest) (y >>= rest') := by
  cases first with
  | accepted a t => exact next a t
  | refused other a t failure =>
    exact .of_failed other fun r result => sticky a (s := (t, some failure)) (by simp) result
  | spent err => exact .spent err

/-- A parser that goes on after a step, whatever came of it. -/
theorem Follows.after_step (step : StepFollows exhausted advance advance')
    (follows : Follows exhausted operand operand') :
    Follows exhausted (fun t => advance t >>= operand) fun s => operand' (advance' s) where
  run t := by
    cases next : advance t with
    | ok t' =>
      rw [step.accepted next]
      exact follows.run t'
    | error err =>
      obtain ⟨other, failed⟩ := step.refused next
      exact .of_failed other fun r result => follows.sticky failed result
  sticky failed result := follows.sticky (step.sticky failed) result

theorem Sticky.bind {rest : α × (τ × Option ε) → Option (α × (τ × Option ε))}
    (first : Sticky operand')
    (next : ∀ a, Sticky fun s => rest (a, s)) : Sticky fun s => operand' s >>= rest := by
  intro s r failed result
  obtain ⟨middle, found, result⟩ := Option.bind_eq_some_iff.mp result
  exact next middle.1 (first failed found) result

theorem Sticky.loop {fuel : Nat} {left : α} :
    Sticky (Lenient.loop isOp join advance' operand' fuel left) := by
  intro s r failed result
  cases fuel with
  | zero => cases result
  | succ fuel =>
    rw [Lenient.loop, if_neg] at result
    · cases result
      exact failed
    · intro both
      rw [Bool.and_eq_true, Option.isNone_iff_eq_none] at both
      exact failed both.1

theorem Follows.loop (step : StepFollows exhausted advance advance')
    (follows : Follows exhausted operand operand')
    {fuel : Nat} {left : α} :
    Follows exhausted (EarlyExit.loop isOp join exhausted advance operand fuel left)
      (Lenient.loop isOp join advance' operand' fuel left) := by
  refine ⟨fun t => ?_, Sticky.loop⟩
  induction fuel generalizing left t with
  | zero => exact .spent exhausted
  | succ fuel ih =>
    rw [EarlyExit.loop, Lenient.loop]
    by_cases more : isOp t
    · rw [if_pos more, if_pos (by simpa using more), ← bind_assoc]
      exact ((follows.after_step step).run t).bind (fun a t => ih t) fun a => Sticky.loop
    · rw [if_neg more, if_neg (by simpa using more)]
      exact .accepted left t

theorem Follows.chain (step : StepFollows exhausted advance advance')
    (follows : Follows exhausted operand operand')
    {fuel : Nat} : Follows exhausted (EarlyExit.chain isOp join exhausted advance operand fuel)
      (Lenient.chain isOp join advance' operand' fuel) where
  run t := (follows.run t).bind (fun _ t => (Follows.loop step follows).run t) fun _ => Sticky.loop
  sticky := Sticky.bind follows.sticky fun _ => Sticky.loop

end Following

/-! ## Fuel -/

section Fuel
variable {isOp : τ → Bool} {join : α → α → α} (size : τ → Nat)

/-- The parser returns from states below a size, and never makes the state larger. -/
def Lenient.Ends (bound : Nat) (lenient : Lenient τ ε α) : Prop :=
  ∀ s, size s.1 < bound → ∃ r, lenient s = some r ∧ size r.2.1 ≤ size s.1

variable {size} {advance : τ × Option ε → τ × Option ε} {operand : Lenient τ ε α} {bound : Nat}

theorem Lenient.Ends.loop (shrinks : ∀ s, isOp s.1 = true → size (advance s).1 < size s.1)
    (ends : Lenient.Ends size bound operand) {fuel : Nat} (enough : fuel ≤ bound) (left : α) :
    Lenient.Ends size fuel (Lenient.loop isOp join advance operand fuel left) := by
  induction fuel generalizing left with
  | zero => exact fun s impossible => absurd impossible (Nat.not_lt_zero _)
  | succ fuel ih =>
    intro s small
    rw [Lenient.loop]
    split
    · next more =>
      have smaller := shrinks s (Bool.and_eq_true_iff.mp more).2
      obtain ⟨r, found, less⟩ := ends (advance s) (by omega)
      obtain ⟨r', found', less'⟩ := ih (Nat.le_of_succ_le enough) (join left r.1) r.2 (by omega)
      exact ⟨r', by rw [found]; exact found', by omega⟩
    · exact ⟨(left, s), rfl, Nat.le_refl _⟩

theorem Lenient.Ends.chain (shrinks : ∀ s, isOp s.1 = true → size (advance s).1 < size s.1)
    (ends : Lenient.Ends size bound operand) :
    Lenient.Ends size bound (Lenient.chain isOp join advance operand bound) := by
  intro s small
  obtain ⟨r, found, less⟩ := ends s small
  obtain ⟨r', found', less'⟩ :=
    Lenient.Ends.loop shrinks ends (Nat.le_refl bound) r.1 r.2 (by omega)
  exact ⟨r', by rw [Lenient.chain, found]; exact found', by omega⟩

end Fuel

/-! ## Two lexers -/

section Same
variable {isOp : τ → Bool} {join : α → α → α} {exhausted : ε} {advance advance' : τ → Except ε τ}
  {operand operand' : EarlyExit τ ε α} (I : τ → Prop)

/-- Two strict parsers do the same from states with the invariant, and keep it. -/
def EarlyExit.Same (strict strict' : EarlyExit τ ε α) : Prop :=
  ∀ t, I t → strict t = strict' t ∧ ∀ r, strict t = .ok r → I r.2

/-- Two steps do the same from states with the invariant, and keep it. -/
def StepSame (advance advance' : τ → Except ε τ) : Prop :=
  ∀ t, I t → advance t = advance' t ∧ ∀ t', advance t = .ok t' → I t'

variable {I}

theorem EarlyExit.Same.bind {rest rest' : α × τ → Except ε (α × τ)}
    {strict strict' : EarlyExit τ ε α} (first : EarlyExit.Same I strict strict')
    (next : ∀ a, EarlyExit.Same I (fun t => rest (a, t)) fun t => rest' (a, t)) :
    EarlyExit.Same I (fun t => strict t >>= rest) fun t => strict' t >>= rest' := by
  intro t held
  obtain ⟨same, keeps⟩ := first t held
  simp only [← same]
  cases found : strict t with
  | error err => exact ⟨rfl, fun r impossible => by cases impossible⟩
  | ok r => exact next r.1 r.2 (keeps r found)

theorem EarlyExit.Same.after_step (step : StepSame I advance advance')
    (same : EarlyExit.Same I operand operand') :
    EarlyExit.Same I (fun t => advance t >>= operand) fun t => advance' t >>= operand' := by
  intro t held
  obtain ⟨equal, keeps⟩ := step t held
  simp only [← equal]
  cases found : advance t with
  | error err => exact ⟨rfl, fun r impossible => by cases impossible⟩
  | ok t' => exact same t' (keeps t' found)

theorem EarlyExit.Same.loop (step : StepSame I advance advance')
    (same : EarlyExit.Same I operand operand') {fuel : Nat}
    (left : α) : EarlyExit.Same I (EarlyExit.loop isOp join exhausted advance operand fuel left)
      (EarlyExit.loop isOp join exhausted advance' operand' fuel left) := by
  induction fuel generalizing left with
  | zero => exact fun t _ => ⟨rfl, fun r impossible => by cases impossible⟩
  | succ fuel ih =>
    intro t held
    simp only [EarlyExit.loop]
    by_cases more : isOp t
    · simp only [if_pos more, ← bind_assoc]
      exact (EarlyExit.Same.after_step step same).bind (fun a => ih (join left a)) t held
    · rw [if_neg more, if_neg more]
      refine ⟨rfl, fun r found => ?_⟩
      cases found
      exact held

theorem EarlyExit.Same.chain (step : StepSame I advance advance')
    (same : EarlyExit.Same I operand operand') {fuel : Nat} :
    EarlyExit.Same I (EarlyExit.chain isOp join exhausted advance operand fuel)
      (EarlyExit.chain isOp join exhausted advance' operand' fuel) :=
  same.bind fun left => EarlyExit.Same.loop step same left

end Same
end Beads.Lib
