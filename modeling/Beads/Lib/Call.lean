import Mathlib.Data.Nat.Notation
import Mathlib.Tactic.Common

/-! Calls that are refused with an error, or that repeat a step until nothing
changes. A call is run with a number of rounds for its loops; it carries the
proof that more rounds never change an outcome, so a call that ends at all has
one outcome (`Call.Ends.unique`).

`Settles` says that a call ends and that an accepted call satisfies a
postcondition; it has one rule per way of building a call. -/
namespace Beads.Lib

/-- A call with its outcome for each number of rounds. -/
structure Call (ε α : Type) where
  exec : Nat → Option (Except ε α)
  mono : ∀ n m r, n ≤ m → exec n = some r → exec m = some r

namespace Call
variable {ε α β σ : Type} {c : Call ε α} {f : α → Call ε β} {r : Except ε α}

/-- A computation without loops. -/
def ofExcept (r : Except ε α) : Call ε α := ⟨fun _ => some r, fun _ _ _ _ same => same⟩

/-- Continue with the result of an accepted call. -/
def andThen (c : Call ε α) (f : α → Call ε β) : Call ε β where
  exec n := match c.exec n with
    | none => none
    | some (.error e) => some (.error e)
    | some (.ok a) => (f a).exec n
  mono n m r le result := by
    cases first : c.exec n with
    | none => rw [first] at result; cases result
    | some outcome =>
      rw [c.mono n m outcome le first]
      rw [first] at result
      cases outcome with
      | error e => exact result
      | ok a => exact (f a).mono n m r le result

instance : Monad (Call ε) where
  pure a := ofExcept (.ok a)
  bind := andThen

instance : MonadExceptOf ε (Call ε) where
  throw e := ofExcept (.error e)
  tryCatch c handler :=
    { exec := fun n => match c.exec n with
        | none => none
        | some (.error e) => (handler e).exec n
        | some (.ok a) => some (.ok a)
      mono := fun n m r le result => by
        cases first : c.exec n with
        | none => rw [first] at result; cases result
        | some outcome =>
          rw [c.mono n m outcome le first]
          rw [first] at result
          cases outcome with
          | error e => exact (handler e).mono n m r le result
          | ok a => exact result }

/-- The outcome of a call, refused or not, as a value. -/
def outcome {ε' : Type} (c : Call ε α) : Call ε' (Except ε α) where
  exec n := (c.exec n).map .ok
  mono n m r le result := by
    obtain ⟨outcome, ends, rfl⟩ := Option.map_eq_some_iff.mp result
    rw [c.mono n m outcome le ends]
    rfl

/-! ## Repetition -/

/-- Run the pass until its change count is zero, within a number of rounds. -/
def untilQuiet (pass : σ → σ × Nat) : Nat → σ → Option σ
  | 0, _ => none
  | rounds + 1, s => match pass s with
    | (s', 0) => some s'
    | (s', _ + 1) => untilQuiet pass rounds s'

private theorem untilQuiet_succ {pass : σ → σ × Nat} {rounds : Nat} {s t : σ}
    (result : untilQuiet pass rounds s = some t) : untilQuiet pass (rounds + 1) s = some t := by
  induction rounds generalizing s with
  | zero => cases result
  | succ rounds ih =>
    rw [untilQuiet] at result ⊢
    split
    · next s' shape => rw [shape] at result; exact result
    · next s' _ shape => rw [shape] at result; exact ih result

/-- Repeat a pass until it changes nothing. -/
def repeatUntilQuiet (pass : σ → σ × Nat) (s : σ) : Call ε σ where
  exec n := (untilQuiet pass n s).map .ok
  mono n m r le result := by
    obtain ⟨t, found, rfl⟩ := Option.map_eq_some_iff.mp result
    rw [Option.map_eq_some_iff]
    obtain ⟨more, rfl⟩ := Nat.exists_eq_add_of_le le
    refine ⟨t, ?_, rfl⟩
    clear le result
    induction more with
    | zero => exact found
    | succ more ih => exact untilQuiet_succ ih

/-- Take steps, each of which goes on, returns or is refused, within a number of rounds. -/
def iterate (step : σ → Except ε (σ ⊕ α)) : Nat → σ → Option (Except ε α)
  | 0, _ => none
  | rounds + 1, s => match step s with
    | .error e => some (.error e)
    | .ok (.inr a) => some (.ok a)
    | .ok (.inl s') => iterate step rounds s'

private theorem iterate_succ {step : σ → Except ε (σ ⊕ α)} {rounds : Nat} {s : σ} {r : Except ε α}
    (result : iterate step rounds s = some r) : iterate step (rounds + 1) s = some r := by
  induction rounds generalizing s with
  | zero => cases result
  | succ rounds ih =>
    rw [iterate] at result ⊢
    split
    · next shape => rw [shape] at result; exact result
    · next shape => rw [shape] at result; exact result
    · next shape => rw [shape] at result; exact ih result

/-- Repeat a step until it returns or is refused. -/
def loop (step : σ → Except ε (σ ⊕ α)) (s : σ) : Call ε α where
  exec n := iterate step n s
  mono n m r le result := by
    obtain ⟨more, rfl⟩ := Nat.exists_eq_add_of_le le
    clear le
    induction more with
    | zero => exact result
    | succ more ih => exact iterate_succ ih

/-! ## Outcomes -/

/-- The call ends with the outcome. -/
def Ends (c : Call ε α) (r : Except ε α) : Prop := ∃ n, c.exec n = some r

/-- The call is accepted and returns the value. -/
def Returns (c : Call ε α) (a : α) : Prop := c.Ends (.ok a)

/-- The call ends, and an accepted call satisfies the postcondition. -/
def Settles (c : Call ε α) (post : α → Prop) : Prop := ∃ r, c.Ends r ∧ ∀ a, r = .ok a → post a

theorem Ends.unique {r' : Except ε α} (first : c.Ends r) (second : c.Ends r') : r = r' := by
  obtain ⟨n, left⟩ := first
  obtain ⟨m, right⟩ := second
  have left := c.mono n (max n m) r (Nat.le_max_left n m) left
  have right := c.mono m (max n m) r' (Nat.le_max_right n m) right
  exact Option.some.inj (left.symm.trans right)

theorem Settles.of_returns {post : α → Prop} {a : α} (settles : c.Settles post)
    (returns : c.Returns a) : post a := by
  obtain ⟨r, ends, holds⟩ := settles
  exact holds a (ends.unique returns)

theorem settles_of_returns {post : α → Prop} (returns : ∃ a, c.Returns a ∧ post a) :
    c.Settles post := by
  obtain ⟨a, ends, holds⟩ := returns
  exact ⟨.ok a, ends, fun b same => Except.ok.inj same ▸ holds⟩

theorem Settles.mono {post post' : α → Prop} (settles : c.Settles post)
    (weaker : ∀ a, post a → post' a) : c.Settles post' := by
  obtain ⟨r, ends, holds⟩ := settles
  exact ⟨r, ends, fun a same => weaker a (holds a same)⟩

/-- The postcondition may name the value as the one the call returns. -/
theorem Settles.returning {post : α → Prop} (settles : c.Settles post) :
    c.Settles fun a => c.Returns a ∧ post a := by
  obtain ⟨r, ends, holds⟩ := settles
  exact ⟨r, ends, fun a same => ⟨same.subst (motive := c.Ends) ends, holds a same⟩⟩

/-- What a call leaves of the state it runs on: the state it returns, or, when it
is refused and rolled back, the state it started from. -/
def Leaves (c : Call ε σ) (s t : σ) : Prop := c.Returns t ∨ ((∃ e, c.Ends (.error e)) ∧ t = s)

theorem Leaves.eq_of_refused {c : Call ε σ} {s t : σ} {e : ε} (leaves : c.Leaves s t)
    (refused : c.Ends (.error e)) : t = s := by
  rcases leaves with returns | ⟨-, same⟩
  · exact nomatch refused.unique returns
  · exact same

/-! ## One rule per construct -/

theorem ends_ofExcept : (ofExcept r).Ends r := ⟨0, rfl⟩

theorem Ends.outcome {ε' : Type} (ends : c.Ends r) : (c.outcome : Call ε' _).Returns r := by
  obtain ⟨n, run⟩ := ends
  refine ⟨n, ?_⟩
  change (c.exec n).map Except.ok = _
  rw [run]
  rfl

theorem settles_pure {post : α → Prop} {a : α} (holds : post a) :
    (pure a : Call ε α).Settles post :=
  ⟨.ok a, ends_ofExcept, fun _ same => Except.ok.inj same ▸ holds⟩

theorem settles_unit : (pure ⟨⟩ : Call ε PUnit).Settles fun _ => True := settles_pure trivial

theorem settles_throw {post : α → Prop} {e : ε} : (throw e : Call ε α).Settles post :=
  ⟨.error e, ends_ofExcept, fun _ same => nomatch same⟩

theorem ends_bind_error {e : ε} (ends : c.Ends (.error e)) : (c >>= f).Ends (.error e) := by
  obtain ⟨n, run⟩ := ends
  refine ⟨n, ?_⟩
  change (c.andThen f).exec n = _
  simp only [andThen, run]

theorem ends_bind_ok {a : α} {r : Except ε β} (first : c.Returns a) (next : (f a).Ends r) :
    (c >>= f).Ends r := by
  obtain ⟨n, run⟩ := first
  obtain ⟨m, run'⟩ := next
  refine ⟨max n m, ?_⟩
  change (c.andThen f).exec (max n m) = _
  simp only [andThen, c.mono n _ _ (Nat.le_max_left n m) run]
  exact (f a).mono m _ _ (Nat.le_max_right n m) run'

theorem settles_bind {mid : α → Prop} {post : β → Prop} (first : c.Settles mid)
    (next : ∀ a, mid a → (f a).Settles post) : (c >>= f).Settles post := by
  obtain ⟨r, ends, holds⟩ := first
  cases r with
  | error e => exact ⟨.error e, ends_bind_error ends, fun _ same => nomatch same⟩
  | ok a =>
    obtain ⟨r', ends', holds'⟩ := next a (holds a rfl)
    exact ⟨r', ends_bind_ok ends ends', holds'⟩

theorem settles_ite {p : Prop} [Decidable p] {yes no : Call ε α} {post : α → Prop}
    (left : p → yes.Settles post) (right : ¬ p → no.Settles post) :
    (if p then yes else no).Settles post := by
  split
  · next holds => exact left holds
  · next fails => exact right fails

/-- A guard that refuses the call, as `do` notation writes it. -/
theorem settles_guard {p : Prop} [Decidable p] {e : ε} {rest : PUnit → Call ε β} {post : β → Prop}
    (next : ¬ p → (rest ⟨⟩).Settles post) :
    (if p then throw e >>= rest else rest ⟨⟩).Settles post :=
  settles_ite
    (fun _ => settles_bind settles_throw fun _ (never : False) => never.elim) next

/-- A check that is made only in some cases, as `do` notation writes it. -/
theorem settles_when {p mid : Prop} [Decidable p] {check : Call ε PUnit}
    {rest : PUnit → Call ε β} {post : β → Prop} (first : check.Settles fun _ => mid)
    (next : (p → mid) → (rest ⟨⟩).Settles post) :
    (if p then check >>= rest else rest ⟨⟩).Settles post :=
  settles_ite (fun _ => settles_bind first fun _ held => next fun _ => held)
    fun fails => next fun holds => absurd holds fails

theorem settles_ofExcept {post : α → Prop} (holds : ∀ a, r = .ok a → post a) :
    (ofExcept r).Settles post :=
  ⟨r, ends_ofExcept, holds⟩

/-- Either the call or what handles its refusal. -/
theorem settles_tryCatch {handler : ε → Call ε α} {post : α → Prop} (body : c.Settles post)
    (handled : ∀ e, (handler e).Settles post) : (tryCatch c handler).Settles post := by
  obtain ⟨r, ⟨n, run⟩, holds⟩ := body
  cases r with
  | ok a =>
    exact ⟨.ok a, ⟨n, by simp only [tryCatch, tryCatchThe, MonadExceptOf.tryCatch, run]⟩, holds⟩
  | error e =>
    obtain ⟨r', ⟨m, run'⟩, holds'⟩ := handled e
    refine ⟨r', ⟨max n m, ?_⟩, holds'⟩
    simp only [tryCatch, tryCatchThe, MonadExceptOf.tryCatch,
      c.mono n _ _ (Nat.le_max_left n m) run]
    exact (handler e).mono m _ _ (Nat.le_max_right n m) run'

/-- A pass that changes something keeps the invariant and lowers a measure; the
loop ends one quiet pass after a state with the invariant. -/
theorem settles_repeatUntilQuiet {pass : σ → σ × Nat} (inv : σ → Prop) (measure : σ → Nat)
    (keeps : ∀ s, inv s → (pass s).2 ≠ 0 → inv (pass s).1 ∧ measure (pass s).1 < measure s)
    {s : σ} (start : inv s) :
    ∃ t, inv t ∧ (pass t).2 = 0 ∧ (repeatUntilQuiet pass s : Call ε σ).Returns (pass t).1 := by
  suffices total : ∀ rounds s, inv s → measure s < rounds →
      ∃ t, inv t ∧ (pass t).2 = 0 ∧ untilQuiet pass rounds s = some (pass t).1 by
    obtain ⟨t, held, quiet, result⟩ := total (measure s + 1) s start (Nat.lt_succ_self _)
    exact ⟨t, held, quiet, measure s + 1, by simp only [repeatUntilQuiet, result, Option.map_some]⟩
  intro rounds
  induction rounds with
  | zero => intro s _ enough; omega
  | succ rounds ih =>
    intro s held enough
    by_cases quiet : (pass s).2 = 0
    · refine ⟨s, held, quiet, ?_⟩
      rw [untilQuiet]
      split
      · next s' shape => rw [shape]
      · next shape => rw [shape] at quiet; cases quiet
    · obtain ⟨kept, lower⟩ := keeps s held quiet
      obtain ⟨t, inside, done, result⟩ := ih (pass s).1 kept (by omega)
      refine ⟨t, inside, done, ?_⟩
      rw [untilQuiet]
      split
      · next shape => rw [shape] at quiet; exact absurd rfl quiet
      · next shape => rw [shape] at result; exact result

/-- A loop over a list keeps an invariant that each step keeps. -/
theorem settles_foldlM {γ : Type} {step : α → γ → Call ε α} (inv : α → Prop) (items : List γ)
    (keeps : ∀ a, ∀ x ∈ items, inv a → (step a x).Settles inv) {a : α} (start : inv a) :
    (items.foldlM step a).Settles inv := by
  induction items generalizing a with
  | nil => exact settles_pure start
  | cons first rest ih =>
    rw [List.foldlM_cons]
    refine settles_bind (keeps a first List.mem_cons_self start) fun b held => ih ?_ held
    exact fun b x member => keeps b x (List.mem_cons_of_mem first member)

/-! ## Accepted calls taken apart -/

theorem returns_pure {a b : α} : (pure a : Call ε α).Returns b ↔ a = b :=
  ⟨fun returns => Except.ok.inj (ends_ofExcept.unique returns), fun same => same ▸ ends_ofExcept⟩

theorem returns_ofExcept {a : α} : (ofExcept r).Returns a ↔ r = .ok a :=
  ⟨fun returns => ends_ofExcept.unique returns, fun same => same ▸ ends_ofExcept⟩

theorem not_returns_throw {e : ε} {a : α} : ¬ (throw e : Call ε α).Returns a := fun returns =>
  nomatch (ends_ofExcept (r := .error e)).unique returns

theorem returns_bind {b : β} : (c >>= f).Returns b ↔ ∃ a, c.Returns a ∧ (f a).Returns b := by
  constructor
  · rintro ⟨n, run⟩
    change (c.andThen f).exec n = _ at run
    unfold andThen at run
    cases first : c.exec n with
    | none => simp only [first] at run; cases run
    | some outcome =>
      cases outcome with
      | error e => simp only [first] at run; cases run
      | ok a => simp only [first] at run; exact ⟨a, ⟨n, first⟩, ⟨n, run⟩⟩
  · rintro ⟨a, first, next⟩
    exact ends_bind_ok first next

/-- An accepted call has passed its guard. -/
theorem returns_guard {p : Prop} [Decidable p] {e : ε} {rest : PUnit → Call ε β} {b : β}
    (returns : (if p then throw e >>= rest else rest ⟨⟩).Returns b) :
    ¬ p ∧ (rest ⟨⟩).Returns b := by
  split at returns
  · obtain ⟨_, refused, -⟩ := returns_bind.mp returns
    exact absurd refused not_returns_throw
  · next fails => exact ⟨fails, returns⟩

theorem ends_loop_of_next {step : σ → Except ε (σ ⊕ α)} {s s' : σ} {r : Except ε α}
    (next : step s = .ok (.inl s')) (rest : (loop step s').Ends r) : (loop step s).Ends r := by
  obtain ⟨rounds, result⟩ := rest
  refine ⟨rounds + 1, ?_⟩
  change iterate step (rounds + 1) s = some r
  rw [iterate, next]
  exact result

theorem ends_loop_of_last {step : σ → Except ε (σ ⊕ α)} {s : σ} {a : α}
    (last : step s = .ok (.inr a)) : (loop step s).Ends (.ok a) := by
  refine ⟨1, ?_⟩
  change iterate step 1 s = _
  rw [iterate, last]

/-- A loop whose steps keep an invariant and lower a measure ends, with an outcome that
one of its states has. -/
theorem ends_loop {step : σ → Except ε (σ ⊕ α)} (inv : σ → Prop) (measure : σ → Nat)
    (post : Except ε α → Prop) (refuses : ∀ s, inv s → ∀ e, step s = .error e → post (.error e))
    (returns : ∀ s, inv s → ∀ a, step s = .ok (.inr a) → post (.ok a))
    (continues : ∀ s, inv s → ∀ s', step s = .ok (.inl s') → inv s' ∧ measure s' < measure s)
    {s : σ} (start : inv s) : ∃ r, (loop step s).Ends r ∧ post r := by
  suffices total : ∀ rounds s, inv s → measure s < rounds → ∃ r, iterate step rounds s = some r ∧ post r by
    obtain ⟨r, result, holds⟩ := total (measure s + 1) s start (Nat.lt_succ_self _)
    exact ⟨r, ⟨measure s + 1, result⟩, holds⟩
  intro rounds
  induction rounds with
  | zero => exact fun _ _ none => absurd none (Nat.not_lt_zero _)
  | succ rounds ih =>
    intro s held enough
    rw [iterate]
    split
    · next e shape => exact ⟨_, rfl, refuses s held e shape⟩
    · next a shape => exact ⟨_, rfl, returns s held a shape⟩
    · next s' shape =>
      obtain ⟨kept, lower⟩ := continues s held s' shape
      exact ih s' kept (by omega)

/-- A loop that ends has run a last pass, which reported no change, on a state that
has what every pass keeps. -/
theorem last_of_repeatUntilQuiet {pass : σ → σ × Nat} (inv : σ → Prop)
    (keeps : ∀ s, inv s → inv (pass s).1) {s t : σ} (start : inv s)
    (returns : (repeatUntilQuiet pass s : Call ε σ).Returns t) :
    ∃ last, inv last ∧ (pass last).2 = 0 ∧ (pass last).1 = t := by
  obtain ⟨n, run⟩ := returns
  obtain ⟨u, found, same⟩ := Option.map_eq_some_iff.mp run
  obtain rfl := Except.ok.inj same
  clear run same
  induction n generalizing s with
  | zero => cases found
  | succ n ih =>
    rw [untilQuiet] at found
    have next := keeps s start
    split at found
    · next s' shape =>
      refine ⟨s, start, ?_, ?_⟩
      · rw [shape]
      · rw [shape]
        exact Option.some.inj found
    · next s' _ shape =>
      rw [shape] at next
      exact ih next found

/-- A loop that ends keeps what every pass keeps. -/
theorem inv_of_repeatUntilQuiet {pass : σ → σ × Nat} (inv : σ → Prop)
    (keeps : ∀ s, inv s → inv (pass s).1) {s t : σ} (start : inv s)
    (returns : (repeatUntilQuiet pass s : Call ε σ).Returns t) : inv t := by
  obtain ⟨last, held, -, rfl⟩ := last_of_repeatUntilQuiet inv keeps start returns
  exact keeps last held

/-- A loop whose first pass reports no change ends with it. -/
theorem returns_of_quiet {pass : σ → σ × Nat} {s : σ} (quiet : (pass s).2 = 0) :
    (repeatUntilQuiet pass s : Call ε σ).Returns (pass s).1 := by
  refine ⟨1, ?_⟩
  have one : untilQuiet pass 1 s = some (pass s).1 := by
    rw [untilQuiet]
    split
    · next shape => rw [shape]
    · next shape =>
      rw [shape] at quiet
      cases quiet
  simp only [repeatUntilQuiet, one, Option.map_some]

/-- A loop that carries more state along ends where the plain loop does. -/
theorem returns_repeatUntilQuiet_of_view {τ : Type} {pass : σ → σ × Nat} (wide : τ → τ × Nat)
    (view : τ → σ)
    (same : ∀ a, (wide a).2 = (pass (view a)).2 ∧ view (wide a).1 = (pass (view a)).1) {a : τ}
    {t : σ} (returns : (repeatUntilQuiet pass (view a) : Call ε σ).Returns t) :
    ∃ b, (repeatUntilQuiet wide a : Call ε τ).Returns b ∧ view b = t := by
  suffices found : ∀ rounds a, untilQuiet pass rounds (view a) = some t →
      ∃ b, untilQuiet wide rounds a = some b ∧ view b = t by
    obtain ⟨rounds, run⟩ := returns
    obtain ⟨u, ended, ok⟩ := Option.map_eq_some_iff.mp run
    obtain rfl := Except.ok.inj ok
    obtain ⟨b, result, here⟩ := found rounds a ended
    exact ⟨b, ⟨rounds, by simp only [repeatUntilQuiet, result, Option.map_some]⟩, here⟩
  intro rounds
  induction rounds with
  | zero => intro a none; cases none
  | succ rounds ih =>
    intro a ended
    obtain ⟨count, next⟩ := same a
    rw [untilQuiet] at ended ⊢
    split at ended
    · next s' shape =>
      rw [shape] at count next
      split
      · next shape' => rw [shape'] at next; exact ⟨_, rfl, next.trans (Option.some.inj ended)⟩
      · next shape' => rw [shape'] at count; cases count
    · next s' _ shape =>
      rw [shape] at count next
      split
      · next shape' => rw [shape'] at count; cases count
      · next a' _ shape' =>
        rw [shape'] at next
        exact ih a' (next ▸ ended)

/-- A loop over a list keeps what every accepted step keeps. -/
theorem inv_of_foldlM {γ : Type} {step : α → γ → Call ε α} (inv : α → Prop) {items : List γ}
    (keeps : ∀ a, ∀ x ∈ items, inv a → ∀ b, (step a x).Returns b → inv b) {a b : α} (start : inv a)
    (returns : (items.foldlM step a).Returns b) : inv b := by
  induction items generalizing a with
  | nil => exact returns_pure.mp returns ▸ start
  | cons first rest ih =>
    rw [List.foldlM_cons] at returns
    obtain ⟨mid, head, tail⟩ := returns_bind.mp returns
    refine ih (fun a x member => keeps a x (List.mem_cons_of_mem first member)) ?_ tail
    exact keeps a first List.mem_cons_self start mid head

/-- A list of checks is passed exactly when each of them is. -/
theorem returns_checks {γ : Type} {check : γ → Call ε Unit} {items : List γ} :
    (items.foldlM (fun _ x => check x) ()).Returns () ↔ ∀ x ∈ items, (check x).Returns () := by
  induction items with
  | nil => exact ⟨fun _ _ none => (List.not_mem_nil none).elim, fun _ => ends_ofExcept⟩
  | cons first rest ih =>
    rw [List.foldlM_cons, returns_bind, List.forall_mem_cons, ← ih]
    exact ⟨fun ⟨_, head, tail⟩ => ⟨head, tail⟩, fun ⟨head, tail⟩ => ⟨(), head, tail⟩⟩

/-! ## Evaluation -/

/-- The value an accepted call returns within some rounds. -/
def value? (c : Call ε α) (n : Nat) : Option α :=
  match c.exec n with
  | some (.ok a) => some a
  | _ => none

theorem returns_of_value? {n : Nat} {p : α → Prop} (found : ∃ a ∈ c.value? n, p a) :
    ∃ a, c.Returns a ∧ p a := by
  obtain ⟨a, member, holds⟩ := found
  refine ⟨a, ⟨n, ?_⟩, holds⟩
  rw [Option.mem_def, value?] at member
  split at member
  · next run => rw [run, Option.some.inj member]
  · cases member

/-- The error a call is refused with within some rounds. -/
def error? (c : Call ε α) (n : Nat) : Option ε :=
  match c.exec n with
  | some (.error e) => some e
  | _ => none

theorem ends_of_error? {n : Nat} {e : ε} (found : c.error? n = some e) : c.Ends (.error e) := by
  refine ⟨n, ?_⟩
  rw [error?] at found
  split at found
  · next run => rw [run, Option.some.inj found]
  · cases found

end Call

/-! ## Bodies that always end -/

section Bodies
variable {ε α β : Type}

/-- A body that ends well has come through each of its steps. -/
theorem bind_eq_ok {x : Except ε α} {f : α → Except ε β} {b : β} :
    (x >>= f) = .ok b ↔ ∃ a, x = .ok a ∧ f a = .ok b := by
  cases x with
  | error err =>
    constructor
    · intro impossible
      cases impossible
    · rintro ⟨a, impossible, -⟩
      cases impossible
  | ok a =>
    constructor
    · intro rest
      exact ⟨a, rfl, rest⟩
    · rintro ⟨_, same, rest⟩
      cases same
      exact rest

/-- A body that ends well was not refused. -/
theorem guard_eq_ok {refused : Prop} [Decidable refused] {err : ε} {x : Except ε α} {a : α} :
    (if refused then throw err else x) = .ok a ↔ ¬ refused ∧ x = .ok a := by
  by_cases held : refused
  · rw [if_pos held]
    constructor
    · intro impossible
      cases impossible
    · exact fun both => absurd held both.1
  · rw [if_neg held]
    exact ⟨fun rest => ⟨held, rest⟩, And.right⟩

/-- Bodies that go on alike from what the first step returns. -/
theorem bind_congr_ok {x : Except ε α} {f g : α → Except ε β} (same : ∀ a, x = .ok a → f a = g a) :
    (x >>= f) = (x >>= g) := by
  cases x with
  | error err => rfl
  | ok a => exact same a rfl

/-- A list of bodies is refused where one of them is. -/
theorem exists_of_forM_error {f : α → Except ε PUnit} {items : List α} {err : ε}
    (refused : items.forM f = .error err) :
    ∃ x ∈ items, f x = .error err := by
  induction items with
  | nil => cases refused
  | cons first rest ih =>
    change (f first >>= fun _ => rest.forM f) = .error err at refused
    cases head : f first with
    | error err' =>
      rw [head] at refused
      cases refused
      exact ⟨first, List.mem_cons_self, head⟩
    | ok _ =>
      rw [head] at refused
      obtain ⟨x, held, same⟩ := ih refused
      exact ⟨x, List.mem_cons_of_mem _ held, same⟩

/-- A body that maps every element to itself. -/
theorem mapM_eq_self {f : α → Except ε α} {items : List α} (each : ∀ x ∈ items, f x = .ok x) :
    items.mapM f = .ok items := by
  induction items with
  | nil => rfl
  | cons first rest ih =>
    rw [List.mapM_cons, each first List.mem_cons_self,
      ih fun x held => each x (List.mem_cons_of_mem _ held)]
    rfl

theorem ok_of_isOk {x : Except ε α} (ok : x.isOk = true) : ∃ a, x = .ok a := by
  cases x with
  | error err => cases ok
  | ok a => exact ⟨a, rfl⟩

end Bodies
end Beads.Lib
