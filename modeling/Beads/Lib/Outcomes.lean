import Beads.Lib.Call

/-! What holds of every outcome of a call, whether it is accepted or refused. Nothing is said
about a call that does not end. -/
namespace Beads.Lib.Call
variable {ε ε' α β γ : Type} {c : Call ε α} {f : α → Call ε β}

/-- The call with its errors renamed. -/
def mapError (rename : ε → ε') (c : Call ε α) : Call ε' α where
  exec n := (c.exec n).map (Except.mapError rename)
  mono n m r le result := by
    obtain ⟨outcome, ends, rfl⟩ := Option.map_eq_some_iff.mp result
    rw [c.mono n m outcome le ends]
    rfl

/-- Every value the call returns satisfies the one condition, every error it is refused with
the other. -/
def Ensures (c : Call ε α) (post : α → Prop) (refused : ε → Prop) : Prop :=
  (∀ a, c.Returns a → post a) ∧ ∀ e, c.Ends (.error e) → refused e

variable {post : α → Prop} {refused : ε → Prop}

theorem ends_mapError_error {rename : ε → ε'} {e' : ε'}
    (ends : (c.mapError rename).Ends (.error e')) :
    ∃ e, c.Ends (.error e) ∧ e' = rename e := by
  obtain ⟨n, run⟩ := ends
  obtain ⟨outcome, ended, same⟩ := Option.map_eq_some_iff.mp run
  cases outcome with
  | ok a => cases same
  | error e => exact ⟨e, ⟨n, ended⟩, (Except.error.inj same).symm⟩

theorem returns_mapError {rename : ε → ε'} {a : α} (returns : (c.mapError rename).Returns a) :
    c.Returns a := by
  obtain ⟨n, run⟩ := returns
  obtain ⟨outcome, ended, same⟩ := Option.map_eq_some_iff.mp run
  cases outcome with
  | ok b =>
    obtain rfl : b = a := Except.ok.inj same
    exact ⟨n, ended⟩
  | error e => cases same

theorem ends_bind_error_cases {e : ε} (ends : (c >>= f).Ends (.error e)) :
    c.Ends (.error e) ∨ ∃ a, c.Returns a ∧ (f a).Ends (.error e) := by
  obtain ⟨n, run⟩ := ends
  change (c.andThen f).exec n = _ at run
  unfold andThen at run
  cases first : c.exec n with
  | none =>
    simp only [first] at run
    cases run
  | some outcome =>
    cases outcome with
    | error e' =>
      simp only [first] at run
      cases run
      exact Or.inl ⟨n, first⟩
    | ok a =>
      simp only [first] at run
      exact Or.inr ⟨a, ⟨n, first⟩, ⟨n, run⟩⟩

namespace Ensures

theorem pure {a : α} (holds : post a) : (Pure.pure a : Call ε α).Ensures post refused := by
  constructor
  · intro b returns
    rw [← returns_pure.mp returns]
    exact holds
  · intro e ends
    cases (ends_ofExcept (r := .ok a)).unique ends

theorem throw {e : ε} (holds : refused e) :
    (MonadExcept.throw e : Call ε α).Ensures post refused := by
  constructor
  · intro a returns
    exact absurd returns not_returns_throw
  · intro e' ends
    have same := (ends_ofExcept (r := (.error e : Except ε α))).unique ends
    cases same
    exact holds

theorem bind {mid : α → Prop} {post : β → Prop} (first : c.Ensures mid refused)
    (next : ∀ a, mid a → (f a).Ensures post refused) : (c >>= f).Ensures post refused := by
  constructor
  · intro b returns
    obtain ⟨a, head, tail⟩ := returns_bind.mp returns
    exact (next a (first.1 a head)).1 b tail
  · intro e ends
    rcases ends_bind_error_cases ends with head | ⟨a, head, tail⟩
    · exact first.2 e head
    · exact (next a (first.1 a head)).2 e tail

theorem ite {p : Prop} [Decidable p] {yes no : Call ε α} (left : p → yes.Ensures post refused)
    (right : ¬ p → no.Ensures post refused) : (if p then yes else no).Ensures post refused := by
  split
  · next holds => exact left holds
  · next fails => exact right fails

/-- A guard that refuses the call, as `do` notation writes it. -/
theorem guard {p : Prop} [Decidable p] {e : ε} {rest : PUnit → Call ε β} {post : β → Prop}
    (holds : p → refused e) (next : ¬ p → (rest ⟨⟩).Ensures post refused) :
    (if p then MonadExcept.throw e >>= rest else rest ⟨⟩).Ensures post refused := by
  apply ite
  · exact fun held => bind (throw (holds held)) fun _ (never : False) => never.elim
  · exact next

theorem mapError {rename : ε → ε'} {refused : ε' → Prop}
    (ensures : c.Ensures post fun e => refused (rename e)) :
    (c.mapError rename).Ensures post refused := by
  constructor
  · exact fun a returns => ensures.1 a (returns_mapError returns)
  · intro e' ends
    obtain ⟨e, inner, rfl⟩ := ends_mapError_error ends
    exact ensures.2 e inner

/-- A loop over a list, with an invariant that every step keeps. -/
theorem foldlM {step : α → γ → Call ε α} (inv : α → Prop) (items : List γ)
    (keeps : ∀ a, ∀ x ∈ items, inv a → (step a x).Ensures inv refused) {a : α} (start : inv a) :
    (items.foldlM step a).Ensures inv refused := by
  induction items generalizing a with
  | nil => exact pure start
  | cons first rest ih =>
    rw [List.foldlM_cons]
    apply bind (keeps a first List.mem_cons_self start)
    intro b held
    exact ih (fun b x member => keeps b x (List.mem_cons_of_mem first member)) held

end Ensures
end Beads.Lib.Call
