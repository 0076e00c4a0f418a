import Mathlib.Data.Set.Basic
import Mathlib.Order.Defs.LinearOrder
import Mathlib.Tactic.Common

/-! Comparison of sequences part by part, where two numeric parts are compared as numbers and any
other two as texts. Each of the two orders is linear; what decides whether the mixture is a weak
order is a text that stands between two numbers the wrong way round (`naturalOrder_iff`). -/
namespace Beads.Lib

/-! ## Weak orders -/

section Weak
variable {α β : Type} {cmp : α → α → Int} {S : Set α}

/-- A strict weak order of the elements of a set. -/
structure StrictWeakOn (S : Set α) (lt : α → α → Prop) : Prop where
  irrefl : ∀ a ∈ S, ¬ lt a a
  asymm : ∀ a ∈ S, ∀ b ∈ S, lt a b → ¬ lt b a
  trans : ∀ a ∈ S, ∀ b ∈ S, ∀ c ∈ S, lt a b → lt b c → lt a c
  incomparable : ∀ a ∈ S, ∀ b ∈ S, ∀ c ∈ S, ¬ lt a b → ¬ lt b a → ¬ lt b c → ¬ lt c b → ¬ lt a c ∧ ¬ lt c a

/-- Swapping the sides turns the sign. -/
def Swaps (cmp : α → α → Int) : Prop := ∀ a b, 0 < cmp a b ↔ cmp b a < 0

/-- The comparison goes through a middle element. -/
def TransOn (S : Set α) (cmp : α → α → Int) : Prop :=
  ∀ a ∈ S, ∀ b ∈ S, ∀ c ∈ S, cmp a b ≤ 0 → cmp b c ≤ 0 → cmp a c ≤ 0

private theorem strictWeakOn_iff (swaps : Swaps cmp) :
    StrictWeakOn S (fun a b => cmp a b < 0) ↔ TransOn S cmp := by
  have turn (a b : α) := swaps a b
  constructor
  · intro order a first b second c third left right
    have ab := turn a b
    have ba := turn b a
    have bc := turn b c
    have cb := turn c b
    have ac := turn a c
    -- Otherwise the third is before the first, and both steps go the other way or are ties.
    by_contra above
    have below : cmp c a < 0 := by omega
    by_cases tie : cmp a b < 0
    · have := order.trans c third a first b second below tie
      omega
    · by_cases tie' : cmp b c < 0
      · have := order.trans b second c third a first tie' below
        omega
      · have := order.incomparable a first b second c third tie (by omega) tie' (by omega)
        omega
  · intro trans
    refine ⟨?_, ?_, ?_, ?_⟩
    · intro a _
      have := turn a a
      omega
    · intro a _ b _ lt
      have := turn b a
      omega
    · intro a first b second c third left right
      have ba := turn b a
      have ab := turn a b
      have cb := turn c b
      have ca := turn c a
      by_contra above
      have := trans c third a first b second (by omega) (by omega)
      omega
    · intro a first b second c third ab ba bc cb
      have turn₁ := turn a b
      have turn₂ := turn b c
      have turn₃ := turn a c
      have turn₄ := turn c a
      have turn₅ := turn b a
      have turn₆ := turn c b
      have there := trans a first b second c third (by omega) (by omega)
      have back := trans c third b second a first (by omega) (by omega)
      omega

private theorem TransOn.comap {f : β → α} {T : Set β} (trans : TransOn S cmp)
    (maps : ∀ b ∈ T, f b ∈ S) :
    TransOn T fun a b => cmp (f a) (f b) := by
  intro a first b second c third
  exact trans (f a) (maps a first) (f b) (maps b second) (f c) (maps c third)

end Weak

/-! ## Sequences -/

section Sequences
variable {σ : Type} {seg : σ → σ → Int} {ends : Nat → Nat → Int} {V : Set σ}

/-- The first parts that do not compare as equal decide, and after them what is left. -/
def lexCompare (seg : σ → σ → Int) (ends : Nat → Nat → Int) : List σ → List σ → Int
  | a :: as, b :: bs => if seg a b ≠ 0 then seg a b else lexCompare seg ends as bs
  | as, bs => ends as.length bs.length

/-- What is left is compared by its length. -/
def ByLength (ends : Nat → Nat → Int) : Prop :=
  ∀ m n, (ends m n < 0 ↔ m < n) ∧ (0 < ends m n ↔ n < m)

private theorem lexCompare_swaps (swaps : Swaps seg) (lengths : ByLength ends) :
    Swaps (lexCompare seg ends) := by
  intro as bs
  induction as generalizing bs with
  | nil => cases bs <;> simp [lexCompare, (lengths _ _).1, (lengths _ _).2]
  | cons a as ih =>
    cases bs with
    | nil => simp [lexCompare, (lengths _ _).1, (lengths _ _).2]
    | cons b bs =>
      have turn := swaps a b
      have back := swaps b a
      have rest := ih bs
      simp only [lexCompare]
      split_ifs <;> omega

theorem lexCompare_nil_nonpos (lengths : ByLength ends) (bs : List σ) :
    lexCompare seg ends [] bs ≤ 0 := by
  cases bs with
  | nil =>
    have := (lengths 0 0).2
    simp only [lexCompare, List.length_nil]
    omega
  | cons b bs =>
    have := (lengths 0 (bs.length + 1)).1
    simp only [lexCompare, List.length_nil, List.length_cons]
    omega

private theorem lexCompare_cons_nil (lengths : ByLength ends) (a : σ) (as : List σ) :
    ¬ lexCompare seg ends (a :: as) [] ≤ 0 := by
  have := (lengths (as.length + 1) 0).2
  simp only [lexCompare, List.length_nil, List.length_cons]
  omega

theorem lexCompare_cons_nonpos {a b : σ} {as bs : List σ} :
    lexCompare seg ends (a :: as) (b :: bs) ≤ 0 ↔
    seg a b < 0 ∨ (seg a b = 0 ∧ lexCompare seg ends as bs ≤ 0) := by
  rw [lexCompare]
  split_ifs <;> omega

/-- Comparing part by part goes through a middle sequence when comparing the parts does. -/
theorem lexCompare_trans (swaps : Swaps seg) (lengths : ByLength ends) (trans : TransOn V seg) :
    TransOn {l | ∀ s ∈ l, s ∈ V} (lexCompare seg ends) := by
  intro as
  induction as with
  | nil =>
    intro _ bs _ cs _ _ _
    exact lexCompare_nil_nonpos lengths cs
  | cons a as ih =>
    intro first bs second cs third left right
    cases bs with
    | nil => exact absurd left (lexCompare_cons_nil lengths a as)
    | cons b bs =>
      cases cs with
      | nil => exact absurd right (lexCompare_cons_nil lengths b bs)
      | cons c cs =>
        rw [Set.mem_ofPred_eq, List.forall_mem_cons] at first second third
        rw [lexCompare_cons_nonpos] at left right ⊢
        have whole := trans a first.1 b second.1 c third.1 (by omega) (by omega)
        by_cases before : seg a c < 0
        · exact .inl before
        -- The outer parts compare as equal, so the middle one is equal to both.
        have ca := swaps c a
        have ab := swaps a b
        have ba := swaps b a
        have bc := swaps b c
        have cb := swaps c b
        have back := trans c third.1 a first.1 b second.1 (by omega) (by omega)
        have back' := trans b second.1 c third.1 a first.1 (by omega) (by omega)
        have ties : seg a b = 0 ∧ seg b c = 0 := by omega
        refine .inr ⟨by omega, ?_⟩
        exact ih first.2 bs second.2 cs third.2 (by omega) (by omega)

private theorem lexCompare_singleton (lengths : ByLength ends) (a b : σ) :
    lexCompare seg ends [a] [b] ≤ 0 ↔ seg a b ≤ 0 := by
  rw [lexCompare_cons_nonpos]
  have : lexCompare seg ends [] [] ≤ 0 := lexCompare_nil_nonpos lengths []
  omega

end Sequences

/-! ## Numbers among texts -/

section Natural
variable {σ ν : Type} [LinearOrder σ] [LinearOrder ν] {number : σ → Option ν} {seg : σ → σ → Int}
  {V : Set σ}

/-- A part is not after another: as a number where both are numbers, as a text otherwise. -/
def NaturalLe (number : σ → Option ν) (a b : σ) : Prop :=
  match number a, number b with
  | some m, some n => m ≤ n
  | _, _ => a ≤ b

/-- The text stands between two numbers that are the other way round. -/
structure Straddles (number : σ → Option ν) (low high text : σ) : Prop where
  ordered : ∃ m n, number low = some m ∧ number high = some n ∧ m ≤ n
  plain : number text = none
  below : high < text
  above : text < low

private theorem transOn_natural_iff (natural : ∀ a b, seg a b ≤ 0 ↔ NaturalLe number a b) :
    TransOn V seg ↔ ∀ low ∈ V, ∀ high ∈ V, ∀ text ∈ V, ¬ Straddles number low high text := by
  simp only [TransOn, natural]
  constructor
  · rintro trans low first high second text third ⟨⟨m, n, lowNumber, highNumber, le⟩, plain, below, above⟩
    have := trans low first high second text third
    simp only [NaturalLe, lowNumber, highNumber, plain] at this
    exact absurd above (this le below.le).not_gt
  · intro none a first b second c third
    have abc := none a first b second c third
    have cab := none c third a first b second
    have bca := none b second c third a first
    -- Only with two numbers and one text do the two orders meet.
    cases na : number a with
    | none =>
      cases nb : number b with
      | none =>
        cases nc : number c <;> simp only [NaturalLe, na, nb, nc] <;> exact le_trans
      | some m =>
        cases nc : number c with
        | none => simp only [NaturalLe, na, nb, nc]; exact le_trans
        | some n =>
          simp only [NaturalLe, na, nb, nc]
          intro left right
          by_contra above
          have other : a ≠ b := by
            rintro rfl
            simp [na] at nb
          exact bca ⟨⟨m, n, nb, nc, right⟩, na, not_le.mp above, lt_of_le_of_ne left other⟩
    | some l =>
      cases nb : number b with
      | none =>
        cases nc : number c with
        | none => simp only [NaturalLe, na, nb, nc]; exact le_trans
        | some n =>
          simp only [NaturalLe, na, nb, nc]
          intro left right
          by_contra above
          have other : a ≠ b := by
            rintro rfl
            simp [na] at nb
          have other' : b ≠ c := by
            rintro rfl
            simp [nb] at nc
          exact cab ⟨⟨n, l, nc, na, (not_le.mp above).le⟩, nb, lt_of_le_of_ne left other,
            lt_of_le_of_ne right other'⟩
      | some m =>
        cases nc : number c with
        | none =>
          simp only [NaturalLe, na, nb, nc]
          intro left right
          by_contra above
          have other : b ≠ c := by
            rintro rfl
            simp [nb] at nc
          exact abc ⟨⟨l, m, na, nb, left⟩, nc, lt_of_le_of_ne right other, not_le.mp above⟩
        | some n => simp only [NaturalLe, na, nb, nc]; exact le_trans

/-- Things that are compared by their parts, with things of a single part among them, are weakly
ordered exactly when no text of the parts stands between two numbers the wrong way round. -/
theorem naturalOrder_iff {β : Type} {S : Set β} {parts : β → List σ} {cmp : β → β → Int}
    {ends : Nat → Nat → Int}
    (swaps : Swaps seg) (lengths : ByLength ends)
    (natural : ∀ a b, seg a b ≤ 0 ↔ NaturalLe number a b)
    (compares : ∀ a b, cmp a b = lexCompare seg ends (parts a) (parts b))
    (inside : ∀ b ∈ S, ∀ s ∈ parts b, s ∈ V) (singles : ∀ s ∈ V, ∃ b ∈ S, parts b = [s]) :
    StrictWeakOn S (fun a b => cmp a b < 0) ↔
      ∀ low ∈ V, ∀ high ∈ V, ∀ text ∈ V, ¬ Straddles number low high text := by
  have turned : Swaps cmp := by
    intro a b
    rw [compares, compares]
    exact lexCompare_swaps swaps lengths _ _
  rw [strictWeakOn_iff turned, ← transOn_natural_iff natural]
  constructor
  · intro trans a first b second c third
    obtain ⟨x, inX, partsX⟩ := singles a first
    obtain ⟨y, inY, partsY⟩ := singles b second
    obtain ⟨z, inZ, partsZ⟩ := singles c third
    have single := trans x inX y inY z inZ
    simpa only [compares, partsX, partsY, partsZ, lexCompare_singleton lengths] using single
  · intro trans
    have sequences := (lexCompare_trans swaps lengths trans).comap (f := parts) (T := S) inside
    simpa only [TransOn, compares] using sequences

end Natural

end Beads.Lib
