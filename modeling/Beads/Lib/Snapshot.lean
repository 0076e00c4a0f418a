import Mathlib.Logic.Function.Basic
import Mathlib.Logic.Relation
import Beads.Lib.Call

/-! Transactions that read a snapshot taken at their start. A transaction whose
body is accepted commits unless a transaction that committed since its start
wrote a different value to a cell that it wrote too; what it wrote is then merged
into the database cell by cell. A cell counts as written if its value changed.

`Step` is one step of any number of such transactions. For two of them,
`two_sessions` reduces a property of every interleaving to single transactions
and one merge of two that ran on the same snapshot, and `overlap` is the
interleaving that reaches such a merge. -/
namespace Beads.Lib
open Relation

/-- A database that is read cell by cell, and the three-way merge of two of its
states with the state both started from. -/
structure Cells (σ κ : Type) (ν : κ → Type) where
  read : σ → (k : κ) → ν k
  merge : (base ours theirs : σ) → σ
  read_kept : ∀ {base ours theirs k}, read ours k = read base k →
    read (merge base ours theirs) k = read theirs k
  read_wrote : ∀ {base ours theirs k}, read ours k ≠ read base k →
    read (merge base ours theirs) k = read ours k

/-- What an accepted transaction read and what it left. -/
structure Write (σ : Type) where
  base : σ
  result : σ

/-- A transaction before, during and after its run; a running one keeps what was
committed since its start. -/
inductive Phase (σ : Type) where
  | idle
  | active (snapshot : σ) (since : List (Write σ))
  | ended

/-- The database and the transactions on it. -/
structure Sessions (ι σ : Type) where
  current : σ
  phase : ι → Phase σ

/-- Another transaction has committed. -/
def Phase.note {σ : Type} (w : Write σ) : Phase σ → Phase σ
  | .active snapshot since => .active snapshot (since ++ [w])
  | phase => phase

namespace Sessions
variable {ι σ : Type} [DecidableEq ι]

/-- No transaction has started. -/
def fresh (s : σ) : Sessions ι σ := ⟨s, fun _ => .idle⟩

/-- One transaction moves to another phase. -/
def enter (st : Sessions ι σ) (i : ι) (phase : Phase σ) : Sessions ι σ :=
  { st with phase := Function.update st.phase i phase }

/-- One transaction commits, and the others take note. -/
def committed (st : Sessions ι σ) (i : ι) (w : Write σ) (current : σ) : Sessions ι σ :=
  { current := current, phase := Function.update (fun j => (st.phase j).note w) i .ended }

variable (st : Sessions ι σ) (i : ι)

theorem enter_phase_self (phase) : (st.enter i phase).phase i = phase :=
  Function.update_self ..

private theorem committed_phase_self (w current) : (st.committed i w current).phase i = .ended := by
  simp only [committed, Function.update_self]

variable {st i}

theorem enter_phase_ne {j : ι} (phase) (other : j ≠ i) : (st.enter i phase).phase j = st.phase j :=
  Function.update_of_ne other ..

private theorem committed_phase_ne {j : ι} (w current) (other : j ≠ i) :
    (st.committed i w current).phase j = (st.phase j).note w := by
  simp only [committed, ne_eq, other, not_false_eq_true, Function.update_of_ne]

end Sessions

namespace Cells
variable {σ κ ι ε : Type} {ν : κ → Type} (cells : Cells σ κ ν)

/-- Two transactions wrote different values to one cell. -/
def Collide (w v : Write σ) : Prop :=
  ∃ k, cells.read w.result k ≠ cells.read w.base k ∧ cells.read v.result k ≠ cells.read v.base k ∧
    cells.read w.result k ≠ cells.read v.result k

variable {cells} in
theorem Collide.symm {w v : Write σ} (collide : cells.Collide w v) : cells.Collide v w := by
  obtain ⟨k, wrote, wrote', differ⟩ := collide
  exact ⟨k, wrote', wrote, differ.symm⟩

/-- The database after a commit: the result as it stands if nothing was committed
since the snapshot, the merge otherwise. -/
def land (w : Write σ) (since : List (Write σ)) (current : σ) : σ :=
  match since with
  | [] => w.result
  | _ :: _ => cells.merge w.base w.result current

variable [DecidableEq ι]

/-- A transaction starts, commits, is refused by its body, or is refused by the
commit. A refused transaction leaves no trace. -/
inductive Step (body : ι → σ → Call ε σ) (st : Sessions ι σ) : Sessions ι σ → Prop
  | start (i : ι) (idle : st.phase i = .idle) :
    Step body st (st.enter i (.active st.current []))
  | commit (i : ι) {snapshot result : σ} {since : List (Write σ)}
    (active : st.phase i = .active snapshot since) (returns : (body i snapshot).Returns result)
    (apart : ∀ w ∈ since, ¬ cells.Collide ⟨snapshot, result⟩ w) :
    Step body st
      (st.committed i ⟨snapshot, result⟩ (cells.land ⟨snapshot, result⟩ since st.current))
  | refuse (i : ι) {snapshot : σ} {since : List (Write σ)} {e : ε}
    (active : st.phase i = .active snapshot since) (refused : (body i snapshot).Ends (.error e)) :
    Step body st (st.enter i .ended)
  | conflict (i : ι) {snapshot result : σ} {since : List (Write σ)} {w : Write σ}
    (active : st.phase i = .active snapshot since) (returns : (body i snapshot).Returns result)
    (held : w ∈ since) (collide : cells.Collide ⟨snapshot, result⟩ w) :
    Step body st (st.enter i .ended)

end Cells

/-! ## Two transactions -/

namespace Cells
variable {σ κ ε : Type} {ν : κ → Type} {cells : Cells σ κ ν} {body : Bool → σ → Call ε σ}
  {s : σ} {P : σ → Prop}

/-- What holds between the steps of two transactions: a running one has seen the
current state, or has missed exactly the commit of the other one, which ran on
the same snapshot. -/
structure Between (body : Bool → σ → Call ε σ) (s : σ) (P : σ → Prop) (st : Sessions Bool σ) :
    Prop where
  holds : P st.current
  untouched : (∀ i, st.phase i ≠ .ended) → st.current = s
  running : ∀ i snapshot since, st.phase i = .active snapshot since →
    (since = [] ∧ snapshot = st.current) ∨
      (snapshot = s ∧ since = [⟨s, st.current⟩] ∧ st.phase (!i) = .ended ∧
        (body (!i) s).Returns st.current)

namespace Between
variable {st : Sessions Bool σ}

theorem fresh (initial : P s) : Between body s P (.fresh s) where
  holds := initial
  untouched _ := rfl
  running _ _ _ active := nomatch active

theorem start (between : Between body s P st) {i : Bool} (idle : st.phase i = .idle) :
    Between body s P (st.enter i (.active st.current [])) where
  holds := between.holds
  untouched running := between.untouched fun j => by
    by_cases same : j = i
    · rw [same, idle]
      exact fun never => nomatch never
    · rw [← st.enter_phase_ne _ same]
      exact running j
  running j snapshot since active := by
    by_cases same : j = i
    · rw [same, Sessions.enter_phase_self] at active
      cases active
      exact Or.inl ⟨rfl, rfl⟩
    · rw [Sessions.enter_phase_ne _ same] at active
      rcases between.running j snapshot since active with seen | ⟨first, missed, ended, returns⟩
      · exact Or.inl seen
      · rw [← Bool.eq_not_of_ne (Ne.symm same), idle] at ended
        cases ended

/-- A transaction ends without a trace. -/
theorem finish (between : Between body s P st) {i : Bool} {snapshot : σ} {since : List (Write σ)}
    (active : st.phase i = .active snapshot since) : Between body s P (st.enter i .ended) where
  holds := between.holds
  untouched running := absurd (st.enter_phase_self i _) (running i)
  running j snapshot since other := by
    by_cases same : j = i
    · rw [same, Sessions.enter_phase_self] at other
      cases other
    · rw [Sessions.enter_phase_ne _ same] at other
      rcases between.running j snapshot since other with seen | ⟨-, -, ended, -⟩
      · exact Or.inl seen
      · rw [← Bool.eq_not_of_ne (Ne.symm same), active] at ended
        cases ended

/-- A transaction commits, alone or over the commit of the other one. -/
theorem commit (between : Between body s P st) {i : Bool} {snapshot result : σ}
    {since : List (Write σ)} (active : st.phase i = .active snapshot since)
    (returns : (body i snapshot).Returns result)
    (apart : ∀ w ∈ since, ¬ cells.Collide ⟨snapshot, result⟩ w)
    (alone : ∀ i a b, P a → (body i a).Returns b → P b)
    (both : ∀ i a b, (body i s).Returns a → (body (!i) s).Returns b →
      ¬ cells.Collide ⟨s, a⟩ ⟨s, b⟩ → P (cells.merge s a b)) :
    Between body s P
      (st.committed i ⟨snapshot, result⟩ (cells.land ⟨snapshot, result⟩ since st.current)) where
  holds := by
    rcases between.running i snapshot since active with ⟨rfl, rfl⟩ | ⟨rfl, rfl, -, other⟩
    · exact alone i _ result between.holds returns
    · exact both i result _ returns other (apart _ List.mem_cons_self)
  untouched running := absurd (st.committed_phase_self i _ _) (running i)
  running j snapshot' since' other := by
    by_cases same : j = i
    · rw [same, Sessions.committed_phase_self] at other
      cases other
    · have back : (!j) = i := (Bool.eq_not_of_ne (Ne.symm same)).symm
      rw [Sessions.committed_phase_ne _ _ same] at other
      cases running : st.phase j with
      | idle => rw [running] at other; cases other
      | ended => rw [running] at other; cases other
      | active earlier missed =>
        rw [running] at other
        cases other
        rcases between.running j snapshot' missed running with ⟨rfl, rfl⟩ | ⟨-, -, ended, -⟩
        · -- Neither has ended, so both have read the initial state.
          have first : st.current = s := between.untouched fun k => by
            by_cases here : k = i
            · rw [here, active]
              exact fun never => nomatch never
            · rw [Bool.eq_not_of_ne here, ← Bool.eq_not_of_ne same, running]
              exact fun never => nomatch never
          rcases between.running i snapshot since active with ⟨rfl, rfl⟩ | ⟨-, -, ended, -⟩
          · rw [back]
            exact Or.inr ⟨first, by rw [first]; rfl, Sessions.committed_phase_self ..,
              first ▸ returns⟩
          · rw [← Bool.eq_not_of_ne same, running] at ended
            cases ended
        · rw [back, active] at ended
          cases ended

end Between

/-- Whatever holds initially, is kept by each of two transactions on its own and
holds of every merge of the two on the initial state, holds after every step of
every interleaving. -/
theorem two_sessions (initial : P s) (alone : ∀ i a b, P a → (body i a).Returns b → P b)
    (both : ∀ i a b, (body i s).Returns a → (body (!i) s).Returns b →
      ¬ cells.Collide ⟨s, a⟩ ⟨s, b⟩ → P (cells.merge s a b))
    {st : Sessions Bool σ} (run : ReflTransGen (cells.Step body) (.fresh s) st) : P st.current := by
  suffices between : Between body s P st from between.holds
  induction run with
  | refl => exact .fresh initial
  | tail _ step between =>
    cases step with
    | start i idle => exact between.start idle
    | commit i active returns apart => exact between.commit active returns apart alone both
    | refuse i active => exact between.finish active
    | conflict i active => exact between.finish active

/-- Both transactions read the initial state, and the second commit is merged with
the first. -/
theorem overlap {a b : σ} (first : (body false s).Returns b) (second : (body true s).Returns a)
    (apart : ¬ cells.Collide ⟨s, a⟩ ⟨s, b⟩) :
    ∃ st, ReflTransGen (cells.Step body) (.fresh s) st ∧ (∀ i, st.phase i = .ended) ∧
      st.current = cells.merge s a b := by
  let st₁ := (Sessions.fresh s).enter false (.active s [])
  let st₂ := st₁.enter true (.active s [])
  let st₃ := st₂.committed false ⟨s, b⟩ b
  have start₁ : cells.Step body (.fresh s) st₁ := .start false rfl
  have start₂ : cells.Step body st₁ st₂ := .start true rfl
  have commit₁ : cells.Step body st₂ st₃ :=
    have active : st₂.phase false = .active s [] := rfl
    .commit false active first fun _ held => nomatch held
  have commit₂ : cells.Step body st₃ (st₃.committed true ⟨s, a⟩ (cells.merge s a b)) :=
    have active : st₃.phase true = .active s [⟨s, b⟩] := rfl
    .commit true active second fun w held => List.mem_singleton.mp held ▸ apart
  refine ⟨_, (((ReflTransGen.single start₁).tail start₂).tail commit₁).tail commit₂, ?_, rfl⟩
  intro i
  cases i <;> rfl

end Cells
end Beads.Lib
