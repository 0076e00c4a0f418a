import Mathlib.Data.List.Perm.Subperm
import Beads.Lib.Call
import Beads.Lib.Graph

/-! A depth-first check for cycles. It keeps the keys in progress, which are those on the path
to the present one, and the keys that are completed; a key in progress that is met again closes
a cycle, and the check stops there. Keys may be skipped.

`check_spec` says that the check ends, and that it is refused exactly when there is a cycle. -/
namespace Beads.Lib.CycleCheck
open Relation Graph

variable {K : Type}

/-- What a check comes to: the keys that are completed, or the path on which a key was met
again, with that key. The depth may also be used up. -/
abbrev Outcome (K : Type) := Option (Except (List K × K) (List K))

/-- Visit keys one after the other until a cycle is found. -/
def visitAll (visit : List K → K → Outcome K) : List K → List K → Outcome K
  | completed, [] => some (.ok completed)
  | completed, k :: rest => match visit completed k with
    | some (.ok completed) => visitAll visit completed rest
    | other => other

/-- Visit a key, and before it is completed everything it leads to. -/
def visit [DecidableEq K] (skip : K → Bool) (next : K → List K) :
    Nat → List K → List K → K → Outcome K
  | 0, _, _, _ => none
  | depth + 1, path, completed, k =>
    if skip k = true ∨ k ∈ completed then some (.ok completed)
    else if k ∈ path then some (.error (path, k))
    else match visitAll (visit skip next depth (path ++ [k])) completed (next k) with
      | some (.ok completed) => some (.ok (completed ++ [k]))
      | other => other

theorem visitAll_mono {visit visit' : List K → K → Outcome K}
    (mono : ∀ completed k r, visit completed k = some r → visit' completed k = some r)
    {targets completed : List K}
    {r : Except (List K × K) (List K)} (run : visitAll visit completed targets = some r) :
    visitAll visit' completed targets = some r := by
  induction targets generalizing completed with
  | nil => exact run
  | cons k rest ih =>
    rw [visitAll] at run ⊢
    cases first : visit completed k with
    | none =>
      rw [first] at run
      cases run
    | some outcome =>
      rw [mono completed k outcome first]
      rw [first] at run
      cases outcome with
      | error found => exact run
      | ok more => exact ih run

private theorem visit_succ [DecidableEq K] {skip : K → Bool} {next : K → List K} (depth : Nat)
    (path completed : List K)
    (k : K) (r : Except (List K × K) (List K))
    (run : visit skip next depth path completed k = some r) :
    visit skip next (depth + 1) path completed k = some r := by
  induction depth generalizing path completed k r with
  | zero => cases run
  | succ depth ih =>
    rw [visit] at run ⊢
    split
    · next done => rwa [if_pos done] at run
    · next open_ =>
      rw [if_neg open_] at run
      split
      · next again => rwa [if_pos again] at run
      · next fresh =>
        rw [if_neg fresh] at run
        cases all : visitAll (visit skip next depth (path ++ [k])) completed (next k) with
        | none =>
          rw [all] at run
          cases run
        | some outcome =>
          rw [visitAll_mono (ih (path ++ [k])) all]
          rwa [all] at run

/-- Visit all keys. -/
def check [DecidableEq K] (skip : K → Bool) (next : K → List K) (keys : List K) :
    Call (List K × K) (List K) where
  exec depth := visitAll (visit skip next depth []) [] keys
  mono n m r le run := by
    induction m, le using Nat.le_induction with
    | base => exact run
    | succ m _ ih => exact visitAll_mono (visit_succ m []) ih

/-- A step between keys that are not skipped. -/
def Step (skip : K → Bool) (next : K → List K) (a b : K) : Prop :=
  skip a = false ∧ skip b = false ∧ b ∈ next a

section Correctness
variable {skip : K → Bool} {next : K → List K} {path completed targets pool : List K} {k : K}
  {depth : Nat}

/-- What is completed has been left for good. -/
structure Settled (skip : K → Bool) (next : K → List K) (path completed : List K) : Prop where
  apart : ∀ a ∈ path, a ∉ completed
  closed : ∀ a ∈ completed, ∀ b, Step skip next a b → b ∈ completed
  acyclic : ∀ a ∈ completed, ¬ TransGen (Step skip next) a a

/-- The outcome is a cycle, or completes the targets. -/
def Exact (skip : K → Bool) (next : K → List K) (path completed targets : List K) : Outcome K → Prop
  | none => False
  | some (.error (_, k)) => TransGen (Step skip next) k k
  | some (.ok completed') => completed ⊆ completed' ∧ Settled skip next path completed' ∧
      ∀ k ∈ targets, skip k = true ∨ k ∈ completed'

/-- A key can be visited from a path that leads to it. -/
structure Reached (skip : K → Bool) (next : K → List K) (pool path : List K) (k : K) : Prop where
  pooled : skip k = true ∨ k ∈ pool
  leads : skip k = true ∨ ∀ a ∈ path, TransGen (Step skip next) a k

theorem Settled.reaches {a b : K} (settled : Settled skip next path completed)
    (held : a ∈ completed) (reaches : ReflTransGen (Step skip next) a b) : b ∈ completed := by
  induction reaches with
  | refl => exact held
  | tail _ step ih => exact settled.closed _ ih _ step

/-- A key whose successors are all completed can be completed. -/
theorem Settled.snoc (settled : Settled skip next (path ++ [k]) completed) (fresh : k ∉ path)
    (done : ∀ b ∈ next k, skip b = true ∨ b ∈ completed) :
    Settled skip next path (completed ++ [k]) := by
  have onward : ∀ b, Step skip next k b → b ∈ completed := by
    intro b step
    rcases done b step.2.2 with skipped | held
    · rw [step.2.1] at skipped
      cases skipped
    · exact held
  have outside : k ∉ completed := settled.apart k (by simp)
  constructor
  · intro a on held
    rcases List.mem_append.mp held with old | new
    · exact settled.apart a (List.mem_append_left _ on) old
    · rw [List.mem_singleton.mp new] at on
      exact fresh on
  · intro a held b step
    apply List.mem_append_left
    rcases List.mem_append.mp held with old | new
    · exact settled.closed a old b step
    · rw [List.mem_singleton.mp new] at step
      exact onward b step
  · intro a held cycle
    rcases List.mem_append.mp held with old | new
    · exact settled.acyclic a old cycle
    · rw [List.mem_singleton.mp new] at cycle
      obtain ⟨b, step, back⟩ := TransGen.head'_iff.mp cycle
      exact outside (settled.reaches (onward b step) back)

/-- Visiting targets one after the other is exact when each visit is. -/
theorem visitAll_exact {visit : List K → K → Outcome K}
    (each : ∀ completed, Settled skip next path completed → ∀ k ∈ targets,
      Exact skip next path completed [k] (visit completed k))
    (settled : Settled skip next path completed) :
    Exact skip next path completed targets (visitAll visit completed targets) := by
  induction targets generalizing completed with
  | nil => exact ⟨List.Subset.refl _, settled, by simp⟩
  | cons k rest ih =>
    have first := each completed settled k List.mem_cons_self
    rw [visitAll]
    cases outcome : visit completed k with
    | none =>
      rw [outcome] at first
      exact first.elim
    | some result =>
      rw [outcome] at first
      cases result with
      | error found => exact first
      | ok more =>
        obtain ⟨grown, settled', target⟩ := first
        have later :=
          ih (fun completed settled b held => each completed settled b (List.mem_cons_of_mem _ held))
          settled'
        change Exact skip next path completed (k :: rest) (visitAll visit more rest)
        cases end_ : visitAll visit more rest with
        | none =>
          rw [end_] at later
          exact later.elim
        | some result =>
          rw [end_] at later
          cases result with
          | error found => exact later
          | ok all =>
            obtain ⟨grown', settled'', targets⟩ := later
            refine ⟨List.Subset.trans grown grown', settled'', ?_⟩
            intro b held
            rcases List.mem_cons.mp held with rfl | held
            · exact (target b (by simp)).imp_right fun done => grown' done
            · exact targets b held

/-- A visit is exact if the depth is above the keys that are not yet on the path. -/
theorem visit_exact [DecidableEq K] (known : ∀ a b, Step skip next a b → b ∈ pool)
    (nodup : path.Nodup)
    (inside : path ⊆ pool) (deep : pool.length < depth + path.length)
    (settled : Settled skip next path completed) (reached : Reached skip next pool path k) :
    Exact skip next path completed [k] (visit skip next depth path completed k) := by
  induction depth generalizing path completed k with
  | zero =>
    have short := (List.subperm_of_subset nodup inside).length_le
    omega
  | succ depth ih =>
    rw [visit]
    split
    · next done => exact ⟨List.Subset.refl _, settled, by simpa using done⟩
    · next open_ =>
      push Not at open_
      have live : skip k = false := by simpa using open_.1
      split
      · next again => exact (reached.leads.resolve_left open_.1) k again
      · next fresh =>
        have nodup' : (path ++ [k]).Nodup := by
          simpa [List.nodup_append, nodup] using fun a held (same : a = k) => fresh (same ▸ held)
        have inside' : path ++ [k] ⊆ pool := by
          intro a held
          rcases List.mem_append.mp held with old | new
          · exact inside old
          · rw [List.mem_singleton.mp new]
            exact reached.pooled.resolve_left open_.1
        have settled' : Settled skip next (path ++ [k]) completed := by
          refine ⟨?_, settled.closed, settled.acyclic⟩
          intro a held
          rcases List.mem_append.mp held with old | new
          · exact settled.apart a old
          · rw [List.mem_singleton.mp new]
            exact open_.2
        have each : ∀ completed, Settled skip next (path ++ [k]) completed → ∀ b ∈ next k,
            Exact skip next (path ++ [k]) completed [b] (visit skip next depth (path ++ [k]) completed b) := by
          intro completed settled b held
          apply ih nodup' inside' (by simp; omega) settled
          by_cases skipped : skip b = true
          · exact ⟨Or.inl skipped, Or.inl skipped⟩
          · have step : Step skip next k b := ⟨live, by simpa using skipped, held⟩
            refine ⟨Or.inr (known k b step), Or.inr ?_⟩
            intro a on
            rcases List.mem_append.mp on with old | new
            · exact (reached.leads.resolve_left open_.1 a old).tail step
            · rw [List.mem_singleton.mp new]
              exact TransGen.single step
        have all := visitAll_exact each settled'
        cases outcome : visitAll (visit skip next depth (path ++ [k])) completed (next k) with
        | none =>
          rw [outcome] at all
          exact all.elim
        | some result =>
          rw [outcome] at all
          cases result with
          | error found => exact all
          | ok more =>
            obtain ⟨grown, done, targets⟩ := all
            refine ⟨List.Subset.trans grown (List.subset_append_left _ _), done.snoc fresh targets,
              ?_⟩
            intro b held
            right
            rw [List.mem_singleton.mp held]
            simp

/-- The check ends, and is refused exactly when the keys lead to a cycle. -/
theorem check_spec [DecidableEq K] {keys : List K}
    (known : ∀ a b, Step skip next a b → a ∈ keys ∧ b ∈ keys) :
    (∃ found, (check skip next keys).Ends (.error found)) ∧ ¬ Acyclic (Step skip next) ∨
      (∃ completed, (check skip next keys).Returns completed) ∧ Acyclic (Step skip next) := by
  have into : ∀ a b, Step skip next a b → b ∈ keys := fun a b step => (known a b step).2
  have start : Settled skip next [] ([] : List K) := ⟨by simp, by simp, by simp⟩
  have each : ∀ completed, Settled skip next [] completed → ∀ k ∈ keys,
      Exact skip next [] completed [k] (visit skip next (keys.length + 1) [] completed k) := by
    intro completed settled k held
    apply visit_exact into List.nodup_nil (List.nil_subset _) (by simp) settled
    exact ⟨Or.inr held, Or.inr (by simp)⟩
  have exact_ := visitAll_exact each start
  cases outcome : visitAll (visit skip next (keys.length + 1) []) [] keys with
  | none =>
    rw [outcome] at exact_
    exact exact_.elim
  | some result =>
    rw [outcome] at exact_
    cases result with
    | error found => exact Or.inl ⟨⟨found, _, outcome⟩, fun acyclic => acyclic found.2 exact_⟩
    | ok completed =>
      refine Or.inr ⟨⟨completed, _, outcome⟩, ?_⟩
      intro a cycle
      obtain ⟨b, step, -⟩ := TransGen.head'_iff.mp cycle
      have done := exact_.2.2 a (known a b step).1
      rw [step.1] at done
      exact exact_.2.1.acyclic a (done.resolve_left (by simp)) cycle

end Correctness
end Beads.Lib.CycleCheck
