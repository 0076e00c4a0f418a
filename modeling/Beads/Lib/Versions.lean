import Mathlib.Data.List.Basic
import Mathlib.Logic.Function.Basic
import Mathlib.Tactic.Common

/-! Versions of a record. `assignAll` rewrites columns one after the other, each
assignment on what the ones before it have left. When every assignment is guarded by
the same column, all of them go through or none does, as long as that column is
rewritten last (`assignAll_guarded`).

`Latest` names the version of a sequence that a strict comparison of stamps leaves:
the first of those with the greatest stamp. -/
namespace Beads.Lib

/-! ## Assignments -/

section Assignments
variable {κ : Type} [DecidableEq κ] {τ : κ → Type} {columns : List κ} {k g : κ}

/-- Rewrite the columns in order. -/
def assignAll (value : (∀ k, τ k) → ∀ k, τ k) (columns : List κ) (row : ∀ k, τ k) : ∀ k, τ k :=
  columns.foldl (fun row k => Function.update row k (value row k)) row

/-- The columns of one version, the rest of another. -/
def overlay (columns : List κ) (new old : ∀ k, τ k) : ∀ k, τ k :=
  fun k => if k ∈ columns then new k else old k

theorem overlay_of_mem {new old : ∀ k, τ k} (listed : k ∈ columns) :
    overlay columns new old k = new k :=
  if_pos listed

theorem overlay_of_not_mem {new old : ∀ k, τ k} (other : k ∉ columns) :
    overlay columns new old k = old k :=
  if_neg other

theorem overlay_self (columns : List κ) (row : ∀ k, τ k) : overlay columns row row = row :=
  funext fun _ => ite_self _

theorem overlay_overlay {new mid old : ∀ k, τ k} :
    overlay columns new (overlay columns mid old) = overlay columns new old := by
  funext k
  by_cases listed : k ∈ columns
  · rw [overlay_of_mem listed, overlay_of_mem listed]
  · rw [overlay_of_not_mem listed, overlay_of_not_mem listed, overlay_of_not_mem listed]

/-- An assignment before the others is one more column. -/
theorem overlay_update {new old : ∀ k, τ k} :
    overlay columns new (Function.update old k (new k)) = overlay (k :: columns) new old := by
  funext c
  by_cases listed : c ∈ columns
  · rw [overlay_of_mem listed, overlay_of_mem (List.mem_cons_of_mem _ listed)]
  · rw [overlay_of_not_mem listed]
    by_cases here : c = k
    · subst here
      rw [Function.update_self, overlay_of_mem List.mem_cons_self]
    · rw [Function.update_of_ne here, overlay_of_not_mem]
      exact fun listed' => (List.mem_cons.mp listed').elim here listed

/-- Assignments without a condition. -/
theorem assignAll_const {new old : ∀ k, τ k} :
    assignAll (fun _ => new) columns old = overlay columns new old := by
  induction columns generalizing old with
  | nil => rfl
  | cons first rest ih => exact ih.trans overlay_update

/-- A column that is not assigned keeps its value. -/
theorem assignAll_other {value : (∀ k, τ k) → ∀ k, τ k} {row : ∀ k, τ k} (other : k ∉ columns) :
    assignAll value columns row k = row k := by
  induction columns generalizing row with
  | nil => rfl
  | cons first rest ih =>
    obtain ⟨differ, other⟩ := not_or.mp (List.mem_cons.not.mp other)
    exact (ih other).trans (Function.update_of_ne differ _ _)

variable {incoming row : ∀ k, τ k} {newer : τ g → Prop} [DecidablePred newer]

/-- The incoming value if the guard column lets it through. -/
def guarded (g : κ) (newer : τ g → Prop) [DecidablePred newer] (incoming row : ∀ k, τ k) :
    ∀ k, τ k :=
  fun k => if newer (row g) then incoming k else row k

private theorem assignAll_refused (older : ¬ newer (row g)) :
    assignAll (guarded g newer incoming) columns row = row := by
  induction columns with
  | nil => rfl
  | cons first rest ih =>
    have kept : Function.update row first (guarded g newer incoming row first) = row := by
      rw [guarded, if_neg older, Function.update_eq_self]
    rw [assignAll, List.foldl_cons, kept]
    exact ih

private theorem assignAll_accepted (fresh : g ∉ columns) (accepted : newer (row g)) :
    assignAll (guarded g newer incoming) columns row = overlay columns incoming row := by
  induction columns generalizing row with
  | nil => rfl
  | cons first rest ih =>
    obtain ⟨differ, fresh⟩ := not_or.mp (List.mem_cons.not.mp fresh)
    have taken : guarded g newer incoming row first = incoming first := if_pos accepted
    rw [assignAll, List.foldl_cons, taken]
    exact (ih fresh (by rwa [Function.update_of_ne differ])).trans overlay_update

/-- With the guard column last, the guard decides once for the whole row. -/
theorem assignAll_guarded (fresh : g ∉ columns) :
    assignAll (guarded g newer incoming) (columns ++ [g]) row =
      if newer (row g) then overlay (columns ++ [g]) incoming row else row := by
  by_cases accepted : newer (row g)
  · rw [if_pos accepted, assignAll, List.foldl_append]
    change Function.update (assignAll _ columns row) g (guarded g newer incoming (assignAll _ columns row) g) = _
    have still : newer (assignAll (guarded g newer incoming) columns row g) := by
      rwa [assignAll_other fresh]
    rw [guarded, if_pos still, assignAll_accepted fresh accepted]
    funext k
    by_cases here : k = g
    · subst here
      rw [Function.update_self, overlay_of_mem (List.mem_append_right _ List.mem_cons_self)]
    · rw [Function.update_of_ne here]
      have same : k ∈ columns ++ [g] ↔ k ∈ columns := by simp [here]
      simp only [overlay, same]
  · rw [if_neg accepted]
    exact assignAll_refused accepted

end Assignments

/-! ## The latest version -/

section Latest
variable {α : Type} {stamp : α → Nat} {versions : List α} {v w : α}

/-- No version has a greater stamp, and no version before it an equal one. -/
def Latest (stamp : α → Nat) (versions : List α) (v : α) : Prop :=
  ∃ before after, versions = before ++ v :: after ∧ (∀ w ∈ before, stamp w < stamp v) ∧
    ∀ w ∈ after, stamp w ≤ stamp v

namespace Latest

theorem singleton : Latest stamp [v] v :=
  ⟨[], [], rfl, fun _ none => absurd none List.not_mem_nil, fun _ none => absurd none List.not_mem_nil⟩

theorem mem (latest : Latest stamp versions v) : v ∈ versions := by
  obtain ⟨before, after, rfl, -⟩ := latest
  exact List.mem_append_right _ List.mem_cons_self

theorem greatest (latest : Latest stamp versions v) (listed : w ∈ versions) :
    stamp w ≤ stamp v := by
  obtain ⟨before, after, rfl, older, others⟩ := latest
  rcases List.mem_append.mp listed with early | late
  · exact Nat.le_of_lt (older w early)
  · rcases List.mem_cons.mp late with rfl | late
    · exact Nat.le_refl _
    · exact others w late

/-- A newer version takes over. -/
theorem newer (latest : Latest stamp versions v) (newer : stamp v < stamp w) :
    Latest stamp (versions ++ [w]) w :=
  ⟨versions, [], rfl, fun _ listed => Nat.lt_of_le_of_lt (latest.greatest listed) newer,
    fun _ none => absurd none List.not_mem_nil⟩

/-- A version that is not newer changes nothing. -/
theorem kept (latest : Latest stamp versions v) (older : ¬ stamp v < stamp w) :
    Latest stamp (versions ++ [w]) v := by
  obtain ⟨before, after, rfl, earlier, later⟩ := latest
  refine ⟨before, after ++ [w], by simp, earlier, ?_⟩
  exact List.forall_mem_append.mpr ⟨later, List.forall_mem_singleton.mpr (Nat.not_lt.mp older)⟩

end Latest
end Latest

end Beads.Lib
