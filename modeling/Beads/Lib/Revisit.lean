import Mathlib.Data.List.Perm.Subperm
import Mathlib.Logic.Relation
import Mathlib.Tactic.Common

/-! Following single links until a node comes back. Where every node of a finite pool has a link
into the pool, the walk comes back to a node, and that node lies on a cycle of links. -/
namespace Beads.Lib
open Relation

section Revisit
variable {κ : Type} [DecidableEq κ] {next : κ → Option κ} {pool : List κ}

/-- The first node that comes back, or the node at which the links end. -/
def revisit (next : κ → Option κ) : Nat → List κ → κ → Option κ
  | 0, _, _ => none
  | fuel + 1, seen, v =>
    if v ∈ seen then some v
    else
      match next v with
      | none => some v
      | some b => revisit next fuel (v :: seen) b

private theorem revisit_from (closed : ∀ v ∈ pool, ∃ b ∈ pool, next v = some b) (fuel : Nat)
    (seen : List κ)
    (v : κ) (held : v ∈ pool) (distinct : seen.Nodup) (inside : ∀ s ∈ seen, s ∈ pool)
    (leads : ∀ s ∈ seen, TransGen (fun a b => next a = some b) s v)
    (enough : pool.length < fuel + seen.length) :
    ∃ c ∈ pool, revisit next fuel seen v = some c ∧ TransGen (fun a b => next a = some b) c c := by
  induction fuel generalizing seen v with
  | zero =>
    have short := (List.subperm_of_subset distinct inside).length_le
    omega
  | succ fuel ih =>
    rw [revisit]
    by_cases back : v ∈ seen
    · exact ⟨v, held, if_pos back, leads v back⟩
    · obtain ⟨b, within, link⟩ := closed v held
      rw [if_neg back, link]
      apply ih (v :: seen) b within (List.nodup_cons.mpr ⟨back, distinct⟩)
      · exact List.forall_mem_cons.mpr ⟨held, inside⟩
      · intro s listed
        rcases List.mem_cons.mp listed with rfl | before
        · exact .single link
        · exact (leads s before).tail link
      · rw [List.length_cons]
        omega

/-- The walk closes a cycle. -/
theorem revisit_closes (closed : ∀ v ∈ pool, ∃ b ∈ pool, next v = some b) {start : κ}
    (held : start ∈ pool) {fuel : Nat} (enough : pool.length < fuel) :
    ∃ c ∈ pool, revisit next fuel [] start = some c ∧ TransGen (fun a b => next a = some b) c c :=
  revisit_from closed fuel [] start held List.nodup_nil (by simp) (by simp) (by simpa using enough)

end Revisit

end Beads.Lib
