import Mathlib.Logic.Relation
import Beads.Lib.Call

/-! A depth-first search for a path, with one list of the keys that it has seen. -/
namespace Beads.Lib.PathSearch
open Relation

variable {ε K : Type}

/-- Visit keys one after the other until the goal is found. -/
def visitAll (visit : List K → K → Option (Bool × List K)) :
    List K → List K → Option (Bool × List K)
  | seen, [] => some (false, seen)
  | seen, k :: rest => match visit seen k with
    | some (false, seen) => visitAll visit seen rest
    | other => other

/-- Visit a key and what it leads to. The result says whether the goal was found. -/
def visit [DecidableEq K] (next : K → List K) (goal : K) : Nat → List K → K → Option (Bool × List K)
  | 0, _, _ => none
  | depth + 1, seen, k =>
    if k = goal then some (true, seen)
    else if k ∈ seen then some (false, seen)
    else visitAll (visit next goal depth) (k :: seen) (next k)

private theorem visitAll_mono {visit visit' : List K → K → Option (Bool × List K)}
    (mono : ∀ seen k r, visit seen k = some r → visit' seen k = some r) {seen targets : List K}
    {r : Bool × List K}
    (run : visitAll visit seen targets = some r) : visitAll visit' seen targets = some r := by
  induction targets generalizing seen with
  | nil => exact run
  | cons k rest ih =>
    rw [visitAll] at run ⊢
    cases first : visit seen k with
    | none =>
      rw [first] at run
      cases run
    | some outcome =>
      rw [mono seen k outcome first]
      rw [first] at run
      obtain ⟨found, seen'⟩ := outcome
      cases found with
      | true => exact run
      | false => exact ih run

private theorem visit_succ [DecidableEq K] {next : K → List K} {goal : K} (depth : Nat)
    (seen : List K) (k : K) (r : Bool × List K) (run : visit next goal depth seen k = some r) :
    visit next goal (depth + 1) seen k = some r := by
  induction depth generalizing seen k r with
  | zero => cases run
  | succ depth ih =>
    rw [visit] at run ⊢
    split
    · next here => rwa [if_pos here] at run
    · next other =>
      rw [if_neg other] at run
      split
      · next old => rwa [if_pos old] at run
      · next new =>
        rw [if_neg new] at run
        exact visitAll_mono ih run

/-- Whether the goal is found from a key. -/
def hasPath [DecidableEq K] (next : K → List K) (start goal : K) : Call ε Bool where
  exec depth := (visit next goal depth [] start).map fun r => .ok r.1
  mono n m r le run := by
    obtain ⟨outcome, ended, rfl⟩ := Option.map_eq_some_iff.mp run
    suffices later : visit next goal m [] start = some outcome by rw [later, Option.map_some]
    obtain ⟨more, rfl⟩ := Nat.exists_eq_add_of_le le
    clear le run
    induction more with
    | zero => exact ended
    | succ more ih => exact visit_succ (n + more) [] start outcome ih

/-- A goal that is found can be reached. -/
theorem visit_sound [DecidableEq K] {next : K → List K} {goal : K} (depth : Nat) (seen : List K)
    (k : K) (seen' : List K) (run : visit next goal depth seen k = some (true, seen')) :
    ReflTransGen (fun a b => b ∈ next a) k goal := by
  induction depth generalizing seen k seen' with
  | zero => cases run
  | succ depth ih =>
    have below : ∀ targets seen, visitAll (visit next goal depth) seen targets = some
        (true, seen') →
        ∃ b ∈ targets, ReflTransGen (fun a b => b ∈ next a) b goal := by
      intro targets
      induction targets with
      | nil =>
        intro seen run
        cases run
      | cons b rest later =>
        intro seen run
        rw [visitAll] at run
        split at run
        · obtain ⟨b', held, path⟩ := later _ run
          exact ⟨b', List.mem_cons_of_mem _ held, path⟩
        · exact ⟨b, List.mem_cons_self, ih seen b seen' run⟩
    rw [visit] at run
    split at run
    · next here =>
      rw [here]
    · split at run
      · cases run
      · obtain ⟨b, held, path⟩ := below _ _ run
        exact ReflTransGen.head held path

theorem hasPath_sound [DecidableEq K] {next : K → List K} {start goal : K}
    (found : (hasPath next start goal : Call ε Bool).Returns true) :
    ReflTransGen (fun a b => b ∈ next a) start goal := by
  obtain ⟨depth, run⟩ := found
  obtain ⟨⟨answer, seen⟩, ended, same⟩ := Option.map_eq_some_iff.mp run
  cases same
  exact visit_sound depth [] start seen ended

end Beads.Lib.PathSearch
