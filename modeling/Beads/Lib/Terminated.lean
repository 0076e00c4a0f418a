import Mathlib.Data.List.Basic

/-! Texts written one after the other, each closed by a terminator that none of them
contains: the bytes determine the texts. -/
namespace Beads.Lib

section Terminated
variable {α : Type} {stop : α}

/-- The texts in order, a terminator after each. -/
def terminated (stop : α) (texts : List (List α)) : List α := texts.flatMap (· ++ [stop])

@[simp] theorem terminated_nil : terminated stop [] = [] := rfl

@[simp] theorem terminated_cons (text : List α) (texts : List (List α)) :
    terminated stop (text :: texts) = text ++ stop :: terminated stop texts := by
  simp [terminated]

@[simp] theorem terminated_append (texts texts' : List (List α)) :
    terminated stop (texts ++ texts') = terminated stop texts ++ terminated stop texts' :=
  List.flatMap_append

/-- Where the first terminator stands is the end of the first text. -/
theorem eq_before_stop {before before' after after' : List α} (plain : stop ∉ before)
    (plain' : stop ∉ before')
    (same : before ++ stop :: after = before' ++ stop :: after') :
    before = before' ∧ after = after' := by
  induction before generalizing before' with
  | nil =>
    cases before' with
    | nil => exact ⟨rfl, (List.cons.inj same).2⟩
    | cons a before' => exact absurd ((List.cons.inj same).1 ▸ List.mem_cons_self) plain'
  | cons a before ih =>
    cases before' with
    | nil => exact absurd ((List.cons.inj same).1 ▸ List.mem_cons_self) plain
    | cons a' before' =>
      obtain ⟨rfl, rest⟩ := List.cons.inj same
      obtain ⟨rfl, tail⟩ := ih (fun held => plain (List.mem_cons_of_mem _ held))
        (fun held => plain' (List.mem_cons_of_mem _ held)) rest
      exact ⟨rfl, tail⟩

/-- A marker that lies across the end of a text would begin a second time inside itself. -/
theorem marker_inside {before after after' rest : List α} (once : stop ∉ rest)
    (longer : before ≠ [])
    (same : stop :: rest ++ after = before ++ (stop :: rest ++ after')) :
    stop :: rest <+: before := by
  rw [List.append_eq_append_iff] at same
  rcases same with ⟨more, shape, -⟩ | ⟨more, shape, again⟩
  · exact ⟨more, shape.symm⟩
  · cases more with
    | nil => exact ⟨[], by rw [shape]; simp⟩
    | cons a more =>
      cases before with
      | nil => exact absurd rfl longer
      | cons b before =>
        obtain ⟨-, tail⟩ := List.cons.inj shape
        obtain ⟨rfl, -⟩ := List.cons.inj again
        exact absurd (by rw [tail]; simp) once

/-- Where the first marker stands is the end of the first text, if the marker does not begin
twice. -/
theorem eq_before_marker {before before' after after' rest : List α} (once : stop ∉ rest)
    (plain : ¬stop :: rest <:+: before) (plain' : ¬stop :: rest <:+: before')
    (same : before ++ (stop :: rest ++ after) = before' ++ (stop :: rest ++ after')) :
    before = before' ∧ after = after' := by
  rcases List.append_eq_append_iff.mp same with ⟨more, rfl, tail⟩ | ⟨more, rfl, tail⟩
  · by_cases none : more = []
    · subst none
      exact ⟨by simp, by simpa using tail⟩
    · exact absurd ((marker_inside once none tail).isInfix.trans (List.suffix_append _ _).isInfix)
        plain'
  · by_cases none : more = []
    · subst none
      exact ⟨by simp, by simpa using tail.symm⟩
    · exact absurd ((marker_inside once none tail).isInfix.trans (List.suffix_append _ _).isInfix)
        plain

theorem terminated_inj {texts texts' : List (List α)} (plain : ∀ text ∈ texts, stop ∉ text)
    (plain' : ∀ text ∈ texts', stop ∉ text)
    (same : terminated stop texts = terminated stop texts') :
    texts = texts' := by
  induction texts generalizing texts' with
  | nil =>
    cases texts' with
    | nil => rfl
    | cons text texts' => simp at same
  | cons text texts ih =>
    cases texts' with
    | nil => simp at same
    | cons text' texts' =>
      rw [terminated_cons, terminated_cons] at same
      obtain ⟨rfl, rest⟩ :=
        eq_before_stop (plain text List.mem_cons_self) (plain' text' List.mem_cons_self) same
      rw [ih (fun t held => plain t (List.mem_cons_of_mem _ held))
        (fun t held => plain' t (List.mem_cons_of_mem _ held)) rest]

end Terminated

end Beads.Lib
