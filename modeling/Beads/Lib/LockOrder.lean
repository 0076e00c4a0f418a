import Mathlib.Data.Set.Finite.Lemmas

/-! Locks that every process takes in one order: of those that wait, one waits for a process that
does not. -/
namespace Beads.Lib

section LockOrder
variable {ι κ : Type*} [LinearOrder κ] (waits : ι → Option κ) (holds : ι → κ → Prop)

/-- Processes that wait only for what is above everything they hold are not all waiting for each
other. -/
theorem exists_holder_not_waiting (finite : {i | waits i ≠ none}.Finite)
    (above : ∀ i k k', waits i = some k → holds i k' → k' < k)
    (held : ∀ i k, waits i = some k → ∃ j, holds j k) {i : ι} {k : κ} (waiting : waits i = some k) :
    ∃ i' k' j, waits i' = some k' ∧ holds j k' ∧ waits j = none := by
  have some : {i | waits i ≠ none}.Nonempty := ⟨i, by simp [waiting]⟩
  obtain ⟨last, inside, latest⟩ := Set.exists_max_image _ (fun i => (waits i).getD k) finite some
  obtain ⟨top, awaited⟩ := Option.ne_none_iff_exists'.mp inside
  obtain ⟨j, holder⟩ := held last top awaited
  refine ⟨last, top, j, awaited, holder, ?_⟩
  by_contra also
  -- the holder would wait for something still higher
  obtain ⟨higher, waited⟩ := Option.ne_none_iff_exists'.mp also
  have bound := latest j also
  simp only [waited, awaited, Option.getD_some] at bound
  exact absurd (above j higher top waited holder) (not_lt.mpr bound)

end LockOrder
end Beads.Lib
