import Mathlib.Data.Finset.Card
import Mathlib.Logic.Relation
import Beads.Lib.Call

/-! Marking nodes together with everything above them. From each chosen node the
parents are followed upwards and marked, until there is no parent or the next one is
marked already. The early stop loses nothing: whatever is marked when a climb starts
has all its ancestors marked too (`Upward`).

`keepAll_spec` says what is marked in the end: the chosen nodes and their ancestors. -/
namespace Beads.Lib.Ancestry
open Relation

variable {α ε : Type} [DecidableEq α]

/-- One step of a climb: mark the parent of the current node and go on from there. -/
def climbStep (parentOf : α → Option α) (st : α × List α) : Except ε ((α × List α) ⊕ List α) :=
  match parentOf st.1 with
  | none => .ok (.inr st.2)
  | some parent =>
    if parent = st.1 ∨ parent ∈ st.2 then .ok (.inr st.2) else .ok (.inl (parent, parent :: st.2))

/-- Mark a node, unless it is marked, and climb from it. -/
def keep (parentOf : α → Option α) (kept : List α) (node : α) : Call ε (List α) :=
  if node ∈ kept then pure kept else Call.loop (climbStep parentOf) (node, node :: kept)

/-- Mark the chosen nodes one after the other. -/
def keepAll (parentOf : α → Option α) (chosen : List α) : Call ε (List α) :=
  chosen.foldlM (keep parentOf) []

variable {parentOf : α → Option α} {kept : List α}

/-- The parent of a node. -/
def Parent (parentOf : α → Option α) (a b : α) : Prop := parentOf a = some b

/-- Above the node, itself included. -/
abbrev Above (parentOf : α → Option α) : α → α → Prop := ReflTransGen (Parent parentOf)

/-- Everything above a marked node is marked, as far as the parents of other nodes than
the exception go. -/
def Upward (parentOf : α → Option α) (kept : List α) (exception : α → Prop) : Prop :=
  ∀ a ∈ kept, ¬ exception a → ∀ b, Parent parentOf a b → b ∈ kept

omit [DecidableEq α] in
theorem Upward.above (upward : Upward parentOf kept fun _ => False) {a b : α} (held : a ∈ kept)
    (above : Above parentOf a b) : b ∈ kept := by
  induction above with
  | refl => exact held
  | tail _ parent ih => exact upward _ ih (by simp) _ parent

/-- A climb from the node is at the current one: what is marked has its ancestors
marked, up to the parent of the current node. -/
structure Climbing (parentOf : α → Option α) (node : α) (kept : List α) (st : α × List α) :
    Prop where
  current : st.1 ∈ st.2
  above : Above parentOf node st.1
  upward : Upward parentOf st.2 (· = st.1)
  grown : ∀ x ∈ kept, x ∈ st.2
  first : node ∈ st.2
  only : ∀ x ∈ st.2, x ∈ kept ∨ Above parentOf node x

namespace Climbing
variable {node : α} {st st' : α × List α}

omit [DecidableEq α] in
theorem start (node : α) (upward : Upward parentOf kept fun _ => False) :
    Climbing parentOf node kept (node, node :: kept) := by
  constructor
  · simp
  · exact .refl
  · intro a held differs b parent
    have old : a ∈ kept := by simpa [differs] using held
    exact List.mem_cons_of_mem _ (upward a old (by simp) b parent)
  · simp +contextual
  · simp
  · intro x held
    rcases List.mem_cons.mp held with rfl | old
    · exact Or.inr .refl
    · exact Or.inl old

/-- A climb that goes on has marked a parent that was not marked before. -/
theorem next (climbing : Climbing parentOf node kept st)
    (step : climbStep parentOf st = (.ok (.inl st') : Except ε _)) :
    Climbing parentOf node kept st' ∧ Parent parentOf st.1 st'.1 ∧ st'.1 ∉ st.2 ∧
      st'.2 = st'.1 :: st.2 := by
  unfold climbStep at step
  split at step
  · cases step
  · next parent some =>
    split at step
    · cases step
    · next go =>
      cases step
      simp only [not_or] at go
      have up : Above parentOf node parent := climbing.above.tail some
      refine ⟨⟨by simp, up, ?_, ?_, ?_, ?_⟩, some, go.2, rfl⟩
      · intro a held differs b above
        have old : a ∈ st.2 := by simpa [differs] using held
        by_cases same : a = st.1
        · subst same
          obtain rfl : parent = b := by simpa [Parent, some] using above
          exact List.mem_cons_self
        · exact List.mem_cons_of_mem _ (climbing.upward a old same b above)
      · exact fun x old => List.mem_cons_of_mem _ (climbing.grown x old)
      · exact List.mem_cons_of_mem _ climbing.first
      · intro x listed
        rcases List.mem_cons.mp listed with rfl | old
        · exact Or.inr up
        · exact climbing.only x old

/-- A climb that stops has nothing left to mark. -/
theorem last (climbing : Climbing parentOf node kept st) {marked : List α}
    (step : climbStep parentOf st = (.ok (.inr marked) : Except ε _)) :
    marked = st.2 ∧ Upward parentOf st.2 fun _ => False := by
  unfold climbStep at step
  split at step
  · next none =>
    cases step
    refine ⟨rfl, fun a held _ b above => ?_⟩
    by_cases same : a = st.1
    · subst same
      simp [Parent, none] at above
    · exact climbing.upward a held same b above
  · next parent some =>
    split at step
    · next stop =>
      cases step
      refine ⟨rfl, fun a held _ b above => ?_⟩
      by_cases same : a = st.1
      · subst same
        obtain rfl : parent = b := by simpa [Parent, some] using above
        rcases stop with again | there
        · exact again ▸ held
        · exact there
      · exact climbing.upward a held same b above
    · cases step

end Climbing

private theorem climbStep_ok (st : α × List α) (e : ε) : climbStep parentOf st ≠ .error e := by
  unfold climbStep
  split
  · simp
  · split <;> simp

/-- A climb marks what is above its first node, and nothing else. -/
theorem keep_spec {pool : List α} (known : ∀ a b, Parent parentOf a b → b ∈ pool) (node : α)
    (upward : Upward parentOf kept fun _ => False) :
    ∃ kept', (keep parentOf kept node : Call ε (List α)).Returns kept' ∧
      Upward parentOf kept' (fun _ => False) ∧ ∀ x, x ∈ kept' ↔
        x ∈ kept ∨ Above parentOf node x := by
  unfold keep
  split
  · next held =>
    refine ⟨kept, Call.returns_pure.mpr rfl, upward, fun x => ?_⟩
    simp only [iff_self_or]
    exact upward.above held
  · -- Each round marks one more of the pool.
    have loop := Call.ends_loop (ε := ε) (Climbing parentOf node kept)
      (fun st => (pool.toFinset \ st.2.toFinset).card)
      (fun r => ∃ st, r = .ok st.2 ∧ Climbing parentOf node kept st ∧ Upward parentOf st.2 fun _ => False)
      (fun st _ e refused => absurd refused (climbStep_ok st e))
      (fun st climbing marked step => by
        obtain ⟨rfl, closed⟩ := climbing.last step
        exact ⟨st, rfl, climbing, closed⟩)
      (fun st climbing st' step => by
        obtain ⟨climbing', parent, fresh, marked⟩ := climbing.next step
        refine ⟨climbing', Finset.card_lt_card ⟨?_, fun back => ?_⟩⟩
        · intro x
          simp only [marked, Finset.mem_sdiff, List.mem_toFinset, List.mem_cons, not_or]
          exact fun ⟨pooled, _, unmarked⟩ => ⟨pooled, unmarked⟩
        · have old : st'.1 ∈ pool.toFinset \ st.2.toFinset := by simp [known _ _ parent, fresh]
          have new := back old
          simp [marked] at new)
      (Climbing.start node upward)
    obtain ⟨_, ends, st, rfl, climbing, closed⟩ := loop
    refine ⟨st.2, ends, closed, fun x => ⟨climbing.only x, ?_⟩⟩
    rintro (old | above)
    · exact climbing.grown x old
    · exact closed.above climbing.first above

/-- Marked in the end are the chosen nodes and what is above them. -/
theorem keepAll_spec {pool : List α} (known : ∀ a b, Parent parentOf a b → b ∈ pool)
    (chosen : List α) :
    ∃ kept, (keepAll parentOf chosen : Call ε (List α)).Returns kept ∧
      ∀ x, x ∈ kept ↔ ∃ a ∈ chosen, Above parentOf a x := by
  suffices run : ∀ kept : List α, Upward parentOf kept (fun _ => False) →
      ∃ kept', (chosen.foldlM (keep parentOf) kept : Call ε (List α)).Returns kept' ∧
        ∀ x, x ∈ kept' ↔ x ∈ kept ∨ ∃ a ∈ chosen, Above parentOf a x by
    obtain ⟨kept, returns, members⟩ := run [] fun a none => absurd none List.not_mem_nil
    exact ⟨kept, returns, by simpa using members⟩
  induction chosen with
  | nil => exact fun kept _ => ⟨kept, Call.returns_pure.mpr rfl, by simp⟩
  | cons node rest ih =>
    intro kept upward
    obtain ⟨kept', returns, upward', members⟩ := keep_spec known node upward (ε := ε)
    obtain ⟨kept'', returns', members'⟩ := ih kept' upward'
    refine ⟨kept'', ?_, fun x => ?_⟩
    · rw [List.foldlM_cons]
      exact Call.returns_bind.mpr ⟨kept', returns, returns'⟩
    · rw [members', members]
      simp [or_assoc]

end Beads.Lib.Ancestry
