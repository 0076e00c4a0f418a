import Mathlib.Order.Defs.LinearOrder

/-! Three-way merges: how two versions of a value stand to the version they both come from, and
which of them is kept. -/
namespace Beads.Lib.ThreeWay

/-- The two parties of a merge, as one of them sees it. -/
inductive Side where
  | ours
  | theirs
  deriving DecidableEq

/-- The side, as the other party sees it. -/
def Side.other : Side → Side
  | .ours => .theirs
  | .theirs => .ours

@[simp] theorem Side.other_other (side : Side) : side.other.other = side := by
  cases side <;> rfl

/-- The version of a side. -/
def Side.pick {α : Type*} (ours theirs : α) : Side → α
  | .ours => ours
  | .theirs => theirs

/-- Which of the two parties has changed a value, and whether they disagree. -/
inductive Verdict where
  | agree
  | oursOnly
  | theirsOnly
  | contested
  deriving DecidableEq

namespace Verdict

/-- The verdict, as the other party sees it. -/
def mirror : Verdict → Verdict
  | .agree => .agree
  | .oursOnly => .theirsOnly
  | .theirsOnly => .oursOnly
  | .contested => .contested

@[simp] theorem mirror_agree {v : Verdict} : v.mirror = agree ↔ v = agree := by
  cases v <;> simp [mirror]

@[simp] theorem mirror_contested {v : Verdict} : v.mirror = contested ↔ v = contested := by
  cases v <;> simp [mirror]

/-- The side whose value is kept, when a contested one goes to the winner. -/
def keeps (winner : Side) : Verdict → Side
  | .agree => .ours
  | .oursOnly => .ours
  | .theirsOnly => .theirs
  | .contested => winner

/-- Both parties keep the value of one and the same of them, when they agree on the winner. -/
theorem keeps_mirror {winner winner' : Side} {v : Verdict} (differ : v ≠ agree)
    (opposed : v = contested → winner' = winner.other) :
    v.mirror.keeps winner' = (v.keeps winner).other := by
  cases v with
  | agree => exact absurd rfl differ
  | oursOnly => rfl
  | theirsOnly => rfl
  | contested => exact opposed rfl

end Verdict

section Classify
variable {α : Type*} [DecidableEq α] {base ours theirs : α}

/-- The verdict on three versions of a value. -/
def classify (base ours theirs : α) : Verdict :=
  if ours = theirs then .agree
  else if theirs = base then .oursOnly
  else if ours = base then .theirsOnly
  else .contested

theorem classify_agree : classify base ours theirs = .agree ↔ ours = theirs := by
  unfold classify
  split_ifs <;> simp_all

theorem classify_oursOnly :
    classify base ours theirs = .oursOnly ↔ ours ≠ theirs ∧ theirs = base := by
  unfold classify
  split_ifs <;> simp_all

theorem classify_theirsOnly :
    classify base ours theirs = .theirsOnly ↔ ours ≠ theirs ∧ theirs ≠ base ∧ ours = base := by
  unfold classify
  split_ifs <;> simp_all

theorem classify_contested :
    classify base ours theirs = .contested ↔ ours ≠ theirs ∧ theirs ≠ base ∧ ours ≠ base := by
  unfold classify
  split_ifs <;> simp_all

/-- The two parties come to the same verdict. -/
theorem classify_mirror : classify base theirs ours = (classify base ours theirs).mirror := by
  unfold classify
  split_ifs <;> simp_all [Verdict.mirror]

/-- Two values that go together in each of the versions go together in what is kept, when neither
is contested. -/
theorem keeps_together {β : Type*} [DecidableEq β] {base' ours' theirs' : β} {P : α → Prop}
    {Q : β → Prop}
    (inBase : P base ↔ Q base') (inOurs : P ours ↔ Q ours') (inTheirs : P theirs ↔ Q theirs')
    (calm : classify base ours theirs ≠ .contested)
    (calm' : classify base' ours' theirs' ≠ .contested) (winner : Side) :
    P (((classify base ours theirs).keeps winner).pick ours theirs) ↔
      Q (((classify base' ours' theirs').keeps winner).pick ours' theirs') := by
  unfold classify at *
  split_ifs <;> simp_all [Verdict.keeps, Side.pick]

end Classify
end Beads.Lib.ThreeWay
