import Mathlib.Data.List.Dedup
import Mathlib.Data.List.Sort
import Mathlib.Data.List.Infix

/-! Words of a list in a text. A word stands at a place of a text when it is spelled out
there between two boundaries. A scan tries the words at every place, those with the right
first letter and the longer ones first, and takes the first that stands there; so it finds
exactly the words that stand somewhere where no longer word does (`mem_findAll`). -/
namespace Beads.Lib

variable {α ω : Type} [DecidableEq α] (boundary : List α → Nat → Prop) (spell : ω → List α)

/-- A word is spelled out from a place on, between two boundaries. -/
def StandsAt (text : List α) (place : Nat) (word : ω) : Prop :=
  boundary text place ∧ spell word <+: text.drop place ∧ boundary text (place + (spell word).length)

instance [∀ text place, Decidable (boundary text place)] (text : List α) (place : Nat) (word : ω) :
    Decidable (StandsAt boundary spell text place word) :=
  inferInstanceAs (Decidable (_ ∧ _))

/-- The word stands at a place where no longer word of the list does. -/
def Cites (words : List ω) (text : List α) (word : ω) : Prop :=
  spell word ≠ [] ∧ ∃ place, StandsAt boundary spell text place word ∧
    ∀ other ∈ words, StandsAt boundary spell text place other → (spell other).length ≤ (spell word).length

section Scan
variable [LinearOrder ω] [∀ text place, Decidable (boundary text place)]

/-- The order of a bucket: longer words first. -/
def LongerFirst (v w : ω) : Prop :=
  if (spell v).length = (spell w).length then v ≤ w else (spell w).length ≤ (spell v).length

instance : DecidableRel (LongerFirst spell : ω → ω → Prop) := fun v w =>
  inferInstanceAs (Decidable (if (spell v).length = (spell w).length then v ≤ w else _))

/-- The words with a first letter, longer ones first. -/
def bucket (words : List ω) (first : α) : List ω :=
  (words.dedup.filter fun word => (spell word).head? = some first).insertionSort (LongerFirst spell)

/-- The word that is found at a place. -/
def findAt (words : List ω) (text : List α) (place : Nat) : Option ω :=
  text[place]?.bind fun first => (bucket spell words first).find? (StandsAt boundary spell text place ·)

/-- The words that are found in a text. -/
def findAll (words : List ω) (text : List α) : List ω :=
  (List.range text.length).filterMap (findAt boundary spell words text)

variable {boundary spell} {words : List ω} {text : List α} {word : ω}

private theorem mem_bucket {first : α} :
    word ∈ bucket spell words first ↔ word ∈ words ∧ (spell word).head? = some first := by
  rw [bucket, List.mem_insertionSort, List.mem_filter, List.mem_dedup, decide_eq_true_eq]

private theorem bucket_sorted (words : List ω) (first : α) :
    (bucket spell words first).Pairwise fun v w => (spell w).length ≤ (spell v).length := by
  have total : Std.Total (LongerFirst spell : ω → ω → Prop) := ⟨fun v w => by
    unfold LongerFirst
    rcases lt_trichotomy (spell v).length (spell w).length with less | same | more
    · simp only [less.ne, less.ne', if_false]
      exact Or.inr less.le
    · simp only [same, if_true]
      exact le_total v w
    · simp only [more.ne, more.ne', if_false]
      exact Or.inl more.le⟩
  have trans : IsTrans ω (LongerFirst spell) := ⟨fun u v w => by
    unfold LongerFirst
    intro first second
    split at first <;> split at second <;> split
    · exact first.trans second
    · omega
    · omega
    · omega
    · omega
    · omega
    · omega
    · omega⟩
  refine (List.pairwise_insertionSort (LongerFirst spell) _).imp fun {v w} before => ?_
  unfold LongerFirst at before
  split at before
  · omega
  · exact before

omit [DecidableEq α] [LinearOrder ω] [∀ text place, Decidable (boundary text place)] in
theorem StandsAt.first {place : Nat} (stands : StandsAt boundary spell text place word)
    (named : spell word ≠ []) :
    ∃ first, text[place]? = some first ∧ (spell word).head? = some first := by
  obtain ⟨-, ⟨rest, shape⟩, -⟩ := stands
  cases letters : spell word with
  | nil => exact absurd letters named
  | cons first tail =>
    rw [letters] at shape
    refine ⟨first, ?_, rfl⟩
    rw [← Nat.add_zero place, ← List.getElem?_drop, ← shape]
    rfl

/-- A longer word would come earlier in the bucket. -/
theorem length_le_found {place : Nat} {first : α} {other : ω}
    (found : (bucket spell words first).find? (StandsAt boundary spell text place ·) = some word)
    (held : other ∈ bucket spell words first) (stands : StandsAt boundary spell text place other) :
    (spell other).length ≤ (spell word).length := by
  obtain ⟨-, before, after, split, none⟩ := List.find?_eq_some_iff_append.mp found
  have sorted : (bucket spell words first).Pairwise fun v w => (spell w).length ≤
      (spell v).length :=
    bucket_sorted words first
  rw [split] at held sorted
  rcases List.mem_append.mp held with early | late
  · have missed := none other early
    rw [decide_eq_true stands] at missed
    cases missed
  · rcases List.mem_cons.mp late with rfl | later
    · exact Nat.le_refl _
    · exact (List.pairwise_cons.mp (List.pairwise_append.mp sorted).2.1).1 other later

/-- A scan finds the words that stand where no longer one does. -/
theorem mem_findAll (injective : Function.Injective spell) :
    word ∈ findAll boundary spell words text ↔
      word ∈ words ∧ Cites boundary spell words text word := by
  rw [findAll, List.mem_filterMap]
  constructor
  · rintro ⟨place, -, found⟩
    obtain ⟨first, here, found⟩ := Option.bind_eq_some_iff.mp found
    obtain ⟨listed, head⟩ := mem_bucket.mp (List.mem_of_find?_eq_some found)
    have stands : StandsAt boundary spell text place word := by simpa using List.find?_some found
    have named : spell word ≠ [] := by
      intro empty
      rw [empty] at head
      cases head
    refine ⟨listed, named, place, stands, fun other also standsToo => ?_⟩
    by_cases spelled : spell other = []
    · rw [spelled]
      exact Nat.zero_le _
    · obtain ⟨letter, there, start⟩ := standsToo.first spelled
      obtain rfl : first = letter := Option.some.inj (here.symm.trans there)
      exact length_le_found found (mem_bucket.mpr ⟨also, start⟩) standsToo
  · rintro ⟨listed, named, place, stands, longest⟩
    obtain ⟨first, here, head⟩ := stands.first named
    have held : word ∈ bucket spell words first := mem_bucket.mpr ⟨listed, head⟩
    have inside : place < text.length := (List.getElem?_eq_some_iff.mp here).1
    refine ⟨place, List.mem_range.mpr inside, ?_⟩
    rw [findAt, here]
    change (bucket spell words first).find? _ = _
    cases found : (bucket spell words first).find? (StandsAt boundary spell text place ·) with
    | none => exact absurd (decide_eq_true stands) (List.find?_eq_none.mp found word held)
    | some other =>
      obtain ⟨also, -⟩ := mem_bucket.mp (List.mem_of_find?_eq_some found)
      have standsToo : StandsAt boundary spell text place other := by
        simpa using List.find?_some found
      have length :=
        Nat.le_antisymm (length_le_found found held stands) (longest other also standsToo)
      have same : spell word = spell other :=
        (List.prefix_of_prefix_length_le stands.2.1 standsToo.2.1 length.le).eq_of_length length
      rw [injective same]

end Scan
end Beads.Lib
