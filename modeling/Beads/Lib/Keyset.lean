import Mathlib.Data.List.Nodup
import Mathlib.Order.Basic

/-! Walking a table by pages while the table changes: every page starts behind the last row
of the page before it. What a walk returns is strictly increasing (`Walk.sorted`), and a row
that was there at every read and is not returned lies behind everything that is, on a walk
that has not come to its end (`Walk.missing`). -/
namespace Beads.Lib.Keyset

variable {ρ κ : Type*} [Preorder κ] {key : ρ → κ} {position : Option κ} {k : κ}

/-- A key lies behind the position a walk has come to. -/
def Behind (position : Option κ) (k : κ) : Prop := ∀ last ∈ position, last < k

/-- One read: the rows there were, how many of them it could return, where zero is no
bound, and what it returned. -/
structure Read (ρ : Type*) where
  rows : List ρ
  bound : Nat
  page : List ρ

/-- The page says that nothing comes after it. -/
def Read.Short (read : Read ρ) : Prop := read.bound = 0 ∨ read.page.length < read.bound

/-- The page has the first rows behind a position. -/
structure Read.Resumes (key : ρ → κ) (position : Option κ) (read : Read ρ) : Prop where
  sorted : read.page.Pairwise fun a b => key a < key b
  behind : ∀ r ∈ read.page, Behind position (key r)
  missing : ∀ r ∈ read.rows, Behind position (key r) → r ∉ read.page →
    ¬ read.Short ∧ ∀ q ∈ read.page, key q < key r

/-- Where the next read starts: behind the last row of the page. -/
def next (key : ρ → κ) (position : Option κ) (page : List ρ) : Option κ :=
  (page.getLast?.map key).or position

/-- The reads of a walk from a position on. -/
def Walk (key : ρ → κ) : Option κ → List (Read ρ) → Prop
  | _, [] => True
  | position, read :: rest =>
    read.Resumes key position ∧ Walk key (next key position read.page) rest

/-- Everything a walk returns. -/
def delivered (reads : List (Read ρ)) : List ρ := reads.flatMap Read.page

/-! ## One read -/

/-- The rows behind the position, in order and cut at the bound. -/
theorem resumes_of_sorted {rows list : List ρ} {bound : Nat}
    (sorted : list.Pairwise fun a b => key a < key b)
    (mem : ∀ r, r ∈ list ↔ r ∈ rows ∧ Behind position (key r)) :
    (⟨rows, bound, if bound = 0 then list else list.take bound⟩ : Read ρ).Resumes key position := by
  by_cases unbounded : bound = 0
  · simp only [if_pos unbounded]
    refine ⟨sorted, fun r held => ((mem r).mp held).2, ?_⟩
    intro r held behind other
    exact absurd ((mem r).mpr ⟨held, behind⟩) other
  · simp only [if_neg unbounded]
    refine ⟨sorted.sublist (List.take_sublist bound list), ?_, ?_⟩
    · intro r held
      exact ((mem r).mp (List.mem_of_mem_take held)).2
    · intro r held behind other
      have listed := (mem r).mpr ⟨held, behind⟩
      rw [← List.take_append_drop bound list] at listed sorted
      have late : r ∈ list.drop bound := (List.mem_append.mp listed).resolve_left other
      constructor
      · rintro (none | short)
        · exact unbounded none
        · have cut := List.length_pos_of_mem late
          simp only [List.length_take, List.length_drop] at short cut
          omega
      · intro q first
        exact (List.pairwise_append.mp sorted).2.2 q first r late

/-- The next read is behind the position, and behind every row of the page. -/
theorem behind_next {page : List ρ} (sorted : page.Pairwise fun a b => key a < key b)
    (above : ∀ r ∈ page, Behind position (key r)) (behind : Behind (next key position page) k) :
    Behind position k ∧ ∀ r ∈ page, key r < k := by
  cases last : page.getLast? with
  | none =>
    obtain rfl := List.getLast?_eq_none_iff.mp last
    refine ⟨?_, by simp⟩
    simpa [next] using behind
  | some end_ =>
    have held : end_ ∈ page := List.mem_of_getLast? last
    have passed : key end_ < k := behind (key end_) (by simp [next, last])
    refine ⟨fun start found => (above end_ held start found).trans passed, ?_⟩
    intro r listed
    obtain ⟨init, rfl⟩ := List.getLast?_eq_some_iff.mp last
    rcases List.mem_append.mp listed with before | same
    · exact ((List.pairwise_append.mp sorted).2.2 r before end_ (by simp)).trans passed
    · rw [List.mem_singleton.mp same]
      exact passed

/-- A row that is behind every row of the page is behind the position it leads to. -/
theorem behind_next_of {page : List ρ} (behind : Behind position k)
    (above : ∀ r ∈ page, key r < k) :
    Behind (next key position page) k := by
  intro last found
  cases ended : page.getLast? with
  | none =>
    simp only [next, ended, Option.map_none, Option.none_or] at found
    exact behind last found
  | some end_ =>
    simp only [next, ended, Option.map_some, Option.some_or, Option.mem_def,
      Option.some.injEq] at found
    rw [← found]
    exact above end_ (List.mem_of_getLast? ended)

/-! ## A walk -/

namespace Walk
variable {reads : List (Read ρ)} {r : ρ}

theorem behind (walk : Walk key position reads) (listed : r ∈ delivered reads) :
    Behind position (key r) := by
  induction reads generalizing position with
  | nil => cases listed
  | cons read rest ih =>
    obtain ⟨resumes, walk⟩ := walk
    rcases List.mem_append.mp listed with now | later
    · exact resumes.behind r now
    · exact (behind_next resumes.sorted resumes.behind (ih walk later)).1

theorem sorted (walk : Walk key position reads) :
    (delivered reads).Pairwise fun a b => key a < key b := by
  induction reads generalizing position with
  | nil => exact List.Pairwise.nil
  | cons read rest ih =>
    obtain ⟨resumes, walk⟩ := walk
    apply List.pairwise_append.mpr
    refine ⟨resumes.sorted, ih walk, ?_⟩
    intro a now b later
    exact (behind_next resumes.sorted resumes.behind (walk.behind later)).2 a now

/-- A row that was there all the time and is not returned is behind all that is, and the
walk goes on. -/
theorem missing (walk : Walk key position reads) (there : ∀ read ∈ reads, r ∈ read.rows)
    (start : Behind position (key r)) (lost : r ∉ delivered reads) :
    (∀ read ∈ reads, ¬ read.Short) ∧ ∀ q ∈ delivered reads, key q < key r := by
  induction reads generalizing position with
  | nil => simp [delivered]
  | cons read rest ih =>
    obtain ⟨resumes, walk⟩ := walk
    have skipped : r ∉ read.page ∧ r ∉ delivered rest := by
      simpa [delivered] using lost
    obtain ⟨full, above⟩ := resumes.missing r (there read List.mem_cons_self) start skipped.1
    obtain ⟨rest_full, rest_above⟩ :=
      ih walk (fun read held => there read (List.mem_cons_of_mem _ held))
      (behind_next_of start above) skipped.2
    constructor
    · intro other held
      rcases List.mem_cons.mp held with rfl | held
      · exact full
      · exact rest_full other held
    · intro q listed
      rcases List.mem_append.mp listed with now | later
      · exact above q now
      · exact rest_above q later

/-- A row that was there all the time is returned once, unless the walk goes on and the row
comes after everything that is returned. -/
theorem count [DecidableEq ρ] (walk : Walk key none reads) (there : ∀ read ∈ reads, r ∈ read.rows) :
    (delivered reads).count r = 1 ∨
      ((∀ read ∈ reads, ¬ read.Short) ∧ ∀ q ∈ delivered reads, key q < key r) := by
  by_cases held : r ∈ delivered reads
  · left
    apply List.count_eq_one_of_mem _ held
    exact walk.sorted.imp fun before same => before.ne (congrArg key same)
  · right
    exact walk.missing there (by simp [Behind]) held

/-- Some page of the walk is short, or a row was returned for every read. -/
theorem progress (reads : List (Read ρ)) :
    (∃ read ∈ reads, read.Short) ∨ reads.length ≤ (delivered reads).length := by
  by_cases short : ∃ read ∈ reads, read.Short
  · exact Or.inl short
  · right
    induction reads with
    | nil => exact Nat.le_refl _
    | cons read rest ih =>
      have full : ¬ read.Short := fun ends => short ⟨read, List.mem_cons_self, ends⟩
      have more := ih fun ⟨other, held, ends⟩ => short ⟨other, List.mem_cons_of_mem _ held, ends⟩
      have nonempty : 0 < read.page.length := by
        rw [Read.Short] at full
        omega
      have length : (delivered (read :: rest)).length = read.page.length +
          (delivered rest).length :=
        List.length_append
      rw [length, List.length_cons]
      omega

end Walk
end Beads.Lib.Keyset
