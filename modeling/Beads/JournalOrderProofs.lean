import Beads.JournalFeedProofs
import Beads.TimeParsingProofs

/-! Where an event goes and what a prune may take, for journals in any state: the
counter may be missing, behind or ahead, rows may be gone from the middle, and
times need not follow the numbers. An append draws from the counter and looks at
the journal only when its number is taken, so it stays above every row exactly
when the counter is not behind or its next number is taken. A prune cuts at one
number, which no floor lets pass. -/
namespace Beads
open Lib TimeParsing

namespace Journal
variable {j : Journal}

/-! ## Appending -/

theorem le_highWater {r : JournalRow} (held : r ∈ j.rows) : r.seq ≤ j.highWater := by
  have all : ∀ l : List Nat, ∀ n ∈ l, n ≤ l.foldr max 0 := by
    intro l
    induction l with
    | nil => exact fun n none => absurd none List.not_mem_nil
    | cons first rest ih =>
      intro n listed
      rw [List.foldr_cons]
      rcases List.mem_cons.mp listed with rfl | later
      · exact Nat.le_max_left _ _
      · exact (ih n later).trans (Nat.le_max_right _ _)
  exact all _ _ (List.mem_map_of_mem held)

/-- A high-water mark other than zero is the number of a row. -/
theorem exists_highWater (positive : 0 < j.highWater) : ∃ r ∈ j.rows, r.seq = j.highWater := by
  have all : ∀ l : List Nat, 0 < l.foldr max 0 → l.foldr max 0 ∈ l := by
    intro l
    induction l with
    | nil => exact fun none => absurd none (Nat.lt_irrefl 0)
    | cons first rest ih =>
      intro positive
      rw [List.foldr_cons] at positive ⊢
      rcases Nat.le_total first (rest.foldr max 0) with le | le
      · rw [Nat.max_eq_right le] at positive ⊢
        exact List.mem_cons_of_mem _ (ih positive)
      · rw [Nat.max_eq_left le]
        exact List.mem_cons_self
  obtain ⟨r, held, same⟩ := List.mem_map.mp (all _ positive)
  exact ⟨r, held, same⟩

/-- The rows that an append adds are above all rows that were there. -/
def AppendsAbove (j next : Journal) : Prop :=
  ∀ new ∈ next.rows, new ∉ j.rows → ∀ old ∈ j.rows, old.seq < new.seq

/-- A counter that is there is not behind the journal, or its next number is taken. -/
def CounterHolds (j : Journal) : Prop :=
  ∀ n ∈ j.counter, j.highWater ≤ n ∨ ∃ r ∈ j.rows, r.seq = n + 1

private theorem nextEventSeq_some {n : Nat} (counter : j.counter = some n) :
    j.nextEventSeq = n + 1 := by
  rw [nextEventSeq, counter]

/-- An insert adds one row, under the number that was drawn. -/
theorem tryInsert_new {now : Nat → Nat} {e : Event} {next : Journal}
    (inserted : j.tryInsert now e = .ok next)
    {new : JournalRow} (held : new ∈ next.rows) (fresh : new ∉ j.rows) :
    new.seq = j.nextEventSeq := by
  unfold tryInsert at inserted
  split at inserted
  · obtain rfl := Except.ok.inj inserted
    simp only [Table.mem_insert] at held
    rcases held with old | rfl
    · exact absurd old fresh
    · rfl
  · cases inserted

/-- A number above every row is free. -/
theorem tryInsert_of_above (now : Nat → Nat) (e : Event) (above : j.highWater < j.nextEventSeq) :
    ∃ next, j.tryInsert now e = .ok next := by
  have fresh : ∀ r ∈ j.rows, r.seq ≠ j.nextEventSeq := by
    intro r held same
    have := le_highWater held
    omega
  unfold tryInsert
  rw [dif_pos fresh]
  exact ⟨_, rfl⟩

/-- The number that is drawn after a taken one lies above the journal. -/
theorem highWater_lt_healed (j : Journal) (counter : Option Nat) :
    ({ j with counter := counter } : Journal).healEventSeqCounter.highWater <
      ({ j with counter := counter } : Journal).healEventSeqCounter.nextEventSeq := by
  change j.highWater < max (counter.getD 0) j.highWater + 1
  omega

/-- What an append does: the drawn number is free and used, or it is taken and the
row goes above the journal. -/
theorem insertEventRow_cases (now : Nat → Nat) (e : Event) :
    ∃ next, j.insertEventRow now e = .ok next ∧
      (((∀ r ∈ j.rows, r.seq ≠ j.nextEventSeq) ∧ j.tryInsert now e = .ok next) ∨
        ((∃ r ∈ j.rows, r.seq = j.nextEventSeq) ∧ AppendsAbove j next)) := by
  by_cases fresh : ∀ r ∈ j.rows, r.seq ≠ j.nextEventSeq
  · have inserted : ∃ next, j.tryInsert now e = .ok next := by
      unfold tryInsert
      rw [dif_pos fresh]
      exact ⟨_, rfl⟩
    obtain ⟨next, inserted⟩ := inserted
    refine ⟨next, ?_, Or.inl ⟨fresh, inserted⟩⟩
    rw [insertEventRow, inserted]
  · have refused : j.tryInsert now e = .error (.duplicateSeq j.nextEventSeq) := by
      unfold tryInsert
      rw [dif_neg fresh]
    obtain ⟨next, inserted⟩ :=
      tryInsert_of_above now e (highWater_lt_healed j (some j.nextEventSeq))
    refine ⟨next, ?_, Or.inr ⟨by simpa using fresh, ?_⟩⟩
    · rw [insertEventRow, refused]
      exact inserted
    · intro new held isNew old oldHeld
      rw [tryInsert_new inserted held isNew]
      exact Nat.lt_of_le_of_lt (le_highWater oldHeld) (highWater_lt_healed j _)

/-- An append succeeds, and it puts its row above every row of the journal exactly
when the counter is missing, is not behind the journal, or its next number is taken. -/
theorem insertEventRow_above_iff (j : Journal) (now : Nat → Nat) (e : Event) :
    ∃ next, j.insertEventRow now e = .ok next ∧ (AppendsAbove j next ↔ CounterHolds j) := by
  obtain ⟨next, appended, outcome⟩ := insertEventRow_cases (j := j) now e
  refine ⟨next, appended, ?_⟩
  rcases outcome with ⟨fresh, inserted⟩ | ⟨taken, above⟩
  · constructor
    · intro above n counter
      have drawn := nextEventSeq_some counter
      obtain ⟨-, row, -, -, found, free, -⟩ := tryInsert_spec inserted
      rw [Table.find?_eq_some] at found
      have isNew : row ∉ j.rows := fun old => Table.find?_eq_none.mp free row old rfl
      have number := tryInsert_new inserted found.1 isNew
      by_contra behind
      rw [not_or, Nat.not_le] at behind
      obtain ⟨top, held, same⟩ := exists_highWater (Nat.zero_lt_of_lt behind.1)
      have under := above row found.1 isNew top held
      omega
    · intro holds new held isNew old oldHeld
      have number := tryInsert_new inserted held isNew
      have top := le_highWater oldHeld
      cases counter : j.counter with
      | none =>
        rw [nextEventSeq, counter] at number
        simp only at number
        omega
      | some n =>
        have drawn := nextEventSeq_some counter
        rcases holds n counter with ahead | ⟨r, there, same⟩
        · omega
        · exact absurd (same.trans drawn.symm) (fresh r there)
  · refine ⟨fun _ n counter => Or.inr ?_, fun _ => above⟩
    rw [nextEventSeq_some counter] at taken
    exact taken

/-- A journal that was pruned below its fifth row, with a counter from a backup. -/
def rewound : Journal where
  counter := some 2
  rows := ⟨[{ op := .create, issueId := "bd-1", seq := 5, ts := 0 }], by decide⟩

/-- The next event is numbered 3, below the row that is there. -/
theorem rewound_appends_below : ∃ next,
    rewound.insertEventRow (fun _ => 0) { op := .update, issueId := "bd-1" } = .ok next ∧
      ¬ AppendsAbove rewound next := by
  refine ⟨⟨some 3, rewound.rows.insert { op := .update, issueId := "bd-1", seq := 3, ts := 0 } (by decide)⟩,
    rfl, fun above => ?_⟩
  have under :=
    above { op := .update, issueId := "bd-1", seq := 3, ts := 0 } (by decide) (by decide)
    { op := .create, issueId := "bd-1", seq := 5, ts := 0 } (by decide)
  exact absurd under (by decide)

/-! ## Pruning -/

/-- How many rows of the journal have a higher number. -/
def newer (j : Journal) (r : JournalRow) : Nat := j.rows.rows.countP fun other => r.seq < other.seq

/-- The row the floor on rows stops at is the one with exactly so many newer rows. -/
theorem newer_of_rowsCeil {retained ceil : Nat} (found : j.rowsCeil retained = some ceil)
    {r : JournalRow} (under : r.seq ≤ ceil) : retained ≤ j.newer r := by
  obtain ⟨top, query, rfl⟩ := Option.map_eq_some_iff.mp found
  obtain ⟨inside, place⟩ := List.getElem?_eq_some_iff.mp query
  have order : j.inOrder.reverse.Pairwise fun a b => b.seq < a.seq :=
    List.pairwise_reverse.mpr inOrder_increasing
  have all : ∀ other ∈ j.inOrder.reverse.take retained, r.seq < other.seq := by
    intro other listed
    obtain ⟨i, bound, rfl⟩ := List.mem_take_iff_getElem.mp listed
    have before := List.pairwise_iff_getElem.mp order i retained (by omega) inside (by omega)
    rw [place] at before
    omega
  have count : (j.inOrder.reverse.take retained).countP
      (fun other => r.seq < other.seq) = retained := by
    rw [List.countP_eq_length.mpr fun other listed => decide_eq_true (all other listed),
      List.length_take]
    omega
  have perm : j.inOrder.reverse.Perm j.rows.rows :=
    (List.reverse_perm _).trans (List.perm_insertionSort ..)
  calc retained = (j.inOrder.reverse.take retained).countP (fun other => r.seq < other.seq) := count.symm
    _ ≤ j.inOrder.reverse.countP (fun other => r.seq < other.seq) := (List.take_sublist _ _).countP_le
    _ = j.newer r := perm.countP_eq _

/-- A row below the bound of the floor on rows is below the requested one, and has
as many newer rows as the floor retains. -/
theorem rowsBound_spec {request : PruneRequest} {bound : Int}
    (found : j.rowsBound request = some bound) {r : JournalRow} (under : (r.seq : Int) < bound) :
    (r.seq : Int) < request.before ∧ request.retainRows ≤ j.newer r := by
  unfold rowsBound at found
  split at found
  · next positive =>
    obtain ⟨_, cast, rfl⟩ := Option.map_eq_some_iff.mp found
    obtain ⟨ceil, query, same⟩ := Option.bind_eq_some_iff.mp cast
    cases same
    have retained := newer_of_rowsCeil query (r := r) (by omega)
    exact ⟨by omega, by omega⟩
  · next off =>
    cases found
    exact ⟨under, by omega⟩

/-- The first row that is young enough has the lowest number of them. -/
theorem old_of_daysFloor {cutoff : Int} {r : JournalRow} (held : r ∈ j.rows)
    (under : ∀ floor ∈ j.daysFloor cutoff, r.seq < floor) : (r.ts : Int) < cutoff := by
  by_contra young
  have listed : r ∈ j.inOrder := mem_inOrder.mpr held
  cases found : j.inOrder.find? fun r => cutoff ≤ (r.ts : Int) with
  | none => exact List.find?_eq_none.mp found r listed (decide_eq_true (Int.not_lt.mp young))
  | some first =>
    have below := under first.seq (by rw [daysFloor, found]; rfl)
    obtain ⟨-, before, after, split, older⟩ := List.find?_eq_some_iff_append.mp found
    have order := inOrder_increasing (j := j)
    rw [split] at listed order
    rcases List.mem_append.mp listed with early | late
    · have := older r early
      simp only [Bool.not_eq_true', decide_eq_false_iff_not] at this
      exact this (Int.not_lt.mp young)
    · rcases List.mem_cons.mp late with rfl | later
      · omega
      · have := List.rel_of_pairwise_cons (List.pairwise_append.mp order).2.1 later
        omega

private theorem daysBound_spec {request : PruneRequest} {bound : Int} {r : JournalRow}
    (held : r ∈ j.rows)
    (under : (r.seq : Int) < j.daysBound request bound) : (r.seq : Int) < bound ∧
      (0 < request.retainDays → (r.ts : Int) < eventsPruneCutoff request.retainDays request.now) := by
  unfold daysBound at under
  split at under
  · split at under
    · next floor found =>
      refine ⟨by omega, fun _ => old_of_daysFloor held fun other listed => ?_⟩
      obtain rfl := Option.some.inj (found.symm.trans listed)
      omega
    · next none =>
      refine ⟨under, fun _ => old_of_daysFloor held fun other listed => ?_⟩
      cases none.symm.trans listed
  · next off => exact ⟨under, fun on => absurd on off⟩

/-- A prune removes the rows below one number, or nothing. -/
theorem mem_pruneEvents {request : PruneRequest} {r : JournalRow} :
    r ∈ (j.pruneEvents request).rows ↔
    r ∈ j.rows ∧ ∀ bound ∈ j.computeEventsPruneWhere request, bound ≤ (r.seq : Int) := by
  unfold pruneEvents
  cases j.computeEventsPruneWhere request with
  | none => simp
  | some bound =>
    change r ∈ j.rows.delete _ ↔ _
    rw [Table.mem_delete]
    simp

/-- The days are counted back in the 64-bit seconds of a time. -/
theorem eventsPruneCutoff_eq (retainDays now : Int) : eventsPruneCutoff retainDays now =
    wrap64 (now + unixToInternal - 86400 * retainDays) - unixToInternal := by
  have known := (Time.unix now).month_range
  have spec := ((Time.unix now).addDate_spec 0 0 (-retainDays) (by omega) (by omega) (by decide)).1
  have here : (Time.unix now).offset = 0 := rfl
  have there (wall : Int) : dateOffset utc wall = 0 := rfl
  rw [eventsPruneCutoff, spec, here, show (Time.unix now).loc = utc from rfl, there,
    show (Time.unix now).sec = wrap64 (now + unixToInternal) from rfl]
  simp only [Int.mul_zero, Int.add_zero, Int.sub_self, Int.zero_add, Int.sub_zero]
  rw [wrap64_wrap64_add, Int.mul_neg]
  rfl

/-- A prune only removes rows; with a row it removes every row with a lower number,
and the row is below the requested bound, not among the newest rows that the floor
on rows retains, and older than the floor on days, if that is on. -/
def RespectsFloors (j : Journal) (request : PruneRequest) : Prop :=
  (∀ r ∈ (j.pruneEvents request).rows, r ∈ j.rows) ∧
    ∀ r ∈ j.rows, r ∉ (j.pruneEvents request).rows →
      (∀ lower ∈ j.rows, lower.seq ≤ r.seq → lower ∉ (j.pruneEvents request).rows) ∧
        (r.seq : Int) < request.before ∧ request.retainRows ≤ j.newer r ∧
        (0 < request.retainDays → (r.ts : Int) < request.now - 86400 * request.retainDays)

/-- A prune respects its floors where the cutoff is not behind the days it stands for. -/
theorem respectsFloors_of_cutoff {request : PruneRequest}
    (early : 0 < request.retainDays → ∀ ts : Nat,
    (ts : Int) < eventsPruneCutoff request.retainDays request.now →
      (ts : Int) < request.now - 86400 * request.retainDays) : j.RespectsFloors request := by
  refine ⟨fun r held => (mem_pruneEvents.mp held).1, fun r held gone => ?_⟩
  rw [mem_pruneEvents] at gone
  simp only [held, true_and, not_forall, Int.not_le] at gone
  obtain ⟨bound, resolved, under⟩ := gone
  refine ⟨fun lower there le kept => ?_, ?_⟩
  · have above := (mem_pruneEvents.mp kept).2 bound resolved
    omega
  · obtain ⟨rowsLeft, found, cut⟩ := Option.bind_eq_some_iff.mp resolved
    split at cut
    · cases cut
    · cases cut
      obtain ⟨below, old⟩ := daysBound_spec held under
      obtain ⟨requested, retained⟩ := rowsBound_spec found below
      exact ⟨requested, retained, fun on => early on r.ts (old on)⟩

/-- A journal with one row of the given time. -/
def oneRow (ts : Nat) : Journal where
  counter := some 1
  rows := ⟨[{ seq := 1, ts := ts, op := .create, issueId := "bd-1" }], by simp⟩

/-- A row before the cutoff goes when it is below the requested bound. -/
theorem old_of_respectsFloors {ts : Nat} {retainDays now : Int}
    (respects : (oneRow ts).RespectsFloors { before := 2, retainDays, retainRows := 0, now })
    (on : 0 < retainDays)
    (old : (ts : Int) < eventsPruneCutoff retainDays now) :
    (ts : Int) < now - 86400 * retainDays := by
  have none : (oneRow ts).daysFloor (eventsPruneCutoff retainDays now) = none := by
    have unfloored : ¬ eventsPruneCutoff retainDays now ≤ (ts : Int) := by omega
    simp [daysFloor, inOrder, oneRow, unfloored]
  have bound : (oneRow ts).computeEventsPruneWhere { before := 2, retainDays, now } = some 2 := by
    simp [computeEventsPruneWhere, rowsBound, daysBound, none]
  refine (respects.2 _ List.mem_cons_self fun kept => ?_).2.2.2 on
  have above : (2 : Int) ≤ 1 := (mem_pruneEvents.mp kept).2 2 bound
  omega

/-- Prunes with a floor on days respect their floors exactly if the days lead to a
time that can be written, or wrap round to one before every row. -/
theorem pruneEvents_respects_floors_iff (retainDays now : Int)
    (dated : IsInt64 (now + unixToInternal)) :
    (∀ (j : Journal) (before retainRows : Int), j.RespectsFloors { before, retainDays, retainRows, now }) ↔
      (0 < retainDays → IsInt64 (now + unixToInternal - 86400 * retainDays) ∨
        wrap64 (now + unixToInternal - 86400 * retainDays) ≤ unixToInternal) := by
  have cutoff := eventsPruneCutoff_eq retainDays now
  constructor
  · intro respects on
    by_contra neither
    push Not at neither
    have young : ¬ (0 : Int) < now - 86400 * retainDays := by
      have wraps := neither.1
      unfold IsInt64 at wraps dated
      unfold unixToInternal at wraps dated
      omega
    have late : ((0 : Nat) : Int) < eventsPruneCutoff retainDays now := by
      rw [cutoff]
      exact Int.sub_pos_of_lt neither.2
    exact young (old_of_respectsFloors (respects (oneRow 0) 2 0) on late)
  · intro fits j before retainRows
    apply respectsFloors_of_cutoff
    intro on ts old
    dsimp only at old ⊢
    rcases fits on with fits | early
    · rw [cutoff, wrap64_of_isInt64 fits] at old
      omega
    · omega

/-- A floor of a year, on the first day of 2026. -/
theorem pruneEvents_respects_floors_iff_year :
    IsInt64 (1767268800 + unixToInternal) ∧
      (oneRow 1704110400).RespectsFloors { before := 2, retainDays := 365, retainRows := 0, now := 1767268800 } :=
  ⟨by decide, (pruneEvents_respects_floors_iff 365 1767268800 (by decide)).mpr (fun _ => .inl (by decide)) _ 2 0⟩

/-- The days wrap round to a time in seven hours, and a row that is ten seconds old goes. -/
theorem pruneEvents_crosses_floor : ¬ (oneRow 1767268790).RespectsFloors
    { before := 2, retainDays := 213503982334601, retainRows := 0, now := 1767268800 } := by
  intro respects
  have old := old_of_respectsFloors respects (by decide) (by decide +kernel)
  revert old
  decide

end Journal
end Beads
