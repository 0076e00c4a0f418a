import Beads.JournalOrderProofs

/-! Resuming over the holes of a journal. A restored or partially copied table may have
any number of holes. A read that meets one is refused as a whole, with the hole; the
rows before the hole are servable, but they are handed over only to a reader that asks
for them by themselves, with a limit that stops at the hole, before it takes the gap. -/
namespace Beads
open Lib

namespace Consumer

/-- A read; with `drains` a reader that is told of a hole behind its checkpoint first
asks for the rows up to it, and then resumes right before the floor. -/
def resume (c : Consumer) (limit : Int) (drains : Bool) (j : Journal) : Consumer :=
  match j.readEvents c.checkpoint limit with
  | .ok _ => c.read limit j
  | .error truncated =>
    if drains = true ∧ c.checkpoint < truncated.since then
      let drained := c.read (truncated.since - c.checkpoint : Nat) j
      { drained with checkpoint := truncated.floor - 1, reported := drained.reported ++ [truncated] }
    else c.read limit j

/-- The reader after a number of reads, from a checkpoint, with the limit of each read
and whether it drains. -/
def tail (j : Journal) (plan : Nat → Int × Bool) (start : Nat) : Nat → Consumer
  | 0 => { checkpoint := start }
  | n + 1 => (tail j plan start n).resume (plan n).1 (plan n).2 j

/-- The read was refused for a hole, and the reader has passed over the number, which is
behind its checkpoint and before the hole. -/
def Skips (j : Journal) (plan : Nat → Int × Bool) (start k seq : Nat) : Prop :=
  (plan k).2 = false ∧ ∃ truncated, j.readEvents (tail j plan start k).checkpoint (plan k).1 = .error truncated ∧
    (tail j plan start k).checkpoint < seq ∧ seq ≤ truncated.since

end Consumer

namespace Journal
variable {j : Journal} {since : Nat} {limit : Int}

/-! ## Batches and holes -/

/-- Before the first gap the numbers follow each other. -/
theorem of_firstEventsSeqGap {first : JournalRow} {rest : List JournalRow} {a b : JournalRow}
    (gap : firstEventsSeqGap (first :: rest) = some (a, b)) :
    ∃ front back, first :: rest = front ++ b :: back ∧ front.getLast? = some a ∧ b.seq ≠ a.seq + 1 ∧
      front.map JournalRow.seq = List.range' first.seq front.length := by
  induction rest generalizing first with
  | nil => cases gap
  | cons second rest ih =>
    rw [firstEventsSeqGap] at gap
    split at gap
    · next apart =>
      cases gap
      exact ⟨[a], rest, rfl, rfl, apart, by simp⟩
    · next follows =>
      obtain ⟨front, back, same, last, apart, numbers⟩ := ih gap
      refine ⟨first :: front, back, by simp [same], ?_, apart, ?_⟩
      · cases front with
        | nil => cases last
        | cons _ _ => simpa using last
      · simp only [ne_eq, not_not] at follows
        simp [numbers, follows, List.range'_succ]

/-- A batch without a gap is an interval. -/
theorem of_no_gap {first : JournalRow} {rest : List JournalRow}
    (none : firstEventsSeqGap (first :: rest) = none) :
    (first :: rest).map JournalRow.seq = List.range' first.seq (rest.length + 1) := by
  induction rest generalizing first with
  | nil => rfl
  | cons second rest ih =>
    rw [firstEventsSeqGap] at none
    split at none
    · cases none
    · next follows =>
      simp only [ne_eq, not_not] at follows
      have numbers := ih none
      rw [List.map_cons, numbers, follows, List.length_cons, List.range'_succ (s := first.seq)]

/-- The rows after a checkpoint. -/
def after (j : Journal) (since : Nat) : List JournalRow := j.inOrder.filter fun r => since < r.seq

theorem mem_after {r : JournalRow} : r ∈ j.after since ↔ r ∈ j.rows ∧ since < r.seq := by
  simp [after, mem_inOrder]

theorem after_increasing : (j.after since).Pairwise fun a b => a.seq < b.seq :=
  inOrder_increasing.sublist List.filter_sublist

theorem readEventsRows_eq : j.readEventsRows since limit =
    if 0 < limit then (j.after since).take limit.toNat else j.after since := rfl

/-- A batch is a first part of the rows after the checkpoint, and has one if there is
one. -/
theorem readEventsRows_prefix (j : Journal) (since : Nat) (limit : Int) :
    ∃ rest, j.after since = j.readEventsRows since limit ++ rest ∧
      (j.readEventsRows since limit = [] → rest = []) := by
  rw [readEventsRows_eq]
  split
  · next positive =>
    refine ⟨(j.after since).drop limit.toNat, (List.take_append_drop _ _).symm, fun none => ?_⟩
    rcases List.take_eq_nil_iff.mp none with zero | empty
    · omega
    · simp [empty]
  · exact ⟨[], by simp, fun _ => rfl⟩

/-- Two rows that stand next to each other have no row between them. -/
theorem no_row_between {front back : List JournalRow} {a b : JournalRow}
    (shape : j.after since = front ++ b :: back)
    (last : front.getLast? = some a) {r : JournalRow} (held : r ∈ j.rows) (above : a.seq < r.seq) :
    b.seq ≤ r.seq := by
  have sorted : (front ++ b :: back).Pairwise fun a b => a.seq < b.seq := shape ▸ after_increasing
  have lower : since < a.seq :=
    (mem_after.mp (shape ▸ List.mem_append_left _ (List.mem_of_mem_getLast? last))).2
  have listed : r ∈ front ++ b :: back := shape ▸ mem_after.mpr ⟨held, by omega⟩
  rcases List.mem_append.mp listed with early | late
  · obtain ⟨init, rfl⟩ := List.getLast?_eq_some_iff.mp last
    rcases List.mem_append.mp early with before | here
    · have less :=
        (List.pairwise_append.mp (List.pairwise_append.mp sorted).1).2.2 r before a (by simp)
      omega
    · simp only [List.mem_singleton] at here
      subst here
      omega
  · rcases List.mem_cons.mp late with rfl | later
    · exact le_rfl
    · exact ((List.pairwise_cons.mp (List.pairwise_append.mp sorted).2.1).1 r later).le

/-! ## What a read answers -/

theorem readEvents_eq : j.readEvents since limit =
    match computeEventsTruncation since (j.readEventsRows since limit) j.head with
    | some truncated => .error truncated
    | none => .ok (j.readEventsRows since limit) := rfl

/-- The rows of an accepted read continue the checkpoint without a hole; without rows
the reader has caught up. -/
theorem of_readEvents_ok {rows : List JournalRow} (accepted : j.readEvents since limit = .ok rows) :
    rows.map JournalRow.seq = List.range' (since + 1) rows.length ∧ (∀ r ∈ rows, r ∈ j.rows) ∧
      (∀ r ∈ j.rows, since < r.seq → r.seq ≤ since + rows.length → r ∈ rows) ∧
      (rows = [] → j.head ≤ since ∧ ∀ r ∈ j.rows, r.seq ≤ since) := by
  obtain ⟨rest, shape, exhausted⟩ := readEventsRows_prefix j since limit
  rw [readEvents_eq] at accepted
  generalize j.readEventsRows since limit = batch at *
  split at accepted
  · cases accepted
  · next fine =>
    cases accepted
    have numbers : rows.map JournalRow.seq = List.range' (since + 1) rows.length := by
      cases rows with
      | nil => rfl
      | cons first more =>
        simp only [computeEventsTruncation, ne_eq, ite_not] at fine
        split at fine
        · next start =>
          rw [of_no_gap (Option.map_eq_none_iff.mp fine), start, List.length_cons]
        · cases fine
    have stored : ∀ r ∈ rows, r ∈ j.rows := fun r listed =>
      (mem_after.mp (shape ▸ List.mem_append_left _ listed)).1
    refine ⟨numbers, stored, fun r held above below => ?_, fun none => ?_⟩
    · have counted : r.seq ∈ rows.map JournalRow.seq := by
        rw [numbers, List.mem_range'_1]
        omega
      obtain ⟨r', listed, same⟩ := List.mem_map.mp counted
      rwa [← Table.eq_of_key (stored r' listed) held same]
    · subst none
      simp only [computeEventsTruncation, ite_eq_left_iff, not_le, reduceCtorEq, imp_false,
        not_lt] at fine
      refine ⟨fine, fun r held => ?_⟩
      by_contra above
      have listed : r ∈ j.after since := mem_after.mpr ⟨held, by omega⟩
      rw [shape, exhausted rfl] at listed
      cases listed

/-- The numbers that an accepted read moves over are all there. -/
theorem exists_row_of_ok {rows : List JournalRow} (accepted : j.readEvents since limit = .ok rows)
    {seq : Nat}
    (above : since < seq) (below : seq ≤ since + rows.length) : ∃ r ∈ j.rows, r.seq = seq := by
  obtain ⟨numbers, stored, -⟩ := of_readEvents_ok accepted
  have counted : seq ∈ rows.map JournalRow.seq := by
    rw [numbers, List.mem_range'_1]
    omega
  obtain ⟨r, listed, same⟩ := List.mem_map.mp counted
  exact ⟨r, stored r listed, same⟩

/-- A read that is refused names a hole at or behind the checkpoint, and the rows before
the hole can be asked for. -/
theorem of_readEvents_error {truncated : Truncated}
    (refused : j.readEvents since limit = .error truncated) :
    since ≤ truncated.since ∧ truncated.since + 1 < truncated.floor ∧
      (∀ r ∈ j.rows, truncated.since < r.seq → truncated.floor ≤ r.seq) ∧
      (since < truncated.since → ∃ rows, j.readEvents since (truncated.since - since : Nat) = .ok rows ∧
        rows.length = truncated.since - since) := by
  obtain ⟨rest, shape, exhausted⟩ := readEventsRows_prefix j since limit
  rw [readEvents_eq] at refused
  generalize j.readEventsRows since limit = batch at *
  split at refused
  · next reported =>
    cases refused
    cases batch with
    | nil =>
      -- Nothing is left after the checkpoint, up to the head.
      simp only [computeEventsTruncation] at reported
      split at reported
      · cases reported
      · cases reported
        refine ⟨le_rfl, by simp only; omega, fun r held above => ?_, by simp⟩
        have listed : r ∈ j.after since := mem_after.mpr ⟨held, above⟩
        rw [shape, exhausted rfl] at listed
        cases listed
    | cons first more =>
      have lower : since < first.seq := by
        have listed : first ∈ j.after since := by simp [shape]
        exact (mem_after.mp listed).2
      simp only [computeEventsTruncation] at reported
      split at reported
      · -- The rows start above the checkpoint.
        cases reported
        refine ⟨le_rfl, by simp only; omega, fun r held above => ?_, by simp⟩
        have listed : r ∈ first :: (more ++ rest) := by
          have here := mem_after.mpr ⟨held, above⟩
          rwa [shape] at here
        have sorted : (first :: (more ++ rest)).Pairwise fun a b => a.seq < b.seq := by
          have increasing : (j.after since).Pairwise fun a b => a.seq < b.seq := after_increasing
          rwa [shape] at increasing
        rcases List.mem_cons.mp listed with rfl | later
        · exact le_rfl
        · exact ((List.pairwise_cons.mp sorted).1 r later).le
      · next start =>
        -- The batch itself has a hole.
        simp only [ne_eq, not_not] at start
        obtain ⟨⟨a, b⟩, gap, rfl⟩ := Option.map_eq_some_iff.mp reported
        obtain ⟨front, back, parts, last, apart, numbers⟩ := of_firstEventsSeqGap gap
        obtain ⟨init, rfl⟩ := List.getLast?_eq_some_iff.mp last
        have whole : j.after since = (init ++ [a]) ++ b :: (back ++ rest) := by simp [shape, parts]
        have number : a.seq = since + (init.length + 1) := by
          rw [start, List.length_append, List.length_singleton, List.range'_concat,
            List.map_append] at numbers
          have same := (List.append_inj numbers (by simp)).2
          simp only [List.map_cons, List.map_nil, List.cons.injEq, and_true] at same
          omega
        have between : a.seq < b.seq := by
          have increasing : (j.after since).Pairwise fun a b => a.seq < b.seq := after_increasing
          rw [whole] at increasing
          exact (List.pairwise_append.mp increasing).2.2 a (by simp) b (by simp)
        refine ⟨by simp only; omega, by simp only; omega,
          fun r held => no_row_between whole (by simp) held, fun _ => ?_⟩
        have served : j.readEventsRows since (a.seq - since : Nat) = init ++ [a] := by
          rw [readEventsRows_eq, whole, if_pos (by omega), Int.toNat_natCast]
          exact List.take_left' (by simp; omega)
        refine ⟨init ++ [a], ?_, by simp; omega⟩
        have fine : computeEventsTruncation since (init ++ [a]) j.head = none := by
          have none := no_gap numbers
          cases init with
          | nil =>
            simp only [List.nil_append, List.length_nil] at number none ⊢
            simp [computeEventsTruncation, none, number]
          | cons c init =>
            have here : c = first := by simpa using (List.cons.inj parts).1.symm
            subst here
            simpa [computeEventsTruncation, start] using none
        simp only [readEvents_eq, served, fine]
  · cases refused

/-- The highest number that a reader has to get past. -/
def top (j : Journal) : Nat := max j.head j.highWater

/-- The checkpoint has nothing behind it, neither a row nor a number that was drawn. -/
def CaughtUp (j : Journal) (checkpoint : Nat) : Prop :=
  j.head ≤ checkpoint ∧ ∀ r ∈ j.rows, r.seq ≤ checkpoint

private theorem caughtUp_of_top {checkpoint : Nat} (past : j.top ≤ checkpoint) :
    j.CaughtUp checkpoint := by
  refine ⟨(le_max_left _ _).trans past, fun r held => ?_⟩
  exact (le_highWater held).trans ((le_max_right _ _).trans past)

end Journal

/-! ## Runs of reads -/

/-- A reader that started at the checkpoint has been given every row up to its own one,
but for the ones it skips, and has been told of every number that is missing there. -/
structure Consumer.Informed (j : Journal) (start : Nat) (skips : Nat → Prop) (c : Consumer) :
    Prop where
  le : start ≤ c.checkpoint
  rows : ∀ r ∈ j.rows, start < r.seq → r.seq ≤ c.checkpoint → r ∈ c.delivered ∨ skips r.seq
  missing : ∀ seq, start < seq → seq ≤ c.checkpoint → (∀ r ∈ j.rows, r.seq ≠ seq) →
    ∃ truncated ∈ c.reported, truncated.since < seq ∧ seq < truncated.floor

namespace Consumer
variable {j : Journal} {start : Nat} {skips skips' : Nat → Prop} {c : Consumer} {limit : Int}

theorem Informed.mono (informed : Informed j start skips c)
    (weaker : ∀ seq, skips seq → skips' seq) :
    Informed j start skips' c :=
  ⟨informed.le, fun r held above below => (informed.rows r held above below).imp_right (weaker _), informed.missing⟩

/-- An accepted read moves the checkpoint over the rows it gives. -/
theorem read_of_ok {rows : List JournalRow}
    (accepted : j.readEvents c.checkpoint limit = .ok rows) :
    (c.read limit j).checkpoint = c.checkpoint + rows.length ∧
      (c.read limit j).delivered = c.delivered ++ rows ∧
        (c.read limit j).reported = c.reported := by
  obtain ⟨numbers, -⟩ := Journal.of_readEvents_ok accepted
  simp only [read, accepted, and_self, and_true]
  rw [← List.getLast?_map, numbers]
  cases rows.length with
  | zero => simp
  | succ count => simp [List.range'_concat]; omega

private theorem Informed.read_ok (informed : Informed j start skips c) {rows : List JournalRow}
    (accepted : j.readEvents c.checkpoint limit = .ok rows) :
    Informed j start skips (c.read limit j) := by
  obtain ⟨-, -, given, -⟩ := Journal.of_readEvents_ok accepted
  obtain ⟨moved, delivered, reported⟩ := read_of_ok accepted
  constructor
  · have := informed.le
    omega
  · intro r held above below
    rw [delivered, List.mem_append]
    by_cases old : r.seq ≤ c.checkpoint
    · exact (informed.rows r held above old).imp_left Or.inl
    · exact Or.inl (Or.inr (given r held (by omega) (by omega)))
  · intro seq above below none
    rw [reported]
    by_cases old : seq ≤ c.checkpoint
    · exact informed.missing seq above old none
    · obtain ⟨r, held, same⟩ : ∃ r ∈ j.rows, r.seq = seq :=
        Journal.exists_row_of_ok accepted (by omega) (by omega)
      exact absurd same (none r held)

/-- A reader at the edge of a hole takes it. -/
theorem Informed.take (informed : Informed j start skips c) (truncated : Truncated)
    (edge : c.checkpoint = truncated.since)
    (hole : ∀ r ∈ j.rows, truncated.since < r.seq → truncated.floor ≤ r.seq)
    (wide : truncated.since + 1 < truncated.floor) :
    Informed j start skips
      { c with checkpoint := truncated.floor - 1, reported := c.reported ++ [truncated] } := by
  constructor
  · have := informed.le
    simp only
    omega
  · intro r held above below
    by_cases old : r.seq ≤ c.checkpoint
    · exact informed.rows r held above old
    · have := hole r held (by omega)
      simp only at below
      omega
  · intro seq above below none
    simp only [List.mem_append, List.mem_singleton]
    by_cases old : seq ≤ c.checkpoint
    · obtain ⟨t, listed, inside⟩ := informed.missing seq above old none
      exact ⟨t, Or.inl listed, inside⟩
    · simp only at below
      exact ⟨truncated, Or.inr rfl, by omega, by omega⟩

/-- A reader may be put at a later checkpoint if it skips the rows in between, and
nothing is missing there. -/
theorem Informed.skip (informed : Informed j start skips c) {to_ : Nat} (le : c.checkpoint ≤ to_)
    (full : ∀ seq, c.checkpoint < seq → seq ≤ to_ → ∃ r ∈ j.rows, r.seq = seq) :
    Informed j start (fun seq => skips seq ∨
      (c.checkpoint < seq ∧ seq ≤ to_)) { c with checkpoint := to_ } := by
  constructor
  · have := informed.le
    simp only
    omega
  · intro r held above below
    by_cases old : r.seq ≤ c.checkpoint
    · exact (informed.rows r held above old).imp_right Or.inl
    · exact Or.inr (Or.inr ⟨by omega, below⟩)
  · intro seq above below none
    by_cases old : seq ≤ c.checkpoint
    · exact informed.missing seq above old none
    · obtain ⟨r, held, same⟩ := full seq (by omega) below
      exact absurd same (none r held)

/-- A read keeps the reader informed, apart from what it skips. -/
theorem Informed.resume (informed : Informed j start skips c) (limit : Int) (drains : Bool) :
    Informed j start (fun seq => skips seq ∨ (drains = false ∧ ∃ truncated,
      j.readEvents c.checkpoint limit = .error truncated ∧ c.checkpoint < seq ∧
        seq ≤ truncated.since))
      (c.resume limit drains j) := by
  unfold Consumer.resume
  split
  · next accepted => exact (informed.read_ok accepted).mono fun _ => Or.inl
  · next truncated refused =>
    obtain ⟨le, wide, hole, servable⟩ := Journal.of_readEvents_error refused
    split
    · next drain =>
      obtain ⟨rows, accepted, length⟩ := servable drain.2
      obtain ⟨moved, -, -⟩ := read_of_ok accepted
      have drained := (informed.read_ok accepted).take truncated (by omega) hole wide
      exact drained.mono fun _ => Or.inl
    · next straight =>
      have full : ∀ seq, c.checkpoint < seq → seq ≤ truncated.since → ∃ r ∈ j.rows, r.seq = seq := by
        intro seq above below
        obtain ⟨rows, accepted, length⟩ := servable (by omega)
        exact Journal.exists_row_of_ok accepted above (by omega)
      have taken := (informed.skip le full).take truncated rfl hole wide
      have same : c.read limit j =
          { c with checkpoint := truncated.floor - 1, reported := c.reported ++ [truncated] } := by
        simp only [read, refused]
      rw [same]
      refine taken.mono fun seq => Or.imp_right fun inside => ?_
      refine ⟨?_, truncated, refused, inside⟩
      by_contra on
      exact straight ⟨by simpa using on, by omega⟩

/-- A read moves the checkpoint on, unless the reader has caught up. -/
theorem resume_moves (c : Consumer) (limit : Int) (drains : Bool) :
    c.checkpoint ≤ (c.resume limit drains j).checkpoint ∧
      (j.CaughtUp c.checkpoint ∨ c.checkpoint < (c.resume limit drains j).checkpoint) := by
  unfold Consumer.resume
  split
  · next rows accepted =>
    obtain ⟨-, -, -, caught⟩ := Journal.of_readEvents_ok accepted
    obtain ⟨moved, -, -⟩ := read_of_ok accepted
    refine ⟨by omega, ?_⟩
    cases rows with
    | nil => exact Or.inl (caught rfl)
    | cons first rest =>
      rw [List.length_cons] at moved
      exact Or.inr (by omega)
  · next truncated refused =>
    obtain ⟨le, wide, -⟩ := Journal.of_readEvents_error refused
    split
    · simp only
      omega
    · simp only [read, refused]
      omega

section Run
variable (j : Journal) (plan : Nat → Int × Bool) (start : Nat)

private theorem tail_informed (n : Nat) :
    Informed j start (fun seq => ∃ k < n, Skips j plan start k seq) (tail j plan start n) := by
  induction n with
  | zero =>
    constructor
    · exact le_rfl
    · intro r _ above below
      exact absurd below (by simp only [tail]; omega)
    · intro seq above below
      exact absurd below (by simp only [tail]; omega)
  | succ n ih =>
    refine (ih.resume (plan n).1 (plan n).2).mono fun seq => ?_
    rintro (⟨k, less, skips⟩ | skips)
    · exact ⟨k, by omega, skips⟩
    · exact ⟨n, by omega, skips⟩

private theorem tail_mono {n m : Nat} (le : n ≤ m) :
    (tail j plan start n).checkpoint ≤ (tail j plan start m).checkpoint := by
  induction m, le using Nat.le_induction with
  | base => exact le_rfl
  | succ m _ ih => exact ih.trans (resume_moves _ _ _).1

/-- Sooner or later the reader has caught up. -/
theorem tail_caughtUp : ∃ n, j.CaughtUp (tail j plan start n).checkpoint := by
  by_contra never
  have moves : ∀ n, start + n ≤ (tail j plan start n).checkpoint := by
    intro n
    induction n with
    | zero => simp [tail]
    | succ n ih =>
      rcases (resume_moves (j := j) (tail j plan start n) (plan n).1 (plan n).2).2 with
        caught | moved
      · exact absurd ⟨n, caught⟩ never
      · rw [tail]
        omega
  exact never ⟨j.top, Journal.caughtUp_of_top (by have := moves j.top; omega)⟩

end Run
end Consumer

/-- Over any journal, a reader that resumes right before the floor of every truncation
is given every row after its first checkpoint, but for the rows before a hole that it
has not drained, and is told of every number up to the head that is missing. -/
theorem tail_receives (j : Journal) (start : Nat) (plan : Nat → Int × Bool) :
    ∃ reads, ∀ n, reads ≤ n →
      (∀ r ∈ j.rows, start < r.seq →
        r ∈ (Consumer.tail j plan start n).delivered ∨
          ∃ k < n, Consumer.Skips j plan start k r.seq) ∧
      ∀ seq, start < seq → seq ≤ j.head → (∀ r ∈ j.rows, r.seq ≠ seq) →
        ∃ truncated ∈ (Consumer.tail j plan start n).reported, truncated.since < seq ∧
          seq < truncated.floor := by
  obtain ⟨reads, caught⟩ := Consumer.tail_caughtUp j plan start
  refine ⟨reads, fun n le => ?_⟩
  have informed := Consumer.tail_informed j plan start n
  have further := Consumer.tail_mono j plan start le
  constructor
  · exact fun r held above => informed.rows r held above ((caught.2 r held).trans further)
  · exact fun seq above below => informed.missing seq above ((below.trans caught.1).trans further)

/-- A table that was copied without its second row. -/
def copied : Journal where
  counter := some 3
  rows := ⟨[⟨{ op := .create, issueId := "bd-1" }, 1, 0⟩, ⟨{ op := .close, issueId := "bd-1" }, 3, 0⟩], by decide⟩

/-- Without draining, the first row of the table is never handed over: it stands before
a hole that its batch is refused for. -/
theorem copied_loses_row : ¬ ∃ n, ∀ r ∈ copied.rows, 0 < r.seq →
    r ∈ (Consumer.tail copied (fun _ => (0, false)) 0 n).delivered := by
  let first : JournalRow := ⟨{ op := .create, issueId := "bd-1" }, 1, 0⟩
  have later : ∀ n, (Consumer.tail copied (fun _ => (0, false)) 0 (n + 2)) =
      { checkpoint := 3, delivered := [⟨{ op := .close, issueId := "bd-1" }, 3, 0⟩], reported := [⟨1, 3, 3⟩] } := by
    intro n
    induction n with
    | zero => rfl
    | succ n ih =>
      rw [Consumer.tail, ih]
      rfl
  rintro ⟨n, all⟩
  have given : first ∈ (Consumer.tail copied (fun _ => (0, false)) 0 n).delivered :=
    all first (by decide) (by decide)
  match n with
  | 0 => exact absurd given (by decide)
  | 1 => exact absurd given (by decide)
  | n + 2 =>
    rw [later] at given
    exact absurd given (by decide)

end Beads
