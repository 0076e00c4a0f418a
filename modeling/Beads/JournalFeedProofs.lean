import Beads.JournalFeed

/-! The journal keeps an interval of numbers that ends at its counter. Appends
extend it at the top, prunes cut it at the bottom, and a commit merges two such
changes; a consumer that reads from its checkpoint is given the numbers after it
one by one, or is told which of them are gone. -/
namespace Beads
open Lib Relation

private theorem eq_range_of_increasing {l : List Nat} {low high : Nat}
    (increasing : l.Pairwise (· < ·))
    (members : ∀ n, n ∈ l ↔ low < n ∧ n ≤ high) : l = List.range' (low + 1) (high - low) := by
  have same : l.Perm (List.range' (low + 1) (high - low)) := by
    refine (List.perm_ext_iff_of_nodup (increasing.imp Nat.ne_of_lt) List.nodup_range').mpr fun
      n => ?_
    rw [members, List.mem_range'_1]
    omega
  exact same.eq_of_pairwise (fun a b _ _ less more => absurd (less.trans more) (Nat.lt_irrefl a))
    increasing List.pairwise_lt_range'

namespace Journal
variable {j next : Journal} {low : Nat}

/-- The rows are those with a number above `low`, up to the counter. -/
structure Contiguous (j : Journal) (low : Nat) : Prop where
  le : low ≤ j.head
  rows : ∀ n, (∃ r ∈ j.rows, r.seq = n) ↔ low < n ∧ n ≤ j.head

namespace Contiguous

theorem bounds (retained : Contiguous j low) {r : JournalRow} (held : r ∈ j.rows) :
    low < r.seq ∧ r.seq ≤ j.head :=
  (retained.rows r.seq).mp ⟨r, held, rfl⟩

private theorem find?_eq_none (retained : Contiguous j low) {n : Nat}
    (out : ¬ (low < n ∧ n ≤ j.head)) :
    j.rows.find? n = none :=
  Table.find?_eq_none.mpr fun r held same => out ((retained.rows n).mp ⟨r, held, same⟩)

private theorem find?_ne_none (retained : Contiguous j low) {n : Nat}
    (inside : low < n ∧ n ≤ j.head) :
    j.rows.find? n ≠ none := by
  obtain ⟨r, held, same⟩ := (retained.rows n).mpr inside
  exact fun none => Table.find?_eq_none.mp none r held same

/-! ## Statements -/

private theorem highWater_le (retained : Contiguous j low) : j.highWater ≤ j.head := by
  have bounded : ∀ n ∈ j.rows.rows.map JournalRow.seq, n ≤ j.head := by
    intro n inside
    obtain ⟨r, held, rfl⟩ := List.mem_map.mp inside
    exact (retained.bounds held).2
  unfold highWater
  generalize j.rows.rows.map JournalRow.seq = numbers at bounded
  induction numbers with
  | nil => exact Nat.zero_le _
  | cons n rest ih =>
    rw [List.foldr_cons]
    exact max_le (bounded n List.mem_cons_self)
      (ih fun m held => bounded m (List.mem_cons_of_mem n held))

theorem nextEventSeq_eq (retained : Contiguous j low) : j.nextEventSeq = j.head + 1 := by
  have high := retained.highWater_le
  unfold nextEventSeq head at *
  cases counter : j.counter with
  | some n => rfl
  | none =>
    rw [counter] at high
    simp only [Option.getD_none] at high ⊢
    omega

theorem fresh (retained : Contiguous j low) : ∀ r ∈ j.rows, r.seq ≠ j.nextEventSeq := by
  intro r held
  have := retained.bounds held
  rw [retained.nextEventSeq_eq]
  omega

/-- An event is written under the next number. -/
theorem insertEventRow (retained : Contiguous j low) {now : Nat → Nat} {e : Event}
    (inserted : j.insertEventRow now e = .ok next) :
    Contiguous next low ∧ next.head = j.head + 1 ∧ ∀ r ∈ next.rows, r.seq ≤ j.head →
      r ∈ j.rows := by
  have fresh := retained.fresh
  rw [Journal.insertEventRow, tryInsert, dif_pos fresh] at inserted
  obtain rfl := Except.ok.inj inserted
  have head : head ⟨some j.nextEventSeq,
      j.rows.insert ⟨e, j.nextEventSeq, now j.nextEventSeq⟩ fresh⟩ = j.head + 1 :=
    retained.nextEventSeq_eq
  refine ⟨⟨?_, fun n => ?_⟩, head, fun r held old => ?_⟩
  · rw [head]
    exact retained.le.trans (Nat.le_succ _)
  · rw [head]
    simp only [Table.mem_insert]
    constructor
    · rintro ⟨r, held | rfl, rfl⟩
      · have := retained.bounds held
        omega
      · have := retained.le
        simp only [retained.nextEventSeq_eq]
        omega
    · rintro ⟨above, below⟩
      by_cases top : n = j.head + 1
      · exact ⟨_, Or.inr rfl, by rw [top]; exact retained.nextEventSeq_eq⟩
      · obtain ⟨r, held, same⟩ := (retained.rows n).mpr ⟨above, by omega⟩
        exact ⟨r, Or.inl held, same⟩
  · simp only [Table.mem_insert] at held
    rcases held with there | rfl
    · exact there
    · have taken : j.nextEventSeq ≤ j.head := old
      rw [retained.nextEventSeq_eq] at taken
      omega

/-- Deleting rows from the bottom up leaves an interval. -/
theorem deletePrefix (retained : Contiguous j low) {p : JournalRow → Prop} [DecidablePred p]
    (bottom : ∀ r ∈ j.rows, ∀ r' ∈ j.rows, p r → r'.seq ≤ r.seq → p r') :
    ∃ low', low ≤ low' ∧ Contiguous { j with rows := j.rows.delete p } low' := by
  -- The new bottom is the least number above which no row is deleted.
  have exist : ∃ n, low ≤ n ∧ ∀ r ∈ j.rows, n < r.seq → ¬ p r :=
    ⟨j.head, retained.le, fun r held above => absurd (retained.bounds held).2 (Nat.not_le.mpr above)⟩
  classical
  let low' := Nat.find exist
  obtain ⟨lower, kept⟩ := Nat.find_spec exist
  have gone : ∀ r ∈ j.rows, r.seq ≤ low' → p r := by
    intro r held under
    by_contra stays
    have bounds := retained.bounds held
    refine Nat.find_min exist (m := r.seq - 1) (by omega)
      ⟨by omega, fun r' held' above deleted => ?_⟩
    exact stays (bottom r' held' r held deleted (by omega))
  have under : low' ≤ j.head := Nat.find_min' exist
    ⟨retained.le, fun r held above => absurd (retained.bounds held).2 (Nat.not_le.mpr above)⟩
  refine ⟨low', lower, under, fun n => ?_⟩
  simp only [Table.mem_delete]
  constructor
  · rintro ⟨r, ⟨held, stays⟩, rfl⟩
    refine ⟨?_, (retained.bounds held).2⟩
    by_contra below
    exact stays (gone r held (Nat.not_lt.mp below))
  · rintro ⟨above, below⟩
    obtain ⟨r, held, rfl⟩ := (retained.rows n).mpr ⟨lower.trans_lt above, below⟩
    exact ⟨r, ⟨held, kept r held above⟩, rfl⟩

end Contiguous

/-- The rows in order have increasing numbers. -/
theorem inOrder_increasing : j.inOrder.Pairwise fun a b => a.seq < b.seq := by
  have order : j.inOrder.Pairwise fun a b => a.seq ≤ b.seq :=
    haveI : Std.Total fun a b : JournalRow => a.seq ≤ b.seq := ⟨fun a b => Nat.le_total a.seq b.seq⟩
    haveI : IsTrans JournalRow fun a b => a.seq ≤ b.seq := ⟨fun _ _ _ => Nat.le_trans⟩
    List.pairwise_insertionSort _ _
  have distinct : (j.inOrder.map JournalRow.seq).Nodup :=
    ((List.perm_insertionSort ..).map JournalRow.seq).nodup_iff.mpr j.rows.distinct
  exact (order.and (List.pairwise_map.mp distinct)).imp fun both => lt_of_le_of_ne both.1 both.2

theorem mem_inOrder {r : JournalRow} : r ∈ j.inOrder ↔ r ∈ j.rows :=
  (List.perm_insertionSort ..).mem_iff

/-- A statement extends the interval at the top or cuts it at the bottom, and changes
no row that it keeps. -/
theorem statement_contiguous (retained : Contiguous j low) {statement : JournalStatement}
    (accepted : statement.run j = .ok next) :
    ∃ low', low ≤ low' ∧ Contiguous next low' ∧ j.head ≤ next.head ∧
      ∀ r ∈ next.rows, r.seq ≤ j.head → r ∈ j.rows := by
  have cut : ∀ {p : JournalRow → Prop} [DecidablePred p],
      (∀ r ∈ j.rows, ∀ r' ∈ j.rows, p r → r'.seq ≤ r.seq → p r') →
      ∃ low', low ≤ low' ∧ Contiguous { j with rows := j.rows.delete p } low' ∧
        j.head ≤ head { j with rows := j.rows.delete p } ∧
          ∀ r ∈ j.rows.delete p, r.seq ≤ j.head → r ∈ j.rows := by
    intro p _ bottom
    obtain ⟨low', lower, rest⟩ := retained.deletePrefix bottom
    exact ⟨low', lower, rest, le_rfl, fun r held _ => (Table.mem_delete.mp held).1⟩
  cases statement with
  | append now e =>
    obtain ⟨grown, head, kept⟩ := retained.insertEventRow accepted
    exact ⟨low, le_rfl, grown, by omega, kept⟩
  | prune request =>
    obtain rfl := Except.ok.inj accepted
    unfold pruneEvents
    split
    · exact ⟨low, le_rfl, retained, le_rfl, fun r held _ => held⟩
    · exact cut fun r _ r' _ below le => by omega
  | pruneBatch bound limit =>
    obtain rfl := Except.ok.inj accepted
    refine cut fun r _ r' held' taken le => ?_
    let below := j.inOrder.filter fun r => (r.seq : Int) < bound
    have sorted : (below.take limit ++ below.drop limit).Pairwise fun a b => a.seq < b.seq := by
      rw [List.take_append_drop]
      exact inOrder_increasing.sublist List.filter_sublist
    have small : (r.seq : Int) < bound := by
      simpa using (List.mem_filter.mp (List.mem_of_mem_take taken)).2
    have inside : r' ∈ below.take limit ++ below.drop limit := by
      rw [List.take_append_drop, List.mem_filter, mem_inOrder]
      exact ⟨held', by simpa using (show (r'.seq : Int) < bound by omega)⟩
    rcases List.mem_append.mp inside with early | late
    · exact early
    · have := (List.pairwise_append.mp sorted).2.2 r taken r' late
      omega

/-! ## Reads -/

theorem no_gap {rows : List JournalRow} {first count : Nat}
    (numbers : rows.map JournalRow.seq = List.range' first count) :
    firstEventsSeqGap rows = none := by
  induction rows generalizing first count with
  | nil => rfl
  | cons a rest ih =>
    cases count with
    | zero => cases numbers
    | succ count =>
      rw [List.map_cons, List.range'_succ] at numbers
      obtain ⟨here, after⟩ := List.cons.inj numbers
      cases rest with
      | nil => rfl
      | cons b more =>
        cases count with
        | zero => cases after
        | succ count =>
          have follows : b.seq = a.seq + 1 := by
            rw [List.map_cons, List.range'_succ] at after
            rw [(List.cons.inj after).1, here]
          rw [firstEventsSeqGap, if_neg (not_not.mpr follows)]
          exact ih after

/-- The rows after a checkpoint, without a limit. -/
theorem Contiguous.numbers_after (retained : Contiguous j low) (since : Nat) :
    (j.inOrder.filter fun r => since < r.seq).map JournalRow.seq =
      List.range' (max low since + 1) (j.head - max low since) := by
  refine eq_range_of_increasing ?_ fun n => ?_
  · exact List.pairwise_map.mpr (inOrder_increasing.sublist List.filter_sublist)
  · simp only [List.mem_map, List.mem_filter, mem_inOrder, decide_eq_true_eq]
    constructor
    · rintro ⟨r, ⟨held, above⟩, rfl⟩
      have := retained.bounds held
      omega
    · rintro ⟨above, below⟩
      obtain ⟨r, held, rfl⟩ := (retained.rows n).mpr ⟨by omega, below⟩
      exact ⟨r, ⟨held, by omega⟩, rfl⟩

/-- A read gives some of the rows after the checkpoint, and at least one if there is
one. -/
theorem Contiguous.readEventsRows_numbers (retained : Contiguous j low) (since : Nat)
    (limit : Int) :
    ∃ count ≤ j.head - max low since, (count = 0 → j.head ≤ max low since) ∧
      (j.readEventsRows since limit).map JournalRow.seq = List.range' (max low since + 1) count := by
  unfold readEventsRows
  extract_lets rows
  have all := retained.numbers_after since
  by_cases limited : 0 < limit
  · rw [if_pos limited, List.map_take, all]
    rcases Nat.le_total limit.toNat (j.head - max low since) with few | many
    · refine ⟨limit.toNat, few, fun none => by omega, List.take_range'_of_length_ge few⟩
    · exact ⟨_, le_rfl, fun none => by omega, List.take_range'_of_length_le many⟩
  · rw [if_neg limited]
    exact ⟨_, le_rfl, fun none => by omega, all⟩

/-- What a read can return: nothing at the head, a truncation below the interval, and
otherwise the numbers after the checkpoint. -/
theorem Contiguous.readEvents_cases (retained : Contiguous j low) {since : Nat}
    (le : since ≤ j.head) (limit : Int) :
    (since = j.head ∧ j.readEvents since limit = .ok []) ∨
      (since < low ∧ j.readEvents since limit = .error ⟨since, low + 1, j.head⟩) ∨
        ∃ rows count, 0 < count ∧ since + count ≤ j.head ∧ j.readEvents since limit = .ok rows ∧
          rows.map JournalRow.seq = List.range' (since + 1) count := by
  obtain ⟨count, few, exhausted, numbers⟩ := retained.readEventsRows_numbers since limit
  have bottom := retained.le
  unfold Journal.readEvents
  cases rows : j.readEventsRows since limit with
  | nil =>
    rw [rows] at numbers
    have zero : count = 0 := by
      have := congrArg List.length numbers
      simpa using this.symm
    by_cases caught : since = j.head
    · refine Or.inl ⟨caught, ?_⟩
      simp only [computeEventsTruncation, if_pos caught.ge]
    · have gone := exhausted zero
      refine Or.inr (Or.inl ⟨by omega, ?_⟩)
      have all : low = j.head := by omega
      simp only [computeEventsTruncation, if_neg (show ¬ j.head ≤ since by omega), all]
  | cons first rest =>
    rw [rows] at numbers
    cases count with
    | zero => cases numbers
    | succ count =>
      have start : first.seq = max low since + 1 := by
        rw [List.map_cons, List.range'_succ] at numbers
        exact (List.cons.inj numbers).1
      by_cases inside : low ≤ since
      · rw [max_eq_right inside] at numbers start
        refine Or.inr (Or.inr ⟨first :: rest, count + 1, Nat.succ_pos count, by omega, ?_, numbers⟩)
        simp only [computeEventsTruncation, start, no_gap numbers, ne_eq, not_true, if_false,
          Option.map_none]
      · refine Or.inr (Or.inl ⟨by omega, ?_⟩)
        have floor : first.seq = low + 1 := by omega
        simp only [computeEventsTruncation, floor, if_pos (show low + 1 ≠ since + 1 by omega)]

end Journal

/-! ## Commits -/

/-- A transaction runs on an interval that lies, at both ends, at or below the current
one, and has not changed a row of it. -/
structure JournalSession.Running (session : JournalSession) (current : Journal) (low : Nat) :
    Prop where
  base : ∃ from_ ≤ low, session.snapshot.Contiguous from_ ∧
    ∃ to_, from_ ≤ to_ ∧ session.work.Contiguous to_
  seen : session.snapshot.head ≤ current.head
  grown : session.snapshot.head ≤ session.work.head
  kept : ∀ r ∈ session.work.rows, r.seq ≤ session.snapshot.head → r ∈ session.snapshot.rows

namespace JournalSession.Running
variable {session : JournalSession} {current next : Journal} {low low' : Nat}

theorem start (retained : current.Contiguous low) : Running ⟨current, current⟩ current low where
  base := ⟨low, le_rfl, retained, low, le_rfl, retained⟩
  seen := le_rfl
  grown := le_rfl
  kept _ held _ := held

private theorem execute (running : Running session current low) {statement : JournalStatement}
    {work : Journal} (accepted : statement.run session.work = .ok work) :
    Running { session with work := work } current low := by
  obtain ⟨from_, le, base, to_, above, retained⟩ := running.base
  obtain ⟨new, higher, cut, longer, kept⟩ := Journal.statement_contiguous retained accepted
  refine ⟨⟨from_, le, base, new, above.trans higher, cut⟩, running.seen, running.grown.trans longer,
    ?_⟩
  intro r held old
  exact running.kept r (kept r held (old.trans running.grown)) old

/-- Commits of other transactions only move the current interval up. -/
theorem later (running : Running session current low) (lower : low ≤ low')
    (longer : current.head ≤ next.head) : Running session next low' := by
  obtain ⟨from_, le, rest⟩ := running.base
  exact ⟨⟨from_, le.trans lower, rest⟩, running.seen.trans longer, running.grown, running.kept⟩

/-- Of two transactions that draw numbers one has to wait for the other. -/
theorem heads_of_apart (apart : ¬ session.Conflicts current) :
    session.work.head = session.snapshot.head ∨ current.head = session.snapshot.head := by
  unfold Journal.head
  by_cases same : session.work.counter = session.snapshot.counter
  · exact Or.inl (by rw [same])
  · have unmoved : current.counter = session.snapshot.counter := by
      by_contra moved
      exact apart ⟨same, moved⟩
    exact Or.inr (by rw [unmoved])

theorem head_land (running : Running session current low) (apart : ¬ session.Conflicts current) :
    (session.land current).head = max current.head session.work.head := by
  have seen := running.seen
  have grown := running.grown
  unfold Journal.head at *
  by_cases same : session.work.counter = session.snapshot.counter
  · have stays : (session.land current).counter = current.counter := if_pos same
    rw [stays]
    rw [same] at grown ⊢
    omega
  · have ours : (session.land current).counter = session.work.counter := if_neg same
    have unmoved : current.counter = session.snapshot.counter := by
      by_contra moved
      exact apart ⟨same, moved⟩
    rw [ours, unmoved]
    omega

/-- A commit leaves an interval that ends at the counter. -/
theorem land_contiguous (running : Running session current low) (retained : current.Contiguous low)
    (apart : ¬ session.Conflicts current) :
    ∃ low', low ≤ low' ∧ (session.land current).Contiguous low' := by
  obtain ⟨from_, le, base, to_, above, cut⟩ := running.base
  have alone := heads_of_apart apart
  have bottom := retained.le
  have top := cut.le
  have seen := running.seen
  have grown := running.grown
  refine ⟨max low to_, le_max_left _ _, ?_, fun n => ?_⟩
  · rw [running.head_land apart]
    omega
  rw [running.head_land apart]
  simp only [JournalSession.land, Table.mem_merge]
  constructor
  · rintro ⟨r, held, rfl⟩
    split at held
    · next same =>
      -- The transaction has not changed the row, so it is not one that it cut off.
      have bounds := retained.bounds held
      have inside : to_ < r.seq := by
        by_contra under
        have gone : session.snapshot.rows.find? r.seq = none :=
          same ▸ cut.find?_eq_none (by omega)
        have new : ¬ (from_ < r.seq ∧ r.seq ≤ session.snapshot.head) := fun old =>
          base.find?_ne_none old gone
        omega
      omega
    · next differ =>
      have bounds := cut.bounds held
      have new : session.snapshot.head < r.seq := by
        by_contra old
        have before := running.kept r held (Nat.not_lt.mp old)
        refine differ ?_
        rw [Table.find?_eq_some.mpr ⟨held, rfl⟩, Table.find?_eq_some.mpr ⟨before, rfl⟩]
      omega
  · rintro ⟨lower, upper⟩
    by_cases old : n ≤ session.snapshot.head
    · obtain ⟨r, held, rfl⟩ := (cut.rows n).mpr ⟨by omega, by omega⟩
      have before := running.kept r held old
      obtain ⟨r', there, same⟩ := (retained.rows r.seq).mpr ⟨by omega, by omega⟩
      refine ⟨r', ?_, same⟩
      rw [same, Table.find?_eq_some.mpr ⟨held, rfl⟩, Table.find?_eq_some.mpr ⟨before, rfl⟩,
        if_pos rfl]
      exact there
    · have unseen : session.snapshot.rows.find? n = none := base.find?_eq_none (by omega)
      by_cases ours : to_ < n ∧ n ≤ session.work.head
      · obtain ⟨r, held, rfl⟩ := (cut.rows n).mpr ours
        refine ⟨r, ?_, rfl⟩
        rw [unseen, if_neg (cut.find?_ne_none ours)]
        exact held
      · obtain ⟨r, held, rfl⟩ := (retained.rows n).mpr ⟨by omega, by omega⟩
        refine ⟨r, ?_, rfl⟩
        rw [unseen, cut.find?_eq_none ours, if_pos rfl]
        exact held

end JournalSession.Running

/-! ## The consumer -/

/-- The truncation covers the number. -/
def Truncated.Covers (t : Truncated) (n : Nat) : Prop := t.since < n ∧ n < t.floor

namespace Consumer

/-- What a consumer at a checkpoint knows about the numbers up to it: each was
delivered, in increasing order, or reported as gone, but not both. -/
structure Served (c : Consumer) (head : Nat) : Prop where
  checkpoint : c.checkpoint ≤ head
  increasing : (c.delivered.map JournalRow.seq).Pairwise (· < ·)
  passed : ∀ r ∈ c.delivered, r.seq ≤ c.checkpoint
  floors : ∀ t ∈ c.reported, t.floor ≤ c.checkpoint + 1
  accounted : ∀ n, 0 < n → n ≤ c.checkpoint →
    (∃ r ∈ c.delivered, r.seq = n) ∨ ∃ t ∈ c.reported, t.Covers n
  disjoint : ∀ r ∈ c.delivered, ∀ t ∈ c.reported, ¬ t.Covers r.seq

variable {c : Consumer} {j : Journal} {low head : Nat}

theorem Served.start : Served {} head where
  checkpoint := Nat.zero_le head
  increasing := List.Pairwise.nil
  passed _ none := (List.not_mem_nil none).elim
  floors _ none := (List.not_mem_nil none).elim
  accounted _ positive none := absurd positive (Nat.not_lt.mpr none)
  disjoint _ none := (List.not_mem_nil none).elim

theorem Served.later (served : c.Served head) {head' : Nat} (le : head ≤ head') : c.Served head' :=
  { served with checkpoint := served.checkpoint.trans le }

private theorem Served.truncated (served : c.Served head) {floor : Nat}
    (below : c.checkpoint < floor) (le : floor ≤ head) :
    Served { c with checkpoint := floor, reported := c.reported ++ [⟨c.checkpoint, floor + 1, head⟩] }
      head where
  checkpoint := le
  increasing := served.increasing
  passed r held := (served.passed r held).trans below.le
  floors t held := by
    rcases List.mem_append.mp held with old | last
    · have := served.floors t old
      dsimp only
      omega
    · obtain rfl := List.mem_singleton.mp last
      exact le_rfl
  accounted n positive upTo := by
    by_cases old : n ≤ c.checkpoint
    · refine (served.accounted n positive old).imp_right fun ⟨t, held, covers⟩ => ?_
      exact ⟨t, List.mem_append_left _ held, covers⟩
    · exact Or.inr ⟨_, List.mem_append_right _ List.mem_cons_self, Nat.not_le.mp old,
        Nat.lt_succ_of_le upTo⟩
  disjoint r held t reported := by
    rcases List.mem_append.mp reported with old | last
    · exact served.disjoint r held t old
    · obtain rfl := List.mem_singleton.mp last
      exact fun covers => absurd covers.1 (Nat.not_lt.mpr (served.passed r held))

theorem Served.delivered (served : c.Served head) {rows : List JournalRow} {count : Nat}
    (le : c.checkpoint + count ≤ head)
    (numbers : rows.map JournalRow.seq = List.range' (c.checkpoint + 1) count) :
    Served { c with checkpoint := c.checkpoint + count, delivered := c.delivered ++ rows } head := by
  have given : ∀ n, (∃ r ∈ rows, r.seq = n) ↔ c.checkpoint < n ∧ n ≤ c.checkpoint + count := by
    intro n
    rw [← List.mem_map, numbers, List.mem_range'_1]
    omega
  refine ⟨le, ?_, fun r held => ?_, fun t held => ?_, fun n positive upTo => ?_,
    fun r held t reported => ?_⟩
  · rw [List.map_append, numbers, List.pairwise_append]
    refine ⟨served.increasing, List.pairwise_lt_range', fun n old m new => ?_⟩
    obtain ⟨r, held, rfl⟩ := List.mem_map.mp old
    have passed := served.passed r held
    have := List.mem_range'_1.mp new
    omega
  · rcases List.mem_append.mp held with old | new
    · exact (served.passed r old).trans (Nat.le_add_right _ _)
    · exact ((given r.seq).mp ⟨r, new, rfl⟩).2
  · have := served.floors t held
    dsimp only
    omega
  · by_cases old : n ≤ c.checkpoint
    · refine (served.accounted n positive old).imp_left fun ⟨r, held, same⟩ => ?_
      exact ⟨r, List.mem_append_left _ held, same⟩
    · obtain ⟨r, held, same⟩ := (given n).mpr ⟨Nat.not_le.mp old, upTo⟩
      exact Or.inl ⟨r, List.mem_append_right _ held, same⟩
  · rcases List.mem_append.mp held with old | new
    · exact served.disjoint r old t reported
    · have above := ((given r.seq).mp ⟨r, new, rfl⟩).1
      have floor := served.floors t reported
      exact fun covers => by have := covers.2; omega

/-- A read keeps the account. -/
theorem Served.read (served : c.Served j.head) (retained : j.Contiguous low) (limit : Int) :
    (c.read limit j).Served j.head := by
  unfold Consumer.read
  rcases retained.readEvents_cases served.checkpoint limit with
    ⟨-, result⟩ | ⟨below, result⟩ | ⟨rows, count, positive, le, result, numbers⟩
  · rw [result]
    simpa using served
  · rw [result]
    exact served.truncated below retained.le
  · have last : (rows.getLast?.map JournalRow.seq).getD c.checkpoint = c.checkpoint + count := by
      rw [← List.getLast?_map, numbers, List.getLast?_range', if_neg (by omega), Option.getD_some]
      omega
    rw [result]
    simp only [last]
    exact served.delivered le numbers

end Consumer

/-! ## Runs -/

namespace Feed
variable {ι : Type} {f g : Feed ι}

/-- What holds at every point of a run. -/
structure Sound (f : Feed ι) (low : Nat) : Prop where
  retained : f.journal.Contiguous low
  running : ∀ i session, f.sessions i = some session → session.Running f.journal low
  served : f.consumer.Served f.journal.head

private theorem sound_start (seeded : Bool) : Sound (start seeded : Feed ι) 0 where
  retained := by
    have head : (start seeded : Feed ι).journal.head = 0 := by cases seeded <;> rfl
    refine ⟨Nat.zero_le _, fun n => ?_⟩
    rw [head]
    constructor
    · rintro ⟨r, held, -⟩
      exact (List.not_mem_nil held).elim
    · omega
  running _ _ none := nomatch none
  served := .start

variable [DecidableEq ι]

private theorem Sound.enter {low : Nat} (sound : Sound f low) (i : ι)
    (entered : Option JournalSession)
    (running : ∀ session, entered = some session → session.Running f.journal low) :
    Sound { f with sessions := Function.update f.sessions i entered } low where
  retained := sound.retained
  running k session active := by
    by_cases same : k = i
    · subst same
      exact running session ((Function.update_self k entered f.sessions).symm.trans active)
    · exact sound.running k session ((Function.update_of_ne same entered f.sessions).symm.trans active)
  served := sound.served

theorem Sound.step {low : Nat} (sound : Sound f low) (step : Step f g) :
    ∃ low', low ≤ low' ∧ Sound g low' := by
  cases step with
  | start i idle =>
    refine ⟨low, le_rfl, sound.enter i _ fun session same => ?_⟩
    cases same
    exact .start sound.retained
  | execute i statement active accepted =>
    refine ⟨low, le_rfl, sound.enter i _ fun session same => ?_⟩
    cases same
    exact (sound.running i _ active).execute accepted
  | rollback i => exact ⟨low, le_rfl, sound.enter i none fun _ none => nomatch none⟩
  | @commit i session active apart =>
    have running := sound.running i session active
    obtain ⟨low', lower, landed⟩ := running.land_contiguous sound.retained apart
    have longer : f.journal.head ≤ (session.land f.journal).head := by
      rw [running.head_land apart]
      exact le_max_left _ _
    have after : Sound { f with journal := session.land f.journal } low' :=
      ⟨landed, fun k other active => (sound.running k other active).later lower longer,
        sound.served.later longer⟩
    exact ⟨low', lower, after.enter i none fun _ none => nomatch none⟩
  | read limit =>
    exact ⟨low, le_rfl, sound.retained, sound.running, sound.served.read sound.retained limit⟩

private theorem sound_of_run (seeded : Bool) (run : ReflTransGen Step (start seeded) f) :
    ∃ low, Sound f low := by
  induction run with
  | refl => exact ⟨0, sound_start seeded⟩
  | tail _ step ih =>
    obtain ⟨low, sound⟩ := ih
    obtain ⟨low', -, after⟩ := sound.step step
    exact ⟨low', after⟩

/-- At every point of every run the journal is an interval that ends at its counter,
every number up to the checkpoint was delivered once and in order or was reported
as gone, and a read without rows and without an error finds the consumer at the
head. -/
theorem no_silent_loss (seeded : Bool) (f : Feed ι) (run : ReflTransGen Step (start seeded) f) :
    (∃ low ≤ f.journal.head, ∀ n, (∃ r ∈ f.journal.rows, r.seq = n) ↔
      low < n ∧ n ≤ f.journal.head) ∧
      (f.consumer.delivered.map JournalRow.seq).Pairwise (· < ·) ∧
      (∀ n, 0 < n → n ≤ f.consumer.checkpoint →
        Xor (∃ r ∈ f.consumer.delivered, r.seq = n) (∃ t ∈ f.consumer.reported, t.Covers n)) ∧
      ∀ limit, f.journal.readEvents f.consumer.checkpoint limit = .ok [] →
        f.journal.head ≤ f.consumer.checkpoint := by
  obtain ⟨low, sound⟩ := sound_of_run seeded run
  have served := sound.served
  refine ⟨⟨low, sound.retained.le, sound.retained.rows⟩, served.increasing, fun n positive le => ?_,
    fun limit nothing => ?_⟩
  · rcases served.accounted n positive le with given | gone
    · refine Or.inl ⟨given, ?_⟩
      rintro ⟨t, reported, covers⟩
      obtain ⟨r, held, rfl⟩ := given
      exact served.disjoint r held t reported covers
    · refine Or.inr ⟨gone, ?_⟩
      rintro ⟨r, held, rfl⟩
      obtain ⟨t, reported, covers⟩ := gone
      exact served.disjoint r held t reported covers
  · rcases sound.retained.readEvents_cases served.checkpoint limit with
      ⟨caught, -⟩ | ⟨-, result⟩ | ⟨rows, count, positive, -, result, numbers⟩
    · exact caught.ge
    · rw [result] at nothing
      cases nothing
    · rw [result] at nothing
      cases nothing
      have := congrArg List.length numbers
      simp only [List.map_nil, List.length_nil, List.length_range'] at this
      omega

/-- Two events are appended and the first is pruned before the consumer reads: it is
told that the first is gone, and is then given the second. -/
theorem no_silent_loss_pruned : ∃ f : Feed Unit, ReflTransGen Step (start true) f ∧
    f.consumer.checkpoint = 2 ∧ f.consumer.delivered.map JournalRow.seq = [2] ∧
      f.consumer.reported = [⟨0, 2, 2⟩] ∧ f.journal.head ≤ f.consumer.checkpoint := by
  let event : Event := { op := .delete, issueId := "bd-1" }
  have run : ∃ f : Feed Unit, ReflTransGen Step (start true) f ∧
      f.consumer.checkpoint = 2 ∧ f.consumer.delivered.map JournalRow.seq = [2] ∧
        f.consumer.reported = [⟨0, 2, 2⟩] ∧ f.journal.readEvents f.consumer.checkpoint 0 = .ok [] := by
    refine ⟨_, ((((((((ReflTransGen.single (.start () rfl)).tail
      (.execute () (.append id event) rfl rfl)).tail (.execute () (.append id event) rfl rfl)).tail
      (.commit () rfl fun conflict => conflict.2 rfl)).tail (.start () rfl)).tail
      (.execute () (.prune ⟨2, 0, 0, 0⟩) rfl rfl)).tail
      (.commit () rfl fun conflict => conflict.2 rfl)).tail (.read 1)).tail (.read 0), ?_⟩
    decide
  obtain ⟨f, run, checkpoint, delivered, reported, nothing⟩ := run
  exact ⟨f, run, checkpoint, delivered, reported, (no_silent_loss true f run).2.2.2 0 nothing⟩

end Feed
end Beads
