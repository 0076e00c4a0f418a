import Beads.Store

/-! `journal.go`: the events journal. A transaction that has the journal switched
on draws every sequence number from the one counter row and writes the row of
the event in the same transaction as the mutation, so two transactions that both
journal an event write the counter, or a row, that the other one writes too. -/
namespace Beads
open Lib

/-- `EventOp`. -/
inductive EventOp where
  | create
  | update
  | close
  | delete
  | depAdd
  | depRemove
  | commentWrite
  deriving DecidableEq

/-- `EventDep`. -/
structure EventDep where
  kind : DependencyType
  target : String
  metadata : Metadata
  deriving DecidableEq

/-- `EventComment`. -/
structure EventComment where
  id : String
  author : String
  text : String
  createdAt : Nat
  source : String
  deriving DecidableEq

/-- What a journal row records; the issue is its row after the mutation. -/
structure Event where
  op : EventOp
  issueId : String
  issue : Option Row := none
  dep : Option EventDep := none
  comment : Option EventComment := none
  deriving DecidableEq

/-- A row of `bd_events_journal`. -/
structure JournalRow extends Event where
  seq : Nat
  ts : Nat
  deriving DecidableEq

/-- The journal and its counter, the one row of `bd_events_seq`, if it is there. -/
structure Journal where
  counter : Option Nat
  rows : Table JournalRow.seq

namespace Journal
variable (j : Journal)

/-- `COALESCE((SELECT MAX(seq) FROM bd_events_journal), 0)`. -/
def highWater : Nat := (j.rows.rows.map JournalRow.seq).foldr max 0

/-- `healEventSeqCounter`. -/
def healEventSeqCounter : Journal := { j with counter := some (max (j.counter.getD 0) j.highWater) }

/-- The number `nextEventSeq` draws: the counter plus one. A missing counter is
seeded by `healEventSeqCounter` first. -/
def nextEventSeq : Nat :=
  match j.counter with
  | some n => n + 1
  | none => j.highWater + 1

/-- Draw a number and insert the row under it. -/
def tryInsert (now : Nat → Nat) (e : Event) : Except Err Journal :=
  if fresh : ∀ r ∈ j.rows, r.seq ≠ j.nextEventSeq then
    .ok ⟨some j.nextEventSeq, j.rows.insert ⟨e, j.nextEventSeq, now j.nextEventSeq⟩ fresh⟩
  else .error (.duplicateSeq j.nextEventSeq)

/-- `insertEventRow`: a taken number means that the counter is behind the journal,
so it is raised past the highest row, once. The clock is read for each row. -/
def insertEventRow (now : Nat → Nat) (e : Event) : Except Err Journal :=
  match j.tryInsert now e with
  | .ok next => .ok next
  | .error _ =>
    ({ j with counter := some j.nextEventSeq } : Journal).healEventSeqCounter.tryInsert now e

/-! ## Numbers -/

variable {j}

/-- The second journal has everything of the first, and no smaller counter. -/
structure Extends (j next : Journal) : Prop where
  counter : ∀ n, j.counter = some n → ∃ m, next.counter = some m ∧ n ≤ m
  rows : ∀ k, next.rows.find? k = none → j.rows.find? k = none

/-- The second journal ends, at its counter, with a row for the event that the
first one does not have. -/
def Appended (j next : Journal) (e : Event) : Prop :=
  ∃ row : JournalRow, row.toEvent = e ∧ next.counter = some row.seq ∧
    next.rows.find? row.seq = some row ∧ j.rows.find? row.seq = none ∧
      ∀ n, j.counter = some n → n < row.seq

theorem Extends.refl (j : Journal) : Extends j j :=
  ⟨fun n held => ⟨n, held, le_rfl⟩, fun _ none => none⟩

theorem Extends.trans {next last : Journal} (first : Extends j next) (second : Extends next last) :
    Extends j last where
  counter n held := by
    obtain ⟨m, there, le⟩ := first.counter n held
    obtain ⟨k, here, le'⟩ := second.counter m there
    exact ⟨k, here, le.trans le'⟩
  rows k none := first.rows k (second.rows k none)

theorem Extends.appended {next last : Journal} {e : Event} (first : Extends j next)
    (second : Appended next last e) : Appended j last e := by
  obtain ⟨row, same, counter, found, free, above⟩ := second
  refine ⟨row, same, counter, found, first.rows _ free, fun n held => ?_⟩
  obtain ⟨m, there, le⟩ := first.counter n held
  exact Nat.lt_of_le_of_lt le (above m there)

theorem lt_nextEventSeq {n : Nat} (held : j.counter = some n) : n < j.nextEventSeq := by
  rw [nextEventSeq, held]
  exact Nat.lt_succ_self n

theorem tryInsert_spec {now : Nat → Nat} {e : Event} {next : Journal}
    (inserted : j.tryInsert now e = .ok next) : Extends j next ∧ Appended j next e := by
  unfold tryInsert at inserted
  split at inserted
  · next fresh =>
    obtain rfl := Except.ok.inj inserted
    have free : j.rows.find? j.nextEventSeq = none := Table.find?_eq_none.mpr fresh
    refine ⟨⟨fun n held => ⟨_, rfl, (lt_nextEventSeq held).le⟩, fun k none => ?_⟩,
      ⟨e, j.nextEventSeq, now j.nextEventSeq⟩, rfl, rfl, ?_, free, fun n => lt_nextEventSeq⟩
    · simp only [Table.find?_eq_none, Table.mem_insert] at none ⊢
      exact fun r held => none r (Or.inl held)
    · simp only [Table.find?_eq_some, Table.mem_insert, or_true, and_self]
  · cases inserted

/-- An event is written under a number that is new, and the counter stands at it. -/
theorem insertEventRow_spec {now : Nat → Nat} {e : Event} {next : Journal}
    (inserted : j.insertEventRow now e = .ok next) : Extends j next ∧ Appended j next e := by
  unfold insertEventRow at inserted
  split at inserted
  · next first => exact tryInsert_spec (first.trans inserted)
  · obtain ⟨grown, appended⟩ := tryInsert_spec inserted
    have healed : Extends j
        ({ j with counter := some j.nextEventSeq } : Journal).healEventSeqCounter :=
      ⟨fun n held => ⟨_, rfl, (lt_nextEventSeq held).le.trans (le_max_left _ _)⟩, fun _ none => none⟩
    exact ⟨healed.trans grown, healed.appended appended⟩

end Journal

namespace Store
variable (s : Store)

/-- `getJournalIssueInTx`. -/
def journalIssue (id : String) : Option Row := (s.row? (.issues, id)).or (s.row? (.wisps, id))

/-- `RecordEventInTx`, with the journal on. -/
def recordEvent (now : Nat → Nat) (op : EventOp) (id : String) (j : Journal) : Tx Journal :=
  match s.journalIssue id with
  | none => throw (.notFound id)
  | some r => .ofExcept (j.insertEventRow now { op := op, issueId := id, issue := some r })

/-- `RecordDepEventInTx`, with the journal on. A source without a row is recorded
without one. -/
def recordDepEvent (now : Nat → Nat) (op : EventOp) (id : String) (dep : EventDep) (j : Journal) :
    Tx Journal :=
  .ofExcept (j.insertEventRow now
    { op := op, issueId := id, issue := s.journalIssue id, dep := some dep })

end Store
end Beads
