import Mathlib.Data.List.Sort
import Mathlib.Logic.Relation
import Mathlib.Logic.Function.Basic
import Beads.Journal
import Beads.TimeParsing

/-! `journal_prune.go` and `journal_autoprune.go`: reading and pruning the events
journal. A consumer pages through the rows from a checkpoint while any number of
transactions append to the journal and prune it. Rows are read back as they were
written, so only their number, time and event are kept. -/
namespace Beads
open Lib TimeParsing

/-- `EventsJournalTruncatedError`: the records after `since` and below `floor` are
gone. -/
structure Truncated where
  since : Nat
  floor : Nat
  head : Nat
  deriving DecidableEq

/-- What `PruneEventsInTx` is asked for. A floor of zero or less is switched off. -/
structure PruneRequest where
  before : Int
  retainDays : Int := 0
  retainRows : Int := 0
  now : Int := 0

/-- `EventsPruneCutoff`, in Unix time; the clock is read in UTC. -/
def eventsPruneCutoff (retainDays now : Int) : Int :=
  ((Time.unix now).addDate 0 0 (-retainDays)).sec - unixToInternal

/-- `firstEventsSeqGap`: the first row that does not continue its predecessor, with
the predecessor. -/
def firstEventsSeqGap : List JournalRow → Option (JournalRow × JournalRow)
  | a :: b :: rest => if b.seq ≠ a.seq + 1 then some (a, b) else firstEventsSeqGap (b :: rest)
  | _ => none

/-- `ComputeEventsTruncation`. The nearest hole is reported. -/
def computeEventsTruncation (since : Nat) (rows : List JournalRow) (head : Nat) :
    Option Truncated :=
  match rows with
  | [] => if head ≤ since then none else some ⟨since, head + 1, head⟩
  | first :: _ =>
    if first.seq ≠ since + 1 then some ⟨since, first.seq, head⟩
    else (firstEventsSeqGap rows).map fun gap => ⟨gap.1.seq, gap.2.seq, head⟩

namespace Journal
variable (j : Journal)

/-- `readEventsHeadInTx`: the highest number that was ever drawn. -/
def head : Nat := j.counter.getD 0

/-- The rows in the order of their numbers. -/
def inOrder : List JournalRow := j.rows.rows.insertionSort fun a b => a.seq ≤ b.seq

/-- `readEventsRowsInTx`. -/
def readEventsRows (since : Nat) (limit : Int) : List JournalRow :=
  let rows := j.inOrder.filter fun r => since < r.seq
  if 0 < limit then rows.take limit.toNat else rows

/-- `ReadEventsInTx`. -/
def readEvents (since : Nat) (limit : Int) : Except Truncated (List JournalRow) :=
  let rows := j.readEventsRows since limit
  match computeEventsTruncation since rows j.head with
  | some truncated => .error truncated
  | none => .ok rows

/-! ## Pruning -/

/-- `EventsPruneRowsCeilQuery`: the highest number the floor on rows lets go. -/
def rowsCeil (retainRows : Nat) : Option Nat := (j.inOrder.reverse[retainRows]?).map JournalRow.seq

/-- `EventsPruneDaysFloorQuery`: the lowest number that is young enough to stay. -/
def daysFloor (cutoff : Int) : Option Nat :=
  (j.inOrder.find? fun r => cutoff ≤ (r.ts : Int)).map JournalRow.seq

/-- The bound after the floor on rows; none when everything stays. -/
def rowsBound (request : PruneRequest) : Option Int :=
  if 0 < request.retainRows then
    (j.rowsCeil request.retainRows.toNat).map fun ceil => min ((ceil : Int) + 1) request.before
  else some request.before

/-- The bound after the floor on days. -/
def daysBound (request : PruneRequest) (bound : Int) : Int :=
  if 0 < request.retainDays then
    match j.daysFloor (eventsPruneCutoff request.retainDays request.now) with
    | some floor => min (floor : Int) bound
    | none => bound
  else bound

/-- `ComputeEventsPruneWhere`: one exclusive bound, or nothing to prune. -/
def computeEventsPruneWhere (request : PruneRequest) : Option Int :=
  (j.rowsBound request).bind fun bound =>
    if j.daysBound request bound ≤ 1 then none else some (j.daysBound request bound)

/-- `DELETE FROM bd_events_journal WHERE seq < ?`. -/
def deleteBelow (bound : Int) : Journal :=
  { j with rows := j.rows.delete fun r => (r.seq : Int) < bound }

/-- `PruneEventsInTx`. -/
def pruneEvents (request : PruneRequest) : Journal :=
  match j.computeEventsPruneWhere request with
  | none => j
  | some bound => j.deleteBelow bound

/-- `PruneEventsBatchInTx`, for a positive limit: the lowest rows below the bound. -/
def pruneEventsBatch (bound : Int) (limit : Nat) : Journal :=
  { j with rows := j.rows.delete fun r =>
      r ∈ (j.inOrder.filter fun r => (r.seq : Int) < bound).take limit }

end Journal

/-! ## Transactions and the consumer -/

/-- A statement on the journal. -/
inductive JournalStatement where
  | append (now : Nat → Nat) (e : Event)
  | prune (request : PruneRequest)
  | pruneBatch (bound : Int) (limit : Nat)

def JournalStatement.run : JournalStatement → Journal → Except Err Journal
  | .append now e, j => j.insertEventRow now e
  | .prune request, j => .ok (j.pruneEvents request)
  | .pruneBatch bound limit, j => .ok (j.pruneEventsBatch bound limit)

/-- A running transaction: the journal at its start, and with its own changes. -/
structure JournalSession where
  snapshot : Journal
  work : Journal

namespace JournalSession
variable (session : JournalSession)

/-- Another transaction has written the counter row that this one writes too. -/
def Conflicts (current : Journal) : Prop :=
  session.work.counter ≠ session.snapshot.counter ∧ current.counter ≠ session.snapshot.counter

/-- What a commit leaves: the rows it has changed are its own, the others are those
of the current journal. -/
def land (current : Journal) : Journal where
  counter :=
    if session.work.counter = session.snapshot.counter then current.counter else session.work.counter
  rows := .merge session.snapshot.rows session.work.rows current.rows

end JournalSession

/-- A reader of the journal with its checkpoint, and what it was given so far. -/
structure Consumer where
  checkpoint : Nat := 0
  delivered : List JournalRow := []
  reported : List Truncated := []

/-- A read from the checkpoint. The reader moves on to the last row it was given; a
truncation is taken note of, and the reader resumes right before the floor. -/
def Consumer.read (c : Consumer) (limit : Int) (j : Journal) : Consumer :=
  match j.readEvents c.checkpoint limit with
  | .ok rows =>
    { c with checkpoint := (rows.getLast?.map JournalRow.seq).getD c.checkpoint
             delivered := c.delivered ++ rows }
  | .error truncated =>
    { c with checkpoint := truncated.floor - 1, reported := c.reported ++ [truncated] }

/-- The journal, the transactions on it, and a consumer. -/
structure Feed (ι : Type) where
  journal : Journal
  sessions : ι → Option JournalSession
  consumer : Consumer

namespace Feed
variable {ι : Type}

/-- No rows, no transactions, nothing read. The counter row is seeded or missing. -/
def start (seeded : Bool) : Feed ι where
  journal := { counter := if seeded then some 0 else none, rows := Table.empty }
  sessions := fun _ => none
  consumer := {}

variable [DecidableEq ι]

/-- One step of a transaction or of the consumer. A transaction that is rolled back,
on its own or by a conflict, leaves no trace. -/
inductive Step (f : Feed ι) : Feed ι → Prop
  | start (i : ι) (idle : f.sessions i = none) :
    Step f { f with sessions := Function.update f.sessions i (some ⟨f.journal, f.journal⟩) }
  | execute (i : ι) {session : JournalSession} (statement : JournalStatement) {next : Journal}
    (running : f.sessions i = some session) (accepted : statement.run session.work = .ok next) :
    Step f { f with sessions := Function.update f.sessions i (some { session with work := next }) }
  | rollback (i : ι) : Step f { f with sessions := Function.update f.sessions i none }
  | commit (i : ι) {session : JournalSession} (running : f.sessions i = some session)
    (apart : ¬ session.Conflicts f.journal) :
    Step f { f with journal := session.land f.journal
                    sessions := Function.update f.sessions i none }
  | read (limit : Int) : Step f { f with consumer := f.consumer.read limit f.journal }

end Feed
end Beads
