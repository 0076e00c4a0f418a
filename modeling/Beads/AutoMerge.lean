import Mathlib
import Beads.Lib.ThreeWay

/-! The field-level merge of a conflicted row of `issues`
(`internal/storage/versioncontrolops/automerge.go`, with the conflict rows of `conflicts.go`). A
time is in nanoseconds from a fixed instant; how one is printed and read is a parameter. -/
namespace Beads
open Lib.ThreeWay

/-- `Time.Format` with `time.RFC3339`, in UTC, and `time.Parse` with a layout. -/
structure TimeText where
  format : Int → String
  parse : String → String → Option Int

/-- A scanned SQL value; `other` is any further type, by its `fmt.Sprint`. -/
inductive ConflictValue where
  | null
  | bytes (s : String)
  | text (s : String)
  | time (t : Int)
  | int (n : Int)
  | other (sprint : String)
  deriving DecidableEq

/-- `conflictSides`. -/
inductive ConflictSide where
  | base
  | our
  | their
  deriving DecidableEq

def ConflictSide.label : ConflictSide → String
  | .base => "base"
  | .our => "our"
  | .their => "their"

/-- The column of a conflict table that has a side's value of a field. -/
def ConflictSide.column (side : ConflictSide) (field : String) : String :=
  side.label ++ "_" ++ field

/-- `conflictMetaSuffixes`. -/
def conflictMetaSuffixes : List String := ["diff_type", "cardinality"]

/-- `splitConflictColumn`. -/
def splitConflictColumn (col : String) : Option (ConflictSide × String) :=
  [ConflictSide.base, .our, .their].findSome? fun side =>
    if (side.column "").toList <+: col.toList then
      some (side, String.ofList (col.toList.drop (side.column "").length))
    else none

/-- `rawConflictRow`: the columns in the order of the conflict table, each with its value. -/
structure RawConflictRow where
  cells : List (String × ConflictValue)

namespace RawConflictRow
variable (row : RawConflictRow)

/-- `rawConflictRow.value`. -/
def value (side : ConflictSide) (field : String) : Option ConflictValue :=
  (row.cells.find? (·.1 = side.column field)).map Prod.snd

/-- `mustValue`. -/
def mustValue (side : ConflictSide) (field : String) : ConflictValue :=
  (row.value side field).getD .null

/-- `rawConflictRow.dataColumns`. -/
def dataColumns (exclude : List String) : List String :=
  (row.cells.filterMap fun cell =>
    match splitConflictColumn cell.1 with
    | some (.our, field) =>
      if field ∈ conflictMetaSuffixes ∨ field ∈ exclude then none else some field
    | _ => none).eraseDups

/-- The row exists on the side, by its key columns. -/
def present (keyCols : List String) (side : ConflictSide) : Bool :=
  keyCols.all fun k => (row.value side k).any (· ≠ .null)

/-- `rawConflictRow.sidesPresent`. -/
def sidesPresent (keyCols : List String) : Bool × Bool × Bool :=
  (row.present keyCols .base, row.present keyCols .our, row.present keyCols .their)

end RawConflictRow

/-- `conflictTimestampLayouts`. -/
def conflictTimestampLayouts : List String :=
  ["2006-01-02T15:04:05.999999999Z07:00", "2006-01-02T15:04:05Z07:00", "2006-01-02 15:04:05.999999",
    "2006-01-02 15:04:05"]

/-- `issuesKeyColumn`. -/
def issuesKeyColumn : String := "id"

/-- `issuesCloseGroup`. -/
def issuesCloseGroup : List String := ["status", "closed_at", "close_reason", "closed_by_session"]

/-- `issuesNonScalarColumns`. -/
def issuesNonScalarColumns : List String := ["notes", "metadata"]

/-- The random numbers that `freshRowLock` draws: there is always a third one. -/
structure Draws where
  draw : Nat → Int
  varied : ∀ a b, ∃ n, draw n ≠ a ∧ draw n ≠ b

/-- `issuesRowMerge`: the columns to write with their values, and the cells that the later side
has won. -/
structure IssuesRowMerge where
  ourKey : ConflictValue
  writes : List (String × ConflictValue) := []
  lww : List String := []
  deriving DecidableEq

/-- The columns with the first one of the name set, or with a new one. -/
def setPair (col : String) (val : ConflictValue) :
    List (String × ConflictValue) → List (String × ConflictValue)
  | [] => [(col, val)]
  | (c, v) :: rest => if c = col then (c, val) :: rest else (c, v) :: setPair col val rest

/-- `issuesRowMerge.setColumn`. -/
def IssuesRowMerge.setColumn (m : IssuesRowMerge) (col : String) (val : ConflictValue) :
    IssuesRowMerge :=
  { m with writes := setPair col val m.writes }

namespace TimeText
variable (lib : TimeText)

/-- `formatConflictValue`. -/
def formatConflictValue : ConflictValue → Option String
  | .null => none
  | .bytes s => some s
  | .text s => some s
  | .time t => some (lib.format t)
  | .int n => some n.repr
  | .other sprint => some sprint

/-- `conflictCellsEqual`. -/
def conflictCellsEqual (a b : ConflictValue) : Bool :=
  lib.formatConflictValue a = lib.formatConflictValue b

/-- `parseConflictTimestamp`. -/
def parseConflictTimestamp (v : ConflictValue) : Option Int :=
  match v with
  | .time t => some t
  | v =>
    match lib.formatConflictValue v with
    | none => none
    | some s => if s = "" then none else conflictTimestampLayouts.findSome? (lib.parse · s)

/-- `classifyCell`. -/
def classifyCell (row : RawConflictRow) (col : String) : Option (Verdict × ConflictValue) :=
  match row.value .our col, row.value .their col with
  | some ourVal, some theirVal =>
    if lib.conflictCellsEqual ourVal theirVal then some (.agree, theirVal)
    else
      match row.value .base col with
      | none => none
      | some baseVal =>
        if lib.conflictCellsEqual theirVal baseVal then some (.oursOnly, theirVal)
        else if lib.conflictCellsEqual ourVal baseVal then some (.theirsOnly, theirVal)
        else some (.contested, theirVal)
  | _, _ => none

/-- The entry of a column in `verdicts`; a column that is not there has the zero verdict. -/
def verdict (row : RawConflictRow) (col : String) : Verdict :=
  if col ∈ row.dataColumns [issuesKeyColumn, "row_lock"] then
    ((lib.classifyCell row col).map Prod.fst).getD .agree
  else .agree

/-- `lwwUsable`. -/
def lwwUsable (row : RawConflictRow) : Bool :=
  match lib.parseConflictTimestamp (row.mustValue .our "updated_at"),
    lib.parseConflictTimestamp (row.mustValue .their "updated_at") with
  | some ours, some theirs => ours ≠ theirs
  | _, _ => false

/-- `theirsWinLWW`. -/
def theirsWinLWW (row : RawConflictRow) : Bool :=
  match lib.parseConflictTimestamp (row.mustValue .our "updated_at"),
    lib.parseConflictTimestamp (row.mustValue .their "updated_at") with
  | some ours, some theirs => ours < theirs
  | _, _ => false

/-- `closeGroupContested`. -/
def closeGroupContested (row : RawConflictRow) : Bool :=
  issuesCloseGroup.any fun col => lib.verdict row col = .contested

/-- `takeTheirs`. -/
def takeTheirs (row : RawConflictRow) (m : IssuesRowMerge) (col : String) : IssuesRowMerge :=
  { m with writes := m.writes ++ [(col, row.mustValue .their col)] }

/-- A cell that both sides claim goes to the later one. -/
def settleByTime (row : RawConflictRow) (m : IssuesRowMerge) (col : String) :
    Option IssuesRowMerge :=
  if lib.lwwUsable row then
    let m := { m with lww := m.lww ++ [col] }
    some (if lib.theirsWinLWW row then takeTheirs row m col else m)
  else none

/-- The body of the loop over the columns. -/
def mergeCell (row : RawConflictRow) (m : IssuesRowMerge) (col : String) : Option IssuesRowMerge :=
  match lib.verdict row col with
  | .agree => some m
  | v =>
    if lib.closeGroupContested row ∧ col ∈ issuesCloseGroup then lib.settleByTime row m col
    else
      match v with
      | .theirsOnly => some (takeTheirs row m col)
      | .contested => lib.settleByTime row m col
      | _ => some m

/-- The raw `updated_at` that is written: the later one, ours where they are the same. -/
def mergedUpdatedAt (row : RawConflictRow) : ConflictValue :=
  let ours := row.mustValue .our "updated_at"
  let theirs := row.mustValue .their "updated_at"
  match lib.parseConflictTimestamp ours, lib.parseConflictTimestamp theirs with
  | some o, some t => if o < t then theirs else ours
  | none, some _ => theirs
  | _, none => ours

/-- No more than one number is printed as the token. -/
theorem conflictCellsEqual_int {n m : Int} {lock : ConflictValue}
    (left : lib.conflictCellsEqual (.int n) lock)
    (right : lib.conflictCellsEqual (.int m) lock) : n = m := by
  simp only [conflictCellsEqual, decide_eq_true_eq] at left right
  have same : lib.formatConflictValue (.int n) = lib.formatConflictValue (.int m) :=
    left.trans right.symm
  simpa only [formatConflictValue, Option.some.injEq, Int.repr_inj] using same

theorem exists_fresh (draws : Draws) (ourLock theirLock : ConflictValue) :
    ∃ n, ¬ lib.conflictCellsEqual (.int (draws.draw n)) ourLock ∧
      ¬ lib.conflictCellsEqual (.int (draws.draw n)) theirLock := by
  have sole : ∀ lock, ∃ a, ∀ n, lib.conflictCellsEqual (.int n) lock → n = a := by
    intro lock
    by_cases some : ∃ a, lib.conflictCellsEqual (.int a) lock
    · obtain ⟨a, same⟩ := some
      exact ⟨a, fun n held => lib.conflictCellsEqual_int held same⟩
    · exact ⟨0, fun n held => absurd ⟨n, held⟩ some⟩
  obtain ⟨a, ourSole⟩ := sole ourLock
  obtain ⟨b, theirSole⟩ := sole theirLock
  obtain ⟨n, first, second⟩ := draws.varied a b
  exact ⟨n, fun held => first (ourSole _ held), fun held => second (theirSole _ held)⟩

/-- `freshRowLockDistinctFrom`: the first number drawn that is neither of the tokens. -/
def freshRowLockDistinctFrom (draws : Draws) (ourLock theirLock : ConflictValue) : Int :=
  draws.draw (Nat.find (lib.exists_fresh draws ourLock theirLock))

theorem freshRowLockDistinctFrom_spec (draws : Draws) (ourLock theirLock : ConflictValue) :
    ¬ lib.conflictCellsEqual (.int (lib.freshRowLockDistinctFrom draws ourLock theirLock)) ourLock ∧
      ¬ lib.conflictCellsEqual (.int (lib.freshRowLockDistinctFrom draws ourLock theirLock)) theirLock :=
  Nat.find_spec (lib.exists_fresh draws ourLock theirLock)

/-- What a plan with writes has besides them: `updated_at` and, where the table has one, a new
`row_lock`. -/
def stampMerge (draws : Draws) (row : RawConflictRow) (m : IssuesRowMerge) : IssuesRowMerge :=
  if m.writes = [] then m
  else
    let m := m.setColumn "updated_at" (lib.mergedUpdatedAt row)
    if (row.value .our "row_lock").isSome then
      m.setColumn "row_lock"
        (.int (lib.freshRowLockDistinctFrom draws (row.mustValue .our "row_lock") (row.mustValue .their "row_lock")))
    else m

/-- `mergeIssuesConflictRow`. -/
def mergeIssuesConflictRow (draws : Draws) (row : RawConflictRow) : Option IssuesRowMerge :=
  if row.sidesPresent [issuesKeyColumn] = (true, true, true) then
    let cols := row.dataColumns [issuesKeyColumn, "row_lock"]
    if cols.all fun col => (lib.classifyCell row col).isSome then
      if cols.any fun col => lib.verdict row col = .contested ∧ col ∈ issuesNonScalarColumns then none
      else
        (cols.foldlM (lib.mergeCell row) ⟨row.mustValue .our issuesKeyColumn, [], []⟩).map
          (lib.stampMerge draws row)
    else none
  else none

end TimeText

/-- The row that stands after the plan is written on our row. -/
def IssuesRowMerge.settled (m : IssuesRowMerge) (row : RawConflictRow) (field : String) :
    Option ConflictValue :=
  ((m.writes.find? (·.1 = field)).map Prod.snd).or (row.value .our field)

end Beads
