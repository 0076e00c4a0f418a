import Beads.Delete
import Beads.Lib.Lexicon
import Beads.Search

/-! `issueops/sweep.go` and `workapi/sweep.go`: the closed rows of one tier are listed,
narrowed by an id pattern, rechecked, and kept if a row that is not done cites them; the
rest is deleted. The counts of what a deletion takes along are left out. -/
namespace Beads
open Lib

/-! ## Requests -/

/-- `issueops.SweepTier`. -/
inductive SweepTier where
  | ephemeral
  | durable
  | other (name : String)
  deriving DecidableEq

/-- `issueops.SweepRequest`. A cutoff is in nanoseconds. -/
structure SweepRequest where
  tier : SweepTier
  closedBefore : Option Nat := none
  idPattern : String := ""
  protectReferenced : Bool := false
  dryRun : Bool := false

/-- `filepath.Match`; nothing for a malformed pattern. -/
abbrev Glob := String → String → Option Bool

/-- `ValidateSweepRequest`. -/
def validateSweepRequest (glob : Glob) (req : SweepRequest) : Except Err Unit := do
  if let .other name := req.tier then throw (.validation (name ++ " is not a sweep tier"))
  if req.idPattern ≠ "" ∧ glob req.idPattern "" = none then throw (.validation "not a valid glob")
  if req.tier = .durable ∧ req.closedBefore = none ∧ req.idPattern = "" then
    throw (.validation "a durable sweep requires a closed-before cutoff or an id pattern")

/-- `BuildSweepCandidateFilter`. -/
def buildSweepCandidateFilter (req : SweepRequest) : IssueFilter where
  status := some .closed
  ephemeral := some (req.tier = .ephemeral)
  closedBefore := req.closedBefore

/-- `MatchesSweepPattern`. -/
def matchesSweepPattern (glob : Glob) (pattern id : String) : Bool :=
  pattern = "" ∨ glob pattern id = some true

/-- `issueops.SweepSkips`, without the rows that could not be read. -/
structure SweepSkips where
  pinned : Nat := 0
  referenced : Nat := 0
  notClosed : Nat := 0
  unknownClosedAt : Nat := 0
  closedAtOrAfterCutoff : Nat := 0

/-- What the recheck makes of a candidate. -/
def SweepSkips.skip (skips : SweepSkips) (req : SweepRequest) (issue : SearchIssue) :
    Option SweepSkips :=
  if issue.pinned = true then some { skips with pinned := skips.pinned + 1 }
  else if issue.status ≠ .closed then some { skips with notClosed := skips.notClosed + 1 }
  else match issue.closedAt with
    | none => some { skips with unknownClosedAt := skips.unknownClosedAt + 1 }
    | some closed =>
      if ∃ cutoff ∈ req.closedBefore, cutoff ≤ closed * nanosecondsPerSecond then
        some { skips with closedAtOrAfterCutoff := skips.closedAtOrAfterCutoff + 1 }
      else none

/-- One turn of `FilterSweepCandidates`. -/
def filterSweepCandidate (glob : Glob) (req : SweepRequest) (state : List SearchIssue × SweepSkips)
    (issue : SearchIssue) : List SearchIssue × SweepSkips :=
  if matchesSweepPattern glob req.idPattern issue.id = false then state
  else match state.2.skip req issue with
    | some skips => (state.1, skips)
    | none => (state.1 ++ [issue], state.2)

/-- `FilterSweepCandidates`. -/
def filterSweepCandidates (glob : Glob) (req : SweepRequest) (issues : List SearchIssue) :
    List SearchIssue × SweepSkips :=
  issues.foldl (filterSweepCandidate glob req) ([], {})

/-! ## Citations -/

/-- `isASCIIWordByte`. -/
def isASCIIWordByte (b : UInt8) : Bool :=
  b = 95 ∨ (48 ≤ b ∧ b ≤ 57) ∨ (65 ≤ b ∧ b ≤ 90) ∨ (97 ≤ b ∧ b ≤ 122)

/-- `isWordBoundaryAt`; outside of a text there is no word. -/
def IsWordBoundaryAt (text : List UInt8) (place : Nat) : Prop :=
  isASCIIWordByte (((if 0 < place then text[place - 1]? else none)).getD 0) ≠ isASCIIWordByte (text[place]?.getD 0)

instance (text : List UInt8) (place : Nat) : Decidable (IsWordBoundaryAt text place) :=
  inferInstanceAs (Decidable (_ ≠ _))

/-- The bytes of a text. -/
def textBytes (text : String) : List UInt8 := text.toByteArray.data.toList

/-- `CandidateIDMatcher.FindAll`. -/
def findAllCandidates (ids : List String) (text : String) : List String :=
  findAll IsWordBoundaryAt textBytes ids (textBytes text)

/-- `NotDoneStatusesForSweep`. -/
def notDoneStatusesForSweep (cfg : Config) : List Status :=
  [.open, .inProgress, .blocked, .deferred, .pinned, .hooked] ++
    (cfg.customStatuses.filter fun custom => custom.2 ≠ .done).map fun custom => .custom custom.1

/-- `BuildSweepReferenceScanFilter`. -/
def buildSweepReferenceScanFilter (cfg : Config) : IssueFilter where
  statuses := notDoneStatusesForSweep cfg

/-! ## The sweep -/

/-- The columns of a row that a sweep reads and `Row` does not have, and its comments. -/
structure SweptColumns where
  priority : Int := 2
  sortTitle : String := ""
  description : String := ""
  notes : String := ""
  comments : List String := []

/-- The tables that a sweep reads and deletes from. -/
structure SweptStore where
  store : Store
  columns : Node → SweptColumns

/-- `issueops.SweepResult`. -/
structure SweepResult where
  skipped : SweepSkips := {}
  referencedIDs : List String := []

def sweepReferencedSampleLimit : Nat := 100

namespace SweptStore
variable (s : SweptStore) (glob : Glob) (cfg : Config) (req : SweepRequest)

/-- A row as a search reads it. -/
def searchIssue (p : Plane) (r : Row) : SearchIssue where
  id := r.id
  status := r.status
  issueType := r.issueType
  priority := (s.columns (p, r.id)).priority
  sortTitle := (s.columns (p, r.id)).sortTitle
  assignee := if r.assignee = "" then none else some r.assignee
  createdAt := r.createdAt
  updatedAt := r.updatedAt
  closedAt := r.closedAt
  ephemeral := r.ephemeral
  pinned := r.pinned
  description := (s.columns (p, r.id)).description
  notes := (s.columns (p, r.id)).notes

def tables : IssueTables := fun p => ⟨(s.store.rows p).rows.map (s.searchIssue p), by
  rw [List.map_map]
  exact (s.store.rows p).distinct⟩

/-- `SearchIssuesInTx`. -/
def search (filter : IssueFilter) : Except Err (List SearchIssue) :=
  (s.tables.searchInTx filter).mapError fun _ => .validation "too many rows"

/-- `GetCommentsForIssuesInTx` for one id: the comments are in the table of the id's plane. -/
def commentsOf (id : String) : List String := (s.columns (s.store.routed id, id)).comments

/-- `sweepReferencedInTx`. -/
def sweepReferenced (candidates : List SearchIssue) : Except Err (List String) := do
  if candidates = [] then return []
  let notDone ← s.search (buildSweepReferenceScanFilter cfg)
  return notDone.flatMap fun issue => ([issue.description, issue.notes] ++ s.commentsOf issue.id).flatMap
    (findAllCandidates (candidates.map SearchIssue.id))

/-- `PartitionSweepReferenced`. -/
def partitionSweepReferenced (candidates : List SearchIssue) (referenced : List String) :
    List SearchIssue × Nat × List String :=
  let cited := candidates.filter fun issue => issue.id ∈ referenced
  (candidates.filter fun issue => issue.id ∉ referenced, cited.length,
    (cited.map SearchIssue.id).take sweepReferencedSampleLimit)

/-- The candidates that the recheck keeps. -/
def sweepCandidates : Except Err (List SearchIssue × SweepSkips) := do
  let candidates ← s.search (buildSweepCandidateFilter req)
  return filterSweepCandidates glob req candidates

/-- What a sweep deletes, and reports. -/
def sweepSelection : Except Err (List SearchIssue × SweepResult) := do
  let (kept, skips) ← s.sweepCandidates glob req
  if req.protectReferenced = true then
    let referenced ← s.sweepReferenced cfg kept
    let (spared, count, sample) := partitionSweepReferenced kept referenced
    return (spared, ⟨{ skips with referenced := count }, sample⟩)
  else return (kept, ⟨skips, []⟩)

/-- `SweepInTx`. -/
def sweepInTx : Tx (SweptStore × SweepResult) := do
  let (kept, result) ← .ofExcept (s.sweepSelection glob cfg req)
  if kept = [] then return (s, result)
  let deleted ← s.store.deleteIssues (kept.map SearchIssue.id) false true req.dryRun
  return ({ s with store := deleted }, result)

/-- `Sweep`: a request is refused before anything is read. -/
def sweep : Tx (SweptStore × SweepResult) := do
  .ofExcept (validateSweepRequest glob req)
  s.sweepInTx glob cfg req

end SweptStore
end Beads
