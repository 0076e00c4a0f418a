import Mathlib.Data.Nat.Digits.Defs
import Beads.Create
import Beads.Query

/-! `GenerateIssueIDInTable` of `helpers.go`: an issue without an id gets a hash of its
content, which is probed against the rows of its own plane, or, in counter mode, the next
number of its prefix. The counter of a prefix is seeded once from the issues that are
there and is not compared with rows that come with a number of their own. -/
namespace Beads
open Lib

/-- A row of `issue_counter`. It is inserted with a positive number and only counts up. -/
structure IssueCounter where
  idPrefix : String
  lastID : Nat

/-- The tables of the rows with the counters of the prefixes. -/
structure NumberedStore where
  store : Store
  counters : Table IssueCounter.idPrefix

/-- The id of a number. -/
def numberedID (idPrefix : String) (num : Nat) : String := idPrefix ++ "-" ++ Nat.repr num

/-! ## Hashes -/

/-- `base36Alphabet`. -/
def base36Alphabet : List Char := "0123456789abcdefghijklmnopqrstuvwxyz".toList

/-- `EncodeBase36`: padded with zeros, and cut to the least significant digits. -/
def encodeBase36 (data : List UInt8) (length : Nat) : String :=
  let num := data.foldl (fun n byte => 256 * n + byte.toNat) 0
  let chars := (Nat.digits 36 num).map fun digit => base36Alphabet.getD digit '0'
  let str := chars.reverse
  let padded := List.replicate (length - str.length) '0' ++ str
  String.ofList (padded.drop (padded.length - length))

/-- The columns that are hashed, which `Row` leaves out. -/
structure HashSource where
  title : String
  description : String
  actor : String
  createdAt : Int

/-- The bytes of the hash that a length is made from. -/
def hashBytes : Nat → Nat
  | 3 => 2
  | 4 => 3
  | 5 | 6 => 4
  | 7 | 8 => 5
  | _ => 3

/-- `GenerateHashID`. -/
def generateHashID (sum256 : String → List UInt8) (idPrefix : String) (source : HashSource)
    (length nonce : Nat) :
    String :=
  let content := source.title ++ "|" ++ source.description ++ "|" ++ source.actor ++ "|" ++
    toString source.createdAt ++ "|" ++ toString nonce
  idPrefix ++ "-" ++ encodeBase36 ((sum256 content).take (hashBytes length)) length

/-- The configuration of the generator: `issue_id_mode`, and with it the adaptive length,
which is computed in floating point, and SHA-256. -/
structure IDGenerator where
  counterMode : Bool
  adaptiveLength : Store → Plane → String → Nat
  sum256 : String → List UInt8

/-- Counter mode is for the issues table. -/
def IDGenerator.Counts (g : IDGenerator) (p : Plane) : Prop := p = .issues ∧ g.counterMode = true

instance (g : IDGenerator) (p : Plane) : Decidable (g.Counts p) :=
  inferInstanceAs (Decidable (_ ∧ _))

/-- The lengths and nonces in the order in which they are tried. -/
def attempts (baseLength : Nat) : List (Nat × Nat) :=
  (List.range' (min baseLength 8) (8 + 1 - min baseLength 8)).flatMap fun length =>
    (List.range 10).map fun nonce => (length, nonce)

/-- Hash mode: the first candidate that the table does not have. -/
def Store.firstFreeHash (s : Store) (g : IDGenerator) (p : Plane) (idPrefix : String)
    (source : HashSource) :
    Except Err String :=
  let candidates := (attempts (g.adaptiveLength s p idPrefix)).map fun attempt =>
    generateHashID g.sum256 idPrefix source attempt.1 attempt.2
  match candidates.find? fun candidate => ¬ s.Holds (p, candidate) with
  | some candidate => .ok candidate
  | none => .error (.validation "failed to generate unique ID")

/-! ## Counters -/

/-- `strings.TrimPrefix`. -/
def trimPrefix (text start : String) : String :=
  if start.toList <+: text.toList then String.ofList (text.toList.drop start.toList.length) else text

/-- An issue raises `maxNum` of a prefix; ids of children are passed over. -/
def raiseMaxNum (idPrefix : String) (maxNum : Nat) (id : String) : Nat :=
  let suffix := trimPrefix id (idPrefix ++ "-")
  if '.' ∈ suffix.toList then maxNum
  else match Query.atoi suffix with
    | some n => if n > maxNum then n.toNat else maxNum
    | none => maxNum

namespace NumberedStore
variable (s : NumberedStore) (idPrefix : String)

/-- The issues that the query for a prefix returns. -/
def prefixedIssues : List String :=
  ((s.store.rows .issues).rows.map Row.id).filter fun id => like (idPrefix.toList ++ ['-', '%']) id.toList

/-- The row of a prefix is inserted or updated; `last_id` is an `INT`. -/
def setCounter (last : Nat) : Except Err NumberedStore :=
  if 2147483647 < last then .error (.validation "out of range value for column 'last_id'")
  else .ok { s with counters := s.counters.put ⟨idPrefix, last⟩ }

/-- `UPDATE … SET last_id = last_id + 1`, which may affect no row. -/
def incrementCounter : Except Err (Option NumberedStore) :=
  match s.counters.find? idPrefix with
  | some counter => (s.setCounter idPrefix (counter.lastID + 1)).map some
  | none => .ok none

/-- `SeedCounterFromExistingIssuesTx`. -/
def seedCounterFromExistingIssues : Except Err NumberedStore :=
  match s.counters.find? idPrefix with
  | some _ => .ok s
  | none =>
    let maxNum := (s.prefixedIssues idPrefix).foldl (raiseMaxNum idPrefix) 0
    if 0 < maxNum then s.setCounter idPrefix maxNum else .ok s

/-- Seeding, the second increment, and the first number of a prefix without issues. -/
def openCounter : Except Err NumberedStore := do
  let seeded ← s.seedCounterFromExistingIssues idPrefix
  match ← seeded.incrementCounter idPrefix with
  | some counted => return counted
  | none => seeded.setCounter idPrefix 1

/-- The increment; the first use of a prefix opens its counter. -/
def advanceCounter : Except Err NumberedStore := do
  match ← s.incrementCounter idPrefix with
  | some counted => return counted
  | none => s.openCounter idPrefix

/-- `NextCounterIDTx`. -/
def nextCounterID : Except Err (String × NumberedStore) := do
  let counted ← s.advanceCounter idPrefix
  match counted.counters.find? idPrefix with
  | some counter => return (numberedID idPrefix counter.lastID, counted)
  | none => throw (.notFound idPrefix)

/-- `GenerateIssueIDInTable`. -/
def generateIssueIDInTable (g : IDGenerator) (p : Plane) (source : HashSource) :
    Except Err (String × NumberedStore) :=
  if g.Counts p then s.nextCounterID idPrefix
  else (s.store.firstFreeHash g p idPrefix source).map fun id => (id, s)

/-! ## Calls -/

/-- The id that an issue without one is given. -/
def drawn (g : IDGenerator) (ctx : BatchContext) (issue : NewIssue) (source : HashSource) :
    Except Err (String × NumberedStore) :=
  s.generateIssueIDInTable (generatedPrefix ctx issue) g issue.plane source

/-- The context of a create whose id is drawn. -/
def drawing (g : IDGenerator) (ctx : BatchContext) (issue : NewIssue) (source : HashSource) :
    BatchContext :=
  { ctx with idSuffix := fun _ _ _ => (s.drawn g ctx issue source).map fun r =>
      trimPrefix r.1 (generatedPrefix ctx issue ++ "-") }

/-- The counters of a create: only an issue without an id draws. -/
def countersAfter (g : IDGenerator) (ctx : BatchContext) (issue : NewIssue) (source : HashSource) :
    Table IssueCounter.idPrefix :=
  match s.drawn g ctx issue source with
  | .ok r => if issue.row.id = "" then r.2.counters else s.counters
  | .error _ => s.counters

/-- `CreateIssueInTxWithResult`. -/
def createIssue (g : IDGenerator) (ctx : BatchContext) (issue : NewIssue) (source : HashSource) :
    Tx (NumberedStore × Option NewIssue) := do
  let (written, created) ← s.store.createIssue (s.drawing g ctx issue source) issue
  return (⟨written, s.countersAfter g ctx issue source⟩, created)

/-- The loop over the rows of a batch, with the accepted issues. -/
def createRows (g : IDGenerator) (ctx : BatchContext) (batch : List (NewIssue × HashSource)) :
    Tx (NumberedStore × List NewIssue) :=
  batch.foldlM (fun (t, accepted) item => do
    let (written, created) ← t.createIssue g ctx item.1 item.2
    return (written, accepted ++ created.toList)) (s, [])

/-- `CreateIssuesInTxWithContext`. -/
def createIssues (g : IDGenerator) (ctx : BatchContext) (c : Coordinator)
    (batch : List (NewIssue × HashSource)) :
    Tx NumberedStore := do
  let issues ← .ofExcept (filterMixedBucketDependencies ctx.opts (batch.map Prod.fst))
  let (landed, accepted) ← s.createRows g ctx (issues.zip (batch.map Prod.snd))
  let (written, persisted) ← landed.store.persistDependencies c ctx.opts accepted
  let done ← recomputeIsBlocked (written.createBlockedRecomputeIds accepted persisted) written
  return { landed with store := done }

end NumberedStore
end Beads
