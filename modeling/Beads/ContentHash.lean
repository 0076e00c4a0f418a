import Mathlib.Data.List.Basic
import Beads.Lib.Terminated

/-! `ComputeContentHash` of `types.go`: the hashed fields are written one after the other,
each followed by a zero byte. The bonded sources and the waiters are written without
their number. -/
namespace Beads.Content
open Lib

/-- A Go string. -/
abbrev Text := List UInt8

/-- A `BondRef`. -/
structure BondRef where
  sourceID : Text
  bondType : Text
  bondPoint : Text
deriving DecidableEq

/-- The hashed fields of an `Issue`. -/
structure Issue where
  title : Text
  description : Text
  design : Text
  acceptanceCriteria : Text
  notes : Text
  specID : Text
  status : Text
  priority : Int64
  issueType : Text
  assignee : Text
  owner : Text
  createdBy : Text
  externalRef : Option Text
  sourceSystem : Text
  pinned : Bool
  metadata : Text
  isTemplate : Bool
  bondedFrom : List BondRef
  awaitType : Text
  awaitID : Text
  timeout : Int64
  waiters : List Text
  molType : Text
  workType : Text
  eventKind : Text
  actor : Text
  target : Text
  payload : Text
deriving DecidableEq

/-- The verb `%d`. -/
def decimal (n : Int64) : Text :=
  let digits := (Nat.toDigits 10 n.toInt.natAbs).map Char.toUInt8
  if n.toInt < 0 then 45 :: digits else digits

/-- A `hashFieldWriter`, with what has been written to its hash. -/
structure HashFieldWriter where
  h : Text

namespace HashFieldWriter

def str (w : HashFieldWriter) (s : Text) : HashFieldWriter := ⟨w.h ++ s ++ [0]⟩

def int (w : HashFieldWriter) (n : Int64) : HashFieldWriter := ⟨w.h ++ decimal n ++ [0]⟩

def strPtr (w : HashFieldWriter) : Option Text → HashFieldWriter
  | some p => ⟨w.h ++ p ++ [0]⟩
  | none => ⟨w.h ++ [0]⟩

/-- A duration is a number of nanoseconds under `%d`. -/
def duration (w : HashFieldWriter) (d : Int64) : HashFieldWriter := ⟨w.h ++ decimal d ++ [0]⟩

def flag (w : HashFieldWriter) (b : Bool) (label : Text) : HashFieldWriter :=
  if b then ⟨w.h ++ label ++ [0]⟩ else ⟨w.h ++ [0]⟩

end HashFieldWriter

/-- The bytes of `"pinned"`. -/
def pinnedLabel : Text := [112, 105, 110, 110, 101, 100]

/-- The bytes of `"template"`. -/
def templateLabel : Text := [116, 101, 109, 112, 108, 97, 116, 101]

/-- The bytes that `ComputeContentHash` feeds to the hash. -/
def hashedBytes (i : Issue) : Text :=
  let w : HashFieldWriter := ⟨[]⟩
  let w := w.str i.title
  let w := w.str i.description
  let w := w.str i.design
  let w := w.str i.acceptanceCriteria
  let w := w.str i.notes
  let w := w.str i.specID
  let w := w.str i.status
  let w := w.int i.priority
  let w := w.str i.issueType
  let w := w.str i.assignee
  let w := w.str i.owner
  let w := w.str i.createdBy
  let w := w.strPtr i.externalRef
  let w := w.str i.sourceSystem
  let w := w.flag i.pinned pinnedLabel
  let w := w.str i.metadata
  let w := w.flag i.isTemplate templateLabel
  let w := i.bondedFrom.foldl (fun w br => ((w.str br.sourceID).str br.bondType).str br.bondPoint) w
  let w := w.str i.awaitType
  let w := w.str i.awaitID
  let w := w.duration i.timeout
  let w := i.waiters.foldl (fun w waiter => w.str waiter) w
  let w := w.str i.molType
  let w := w.str i.workType
  let w := w.str i.eventKind
  let w := w.str i.actor
  let w := w.str i.target
  let w := w.str i.payload
  w.h

/-- `ComputeContentHash` over a hash and its hexadecimal text. -/
def computeContentHash (sum256 : Text → Text) (hex : Text → String) (i : Issue) : String :=
  hex (sum256 (hashedBytes i))

/-! ## What the hash is meant to tell apart -/

/-- The text fields of an issue. -/
def Issue.texts (i : Issue) : List Text :=
  [i.title, i.description, i.design, i.acceptanceCriteria, i.notes, i.specID, i.status, i.issueType, i.assignee,
    i.owner, i.createdBy, i.externalRef.getD [], i.sourceSystem, i.metadata] ++
  i.bondedFrom.flatMap (fun br => [br.sourceID, br.bondType, br.bondPoint]) ++ [i.awaitType, i.awaitID] ++
  i.waiters ++ [i.molType, i.workType, i.eventKind, i.actor, i.target, i.payload]

/-- No text field holds a zero byte. -/
def Issue.NulFree (i : Issue) : Prop := ∀ text ∈ i.texts, (0 : UInt8) ∉ text

instance (i : Issue) : Decidable i.NulFree :=
  inferInstanceAs (Decidable (∀ text ∈ i.texts, (0 : UInt8) ∉ text))

/-- Two issues agree on every hashed field, an absent external reference being the empty
one. -/
def SameContent (i j : Issue) : Prop :=
  ({ i with externalRef := some (i.externalRef.getD []) } : Issue) =
    { j with externalRef := some (j.externalRef.getD []) }

instance (i j : Issue) : Decidable (SameContent i j) := inferInstanceAs (Decidable (_ = _))

/-- The text of a timeout. -/
def TimeoutText (text : Text) : Prop := ∃ d : Int64, text = decimal d

/-- No field that is three places, or six, or nine, from the timeout reads as a timeout:
these are the bond points before it and every third of the waiters after it. -/
structure Issue.Unambiguous (i : Issue) : Prop where
  bonds : ∀ br ∈ i.bondedFrom, ¬ TimeoutText br.bondPoint
  waits : ∀ n text, i.waiters[3 * n + 2]? = some text → ¬ TimeoutText text

end Beads.Content
