import Beads.Aggregate
import Beads.Search

/-! Keyset pages: the comments of an issue (`issueops/comments.go`), and searches that resume
behind a row (`sqlbuild/filter.go`). A time is in seconds from the zero time, as it is
stored. -/
namespace Beads
open Lib

/-! ## Comments -/

/-- `storage.CommentPageCursor`. -/
structure CommentPageCursor where
  createdAt : Nat := 0
  id : String := ""
  deriving DecidableEq

def defaultCommentsPageLimit : Nat := 100

def maxCommentsPageLimit : Nat := 500

/-- The bound of a page for the limit that is asked for. -/
def commentsPageLimit (limit : Int) : Nat :=
  if limit ≤ 0 then defaultCommentsPageLimit
  else if (maxCommentsPageLimit : Int) < limit then maxCommentsPageLimit
  else limit.toNat

/-- `CommentsKeysetPredicate`. -/
def CommentPageCursor.KeysetPredicate (after : CommentPageCursor) (c : CommentRow) : Prop :=
  after.createdAt ≤ c.createdAt ∧ (after.createdAt < c.createdAt ∨ after.id < c.id)

instance (after : CommentPageCursor) : DecidablePred after.KeysetPredicate := fun _ =>
  inferInstanceAs (Decidable (_ ∧ _))

/-- The comment a walk resumes behind; the position stays where it is after an empty page. -/
def CommentPageCursor.resume (after : CommentPageCursor) (page : List CommentRow) :
    CommentPageCursor :=
  match page.getLast? with
  | some c => ⟨c.createdAt, c.id⟩
  | none => after

/-- `ORDER BY created_at ASC, id ASC`. -/
def CommentRow.OrderedBefore (a b : CommentRow) : Prop :=
  (compareLex (compareOn CommentRow.createdAt) (compareOn CommentRow.id) a b).isLE = true

instance : DecidableRel CommentRow.OrderedBefore :=
  fun _ _ => inferInstanceAs (Decidable (_ = true))

namespace Aggregates
variable (s : Aggregates) (issueID : String)

/-- The table that the comments of an issue are in. -/
def commentTable : Table CommentRow.id :=
  if s.isActiveWisp issueID then (s .wisps).comments else (s .issues).comments

/-- `GetIssueCommentsInTx`. -/
def getIssueComments : List CommentRow :=
  ((s.commentTable issueID).rows.filter (·.issueID = issueID)).insertionSort CommentRow.OrderedBefore

/-- `GetIssueCommentsPageInTx`, with `CommentsPageQuery`. -/
def getIssueCommentsPage (after : CommentPageCursor) (limit : Int) : List CommentRow :=
  let hasCursor : Bool := after.createdAt ≠ 0 ∨ after.id ≠ ""
  let rows := (s.commentTable issueID).rows.filter fun c =>
    c.issueID = issueID ∧ (hasCursor = true → after.KeysetPredicate c)
  (rows.insertionSort CommentRow.OrderedBefore).take (commentsPageLimit limit)

end Aggregates

/-! ## Searches -/

/-- `AfterCreatedAt` and `AfterID`. -/
structure IssueCursor where
  createdAt : Nat
  id : String
  deriving DecidableEq

/-- `KeysetCreatedAtIDPredicate`. -/
def IssueCursor.KeysetPredicate (after : IssueCursor) (issue : SearchIssue) : Prop :=
  issue.createdAt ≤ after.createdAt ∧ (issue.createdAt < after.createdAt ∨ after.id < issue.id)

instance (after : IssueCursor) : DecidablePred after.KeysetPredicate := fun _ =>
  inferInstanceAs (Decidable (_ ∧ _))

/-- The clause that `BuildIssueFilterClauses` adds for a position. -/
def IssueFilter.resumeAfter (filter : IssueFilter) (after : Option IssueCursor) : IssueFilter :=
  { filter with clauses := fun issue =>
      filter.clauses issue && decide (∀ position ∈ after, position.KeysetPredicate issue) }

/-- The row a walk resumes behind. -/
def IssueCursor.resume (after : Option IssueCursor) (page : List SearchIssue) :
    Option IssueCursor :=
  match page.getLast? with
  | some issue => some ⟨issue.createdAt, issue.id⟩
  | none => after

end Beads
