import Beads.BlockedState

/-! `blocked_merge.go`: the recomputation after a merge brought in rows that no
local write path has seen. The version control of the database is outside the
model: its answers are arguments, and `MergeProofs` says what is asked of them. -/
namespace Beads
open Lib

/-- What `dolt_diff` reports between two versions: the ids of the changed rows of
`issues`, and the two sides of each changed row of `dependencies`. -/
structure Diff where
  issues : List String
  dependencies : List (Option Dep × Option Dep)

/-- `changedDepEdge`. -/
structure ChangedDepEdge where
  issueId : String
  target : String
  type : DependencyType

/-- `changedDependencyEdges`: one entry for each side of a changed edge. -/
def changedDependencyEdges (diff : Diff) : List ChangedDepEdge :=
  diff.dependencies.flatMap fun sides =>
    (sides.1.toList ++ sides.2.toList).map fun d => ⟨d.issueId, d.target.id, d.type⟩

/-- The answers of the version control: the head, the number of dirty tables
among `issues` and `dependencies` if it can be read, and the differences between
a commit and the working set if they can be computed. -/
structure Versions where
  head : String
  dirty : Option Nat
  diff : String → Option Diff

def mergeRecomputeSeedCap : Nat := 1000

/-- `doltCommitHashRE`: 32 base32 characters. -/
def IsCommitHash (commit : String) : Prop :=
  commit.toList.length = 32 ∧ ∀ c ∈ commit.toList, ('0' ≤ c ∧ c ≤ '9') ∨ ('a' ≤ c ∧ c ≤ 'v')

instance (commit : String) : Decidable (IsCommitHash commit) :=
  inferInstanceAs (Decidable (_ ∧ ∀ c ∈ commit.toList, _))

namespace Store
variable (s : Store)

/-- The union that `mergeAffectedSets` collects, in the order of discovery. -/
def mergeAffected (diff : Diff) : IDs := fun p =>
  ((diff.issues.flatMap fun id => s.affectedByStatusChange (.issues, id) p) ++
    (changedDependencyEdges diff).flatMap fun e =>
      s.affectedByDepChange (.issues, e.issueId) e.target e.type p).eraseDups

/-- `mergeAffectedSets`; without a value the caller recomputes everything. -/
def mergeAffectedSets (diff : Option Diff) : Option IDs :=
  match diff with
  | none => none
  | some diff =>
    if mergeRecomputeSeedCap < diff.issues.length + (changedDependencyEdges diff).length then none
    else some (s.mergeAffected diff)

/-- `recomputeIsBlockedForAll`. -/
def recomputeIsBlockedForAll : Tx Store :=
  recomputeIsBlocked (fun p => (s.rows p).rows.map Row.id) s

/-- `recomputeIsBlockedAfterMergeScoped`. An empty commit is unknown. -/
def recomputeIsBlockedAfterMergeScoped (v : Versions) (fromCommit : String) : Tx Store :=
  if fromCommit = "" then s.recomputeIsBlockedForAll
  else if ¬ IsCommitHash fromCommit then throw (.validation "invalid from-commit")
  else if v.head = fromCommit ∧ v.dirty = some 0 then pure s
  else match s.mergeAffectedSets (v.diff fromCommit) with
    | none => s.recomputeIsBlockedForAll
    | some ids => recomputeIsBlocked ids s

/-- `RecomputeIsBlockedAfterMergeInTx`: a marker that an earlier attempt left
behind widens the window. -/
def recomputeIsBlockedAfterMerge (v : Versions) (pending fromCommit : String) : Tx Store :=
  if pending ≠ "" then
    s.recomputeIsBlockedAfterMergeScoped v
      (if IsCommitHash pending ∧ fromCommit ≠ "" then pending else "")
  else s.recomputeIsBlockedAfterMergeScoped v fromCommit

end Store
end Beads
