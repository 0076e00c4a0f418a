import Beads.Lib.Ternary
import Beads.BlockedState

/-! `blocked_consistency.go`: the read-only count of stale `is_blocked` flags and
the full recompute. The count shares no query with the mark and unmark templates
of `blocked_state.go`. Its clauses and those of the templates are spelled out
here as the queries have them, with the values that may be `NULL`; each text
stands once for both planes. -/
namespace Beads
open Lib

namespace Status

/-- `status <> 'closed' AND status <> 'pinned'`, as a clause. -/
def live (status : Status) : Ternary :=
  (Ternary.test (status ≠ .closed)).and (.test (status ≠ .pinned))

end Status

namespace Store
variable (s : Store) (p : Plane)

/-- `cd.depends_on_… = d.depends_on_…` in either of the typed columns. -/
def sameSpawner (cd d : Dep) : Ternary :=
  ((Ternary.isNotNull (d.target.column .issues)).and
      (.eq (cd.target.column .issues) (d.target.column .issues))).or
    ((Ternary.isNotNull (d.target.column .wisps)).and
      (.eq (cd.target.column .wisps) (d.target.column .wisps)))

/-- A child of the spawner that the edge names, in one pair of tables. -/
def childExists (d : Dep) (status : Status → Ternary) : Ternary :=
  .existsJoin (s.deps p).rows (s.rows p).rows fun cd child =>
    (Ternary.test (child.id = cd.issueId)).and
      ((Ternary.test (cd.type = .parentChild)).and ((sameSpawner cd d).and (status child.status)))

/-- The spawner that the edge names, in one table. -/
def spawnerExists (d : Dep) : Ternary :=
  .existsRow (s.rows p).rows fun sp =>
    (Ternary.eq (some sp.id) (d.target.column p)).and sp.status.live

/-- `waitsForGateBlockedSQL`. -/
def waitsForGateBlocked (d : Dep) : Ternary :=
  (((s.childExists .issues d Status.live).or (s.childExists .wisps d Status.live)).and
      ((Ternary.eq (some ((d.metadata.extract "gate").getD "all-children")) (some "any-children")).and
        ((s.childExists .issues d fun status => .test (status = .closed)).or
          (s.childExists .wisps d fun status => .test (status = .closed)))).not).or
    ((Ternary.eq (some ((d.metadata.extract "also_blocks").getD "false")) (some "true")).and
      ((s.spawnerExists .issues d).or (s.spawnerExists .wisps d)))

/-- An open hard blocker in the given table. -/
def blockerExists (id : String) (q : Plane) : Ternary :=
  .existsJoin (s.deps p).rows (s.rows q).rows fun d t =>
    (Ternary.eq (some t.id) (d.target.column q)).and
      ((Ternary.test (d.issueId = id)).and
        (((Ternary.test (d.type = .blocks)).or (.test (d.type = .conditionalBlocks))).and t.status.live))

/-- A blocked parent in the given table. -/
def blockedParentExists (id : String) (q : Plane) : Ternary :=
  .existsJoin (s.deps p).rows (s.rows q).rows fun d parent =>
    (Ternary.eq (some parent.id) (d.target.column q)).and
      ((Ternary.test (d.issueId = id)).and
        ((Ternary.test (d.type = .parentChild)).and (.test (parent.isBlocked = true))))

/-- An ungated spawner. -/
def gateExists (id : String) : Ternary :=
  .existsRow (s.deps p).rows fun d =>
    (Ternary.test (d.issueId = id)).and
      ((Ternary.test (d.type = .waitsFor)).and (s.waitsForGateBlocked d))

/-! ## The detector -/

/-- `shouldBeBlockedDisjunction`. -/
def shouldBeBlockedDisjunction (id : String) : Ternary :=
  (((((s.blockerExists p id .issues).or (s.blockerExists p id .wisps)).or
    (s.blockedParentExists p id .issues)).or (s.blockedParentExists p id .wisps)).or (s.gateExists p id))

/-- The clause of `countStaleIsBlockedSQL`. -/
def staleIsBlocked (r : Row) : Ternary :=
  ((Ternary.test (r.isBlocked = false)).and (r.status.live.and (s.shouldBeBlockedDisjunction p r.id))).or
    ((Ternary.test (r.isBlocked = true)).and
      (((Ternary.test (r.status = .closed)).or (.test (r.status = .pinned))).or
        (s.shouldBeBlockedDisjunction p r.id).not))

/-- `countStaleIsBlockedSQL`. -/
def countStaleIsBlocked : Nat := (s.rows p).rows.countP fun r => decide (s.staleIsBlocked p r).Holds

/-- `CountIsBlockedInconsistenciesInTx`. -/
def countIsBlockedInconsistencies : Nat :=
  s.countStaleIsBlocked .issues + s.countStaleIsBlocked .wisps

/-! ## The templates -/

/-- The clause of `markBlockedTemplateForIssues` and `markBlockedTemplateForWisps`. -/
def markTemplate (ids : List String) (r : Row) : Ternary :=
  (Ternary.test (r.id ∈ ids)).and
    ((Ternary.test (r.isBlocked = false)).and
      (r.status.live.and
        ((s.blockerExists p r.id .issues).or
          ((s.blockerExists p r.id .wisps).or
            ((s.blockedParentExists p r.id .issues).or
              ((s.blockedParentExists p r.id .wisps).or (s.gateExists p r.id)))))))

/-- The clause of `unmarkBlockedTemplateForIssues` and `unmarkBlockedTemplateForWisps`. -/
def unmarkTemplate (ids : List String) (r : Row) : Ternary :=
  (Ternary.test (r.id ∈ ids)).and
    ((Ternary.test (r.isBlocked = true)).and
      ((Ternary.test (r.status = .closed)).or
        ((Ternary.test (r.status = .pinned)).or
          ((s.blockerExists p r.id .issues).not.and
            ((s.blockerExists p r.id .wisps).not.and
              ((s.blockedParentExists p r.id .issues).not.and
                ((s.blockedParentExists p r.id .wisps).not.and (s.gateExists p r.id).not)))))))

/-- The ids of a table. -/
def allIDs : List String := (s.rows p).rows.map Row.id

/-- `RecomputeAllIsBlockedInTx`: the repaired store and the number of rows it
corrected. -/
def recomputeAllIsBlocked : Tx (Store × Nat) := recomputeIsBlockedCounting queryBatchSize s.allIDs s

end Store
end Beads
