import Beads.Aggregate
import Beads.Rename

/-! What a rename does to the edge tables.

Statement by statement, every row of the two edge tables ends as
`DependencyRow.afterRename` of itself. The rows are the old ones with the new id
in place of the old one, and keyed by their source and target, unless the
cascade has moved a reference that no later statement looks at again
(`Aggregates.updateIssueID_exact_iff`). -/
namespace Beads
open Lib

variable {depid : String → String → String} {wispTargetKey : Bool} {p q : Plane}
  {oldID newID : String}
  {table t : Table DependencyRow.id}

/-! ## Statements -/

/-- A row that a delete and an insert replace, or that they pass over. -/
def DependencyRow.retargeted (depid : String → String → String) (p : Plane) (oldID newID : String)
    (r : DependencyRow) : DependencyRow :=
  if r.target.Names oldID then r.replaced depid p newID else r

private theorem replaceDependencyTarget_ok
    (ok : replaceDependencyTarget depid p oldID newID table = .ok t) :
    t.rows.Perm (table.rows.map (·.retargeted depid p oldID newID)) := by
  unfold replaceDependencyTarget at ok
  split at ok
  · cases ok
  · rw [dependencyTable_ok ok]
    have parts := (List.filter_append_perm (fun r => ¬ r.target.Names oldID) table.rows).map
      (·.retargeted depid p oldID newID)
    rw [List.map_append] at parts
    refine List.Perm.trans ?_ parts
    have kept : (table.rows.filter fun r => ¬ r.target.Names oldID).map
        (·.retargeted depid p oldID newID) =
        table.rows.filter fun r => ¬ r.target.Names oldID := by
      conv_rhs => rw [← List.map_id (table.rows.filter _)]
      refine List.map_congr_left fun r held => ?_
      have apart := of_decide_eq_true (List.mem_filter.mp held).2
      simp [DependencyRow.retargeted, apart]
    have moved : (table.rows.filter fun r => !decide (¬ r.target.Names oldID)).map
          (·.retargeted depid p oldID newID) =
        (table.rows.filter fun r => r.target.Names oldID).map (·.replaced depid p newID) := by
      have same : (table.rows.filter fun r => !decide (¬ r.target.Names oldID)) =
          table.rows.filter fun r => r.target.Names oldID := by
        refine List.filter_congr fun r _ => ?_
        simp
      rw [same]
      refine List.map_congr_left fun r held => ?_
      have named := of_decide_eq_true (List.mem_filter.mp held).2
      simp [DependencyRow.retargeted, named]
    rw [kept, moved]

/-- The key that a row of a renamed source gets. -/
def DependencyRow.sourced (depid : String → String → String) (newID : String) (r : DependencyRow) :
    DependencyRow :=
  { r with id := depid newID r.target.id, issueID := newID }

/-- The rows that a list of updates is about are rekeyed, each once. -/
theorem rekeys_ok {pending : List DependencyRow} (held : ∀ r ∈ pending, r ∈ table)
    (distinct : pending.Nodup) (ok : (pending.map fun r => (r.id, depid newID r.target.id)).foldlM
      (fun table rekey => dependencyTable newID (table.rows.map (·.rekeyed newID rekey))) table = .ok t) :
    t.rows = table.rows.map fun r => if r ∈ pending then r.sourced depid newID else r := by
  induction pending generalizing table with
  | nil =>
    cases ok
    simp
  | cons r pending ih =>
    rw [List.map_cons, List.foldlM_cons] at ok
    obtain ⟨fresh, distinct⟩ := List.nodup_cons.mp distinct
    cases step : dependencyTable newID
        (table.rows.map (·.rekeyed newID (r.id, depid newID r.target.id))) with
    | error err =>
      rw [step] at ok
      cases ok
    | ok next =>
      rw [step] at ok
      -- The key picks out the row, since no two rows have the same.
      have rows : next.rows = table.rows.map fun x => if x = r then r.sourced depid newID else x := by
        rw [dependencyTable_ok step]
        refine List.map_congr_left fun x inside => ?_
        by_cases same : x = r
        · subst same
          simp [DependencyRow.rekeyed, DependencyRow.sourced]
        · have apart : x.id ≠ r.id :=
            fun key => same (Table.eq_of_key inside (held r List.mem_cons_self) key)
          simp [DependencyRow.rekeyed, apart, same]
      have waiting : ∀ x ∈ pending, x ∈ next := fun x member => by
        have apart : x ≠ r := fun same => fresh (same ▸ member)
        change x ∈ next.rows
        rw [rows]
        exact List.mem_map.mpr ⟨x, held x (List.mem_cons_of_mem _ member), if_neg apart⟩
      rw [ih waiting distinct ok, rows, List.map_map]
      refine List.map_congr_left fun x _ => ?_
      by_cases same : x = r
      · subst same
        simp [DependencyRow.sourced]
      · simp [same]

private theorem rekeyDependencySource_ok
    (ok : rekeyDependencySource depid oldID newID table = .ok t) :
    t.rows = table.rows.map fun r =>
      if (r.issueID = newID ∨ r.issueID = oldID) ∧
        depid newID r.target.id ≠ r.id then r.sourced depid newID
      else r := by
  unfold rekeyDependencySource staleSources at ok
  have distinct : table.rows.Nodup := List.Nodup.of_map _ table.distinct
  rw [rekeys_ok (fun r held => (List.mem_filter.mp held).1) (distinct.filter _) ok]
  refine List.map_congr_left fun r inside => ?_
  simp only [List.mem_filter, inside, true_and, decide_eq_true_eq]

/-! ## The whole rename -/

/-- The plane of the row that a rename takes. -/
def Aggregates.renamedPlane (s : Aggregates) (oldID : String) : Plane :=
  if s.isActiveWisp oldID then .wisps else .issues

/-- A row of the edge table of plane `q` after the cascade, the retargeting and,
for the durable edges of an issue, the new keys. -/
def DependencyRow.afterRename (depid : String → String → String) (wispTargetKey : Bool) (p : Plane)
    (oldID newID : String) (q : Plane) (r : DependencyRow) : DependencyRow :=
  let m := (r.cascade wispTargetKey p oldID newID q).retargeted depid p oldID newID
  if (q = .issues ∧ p = .issues) ∧ (m.issueID = newID ∨ m.issueID = oldID) ∧ depid newID m.target.id ≠ m.id then
    m.sourced depid newID
  else m

variable {s u : Aggregates}

theorem Aggregates.updateIssueID_ok (ok : s.updateIssueID depid wispTargetKey oldID newID = .ok u) :
    oldID ∈ (s (s.renamedPlane oldID)).ids ∧
      ∀ q, (u q).dependencies.rows.Perm ((s q).dependencies.rows.map
      (·.afterRename depid wispTargetKey (s.renamedPlane oldID) oldID newID q)) := by
  unfold updateIssueID at ok
  generalize plane : (if s.isActiveWisp oldID = true then Plane.wisps else Plane.issues) = p at ok
  rw [show s.renamedPlane oldID = p from plane]
  obtain ⟨present, ok⟩ := guard_eq_ok.mp ok
  obtain ⟨-, ok⟩ := guard_eq_ok.mp ok
  obtain ⟨first, cascaded, ok⟩ := bind_eq_ok.mp ok
  obtain ⟨second, cascaded', ok⟩ := bind_eq_ok.mp ok
  obtain ⟨third, replaced, ok⟩ := bind_eq_ok.mp ok
  obtain ⟨ephemeral, replaced', ok⟩ := bind_eq_ok.mp ok
  obtain ⟨durable, rekeyed, ok⟩ := bind_eq_ok.mp ok
  cases ok
  refine ⟨not_not.mp present, fun q => ?_⟩
  cases q with
  | issues =>
    have rows := replaceDependencyTarget_ok replaced
    rw [dependencyTable_ok cascaded, List.map_map] at rows
    change durable.rows.Perm _
    unfold rekeySources at rekeyed
    by_cases issue : p = .issues
    · rw [if_pos issue] at rekeyed
      rw [rekeyDependencySource_ok rekeyed]
      refine (rows.map _).trans (List.Perm.of_eq ?_)
      rw [List.map_map]
      refine List.map_congr_left fun r _ => ?_
      simp [DependencyRow.afterRename, issue]
    · rw [if_neg issue] at rekeyed
      cases rekeyed
      refine rows.trans (List.Perm.of_eq (List.map_congr_left fun r _ => ?_))
      simp [DependencyRow.afterRename, issue]
  | wisps =>
    have rows := replaceDependencyTarget_ok replaced'
    rw [dependencyTable_ok cascaded', List.map_map] at rows
    change ephemeral.rows.Perm _
    refine rows.trans (List.Perm.of_eq (List.map_congr_left fun r _ => ?_))
    simp [DependencyRow.afterRename]

/-! ## What a rename should do -/

/-- The columns of a row without the surrogate key. -/
def DependencyRow.unkeyed (r : DependencyRow) : DependencyRow := { r with id := "" }

/-- A row with the new id where it referred to the renamed row. -/
def DependencyRow.renamed (p : Plane) (oldID newID : String) (q : Plane) (r : DependencyRow) :
    DependencyRow :=
  { r with
    issueID := if q = p ∧ r.issueID = oldID then newID else r.issueID
    target := if r.target = .node (p, oldID) then .node (p, newID) else r.target }

/-- Every surrogate key is the one of its source and target. -/
def Aggregates.Keyed (s : Aggregates) (depid : String → String → String) : Prop :=
  ∀ q, ∀ r ∈ (s q).dependencies.rows, r.id = depid r.issueID r.target.id

/-- The rows of both edge tables are the old ones with the new id, neither more
nor fewer, and keyed by source and target. -/
structure Aggregates.RenamedTo (s : Aggregates) (depid : String → String → String) (p : Plane)
    (oldID newID : String) (u : Aggregates) : Prop where
  rows : ∀ q, ((u q).dependencies.rows.map DependencyRow.unkeyed).Perm
    ((s q).dependencies.rows.map fun r => (r.renamed p oldID newID q).unkeyed)
  keyed : u.Keyed depid

/-- The cascade moves a reference of the row, and the keys are not looked at
again: they are only for the durable edges that leave a renamed issue. -/
def DependencyRow.Missed (wispTargetKey : Bool) (p : Plane) (oldID : String) (q : Plane)
    (r : DependencyRow) : Prop :=
  ((q = p ∧ r.issueID = oldID) ∨
      (r.target = .node (p, oldID) ∧ (q = .issues ∧ p = .wisps → wispTargetKey = true))) ∧
    ¬ (q = .issues ∧ p = .issues ∧ r.issueID = oldID)

/-- No edge refers to a row of the other plane by the old id, and none is missed. -/
def Aggregates.Renameable (s : Aggregates) (wispTargetKey : Bool) (p : Plane) (oldID : String) :
    Prop :=
  ∀ q, ∀ r ∈ (s q).dependencies.rows,
    (r.target.Names oldID → r.target = .node (p, oldID)) ∧ ¬ r.Missed wispTargetKey p oldID q

/-- The surrogate key tells an edge at the old id from the edge at the new one. -/
def Distinguishes (depid : String → String → String) (oldID newID : String) : Prop :=
  ∀ a b a' b', (a' = a ∨ (a = oldID ∧ a' = newID)) → (b' = b ∨ (b = oldID ∧ b' = newID)) →
    depid a b = depid a' b' → a' = a ∧ b' = b

theorem Target.names_node_iff {target : Target} {id : String} :
    target.Names id ↔ ∃ plane, target = .node (plane, id) := by
  constructor
  · rintro (durable | ephemeral)
    · exact ⟨_, durable⟩
    · exact ⟨_, ephemeral⟩
  · rintro ⟨_ | _, named⟩
    · exact .inl named
    · exact .inr named

private theorem Target.rename_eq_ite {target : Target} :
    target.rename p oldID newID = if target.Names oldID then .node (p, newID) else target := by
  cases target with
  | external ref => simp [rename, Names]
  | node n =>
    obtain ⟨plane, id⟩ := n
    cases plane <;> simp [rename, Names]

namespace DependencyRow
variable {r : DependencyRow}

private theorem retargeted_not_names (differ : newID ≠ oldID) :
    ¬ (r.retargeted depid p oldID newID).target.Names oldID := by
  unfold retargeted
  split
  · simp [replaced, Target.Names, differ]
  · assumption

/-- No typed target holds the old id after a rename. -/
theorem afterRename_not_names (differ : newID ≠ oldID) :
    ¬ (r.afterRename depid wispTargetKey p oldID newID q).target.Names oldID := by
  simp only [afterRename]
  split
  · exact retargeted_not_names differ
  · exact retargeted_not_names differ

/-- The edges end where the rename of a store, which has no surrogate keys, puts them. -/
theorem afterRename_edge (differ : newID ≠ oldID) :
    (r.afterRename depid wispTargetKey p oldID newID q).edge =
      (if q = p ∧ r.issueID = oldID then newID else r.issueID, r.target.rename p oldID newID) := by
  have target : ((r.cascade wispTargetKey p oldID newID q).retargeted depid p oldID newID).target =
      r.target.rename p oldID newID := by
    rw [Target.rename_eq_ite]
    by_cases moves : r.target = .node (p, oldID) ∧ (q = .issues ∧ p = .wisps → wispTargetKey = true)
    · have moved : (r.cascade wispTargetKey p oldID newID q).target = .node (p, newID) :=
        if_pos moves
      rw [retargeted, if_neg (by simp [moved, Target.Names, differ]), moved, if_pos]
      exact Target.names_node_iff.mpr ⟨_, moves.1⟩
    · have kept : (r.cascade wispTargetKey p oldID newID q).target = r.target := if_neg moves
      unfold retargeted
      rw [kept]
      split
      · rfl
      · exact kept
  have source : ((r.cascade wispTargetKey p oldID newID q).retargeted depid p oldID newID).issueID =
      if q = p ∧ r.issueID = oldID then newID else r.issueID := by
    unfold retargeted
    split <;> rfl
  have left : ((r.cascade wispTargetKey p oldID newID q).retargeted depid p oldID newID).issueID ≠ oldID ∨
      ¬ (q = .issues ∧ p = .issues) := by
    by_cases durable : q = .issues ∧ p = .issues
    · rw [source]
      by_cases here : r.issueID = oldID
      · simp [durable, here, differ]
      · simp [here]
    · exact .inr durable
  simp only [afterRename]
  split
  · next stale =>
    obtain ⟨durable, here, -⟩ := stale
    have here := here.resolve_right (left.resolve_right (not_not.mpr durable))
    exact Prod.ext (here.symm.trans source) target
  · exact Prod.ext source target

/-- The cascade puts the new id everywhere, but for durable edges onto a wisp. -/
theorem cascade_eq_renamed (reaches : q = .issues ∧ p = .wisps → wispTargetKey = true) :
    r.cascade wispTargetKey p oldID newID q = r.renamed p oldID newID q := by
  simp only [cascade, renamed, and_iff_left reaches]

private theorem renamed_not_names (differ : newID ≠ oldID)
    (alone : r.target.Names oldID → r.target = .node (p, oldID)) :
    ¬ (r.renamed p oldID newID q).target.Names oldID := by
  by_cases onto : r.target = .node (p, oldID)
  · simp [renamed, onto, Target.Names, differ]
  · simp only [renamed, onto, if_false]
    exact fun named => onto (alone named)

/-- After a cascade that puts the new id everywhere nothing is left to retarget. -/
theorem retargeted_cascade (differ : newID ≠ oldID)
    (alone : r.target.Names oldID → r.target = .node (p, oldID))
    (reaches : q = .issues ∧ p = .wisps → wispTargetKey = true) :
    (r.cascade wispTargetKey p oldID newID q).retargeted depid p oldID newID = r.renamed p oldID newID q := by
  rw [cascade_eq_renamed reaches, retargeted, if_neg (renamed_not_names differ alone)]

/-- A durable edge after the rename of an issue. -/
theorem afterRename_durable (differ : newID ≠ oldID) (keyed : r.id = depid r.issueID r.target.id)
    (alone : r.target.Names oldID → r.target = .node (.issues, oldID))
    (seen : ¬ r.Missed wispTargetKey .issues oldID .issues) :
    (r.afterRename depid wispTargetKey .issues oldID newID .issues).unkeyed =
        (r.renamed .issues oldID newID .issues).unkeyed ∧
      (r.afterRename depid wispTargetKey .issues oldID newID .issues).id =
        depid (r.afterRename depid wispTargetKey .issues oldID newID .issues).issueID
          (r.afterRename depid wispTargetKey .issues oldID newID .issues).target.id := by
  have moved : (r.renamed .issues oldID newID .issues).issueID ≠ oldID := by
    by_cases source : r.issueID = oldID
    · simp [renamed, source, differ]
    · simp [renamed, source]
  simp only [afterRename, retargeted_cascade differ alone (by simp), and_self, true_and, moved,
    or_false]
  split
  · next stale => exact ⟨by simp [sourced, unkeyed, stale.1], rfl⟩
  · next fresh =>
    refine ⟨rfl, ?_⟩
    by_cases source : r.issueID = oldID
    · have here : (r.renamed .issues oldID newID .issues).issueID = newID := by
        simp [renamed, source]
      rw [here]
      exact (not_not.mp fun stale => fresh ⟨here, stale⟩).symm
    · -- An edge of another source is unchanged, since it would be missed otherwise.
      have apart : r.target ≠ .node (.issues, oldID) := fun onto =>
        seen ⟨.inr ⟨onto, by simp⟩, fun same => source same.2.2⟩
      simpa [renamed, source, apart] using keyed

/-- An edge that no cascade touches. -/
theorem afterRename_apart (differ : newID ≠ oldID) (keyed : r.id = depid r.issueID r.target.id)
    (alone : r.target.Names oldID → r.target = .node (p, oldID))
    (seen : ¬ r.Missed wispTargetKey p oldID q) (elsewhere : ¬ (q = .issues ∧ p = .issues)) :
    (r.afterRename depid wispTargetKey p oldID newID q).unkeyed = (r.renamed p oldID newID q).unkeyed ∧
      (r.afterRename depid wispTargetKey p oldID newID q).id =
        depid (r.afterRename depid wispTargetKey p oldID newID q).issueID
          (r.afterRename depid wispTargetKey p oldID newID q).target.id := by
  have source : ¬ (q = p ∧ r.issueID = oldID) := fun here =>
    seen ⟨.inl here, fun same => elsewhere ⟨same.1, same.2.1⟩⟩
  simp only [afterRename, elsewhere, false_and, if_false]
  by_cases reaches : q = .issues ∧ p = .wisps → wispTargetKey = true
  · have apart : r.target ≠ .node (p, oldID) := fun onto =>
      seen ⟨.inr ⟨onto, reaches⟩, fun same => elsewhere ⟨same.1, same.2.1⟩⟩
    rw [retargeted_cascade differ alone reaches]
    exact ⟨rfl, by simpa [renamed, source, apart] using keyed⟩
  · have kept : r.cascade wispTargetKey p oldID newID q = r := by
      simp only [cascade, if_neg source, reaches, and_false, if_false]
    rw [kept, retargeted]
    split
    · next named =>
      have onto := alone named
      exact ⟨by simp [replaced, renamed, unkeyed, source, onto], rfl⟩
    · next unnamed =>
      have apart : r.target ≠ .node (p, oldID) :=
        fun onto => unnamed (Target.names_node_iff.mpr ⟨_, onto⟩)
      exact ⟨by simp [renamed, source, apart], keyed⟩

/-- A row that is not missed ends as it should. -/
theorem afterRename_renameable (differ : newID ≠ oldID) (keyed : r.id = depid r.issueID r.target.id)
    (alone : r.target.Names oldID → r.target = .node (p, oldID))
    (seen : ¬ r.Missed wispTargetKey p oldID q) :
    (r.afterRename depid wispTargetKey p oldID newID q).unkeyed = (r.renamed p oldID newID q).unkeyed ∧
      (r.afterRename depid wispTargetKey p oldID newID q).id =
        depid (r.afterRename depid wispTargetKey p oldID newID q).issueID
          (r.afterRename depid wispTargetKey p oldID newID q).target.id := by
  by_cases durable : q = .issues ∧ p = .issues
  · obtain ⟨rfl, rfl⟩ := durable
    exact afterRename_durable differ keyed alone seen
  · exact afterRename_apart differ keyed alone seen durable

variable (depid) in
/-- A row that is missed keeps its key, and one of its ends moves. -/
theorem afterRename_missed (differ : newID ≠ oldID) (unused : r.issueID ≠ newID)
    (alone : r.target.Names oldID → r.target = .node (p, oldID))
    (missed : r.Missed wispTargetKey p oldID q) :
    r.afterRename depid wispTargetKey p oldID newID q = r.renamed p oldID newID q ∧
      ((r.renamed p oldID newID q).issueID ≠ r.issueID ∨
        (r.renamed p oldID newID q).target.id ≠ r.target.id) := by
  obtain ⟨refers, unseen⟩ := missed
  have reaches : q = .issues ∧ p = .wisps → wispTargetKey = true := by
    rintro ⟨rfl, rfl⟩
    rcases refers with ⟨same, -⟩ | ⟨-, key⟩
    · cases same
    · exact key ⟨rfl, rfl⟩
  constructor
  · simp only [afterRename, retargeted_cascade differ alone reaches]
    rw [if_neg]
    rintro ⟨⟨rfl, rfl⟩, source, -⟩
    have other : r.issueID ≠ oldID := fun same => unseen ⟨rfl, rfl, same⟩
    simp [renamed, other, unused] at source
  · rcases refers with source | ⟨onto, -⟩
    · simp [renamed, source, differ]
    · simp [renamed, onto, Target.id, differ]

private theorem renamed_ends (r : DependencyRow) (p q : Plane) (oldID newID : String) :
    ((r.renamed p oldID newID q).issueID = r.issueID ∨
      (r.issueID = oldID ∧ (r.renamed p oldID newID q).issueID = newID)) ∧
    ((r.renamed p oldID newID q).target.id = r.target.id ∨
      (r.target.id = oldID ∧ (r.renamed p oldID newID q).target.id = newID)) := by
  constructor
  · by_cases source : q = p ∧ r.issueID = oldID
    · simp [renamed, source]
    · simp [renamed, source]
  · by_cases onto : r.target = .node (p, oldID)
    · simp [renamed, onto, Target.id]
    · simp [renamed, onto]

end DependencyRow

/-- Both models of a rename leave the same edges. -/
theorem Aggregates.updateIssueID_edges (differ : newID ≠ oldID)
    (ok : s.updateIssueID depid wispTargetKey oldID newID = .ok u) :
    ((u q).dependencies.rows.map DependencyRow.edge).Perm ((s q).dependencies.rows.map fun r =>
      (if q = s.renamedPlane oldID ∧ r.issueID = oldID then newID else r.issueID,
        r.target.rename (s.renamedPlane oldID) oldID newID)) := by
  refine (((updateIssueID_ok ok).2 q).map _).trans (List.Perm.of_eq ?_)
  rw [List.map_map]
  exact List.map_congr_left fun r _ => DependencyRow.afterRename_edge differ

/-- Edges leave rows that are there. -/
def Aggregates.Owned (s : Aggregates) : Prop :=
  ∀ q, ∀ r ∈ (s q).dependencies.rows, r.issueID ∈ (s q).ids

section Exact
variable (differ : newID ≠ oldID) (sources : ∀ q, ∀ r ∈ (s q).dependencies.rows, r.issueID ≠ newID)
  (keyed : s.Keyed depid)
  (rows : ∀ q, (u q).dependencies.rows.Perm
    ((s q).dependencies.rows.map (·.afterRename depid wispTargetKey p oldID newID q)))
include differ keyed rows

private theorem Aggregates.RenamedTo.of_renameable
    (renameable : s.Renameable wispTargetKey p oldID) :
    s.RenamedTo depid p oldID newID u where
  rows q := by
    refine ((rows q).map _).trans (List.Perm.of_eq ?_)
    rw [List.map_map]
    refine List.map_congr_left fun r held => ?_
    obtain ⟨alone, seen⟩ := renameable q r held
    exact (DependencyRow.afterRename_renameable differ (keyed q r held) alone seen).1
  keyed q x held := by
    obtain ⟨r, inside, rfl⟩ := List.mem_map.mp ((rows q).subset held)
    obtain ⟨alone, seen⟩ := renameable q r inside
    exact (DependencyRow.afterRename_renameable differ (keyed q r inside) alone seen).2

include sources in
theorem Aggregates.RenamedTo.renameable (tells : Distinguishes depid oldID newID)
    (renamed : s.RenamedTo depid p oldID newID u) : s.Renameable wispTargetKey p oldID := by
  intro q r held
  have alone : r.target.Names oldID → r.target = .node (p, oldID) := by
    intro named
    by_contra other
    -- The row should stay as it is, but no row of the result names the old id.
    have expected := (renamed.rows q).symm.subset (List.mem_map_of_mem held)
    obtain ⟨x, stored, same⟩ := List.mem_map.mp expected
    obtain ⟨y, -, rfl⟩ := List.mem_map.mp ((rows q).subset stored)
    have target := congrArg DependencyRow.target same
    simp only [DependencyRow.unkeyed, DependencyRow.renamed, other, if_false] at target
    exact DependencyRow.afterRename_not_names differ (target ▸ named)
  refine ⟨alone, fun missed => ?_⟩
  obtain ⟨outcome, moved⟩ :=
    DependencyRow.afterRename_missed depid differ (sources q r held) alone missed
  have stored : r.renamed p oldID newID q ∈ (u q).dependencies.rows := by
    rw [← outcome]
    exact (rows q).symm.subset (List.mem_map_of_mem held)
  have key := renamed.keyed q _ stored
  obtain ⟨source, target⟩ := r.renamed_ends p q oldID newID
  obtain ⟨sameSource, sameTarget⟩ := tells _ _ _ _ source target ((keyed q r held).symm.trans key)
  rcases moved with moved | moved
  · exact moved sameSource
  · exact moved sameTarget

end Exact

/-- A rename to an unused id leaves the old rows with the new id, each under its
key, exactly if no edge refers to a row of the other plane by the old id and the
cascade moves no reference but those of the durable edges that leave a renamed
issue. -/
theorem Aggregates.updateIssueID_exact_iff (s u : Aggregates) (depid : String → String → String)
    (wispTargetKey : Bool) (oldID newID : String) (unused : ∀ q, newID ∉ (s q).ids)
    (owned : s.Owned) (keyed : s.Keyed depid) (tells : Distinguishes depid oldID newID)
    (ok : s.updateIssueID depid wispTargetKey oldID newID = .ok u) :
    s.RenamedTo depid (s.renamedPlane oldID) oldID newID u ↔
      s.Renameable wispTargetKey (s.renamedPlane oldID) oldID := by
  obtain ⟨present, rows⟩ := updateIssueID_ok ok
  have differ : newID ≠ oldID := fun same => unused _ (same ▸ present)
  have sources : ∀ q, ∀ r ∈ (s q).dependencies.rows, r.issueID ≠ newID := fun q r held same =>
    unused q (same ▸ owned q r held)
  exact ⟨fun renamed => renamed.renameable differ sources keyed rows tells,
    fun renameable => .of_renameable differ keyed rows renameable⟩

/-- A stand-in for the hash of source and target. -/
def joined (source target : String) : String := source ++ "/" ++ target

theorem joined_distinguishes : Distinguishes joined "bd-1" "bd-9" := by
  have first {b b' : String} (same : joined "bd-1" b = joined "bd-9" b') : False := by
    have letters := congrArg (fun text => text.toList[3]?) same
    simp [joined] at letters
  rintro a b a' b' (rfl | ⟨rfl, rfl⟩) (rfl | ⟨rfl, rfl⟩) same
  · exact ⟨rfl, rfl⟩
  · simp [joined] at same
  · exact (first same).elim
  · exact (first same).elim

/-- Two issues and an edge between them. -/
def linked (source target : String) : Aggregates
  | .issues => ⟨["bd-1", "bd-2"], .empty, ⟨[⟨joined source target, source, .node (.issues, target), .blocks,
      none, none, none, none⟩], by simp⟩, .empty, .empty, .empty⟩
  | .wisps => ⟨[], .empty, .empty, .empty, .empty, .empty⟩

theorem linked_row {source target : String} {q : Plane} {r : DependencyRow}
    (held : r ∈ (linked source target q).dependencies.rows) :
    q = .issues ∧ r = ⟨joined source target, source, .node (.issues, target), .blocks, none, none, none, none⟩ := by
  cases q with
  | issues => exact ⟨rfl, List.mem_singleton.mp held⟩
  | wisps => cases held

theorem linked_unused {source target : String} (q : Plane) :
    "bd-9" ∉ (linked source target q).ids := by
  cases q <;> simp [linked]

theorem linked_owned {source target : String} (held : source ∈ ["bd-1", "bd-2"]) :
    (linked source target).Owned := by
  intro q r member
  obtain ⟨rfl, rfl⟩ := linked_row member
  exact held

theorem linked_keyed {source target : String} : (linked source target).Keyed joined := by
  intro q r member
  obtain ⟨rfl, rfl⟩ := linked_row member
  rfl

theorem linked_plane {source target : String} :
    (linked source target).renamedPlane "bd-1" = .issues := rfl

/-- The edge that leaves the renamed issue ends with the new source and its key. -/
theorem updateIssueID_exact_iff_outgoing :
    ∃ u, (linked "bd-1" "bd-2").updateIssueID joined false "bd-1" "bd-9" = .ok u ∧
      (linked "bd-1" "bd-2").RenamedTo joined .issues "bd-1" "bd-9" u := by
  obtain ⟨u, ok⟩ :=
    ok_of_isOk (x := (linked "bd-1" "bd-2").updateIssueID joined false "bd-1" "bd-9") (by decide +kernel)
  refine ⟨u, ok, (Aggregates.updateIssueID_exact_iff (linked "bd-1" "bd-2") u joined false "bd-1" "bd-9" linked_unused
    (linked_owned (by decide)) linked_keyed joined_distinguishes ok).mpr fun q r member => ?_⟩
  obtain ⟨rfl, rfl⟩ := linked_row member
  rw [linked_plane]
  exact ⟨by simp [Target.Names], by simp [DependencyRow.Missed]⟩

/-- The edge onto the renamed issue keeps the key of the old target. -/
theorem not_renamedTo_incoming :
    (linked "bd-2" "bd-1").Keyed joined ∧
      ∃ u, (linked "bd-2" "bd-1").updateIssueID joined false "bd-1" "bd-9" = .ok u ∧
        ¬ (linked "bd-2" "bd-1").RenamedTo joined .issues "bd-1" "bd-9" u := by
  refine ⟨linked_keyed, ?_⟩
  obtain ⟨u, ok⟩ :=
    ok_of_isOk (x := (linked "bd-2" "bd-1").updateIssueID joined false "bd-1" "bd-9") (by decide +kernel)
  refine ⟨u, ok, fun renamed => ?_⟩
  have sources : ∀ q, ∀ r ∈ (linked "bd-2" "bd-1" q).dependencies.rows, r.issueID ≠ "bd-9" := by
    intro q r member same
    exact linked_unused q (same ▸ linked_owned (by decide) q r member)
  have rows := (Aggregates.updateIssueID_ok ok).2
  rw [linked_plane] at rows
  have renameable := renamed.renameable (by decide) sources linked_keyed rows joined_distinguishes
  obtain ⟨-, seen⟩ := renameable .issues _ List.mem_cons_self
  exact seen (by simp [DependencyRow.Missed])

end Beads
