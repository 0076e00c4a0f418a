import Beads.AutoMerge

/-! The field-level merge keeps every edit that only one side has made, settles a contested cell
by `updated_at`, keeps an issue closed exactly when it has a closing time, and comes to the same
row on both sides. -/
namespace Beads
open Lib.ThreeWay

/-! ## The columns of a conflict row -/

theorem toList_column (side : ConflictSide) (field : String) :
    (side.column field).toList = (side.column "").toList ++ field.toList := by
  simp [ConflictSide.column]

theorem length_column (side : ConflictSide) :
    (side.column "").length = (side.column "").toList.length :=
  String.length_toList.symm

private theorem splitConflictColumn_our (field : String) :
    splitConflictColumn (ConflictSide.our.column field) =
    some (.our, field) := by
  have base : ¬ (ConflictSide.base.column "").toList <+:
      (ConflictSide.our.column field).toList := by
    simp [ConflictSide.column, ConflictSide.label]
  have our : (ConflictSide.our.column "").toList <+: (ConflictSide.our.column field).toList := by
    rw [toList_column .our field]
    exact List.prefix_append _ _
  have rest : String.ofList ((ConflictSide.our.column field).toList.drop (ConflictSide.our.column "").length) =
      field := by
    rw [toList_column .our field, length_column, List.drop_left, String.ofList_toList]
  simp only [splitConflictColumn, List.findSome?_cons, if_neg base, if_pos our, rest]

private theorem eq_column_of_splitConflictColumn {col : String} {side : ConflictSide}
    {field : String}
    (split : splitConflictColumn col = some (side, field)) : col = side.column field := by
  obtain ⟨side', -, found⟩ := List.exists_of_findSome?_eq_some split
  split_ifs at found with start
  obtain ⟨rfl, rfl⟩ := Prod.mk.inj (Option.some.inj found)
  obtain ⟨rest, same⟩ := start
  apply String.toList_injective
  rw [toList_column side' _, String.toList_ofList, length_column, ← same, List.drop_left]

/-- The side, as the other party sees it. -/
def ConflictSide.swap : ConflictSide → ConflictSide
  | .base => .base
  | .our => .their
  | .their => .our

@[simp] theorem ConflictSide.swap_swap (side : ConflictSide) : side.swap.swap = side := by
  cases side <;> rfl

namespace RawConflictRow
variable {row row' : RawConflictRow}

private theorem isSome_value {side : ConflictSide} {field : String} :
    (row.value side field).isSome ↔ ∃ cell ∈ row.cells, cell.1 = side.column field := by
  simp [value, List.find?_isSome]

theorem mem_dataColumns {exclude : List String} {field : String} :
    field ∈ row.dataColumns exclude ↔
      (row.value .our field).isSome ∧ field ∉ conflictMetaSuffixes ∧ field ∉ exclude := by
  rw [dataColumns, List.mem_eraseDups, List.mem_filterMap, isSome_value]
  constructor
  · rintro ⟨cell, held, picked⟩
    split at picked
    · rename_i found split
      split_ifs at picked with skipped
      obtain rfl := Option.some.inj picked
      exact ⟨⟨cell, held, eq_column_of_splitConflictColumn split⟩, not_or.mp skipped⟩
    · cases picked
  · rintro ⟨⟨cell, held, named⟩, kept⟩
    refine ⟨cell, held, ?_⟩
    rw [named, splitConflictColumn_our]
    simp [not_or.mpr kept]

private theorem column_inj {side side' : ConflictSide} {f f' : String} :
    side.column f = side'.column f' ↔ side = side' ∧ f = f' := by
  constructor
  · intro same
    have texts := congrArg String.toList same
    rw [toList_column side f, toList_column side' f'] at texts
    cases side <;> cases side' <;> simp_all [ConflictSide.column, ConflictSide.label]
  · rintro ⟨rfl, rfl⟩
    rfl

/-- A conflict row over one schema, as the conflict table of the merged schema has it. -/
def ofSchema (schema : List (String × (ConflictSide → ConflictValue))) : RawConflictRow where
  cells := schema.flatMap fun field =>
    [(ConflictSide.base.column field.1, field.2 .base), (ConflictSide.our.column field.1, field.2 .our),
      (ConflictSide.their.column field.1, field.2 .their)]

private theorem value_ofSchema (schema : List (String × (ConflictSide → ConflictValue)))
    (side : ConflictSide) (f : String) :
    (ofSchema schema).value side f = (schema.find? (·.1 = f)).map (·.2 side) := by
  induction schema with
  | nil => rfl
  | cons field schema ih =>
    simp only [value, ofSchema] at ih
    simp only [value, ofSchema, List.flatMap_cons, List.cons_append, List.nil_append,
      List.find?_cons, column_inj]
    by_cases here : field.1 = f
    · cases side <;> simp [here]
    · cases side <;> simpa [here] using ih

/-- The columns that are merged. -/
abbrev fields (row : RawConflictRow) : List String := row.dataColumns [issuesKeyColumn, "row_lock"]

end RawConflictRow

/-! ## The plan -/

namespace TimeText
variable {lib : TimeText} {draws draws' : Draws} {row row' : RawConflictRow} {m m' : IssuesRowMerge}
  {field col : String}

/-- The text of a cell. -/
def cell (lib : TimeText) (row : RawConflictRow) (side : ConflictSide) (field : String) :
    Option String :=
  lib.formatConflictValue (row.mustValue side field)

private theorem classifyCell_eq (known : (lib.classifyCell row field).isSome) :
    lib.classifyCell row field =
    some (classify (lib.cell row .base field) (lib.cell row .our field) (lib.cell row .their field),
      row.mustValue .their field) := by
  unfold classifyCell conflictCellsEqual at known ⊢
  unfold cell RawConflictRow.mustValue classify
  cases ours : row.value .our field <;> cases theirs : row.value .their field <;>
    cases base : row.value .base field <;> simp_all
  split_ifs <;> simp_all

theorem verdict_eq (known : ∀ col ∈ row.fields, (lib.classifyCell row col).isSome)
    (held : field ∈ row.fields) :
    lib.verdict row field =
      classify (lib.cell row .base field) (lib.cell row .our field) (lib.cell row .their field) := by
  rw [verdict, if_pos held, classifyCell_eq (known field held)]
  rfl

/-- The cell goes to the later side. -/
def byTime (lib : TimeText) (row : RawConflictRow) (col : String) : Bool :=
  lib.verdict row col ≠ .agree ∧
    ((lib.closeGroupContested row ∧ col ∈ issuesCloseGroup) ∨ lib.verdict row col = .contested)

/-- Their value is written. -/
def takes (lib : TimeText) (row : RawConflictRow) (col : String) : Bool :=
  if lib.byTime row col then lib.theirsWinLWW row else lib.verdict row col = .theirsOnly

/-- The plan with a column of the loop. -/
def planned (lib : TimeText) (row : RawConflictRow) (m : IssuesRowMerge) (cols : List String) :
    IssuesRowMerge :=
  { m with
    writes := m.writes ++ (cols.filter (lib.takes row)).map fun col => (col, row.mustValue .their col)
    lww := m.lww ++ cols.filter (lib.byTime row) }

private theorem mergeCell_eq (m : IssuesRowMerge) (col : String) : lib.mergeCell row m col =
    if lib.byTime row col ∧ ¬ lib.lwwUsable row then none else some (lib.planned row m [col]) := by
  have claimed (m : IssuesRowMerge) (time : lib.byTime row col) : lib.settleByTime row m col =
      if lib.byTime row col ∧ ¬ lib.lwwUsable row then none else some (lib.planned row m [col]) := by
    unfold settleByTime planned takes takeTheirs
    by_cases usable : lib.lwwUsable row <;> by_cases wins : lib.theirsWinLWW row <;>
      simp [time, usable, wins]
  have unclaimed (m : IssuesRowMerge) (own : ¬ lib.byTime row col) :
      (if lib.byTime row col ∧ ¬ lib.lwwUsable row then none else some (lib.planned row m [col])) =
        some (if lib.verdict row col = .theirsOnly then takeTheirs row m col else m) := by
    by_cases alone : lib.verdict row col = .theirsOnly <;> simp [own, alone, planned, takes, takeTheirs]
  by_cases grouped : lib.closeGroupContested row ∧ col ∈ issuesCloseGroup
  · by_cases differ : lib.verdict row col = .agree
    · rw [unclaimed m (by simp [byTime, differ])]
      simp [mergeCell, differ]
    · rw [← claimed m (by simp [byTime, differ, grouped])]
      cases v : lib.verdict row col <;> simp_all [mergeCell]
  · by_cases contested : lib.verdict row col = .contested
    · rw [← claimed m (by simp [byTime, contested])]
      simp [mergeCell, contested, grouped]
    · rw [unclaimed m (by simp [byTime, contested, grouped])]
      cases v : lib.verdict row col <;> simp_all [mergeCell]

private theorem planned_planned (m : IssuesRowMerge) (cols cols' : List String) :
    lib.planned row (lib.planned row m cols) cols' = lib.planned row m (cols ++ cols') := by
  simp [planned]

/-- The whole loop: it fails when a cell cannot go to either side. -/
theorem foldlM_mergeCell (m : IssuesRowMerge) (cols : List String) :
    cols.foldlM (lib.mergeCell row) m =
    if (∃ col ∈ cols, lib.byTime row col) ∧
      ¬ lib.lwwUsable row then none else some (lib.planned row m cols) := by
  induction cols generalizing m with
  | nil => simp [planned]
  | cons col cols ih =>
    rw [List.foldlM_cons, mergeCell_eq]
    by_cases stuck : lib.byTime row col ∧ ¬ lib.lwwUsable row
    · have first : (∃ c ∈ col :: cols, lib.byTime row c) ∧ ¬ lib.lwwUsable row :=
        ⟨⟨col, List.mem_cons_self, stuck.1⟩, stuck.2⟩
      rw [if_pos stuck, if_pos first]
      rfl
    · have later : ((∃ c ∈ col :: cols, lib.byTime row c) ∧ ¬ lib.lwwUsable row) ↔
          ((∃ c ∈ cols, lib.byTime row c) ∧ ¬ lib.lwwUsable row) := by
        simp only [List.exists_mem_cons_iff]
        tauto
      rw [if_neg stuck, Option.bind_eq_bind, Option.bind_some, ih, planned_planned]
      simp only [later, List.singleton_append]

/-- A row that the merge settles. -/
structure Mergeable (lib : TimeText) (row : RawConflictRow) : Prop where
  present : ∀ side, row.present [issuesKeyColumn] side
  known : ∀ col ∈ row.fields, (lib.classifyCell row col).isSome
  scalar : ∀ col ∈ row.fields, lib.verdict row col = .contested → col ∉ issuesNonScalarColumns
  settled : ∀ col ∈ row.fields, lib.byTime row col → lib.lwwUsable row

/-- The plan before the stamps. -/
def plan (lib : TimeText) (row : RawConflictRow) : IssuesRowMerge :=
  lib.planned row ⟨row.mustValue .our issuesKeyColumn, [], []⟩ row.fields

theorem mergeIssuesConflictRow_eq : lib.mergeIssuesConflictRow draws row = some m ↔
    lib.Mergeable row ∧ m = lib.stampMerge draws row (lib.plan row) := by
  have sides : row.sidesPresent [issuesKeyColumn] = (true, true, true) ↔
      ∀ side, row.present [issuesKeyColumn] side = true := by
    simp only [RawConflictRow.sidesPresent, Prod.mk.injEq]
    constructor
    · rintro ⟨base, our, their⟩ side
      cases side <;> assumption
    · intro all
      exact ⟨all _, all _, all _⟩
  simp only [mergeIssuesConflictRow, foldlM_mergeCell]
  constructor
  · intro done
    split_ifs at done with present known nonScalar stuck
    · cases done
    · refine ⟨⟨sides.mp present, List.all_eq_true.mp known, ?_, ?_⟩, (Option.some.inj done).symm⟩
      · intro col held contested listed
        exact nonScalar (List.any_eq_true.mpr ⟨col, held, decide_eq_true ⟨contested, listed⟩⟩)
      · intro col held claimed
        by_contra unusable
        exact stuck ⟨⟨col, held, claimed⟩, unusable⟩
  · rintro ⟨mergeable, rfl⟩
    have scalar : ¬ (row.fields.any fun col =>
        decide (lib.verdict row col = .contested ∧ col ∈ issuesNonScalarColumns)) = true := by
      intro some
      obtain ⟨col, held, both⟩ := List.any_eq_true.mp some
      have ⟨contested, listed⟩ := of_decide_eq_true both
      exact mergeable.scalar col held contested listed
    have free : ¬ ((∃ col ∈ row.fields, lib.byTime row col) ∧ ¬ lib.lwwUsable row) := by
      rintro ⟨⟨col, held, claimed⟩, unusable⟩
      exact unusable (mergeable.settled col held claimed)
    rw [if_pos (sides.mpr mergeable.present), if_pos (List.all_eq_true.mpr mergeable.known),
      if_neg scalar, if_neg free]
    rfl

/-! ## The settled row -/

/-- The column of a side of the merge. -/
def conflictSide : Side → ConflictSide
  | .ours => .our
  | .theirs => .their

private theorem conflictSide_other (side : Side) :
    conflictSide side.other = (conflictSide side).swap := by
  cases side <;> rfl

/-- The later side. -/
def winner (lib : TimeText) (row : RawConflictRow) : Side :=
  if lib.theirsWinLWW row then .theirs else .ours

/-- The side whose value a cell has after the merge. -/
def kept (lib : TimeText) (row : RawConflictRow) (col : String) : Side :=
  if lib.byTime row col then lib.winner row else (lib.verdict row col).keeps (lib.winner row)

theorem takes_iff : lib.takes row col ↔ lib.kept row col = .theirs := by
  unfold takes kept winner
  by_cases time : lib.byTime row col
  · by_cases wins : lib.theirsWinLWW row <;> simp [time, wins]
  · have calm : lib.verdict row col ≠ .contested :=
      fun contested => time (by simp [byTime, contested])
    rw [if_neg time, if_neg time]
    cases v : lib.verdict row col <;> simp_all [Verdict.keeps]

private theorem setPair_ne_nil (col : String) (val : ConflictValue)
    (l : List (String × ConflictValue)) :
    setPair col val l ≠ [] := by
  cases l with
  | nil => simp [setPair]
  | cons pair l =>
    rw [setPair]
    split_ifs <;> simp

theorem lookup_setPair (val : ConflictValue) (l : List (String × ConflictValue)) :
    ((setPair col val l).find? (·.1 = field)).map Prod.snd =
      if field = col then some val else (l.find? (·.1 = field)).map Prod.snd := by
  induction l with
  | nil => by_cases same : field = col <;> simp [setPair, same, eq_comm]
  | cons pair l ih =>
    obtain ⟨c, v⟩ := pair
    by_cases first : c = col
    · subst first
      by_cases same : field = c <;> simp [setPair, same, eq_comm]
    · rw [setPair, if_neg first]
      by_cases here : c = field
      · have other : field ≠ col := here ▸ first
        simp [here, other]
      · simp only [List.find?_cons_of_neg, here, decide_false, Bool.false_eq_true,
          not_false_eq_true, ih]

private theorem lookup_plan : ((lib.plan row).writes.find? (·.1 = field)).map Prod.snd =
    if field ∈ row.fields ∧ lib.takes row field then some (row.mustValue .their field) else none := by
  simp only [plan, planned, List.nil_append, List.find?_map, Function.comp_def, Option.map_map]
  by_cases taken : field ∈ row.fields ∧ lib.takes row field
  · have some : ((row.fields.filter (lib.takes row)).find? (· = field)).isSome :=
      List.find?_isSome.mpr ⟨field, List.mem_filter.mpr taken, decide_eq_true rfl⟩
    obtain ⟨col, found⟩ := Option.isSome_iff_exists.mp some
    obtain rfl : col = field := by simpa using List.find?_some found
    rw [found, if_pos taken]
    rfl
  · rw [if_neg taken, List.find?_eq_none.mpr]
    · rfl
    · intro col held same
      obtain rfl := of_decide_eq_true same
      exact taken (List.mem_filter.mp held)

private theorem writes_plan :
    (lib.plan row).writes = [] ↔ ∀ col ∈ row.fields, lib.kept row col = .ours := by
  have sides (side : Side) : ¬ side = .theirs ↔ side = .ours := by cases side <;> simp
  simp only [plan, planned, List.nil_append, List.map_eq_nil_iff, List.filter_eq_nil_iff, takes_iff,
    sides]

private theorem settled_plan (held : field ∈ row.fields) :
    (lib.plan row).settled row field = some (row.mustValue (conflictSide (lib.kept row field)) field) := by
  have ours : row.value .our field = some (row.mustValue .our field) := by
    obtain ⟨val, some⟩ := Option.isSome_iff_exists.mp (RawConflictRow.mem_dataColumns.mp held).1
    rw [RawConflictRow.mustValue, some]
    rfl
  rw [IssuesRowMerge.settled, lookup_plan]
  by_cases taken : lib.takes row field
  · rw [if_pos ⟨held, taken⟩, takes_iff.mp taken]
    rfl
  · have kept : lib.kept row field = .ours := by
      have := mt takes_iff.mpr taken
      cases side : lib.kept row field <;> simp_all
    rw [if_neg fun both => taken both.2, Option.none_or, ours, kept]
    rfl

/-- A column besides the stamps is as the plan has it. -/
theorem settled_stampMerge (updated : field ≠ "updated_at") (lock : field ≠ "row_lock") :
    (lib.stampMerge draws row m).settled row field = m.settled row field := by
  unfold stampMerge IssuesRowMerge.setColumn IssuesRowMerge.settled
  split_ifs
  · rfl
  · simp only [lookup_setPair, if_neg updated, if_neg lock]
  · simp only [lookup_setPair, if_neg updated]

private theorem settled_updated_at : (lib.stampMerge draws row m).settled row "updated_at" =
    if m.writes = [] then row.value .our "updated_at" else some (lib.mergedUpdatedAt row) := by
  unfold stampMerge IssuesRowMerge.setColumn IssuesRowMerge.settled
  split_ifs with none
  · simp [none]
  · simp [lookup_setPair]
  · simp [lookup_setPair]

private theorem settled_row_lock (writes : m.writes ≠ [])
    (column : (row.value .our "row_lock").isSome) :
    (lib.stampMerge draws row m).settled row "row_lock" = some (.int (lib.freshRowLockDistinctFrom draws
      (row.mustValue .our "row_lock") (row.mustValue .their "row_lock"))) := by
  simp [stampMerge, IssuesRowMerge.setColumn, IssuesRowMerge.settled, writes, column,
    lookup_setPair]

/-- The value of a column after the merge is that of the side it is kept from. -/
theorem settled_eq (done : lib.mergeIssuesConflictRow draws row = some m)
    (held : field ∈ row.fields) (updated : field ≠ "updated_at") :
    m.settled row field = some (row.mustValue (conflictSide (lib.kept row field)) field) := by
  obtain ⟨-, rfl⟩ := mergeIssuesConflictRow_eq.mp done
  have lock : field ≠ "row_lock" := by
    rintro rfl
    exact (RawConflictRow.mem_dataColumns.mp held).2.2 (by simp)
  rw [settled_stampMerge updated lock, settled_plan held]

/-! ## The later stamp -/

/-- The three values of `updated_at` are times, with one text for each, and neither side's is
before the base's. -/
structure Stamped (lib : TimeText) (row : RawConflictRow) (b o t : Int) : Prop where
  base : lib.parseConflictTimestamp (row.mustValue .base "updated_at") = some b
  ours : lib.parseConflictTimestamp (row.mustValue .our "updated_at") = some o
  theirs : lib.parseConflictTimestamp (row.mustValue .their "updated_at") = some t
  text : ∀ s s', lib.cell row s "updated_at" = lib.cell row s' "updated_at" ↔
    lib.parseConflictTimestamp (row.mustValue s "updated_at") =
      lib.parseConflictTimestamp (row.mustValue s' "updated_at")
  oursLater : b ≤ o
  theirsLater : b ≤ t

private theorem byTime_updated_at :
    lib.byTime row "updated_at" ↔ lib.verdict row "updated_at" = .contested := by
  have outside : "updated_at" ∉ issuesCloseGroup := by simp [issuesCloseGroup]
  simp only [byTime, outside, and_false, false_or, decide_eq_true_eq]
  exact ⟨fun both => both.2, fun contested => ⟨by simp [contested], contested⟩⟩

section Later
variable {b o t : Int} (stamped : lib.Stamped row b o t)
include stamped

theorem Stamped.isSome_value : (row.value .our "updated_at").isSome := by
  have parsed := stamped.ours
  rw [RawConflictRow.mustValue] at parsed
  cases known : row.value .our "updated_at" with
  | some val => rfl
  | none => simp [known, parseConflictTimestamp, formatConflictValue] at parsed

private theorem Stamped.mem_fields : "updated_at" ∈ row.fields :=
  RawConflictRow.mem_dataColumns.mpr
    ⟨stamped.isSome_value, by simp [conflictMetaSuffixes], by simp [issuesKeyColumn]⟩

private theorem Stamped.winner : lib.winner row = if o < t then .theirs else .ours := by
  simp [TimeText.winner, theirsWinLWW, stamped.ours, stamped.theirs]

/-- With nothing to write our stamp is the later one: it would have been taken over otherwise. -/
theorem Stamped.le_ours (mergeable : lib.Mergeable row) (idle : (lib.plan row).writes = []) :
    t ≤ o := by
  have kept := writes_plan.mp idle "updated_at" stamped.mem_fields
  have verdict := verdict_eq mergeable.known stamped.mem_fields
  cases v : lib.verdict row "updated_at" with
  | agree =>
    have same := (stamped.text .our .their).mp (classify_agree.mp (verdict ▸ v))
    rw [stamped.ours, stamped.theirs] at same
    exact (Option.some.inj same).ge
  | oursOnly =>
    have same := (stamped.text .their .base).mp (classify_oursOnly.mp (verdict ▸ v)).2
    rw [stamped.base, stamped.theirs] at same
    exact (Option.some.inj same).le.trans stamped.oursLater
  | theirsOnly =>
    have calm : ¬ lib.byTime row "updated_at" :=
      fun time => by simp [byTime_updated_at.mp time] at v
    simp [TimeText.kept, calm, v, Verdict.keeps] at kept
  | contested =>
    have time := byTime_updated_at.mpr v
    rw [TimeText.kept, if_pos time, stamped.winner] at kept
    by_contra later
    rw [if_pos (not_le.mp later)] at kept
    cases kept

/-- The settled row has the later of the two stamps, as one of the sides has it. -/
theorem Stamped.settled (done : lib.mergeIssuesConflictRow draws row = some m) :
    ∃ side, m.settled row "updated_at" = some (row.mustValue (conflictSide side) "updated_at") ∧
      lib.parseConflictTimestamp (row.mustValue (conflictSide side) "updated_at") = some (max o t) := by
  obtain ⟨mergeable, rfl⟩ := mergeIssuesConflictRow_eq.mp done
  rw [settled_updated_at]
  by_cases idle : (lib.plan row).writes = []
  · obtain ⟨val, known⟩ := Option.isSome_iff_exists.mp stamped.isSome_value
    refine ⟨.ours, ?_, ?_⟩
    · rw [if_pos idle, conflictSide, RawConflictRow.mustValue, known]
      rfl
    · rw [conflictSide, stamped.ours, max_eq_left (stamped.le_ours mergeable idle)]
  · rw [if_neg idle, mergedUpdatedAt, stamped.ours, stamped.theirs]
    by_cases later : o < t
    · exact ⟨.theirs, by simp [later, conflictSide],
        by rw [conflictSide, stamped.theirs, max_eq_right later.le]⟩
    · exact ⟨.ours, by simp [later, conflictSide],
        by rw [conflictSide, stamped.ours, max_eq_left (not_lt.mp later)]⟩

end Later

/-! ## Both sides come to the same row -/

/-- The conflict row that the other party sees, over the same columns. -/
structure Mirrored (row row' : RawConflictRow) : Prop where
  value : ∀ side f, row'.value side f = row.value side.swap f
  columns : ∀ f, (row.value .our f).isSome = (row.value .their f).isSome

/-- A schema with the two sides exchanged. -/
def exchange (schema : List (String × (ConflictSide → ConflictValue))) :
    List (String × (ConflictSide → ConflictValue)) :=
  schema.map fun field => (field.1, field.2 ∘ ConflictSide.swap)

namespace Mirrored

private theorem symm (mirrored : Mirrored row row') : Mirrored row' row where
  value side f := by rw [mirrored.value, ConflictSide.swap_swap]
  columns f := by
    rw [mirrored.value .our, mirrored.value .their]
    exact (mirrored.columns f).symm

theorem ofSchema (schema : List (String × (ConflictSide → ConflictValue))) :
    Mirrored (.ofSchema schema) (.ofSchema (exchange schema)) where
  value side f := by
    simp only [RawConflictRow.value_ofSchema, exchange, List.find?_map, Function.comp_def,
      Option.map_map]
  columns f := by simp only [RawConflictRow.value_ofSchema, Option.isSome_map]

section
variable (mirrored : Mirrored row row')
include mirrored

theorem mustValue (side : ConflictSide) :
    row'.mustValue side field = row.mustValue side.swap field := by
  rw [RawConflictRow.mustValue, mirrored.value, RawConflictRow.mustValue]

theorem mem_fields : field ∈ row'.fields ↔ field ∈ row.fields := by
  rw [RawConflictRow.mem_dataColumns, RawConflictRow.mem_dataColumns, mirrored.value,
    mirrored.columns]
  rfl

theorem classifyCell_isSome :
    (lib.classifyCell row' field).isSome = (lib.classifyCell row field).isSome := by
  unfold classifyCell conflictCellsEqual
  simp only [mirrored.value, ConflictSide.swap]
  cases ours : row.value .our field <;> cases theirs : row.value .their field <;>
    cases base : row.value .base field <;> simp [eq_comm] <;> split_ifs <;> rfl

theorem verdict (known : ∀ col ∈ row.fields, (lib.classifyCell row col).isSome) :
    lib.verdict row' field = (lib.verdict row field).mirror := by
  by_cases held : field ∈ row.fields
  · have known' : ∀ col ∈ row'.fields, (lib.classifyCell row' col).isSome := fun col held' =>
      mirrored.classifyCell_isSome ▸ known col (mirrored.mem_fields.mp held')
    rw [verdict_eq known held, verdict_eq known' (mirrored.mem_fields.mpr held), ← classify_mirror]
    simp only [cell, mirrored.mustValue, ConflictSide.swap]
  · rw [TimeText.verdict, TimeText.verdict, if_neg held, if_neg (mt mirrored.mem_fields.mp held)]
    rfl

theorem byTime (known : ∀ col ∈ row.fields, (lib.classifyCell row col).isSome) :
    lib.byTime row' field = lib.byTime row field := by
  simp [TimeText.byTime, closeGroupContested, mirrored.verdict known]

private theorem lwwUsable : lib.lwwUsable row' = lib.lwwUsable row := by
  simp only [TimeText.lwwUsable, mirrored.mustValue, ConflictSide.swap]
  cases lib.parseConflictTimestamp (row.mustValue .our "updated_at") <;>
    cases lib.parseConflictTimestamp (row.mustValue .their "updated_at") <;> simp [eq_comm]

private theorem winner (usable : lib.lwwUsable row) : lib.winner row' = (lib.winner row).other := by
  have our : row'.mustValue .our "updated_at" = row.mustValue .their "updated_at" :=
    mirrored.mustValue .our
  have their : row'.mustValue .their "updated_at" = row.mustValue .our "updated_at" :=
    mirrored.mustValue .their
  unfold TimeText.winner theirsWinLWW
  rw [our, their]
  unfold TimeText.lwwUsable at usable
  cases ours : lib.parseConflictTimestamp (row.mustValue .our "updated_at") with
  | none => simp [ours] at usable
  | some o =>
    cases theirs : lib.parseConflictTimestamp (row.mustValue .their "updated_at") with
    | none => simp [theirs] at usable
    | some t =>
      have differ : o ≠ t := by simpa [ours, theirs] using usable
      rcases lt_or_gt_of_ne differ with later | later
      · simp [later, later.not_gt, Side.other]
      · simp [later, later.not_gt, Side.other]

private theorem mergeable (merges : lib.Mergeable row) : lib.Mergeable row' where
  present side := by
    simpa only [RawConflictRow.present, mirrored.value] using merges.present side.swap
  known col held := mirrored.classifyCell_isSome ▸ merges.known col (mirrored.mem_fields.mp held)
  scalar col held contested :=
    merges.scalar col (mirrored.mem_fields.mp held)
      (Verdict.mirror_contested.mp (mirrored.verdict merges.known ▸ contested))
  settled col held time :=
    mirrored.lwwUsable ▸ merges.settled col (mirrored.mem_fields.mp held) (mirrored.byTime merges.known ▸ time)

/-- Where the two sides differ, both keep the value of the same of them. -/
theorem kept (merges : lib.Mergeable row) (held : field ∈ row.fields)
    (differ : lib.verdict row field ≠ .agree) :
    lib.kept row' field = (lib.kept row field).other := by
  rw [TimeText.kept, TimeText.kept, mirrored.byTime merges.known]
  by_cases time : lib.byTime row field
  · rw [if_pos time, if_pos time, mirrored.winner (merges.settled field held time)]
  · rw [if_neg time, if_neg time, mirrored.verdict merges.known]
    refine Verdict.keeps_mirror differ fun contested => absurd ?_ time
    simp [TimeText.byTime, contested]

end
end Mirrored

/-- The text of a column of the settled row. -/
def settledText (lib : TimeText) (m : IssuesRowMerge) (row : RawConflictRow) (field : String) :
    Option String :=
  lib.formatConflictValue ((m.settled row field).getD .null)

theorem settledText_eq (done : lib.mergeIssuesConflictRow draws row = some m)
    (held : field ∈ row.fields) (updated : field ≠ "updated_at") :
    lib.settledText m row field = lib.cell row (conflictSide (lib.kept row field)) field := by
  rw [settledText, settled_eq done held updated]
  rfl

theorem cell_of_agree (side : Side) (same : lib.cell row .our field = lib.cell row .their field) :
    lib.cell row (conflictSide side) field = lib.cell row .our field := by
  cases side
  · rfl
  · exact same.symm

theorem settledText_mirrored (mirrored : Mirrored row row')
    (done : lib.mergeIssuesConflictRow draws row = some m)
    (done' : lib.mergeIssuesConflictRow draws' row' = some m') (held : field ∈ row.fields)
    (updated : field ≠ "updated_at") :
    lib.settledText m row field = lib.settledText m' row' field := by
  have merges := (mergeIssuesConflictRow_eq.mp done).1
  rw [settledText_eq done held updated, settledText_eq done' (mirrored.mem_fields.mpr held) updated]
  rw [cell, cell, mirrored.mustValue]
  by_cases differ : lib.verdict row field = .agree
  · -- the two sides have the same text, whichever of them is kept
    have same := classify_agree.mp (verdict_eq merges.known held ▸ differ)
    rw [← conflictSide_other]
    exact (cell_of_agree _ same).trans (cell_of_agree _ same).symm
  · rw [mirrored.kept merges held differ, ← conflictSide_other, Side.other_other]

theorem Stamped.mirror {b o t : Int} (mirrored : Mirrored row row')
    (stamped : lib.Stamped row b o t) :
    lib.Stamped row' b t o where
  base := by rw [mirrored.mustValue]; exact stamped.base
  ours := by rw [mirrored.mustValue]; exact stamped.theirs
  theirs := by rw [mirrored.mustValue]; exact stamped.ours
  text s s' := by
    rw [cell, cell, mirrored.mustValue, mirrored.mustValue]
    exact stamped.text s.swap s'.swap
  oursLater := stamped.theirsLater
  theirsLater := stamped.oursLater

theorem Stamped.settledText_mirrored {b o t : Int} (stamped : lib.Stamped row b o t)
    (mirrored : Mirrored row row') (done : lib.mergeIssuesConflictRow draws row = some m)
    (done' : lib.mergeIssuesConflictRow draws' row' = some m') :
    lib.settledText m row "updated_at" = lib.settledText m' row' "updated_at" := by
  obtain ⟨side, settled, latest⟩ := stamped.settled done
  obtain ⟨side', settled', latest'⟩ := (stamped.mirror mirrored).settled done'
  rw [mirrored.mustValue] at settled' latest'
  rw [settledText, settled, settledText, settled']
  exact (stamped.text _ _).mpr (latest.trans (max_comm o t ▸ latest'.symm))

/-- Two parties that merge each other's row both settle it or both leave it to the operator;
settled, the two rows have the same text in every column besides `row_lock`, with the later
`updated_at`. -/
theorem merge_converges (lib : TimeText) (draws draws' : Draws) {row row' : RawConflictRow}
    (mirrored : Mirrored row row') :
    (lib.mergeIssuesConflictRow draws row).isSome = (lib.mergeIssuesConflictRow draws' row').isSome ∧
      ∀ m m', lib.mergeIssuesConflictRow draws row = some m →
        lib.mergeIssuesConflictRow draws' row' = some m' →
        (∀ field ∈ row.fields, field ≠ "updated_at" →
          lib.settledText m row field = lib.settledText m' row' field) ∧
        ∀ b o t, lib.Stamped row b o t →
          lib.settledText m row "updated_at" = lib.settledText m' row' "updated_at" ∧
            (m.settled row "updated_at").bind lib.parseConflictTimestamp = some (max o t) := by
  refine ⟨?_, fun m m' done done' => ⟨fun field held updated => ?_, fun b o t stamped => ⟨?_, ?_⟩⟩⟩
  · have accepts (draws : Draws) (row : RawConflictRow) :
        (lib.mergeIssuesConflictRow draws row).isSome ↔ lib.Mergeable row := by
      rw [Option.isSome_iff_exists]
      constructor
      · rintro ⟨m, done⟩
        exact (mergeIssuesConflictRow_eq.mp done).1
      · intro merges
        exact ⟨_, mergeIssuesConflictRow_eq.mpr ⟨merges, rfl⟩⟩
    rw [Bool.eq_iff_iff, accepts, accepts]
    exact ⟨mirrored.mergeable, mirrored.symm.mergeable⟩
  · exact settledText_mirrored mirrored done done' held updated
  · exact stamped.settledText_mirrored mirrored done done'
  · obtain ⟨side, settled, latest⟩ := stamped.settled done
    rw [settled]
    exact latest

/-- Rows that differ in nothing but their tokens are settled with nothing to write. -/
theorem mergeIssuesConflictRow_of_same (present : ∀ side, row.present [issuesKeyColumn] side)
    (columns : ∀ field ∈ row.fields, (row.value .their field).isSome)
    (same : ∀ field ∈ row.fields, lib.cell row .our field = lib.cell row .their field) :
    lib.mergeIssuesConflictRow draws row = some ⟨row.mustValue .our issuesKeyColumn, [], []⟩ := by
  have known : ∀ field ∈ row.fields, lib.classifyCell row field = some
      (.agree, row.mustValue .their field) := by
    intro field held
    obtain ⟨ours, first⟩ := Option.isSome_iff_exists.mp (RawConflictRow.mem_dataColumns.mp held).1
    obtain ⟨theirs, second⟩ := Option.isSome_iff_exists.mp (columns field held)
    have texts := same field held
    rw [cell, cell, RawConflictRow.mustValue, RawConflictRow.mustValue, first, second] at texts
    simp only [Option.getD_some] at texts
    simp [classifyCell, first, second, RawConflictRow.mustValue, conflictCellsEqual, texts]
  have agree : ∀ field ∈ row.fields, lib.verdict row field = .agree := by
    intro field held
    rw [verdict, if_pos held, known field held]
    rfl
  have calm : ∀ field ∈ row.fields, lib.byTime row field = false := by
    intro field held
    simp [byTime, agree field held]
  have idle : lib.plan row = ⟨row.mustValue .our issuesKeyColumn, [], []⟩ := by
    have untaken : row.fields.filter (lib.takes row) = [] :=
      List.filter_eq_nil_iff.mpr fun field held => by simp [takes, calm field held, agree field held]
    have unclaimed : row.fields.filter (lib.byTime row) = [] :=
      List.filter_eq_nil_iff.mpr fun field held => by simp [calm field held]
    simp [plan, planned, untaken, unclaimed]
  refine mergeIssuesConflictRow_eq.mpr ⟨⟨present, ?_, ?_, ?_⟩, ?_⟩
  · intro field held
    rw [known field held]
    rfl
  · intro field held contested
    rw [agree field held] at contested
    cases contested
  · intro field held time
    rw [calm field held] at time
    cases time
  · rw [stampMerge, idle, if_pos rfl]

/-- The first seconds of 1970, printed. -/
def firstSeconds : TimeText where
  format t :=
    if t < 1000000000 then "1970-01-01T00:00:00Z"
    else if t < 2000000000 then "1970-01-01T00:00:01Z" else "1970-01-01T00:00:02Z"
  parse _ _ := none

/-- A generator that counts. -/
def counting : Draws where
  draw n := n
  varied a b := by
    by_cases zero : (0 : Int) ≠ a ∧ (0 : Int) ≠ b
    · exact ⟨0, zero⟩
    · by_cases one : (1 : Int) ≠ a ∧ (1 : Int) ≠ b
      · exact ⟨1, one⟩
      · exact ⟨2, by constructor <;> push_cast <;> omega⟩

/-- Three versions of a column. -/
def versions (b o t : ConflictValue) : ConflictSide → ConflictValue
  | .base => b
  | .our => o
  | .their => t

/-- We close the issue, then they give it a title and start it. -/
def closeOrStart : List (String × (ConflictSide → ConflictValue)) :=
  [("id", versions (.text "bd-1") (.text "bd-1") (.text "bd-1")),
    ("title", versions (.text "a") (.text "a") (.text "b")),
    ("status", versions (.text "open") (.text "closed") (.text "in_progress")),
    ("closed_at", versions .null (.time 1000000000) .null),
    ("updated_at", versions (.time 0) (.time 1000000000) (.time 2000000000)),
    ("row_lock", versions (.int 0) (.int 1) (.int 2))]

/-- The same row, as they see it. -/
def startOrClose : List (String × (ConflictSide → ConflictValue)) := exchange closeOrStart

/-- The two results, merged. -/
def started : List (String × (ConflictSide → ConflictValue)) :=
  [("id", versions (.text "bd-1") (.text "bd-1") (.text "bd-1")),
    ("title", versions (.text "a") (.text "b") (.text "b")),
    ("status", versions (.text "open") (.text "in_progress") (.text "in_progress")),
    ("closed_at", versions .null .null .null),
    ("updated_at", versions (.time 0) (.time 2000000000) (.time 2000000000)),
    ("row_lock", versions (.int 0) (.int 7) (.int 8))]

theorem stamped_closeOrStart :
    firstSeconds.Stamped (.ofSchema closeOrStart) 0 1000000000 2000000000 where
  base := by decide +kernel
  ours := by decide +kernel
  theirs := by decide +kernel
  text s s' := by cases s <;> cases s' <;> decide +kernel
  oursLater := by decide
  theirsLater := by decide

theorem isSome_closeOrStart :
    (firstSeconds.mergeIssuesConflictRow counting (.ofSchema closeOrStart)).isSome := by
  decide +kernel

theorem isSome_startOrClose :
    (firstSeconds.mergeIssuesConflictRow counting (.ofSchema startOrClose)).isSome := by
  decide +kernel

theorem merge_converges_closeOrStart : ∃ m m',
    firstSeconds.mergeIssuesConflictRow counting (.ofSchema closeOrStart) = some m ∧
      firstSeconds.mergeIssuesConflictRow counting (.ofSchema startOrClose) = some m' ∧
      firstSeconds.settledText m (.ofSchema closeOrStart) "status" =
        firstSeconds.settledText m' (.ofSchema startOrClose) "status" ∧
      firstSeconds.settledText m (.ofSchema closeOrStart) "updated_at" =
        firstSeconds.settledText m' (.ofSchema startOrClose) "updated_at" := by
  obtain ⟨m, done⟩ := Option.isSome_iff_exists.mp isSome_closeOrStart
  obtain ⟨m', done'⟩ := Option.isSome_iff_exists.mp isSome_startOrClose
  obtain ⟨-, same⟩ := merge_converges firstSeconds counting counting (.ofSchema closeOrStart)
  obtain ⟨texts, stamps⟩ := same m m' done done'
  exact ⟨m, m', done, done', texts "status" (by decide +kernel) (by simp),
    (stamps _ _ _ stamped_closeOrStart).1⟩

/-- Once both parties have settled the row, the merge of the two results has nothing to write: it
is settled as it stands, though the two tokens differ. -/
theorem merge_quiesces (lib : TimeText) (draws draws' draws₁ : Draws)
    {row row' next : RawConflictRow}
    {m m' : IssuesRowMerge} {b o t : Int} (mirrored : Mirrored row row')
    (stamped : lib.Stamped row b o t) (done : lib.mergeIssuesConflictRow draws row = some m)
    (done' : lib.mergeIssuesConflictRow draws' row' = some m')
    (present : ∀ side, next.present [issuesKeyColumn] side)
    (columns : ∀ field ∈ next.fields, field ∈ row.fields)
    (our : ∀ field ∈ row.fields, next.value .our field = m.settled row field)
    (their : ∀ field ∈ row.fields, next.value .their field = m'.settled row' field) :
    lib.mergeIssuesConflictRow draws₁ next = some ⟨next.mustValue .our issuesKeyColumn, [], []⟩ := by
  refine mergeIssuesConflictRow_of_same present ?_ ?_
  · intro field held
    rw [their field (columns field held), IssuesRowMerge.settled, Option.isSome_or, Bool.or_eq_true]
    right
    rw [mirrored.value .our, ConflictSide.swap, ← mirrored.columns]
    exact (RawConflictRow.mem_dataColumns.mp (columns field held)).1
  · intro field held
    have inside := columns field held
    rw [cell, cell, RawConflictRow.mustValue, RawConflictRow.mustValue, our field inside,
      their field inside]
    by_cases updated : field = "updated_at"
    · subst updated
      exact stamped.settledText_mirrored mirrored done done'
    · exact settledText_mirrored mirrored done done' inside updated

theorem merge_quiesces_started : firstSeconds.mergeIssuesConflictRow counting (.ofSchema started) =
    some ⟨.text "bd-1", [], []⟩ := by
  obtain ⟨m, done⟩ := Option.isSome_iff_exists.mp isSome_closeOrStart
  obtain ⟨m', done'⟩ := Option.isSome_iff_exists.mp isSome_startOrClose
  refine merge_quiesces firstSeconds counting counting counting (.ofSchema closeOrStart)
    stamped_closeOrStart done
    done' (fun side => by cases side <;> decide +kernel) (by decide +kernel) ?_ ?_
  · obtain rfl := Option.some.inj (done.symm.trans (Option.some_get isSome_closeOrStart).symm)
    decide +kernel
  · obtain rfl := Option.some.inj (done'.symm.trans (Option.some_get isSome_startOrClose).symm)
    decide +kernel

/-! ## Edits and closings -/

/-- Both sides have changed the cell, to different texts. -/
def Contested (lib : TimeText) (row : RawConflictRow) (field : String) : Prop :=
  field ∈ row.fields ∧ lib.cell row .our field ≠ lib.cell row .their field ∧
    lib.cell row .their field ≠ lib.cell row .base field ∧ lib.cell row .our field ≠ lib.cell row .base field

instance (lib : TimeText) (row : RawConflictRow) : DecidablePred (lib.Contested row) := fun _ =>
  inferInstanceAs (Decidable (_ ∧ _))

/-- The cell is contested, or is in the close group together with a contested one. -/
def Claimed (lib : TimeText) (row : RawConflictRow) (field : String) : Prop :=
  lib.Contested row field ∨ field ∈ issuesCloseGroup ∧ ∃ g ∈ issuesCloseGroup, lib.Contested row g

instance (lib : TimeText) (row : RawConflictRow) : DecidablePred (lib.Claimed row) := fun _ =>
  inferInstanceAs (Decidable (_ ∨ _))

private theorem verdict_contested (known : ∀ col ∈ row.fields, (lib.classifyCell row col).isSome) :
    lib.verdict row field = .contested ↔ lib.Contested row field := by
  by_cases held : field ∈ row.fields
  · rw [verdict_eq known held, classify_contested]
    exact ⟨fun apart => ⟨held, apart⟩, fun contested => contested.2⟩
  · rw [verdict, if_neg held]
    exact ⟨fun contested => Verdict.noConfusion contested, fun contested => absurd contested.1 held⟩

theorem byTime_iff (known : ∀ col ∈ row.fields, (lib.classifyCell row col).isSome) :
    lib.byTime row field ↔ lib.verdict row field ≠ .agree ∧ lib.Claimed row field := by
  rw [byTime, decide_eq_true_iff, Claimed, closeGroupContested, List.any_eq_true]
  simp only [decide_eq_true_eq, verdict_contested known]
  exact and_congr_right' (or_comm.trans (or_congr_right and_comm))

/-- A cell that only one side has changed is kept from it; a claimed one is kept from the later
side. -/
theorem kept_cell (merges : lib.Mergeable row) (held : field ∈ row.fields) :
    (¬ lib.Claimed row field → lib.cell row .their field = lib.cell row .base field →
      lib.cell row (conflictSide (lib.kept row field)) field = lib.cell row .our field) ∧
    (¬ lib.Claimed row field → lib.cell row .our field = lib.cell row .base field →
      lib.cell row (conflictSide (lib.kept row field)) field = lib.cell row .their field) ∧
    (lib.Claimed row field → lib.cell row (conflictSide (lib.kept row field)) field =
      lib.cell row (conflictSide (lib.winner row)) field) := by
  have verdict := verdict_eq merges.known held
  by_cases agree : lib.cell row .our field = lib.cell row .their field
  · rw [cell_of_agree _ agree, cell_of_agree _ agree]
    exact ⟨fun _ _ => rfl, fun _ _ => agree, fun _ => rfl⟩
  · have differ : lib.verdict row field ≠ .agree := by rwa [verdict, ne_eq, classify_agree]
    refine ⟨fun free same => ?_, fun free same => ?_, fun claimed => ?_⟩
    · have calm : ¬ lib.byTime row field := fun time => free ((byTime_iff merges.known).mp time).2
      rw [kept, if_neg calm, verdict, classify_oursOnly.mpr ⟨agree, same⟩]
      rfl
    · have calm : ¬ lib.byTime row field := fun time => free ((byTime_iff merges.known).mp time).2
      have apart : lib.cell row .their field ≠ lib.cell row .base field :=
        fun back => agree (same.trans back.symm)
      rw [kept, if_neg calm, verdict, classify_theirsOnly.mpr ⟨agree, apart, same⟩]
      rfl
    · rw [kept, if_pos ((byTime_iff merges.known).mpr ⟨differ, claimed⟩)]

/-- The merge loses no edit that it need not lose. A cell that one side has left as it was has the
other side's text, unless it is claimed by both; then it has the text of the later side, for the
whole close group at once. A row that the merge writes has a token that neither side has seen, and
one that it does not write is our row. -/
theorem merge_keeps_edits (lib : TimeText) (draws : Draws) {row : RawConflictRow}
    {m : IssuesRowMerge} (done : lib.mergeIssuesConflictRow draws row = some m) :
    (∀ field ∈ row.fields, field ≠ "updated_at" →
      (¬ lib.Claimed row field → lib.cell row .their field = lib.cell row .base field →
        lib.settledText m row field = lib.cell row .our field) ∧
      (¬ lib.Claimed row field → lib.cell row .our field = lib.cell row .base field →
        lib.settledText m row field = lib.cell row .their field) ∧
      (lib.Claimed row field →
        lib.settledText m row field = lib.cell row (conflictSide (lib.winner row)) field)) ∧
    (m.writes ≠ [] → (row.value .our "row_lock").isSome →
      lib.settledText m row "row_lock" ≠ lib.cell row .our "row_lock" ∧
        lib.settledText m row "row_lock" ≠ lib.cell row .their "row_lock") ∧
    (m.writes = [] → ∀ field, m.settled row field = row.value .our field) := by
  obtain ⟨merges, same⟩ := mergeIssuesConflictRow_eq.mp done
  have writes : m.writes = [] ↔ (lib.plan row).writes = [] := by
    rw [same, stampMerge]
    split_ifs with idle lock
    · rfl
    · exact iff_of_false (setPair_ne_nil _ _ _) idle
    · exact iff_of_false (setPair_ne_nil _ _ _) idle
  refine ⟨fun field held updated => ?_, fun written column => ?_, fun idle field => ?_⟩
  · rw [settledText_eq done held updated]
    exact kept_cell merges held
  · obtain ⟨ours, theirs⟩ := lib.freshRowLockDistinctFrom_spec draws (row.mustValue .our "row_lock")
      (row.mustValue .their "row_lock")
    simp only [conflictCellsEqual, decide_eq_true_eq] at ours theirs
    rw [settledText, same, settled_row_lock (mt writes.mpr written) column]
    exact ⟨ours, theirs⟩
  · rw [IssuesRowMerge.settled, idle]
    rfl

theorem merge_keeps_edits_closeOrStart : ∃ m,
    firstSeconds.mergeIssuesConflictRow counting (.ofSchema closeOrStart) = some m ∧
      firstSeconds.settledText m (.ofSchema closeOrStart) "title" = some "b" ∧
      firstSeconds.settledText m (.ofSchema closeOrStart) "closed_at" = none := by
  obtain ⟨m, done⟩ := Option.isSome_iff_exists.mp isSome_closeOrStart
  obtain ⟨edits, -⟩ := merge_keeps_edits firstSeconds counting done
  obtain ⟨-, title, -⟩ := edits "title" (by decide +kernel) (by simp)
  obtain ⟨-, -, closedAt⟩ := edits "closed_at" (by decide +kernel) (by simp)
  refine ⟨m, done, (title (by decide +kernel) (by decide +kernel)).trans ?_,
    (closedAt (by decide +kernel)).trans ?_⟩
  · decide +kernel
  · decide +kernel

/-- What is kept of a cell that the time does not decide. -/
theorem cell_kept (merges : lib.Mergeable row) (held : field ∈ row.fields)
    (free : ¬ lib.byTime row field) :
    lib.cell row (conflictSide (lib.kept row field)) field =
      ((classify (lib.cell row .base field) (lib.cell row .our field) (lib.cell row .their field)).keeps
        (lib.winner row)).pick (lib.cell row .our field) (lib.cell row .their field) := by
  have picked (side : Side) : lib.cell row (conflictSide side) field =
      side.pick (lib.cell row .our field) (lib.cell row .their field) := by cases side <;> rfl
  rw [picked, kept, if_neg free, verdict_eq merges.known held]

/-- A side is closed exactly when it has a closing time. -/
def Coherent (lib : TimeText) (row : RawConflictRow) (side : ConflictSide) : Prop :=
  lib.cell row side "status" = some "closed" ↔ lib.cell row side "closed_at" ≠ none

instance (lib : TimeText) (row : RawConflictRow) : DecidablePred (lib.Coherent row) := fun _ =>
  inferInstanceAs (Decidable (_ ↔ _))

/-- When each of the three versions is closed exactly when it has a closing time, so is the
settled row. -/
theorem merge_keeps_closed_at (lib : TimeText) (draws : Draws) {row : RawConflictRow}
    {m : IssuesRowMerge}
    (done : lib.mergeIssuesConflictRow draws row = some m) (status : "status" ∈ row.fields)
    (closedAt : "closed_at" ∈ row.fields) (coherent : ∀ side, lib.Coherent row side) :
    lib.settledText m row "status" = some "closed" ↔ lib.settledText m row "closed_at" ≠ none := by
  have merges := (mergeIssuesConflictRow_eq.mp done).1
  rw [settledText_eq done status (by simp), settledText_eq done closedAt (by simp)]
  by_cases contested : ∃ g ∈ issuesCloseGroup, lib.Contested row g
  · -- the whole group is the later side's
    rw [(kept_cell merges status).2.2 (.inr ⟨by simp [issuesCloseGroup], contested⟩),
      (kept_cell merges closedAt).2.2 (.inr ⟨by simp [issuesCloseGroup], contested⟩)]
    exact coherent _
  · have calm {field : String} (listed : field ∈ issuesCloseGroup) :
        ¬ lib.Contested row field := fun alone =>
      contested ⟨field, listed, alone⟩
    have free {field : String} (listed : field ∈ issuesCloseGroup) :
        ¬ lib.byTime row field := fun time =>
      ((byTime_iff merges.known).mp time).2.elim (calm listed) fun both => contested both.2
    have settled {field : String} (held : field ∈ row.fields) (listed : field ∈ issuesCloseGroup) :
        classify (lib.cell row .base field) (lib.cell row .our field) (lib.cell row .their field) ≠ .contested :=
      fun apart => calm listed ⟨held, classify_contested.mp apart⟩
    have first : "status" ∈ issuesCloseGroup := by simp [issuesCloseGroup]
    have second : "closed_at" ∈ issuesCloseGroup := by simp [issuesCloseGroup]
    rw [cell_kept merges status (free first), cell_kept merges closedAt (free second)]
    exact keeps_together (P := (· = some "closed")) (Q := (· ≠ none)) (coherent .base)
      (coherent .our)
      (coherent .their) (settled status first) (settled closedAt second) (lib.winner row)

theorem merge_keeps_closed_at_closeOrStart : ∃ m,
    firstSeconds.mergeIssuesConflictRow counting (.ofSchema closeOrStart) = some m ∧
      (firstSeconds.settledText m (.ofSchema closeOrStart) "status" = some "closed" ↔
        firstSeconds.settledText m (.ofSchema closeOrStart) "closed_at" ≠ none) := by
  obtain ⟨m, done⟩ := Option.isSome_iff_exists.mp isSome_closeOrStart
  exact ⟨m, done, merge_keeps_closed_at firstSeconds counting done (by decide +kernel) (by decide +kernel)
    fun side => by cases side <;> decide +kernel⟩

end TimeText
end Beads
