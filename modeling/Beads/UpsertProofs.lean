import Mathlib.Data.List.Perm.Basic
import Beads.Upsert

/-! A stored row and snapshots of it that arrive one after the other. The guard lets all
columns of a snapshot through or none, and the check before the statement refuses only
what the guard would refuse too; so the row ends with the columns of the latest version,
whatever the order of the snapshots. -/
namespace Beads.Upsert
open Lib

variable {db : Datetime} {t : IssueTable} {a : Arrival} {stored values : Columns}

/-! ## One statement -/

/-- With the stale guard the statement writes the whole version or nothing. -/
theorem issueUpsertAssignments_guarded (values row : Columns) :
    issueUpsertAssignments true values row =
      if row .updatedAt < values .updatedAt then overlay issueUpsertColumns values row else row := by
  have fresh : Column.updatedAt ∉ issueUpsertColumns.dropLast := by decide
  exact assignAll_guarded fresh

/-- Without it every column of the list is rewritten. -/
theorem issueUpsertAssignments_unguarded (values row : Columns) :
    issueUpsertAssignments false values row = overlay issueUpsertColumns values row :=
  assignAll_const

/-- The part of a row that `Store` has. -/
def Columns.toRow (row : Columns) : Row where
  id := row .id
  issueType := row .issueType
  status := row .status
  assignee := (row .assignee).getD ""
  isBlocked := row .isBlocked
  pinned := row .pinned
  ephemeral := row .ephemeral
  noHistory := row .noHistory
  startedAt := row .startedAt
  closedAt := row .closedAt
  closeReason := row .closeReason
  closedBySession := row .closedBySession
  deferUntil := row .deferUntil
  storageClass := row .storageClass
  createdAt := row .createdAt
  updatedAt := row .updatedAt

/-- The assignments of `Create`, which decide once for the row, are what the ordered
assignments do to its part of the columns. -/
theorem toRow_issueUpsertAssignments (opts : BatchCreateOptions) (values row : Columns) :
    (issueUpsertAssignments opts.rejectStaleUpserts values row).toRow =
      Beads.issueUpsertAssignments opts values.toRow row.toRow := by
  unfold Beads.issueUpsertAssignments
  cases guard : opts.rejectStaleUpserts with
  | false =>
    rw [issueUpsertAssignments_unguarded, if_neg fun both => Bool.false_ne_true both.1]
    rfl
  | true =>
    rw [issueUpsertAssignments_guarded]
    by_cases newer : row .updatedAt < values .updatedAt
    · rw [if_pos newer, if_neg fun both => Nat.not_lt.mpr both.2 newer]
      rfl
    · rw [if_neg newer, if_pos ⟨rfl, Nat.not_lt.mp newer⟩]

/-! ## One snapshot -/

/-- What a snapshot makes of a row. -/
def settle (db : Datetime) (a : Arrival) (row : Columns) : Columns :=
  if row.key = a.issue.columns.key ∧ row .updatedAt < a.values db .updatedAt then
    overlay issueUpsertColumns (a.values db) row
  else row

theorem key_overlay (values row : Columns) :
    Columns.key (overlay issueUpsertColumns values row) = row.key :=
  overlay_of_not_mem (k := Column.id) (by decide)

theorem key_settle (row : Columns) : (settle db a row).key = row.key := by
  unfold settle
  split
  · exact key_overlay _ _
  · rfl

private theorem key_values : (a.values db).key = a.issue.columns.key := rfl

/-- A row that is newer than the snapshot, which the check refuses, would be kept by
the guard. -/
theorem settle_of_older {row : Columns} (older : a.issue.updatedAt < row .updatedAt * 1000000000) :
    settle db a row = row := by
  have kept := db.stored_le _ _ older
  refine if_neg fun both => ?_
  exact Nat.not_lt.mpr kept both.2

/-- An import of a snapshot with a stored id. -/
theorem insertIssueIfNew_stored (db : Datetime) (skipPrefixValidation : Bool)
    (known : ∃ r ∈ t, r.key = a.issue.columns.key) :
    ∃ flags, insertIssueIfNew db (importOptions false skipPrefixValidation) t a =
      .ok (t.update (settle db a) fun _ => key_settle _, flags) := by
  unfold insertIssueIfNew
  simp only [importOptions, Bool.false_eq_true, false_and, if_false, Bool.not_false, true_and]
  split
  · next refused =>
    obtain ⟨-, stale, held, same, older⟩ := refused
    have kept : t.update (settle db a) (fun _ => key_settle _) = t := by
      refine Table.update_eq_self fun r there => ?_
      by_cases here : r.key = a.issue.columns.key
      · rw [Table.eq_of_key there held (here.trans same.symm)]
        exact settle_of_older older
      · exact if_neg fun both => here both.1
    exact ⟨_, congrArg Except.ok (Prod.ext kept.symm rfl)⟩
  · refine ⟨_, congrArg Except.ok (Prod.ext ?_ rfl)⟩
    have taken : ¬ ∀ r ∈ t, r.key ≠ (a.values db).key := fun fresh => by
      obtain ⟨r, held, same⟩ := known
      exact fresh r held same
    rw [insertIssueIntoTable, dif_neg taken]
    refine Table.ext (List.map_congr_left fun r held => ?_)
    rw [issueUpsertAssignments_guarded, settle, key_values, ite_and]

/-! ## Snapshots one after the other -/

/-- What snapshots make of a row. -/
def settleAll (db : Datetime) (arrivals : List Arrival) (row : Columns) : Columns :=
  arrivals.foldl (fun row a => settle db a row) row

theorem key_settleAll (arrivals : List Arrival) (row : Columns) :
    (settleAll db arrivals row).key = row.key := by
  induction arrivals generalizing row with
  | nil => rfl
  | cons a rest ih => exact (ih _).trans (key_settle row)

theorem importAll_stored (skipPrefixValidation : Bool) (t : IssueTable) (arrivals : List Arrival)
    (known : ∀ a ∈ arrivals, ∃ r ∈ t, r.key = a.issue.columns.key) :
    importAll db (importOptions false skipPrefixValidation) t arrivals =
      .ok (t.update (settleAll db arrivals) (key_settleAll arrivals)) := by
  induction arrivals generalizing t with
  | nil => exact congrArg Except.ok (Table.update_eq_self fun _ _ => rfl).symm
  | cons a rest ih =>
    obtain ⟨here, others⟩ := List.forall_mem_cons.mp known
    obtain ⟨flags, inserted⟩ := insertIssueIfNew_stored db skipPrefixValidation here
    have still : ∀ b ∈ rest, ∃ r ∈ t.update (settle db a)
        (fun _ => key_settle _), r.key = b.issue.columns.key := by
      intro b listed
      obtain ⟨r, held, same⟩ := others b listed
      exact ⟨settle db a r, Table.mem_update.mpr ⟨r, held, rfl⟩, (key_settle r).trans same⟩
    rw [importAll, List.foldlM_cons, inserted]
    refine (ih _ still).trans (congrArg Except.ok (Table.ext ?_))
    exact List.map_map

/-- The time of a version. -/
def stamp (v : Columns) : Nat := v .updatedAt

theorem stamp_overlay (v row : Columns) : stamp (overlay issueUpsertColumns v row) = stamp v :=
  overlay_of_mem (k := Column.updatedAt) (by decide)

/-- The columns of the row are those of the latest version so far. -/
theorem settleAll_latest (db : Datetime) (arrivals : List Arrival)
    (same : ∀ a ∈ arrivals, a.issue.columns.key = stored.key)
    {sofar : List Columns} {v : Columns} (latest : Latest stamp sofar v) :
    ∃ v', Latest stamp (sofar ++ arrivals.map (Arrival.values db)) v' ∧
      settleAll db arrivals (overlay issueUpsertColumns v stored) = overlay issueUpsertColumns v' stored := by
  induction arrivals generalizing sofar v with
  | nil => exact ⟨v, by rwa [List.map_nil, List.append_nil], rfl⟩
  | cons a rest ih =>
    obtain ⟨here, others⟩ := List.forall_mem_cons.mp same
    have key : Columns.key (overlay issueUpsertColumns v stored) = a.issue.columns.key :=
      (key_overlay v stored).trans here.symm
    have grown :
        sofar ++ (a :: rest).map (Arrival.values db) = (sofar ++ [a.values db]) ++ rest.map (Arrival.values db) := by
      rw [List.map_cons, List.append_assoc, List.singleton_append]
    rw [grown]
    by_cases newer : stamp v < stamp (a.values db)
    · have taken : settle db a (overlay issueUpsertColumns v stored) =
          overlay issueUpsertColumns (a.values db) stored := by
        have newer : stamp (overlay issueUpsertColumns v stored) < stamp (a.values db) := by
          rwa [stamp_overlay]
        rw [settle, if_pos ⟨key, newer⟩, overlay_overlay]
      obtain ⟨v', found, settled⟩ := ih others (latest.newer newer)
      refine ⟨v', found, ?_⟩
      rw [settleAll, List.foldl_cons, taken]
      exact settled
    · have kept : settle db a (overlay issueUpsertColumns v stored) = overlay issueUpsertColumns v stored := by
        refine if_neg fun both => newer ?_
        rw [← stamp_overlay v stored]
        exact both.2
      obtain ⟨v', found, settled⟩ := ih others (latest.kept newer)
      refine ⟨v', found, ?_⟩
      rw [settleAll, List.foldl_cons, kept]
      exact settled

/-- Snapshots that are not newer than the row change nothing. -/
theorem settleAll_of_not_newer {row : Columns} (arrivals : List Arrival)
    (older : ∀ a ∈ arrivals, a.issue.columns.key = row.key → ¬ stamp row < stamp (a.values db)) :
    settleAll db arrivals row = row := by
  induction arrivals with
  | nil => rfl
  | cons a rest ih =>
    obtain ⟨here, others⟩ := List.forall_mem_cons.mp older
    have kept : settle db a row = row := if_neg fun both => here both.1.symm both.2
    rw [settleAll, List.foldl_cons, kept]
    exact ih others

/-- The row and the snapshots as versions of it, in the order in which they arrive. -/
def versions (db : Datetime) (stored : Columns) (arrivals : List Arrival) : List Columns :=
  stored :: arrivals.map (Arrival.values db)

/-- The table with the upserted columns of a version in the row. -/
def RowTaken (t t' : IssueTable) (stored version : Columns) : Prop :=
  ∀ r, r ∈ t' ↔ r = overlay issueUpsertColumns version stored ∨ (r ∈ t ∧ r.key ≠ stored.key)

/-- Snapshots of one row leave the latest version in it. -/
theorem importAll_row (db : Datetime) (skipPrefixValidation : Bool) (held : stored ∈ t)
    (arrivals : List Arrival) (same : ∀ a ∈ arrivals, a.issue.columns.key = stored.key) :
    ∃ t' version, importAll db (importOptions false skipPrefixValidation) t arrivals = .ok t' ∧
      Latest stamp (versions db stored arrivals) version ∧ RowTaken t t' stored version := by
  have known : ∀ a ∈ arrivals, ∃ r ∈ t, r.key = a.issue.columns.key :=
    fun a listed => ⟨stored, held, (same a listed).symm⟩
  obtain ⟨version, latest, settled⟩ :=
    settleAll_latest db arrivals same (Latest.singleton (v := stored))
  rw [overlay_self] at settled
  have others : ∀ r : Columns, r.key ≠ stored.key → settleAll db arrivals r = r := fun r differ =>
    settleAll_of_not_newer arrivals fun a listed here => absurd (here.symm.trans (same a listed)) differ
  refine ⟨_, version, importAll_stored skipPrefixValidation t arrivals known, latest, fun r => ?_⟩
  rw [Table.mem_update]
  constructor
  · rintro ⟨old, there, rfl⟩
    by_cases here : old.key = stored.key
    · rw [Table.eq_of_key there held here]
      exact Or.inl settled
    · rw [others old here]
      exact Or.inr ⟨there, here⟩
  · rintro (rfl | ⟨there, differ⟩)
    · exact ⟨stored, held, settled⟩
    · exact ⟨r, there, others r differ⟩

/-- Two versions with the same columns, the lock apart. -/
def Agree (v w : Columns) : Prop := ∀ c, c ≠ .rowLock → v c = w c

theorem agree_values {b : Arrival} (same : a.issue = b.issue) :
    Agree (a.values db) (b.values db) := by
  intro c unlocked
  unfold Arrival.values
  rw [same]
  by_cases flag : c = .isBlocked
  · subst flag
    rw [Function.update_self, Function.update_self]
  · rw [Function.update_of_ne flag, Function.update_of_ne flag, Function.update_of_ne unlocked,
      Function.update_of_ne unlocked]

private theorem agree_versions {arrivals arrivals' : List Arrival}
    (listed : ∀ a ∈ arrivals, ∃ b ∈ arrivals', a.issue = b.issue) :
    ∀ v ∈ versions db stored arrivals, ∃ w ∈ versions db stored arrivals', Agree v w := by
  refine List.forall_mem_cons.mpr
    ⟨⟨stored, List.mem_cons_self, fun _ _ => rfl⟩, fun v arrived => ?_⟩
  obtain ⟨a, here, rfl⟩ := List.mem_map.mp arrived
  obtain ⟨b, there, same⟩ := listed a here
  exact ⟨b.values db, List.mem_cons_of_mem _ (List.mem_map_of_mem there), agree_values same⟩

/-- With distinct times, sequences of the same snapshots have the same latest version. -/
theorem Latest.agree {arrivals arrivals' : List Arrival} {v v' : Columns}
    (distinct : ((versions db stored arrivals).map stamp).Nodup)
    (into : ∀ a ∈ arrivals, ∃ b ∈ arrivals', a.issue = b.issue)
    (back : ∀ b ∈ arrivals', ∃ a ∈ arrivals, b.issue = a.issue)
    (latest : Latest stamp (versions db stored arrivals) v)
    (latest' : Latest stamp (versions db stored arrivals') v') :
    Agree v' v := by
  obtain ⟨u, listed, agree⟩ := agree_versions back v' latest'.mem
  obtain ⟨u', listed', agree'⟩ := agree_versions into v latest.mem
  have upper : stamp u ≤ stamp v := latest.greatest listed
  have lower : stamp u' ≤ stamp v' := latest'.greatest listed'
  have equal : stamp v' = stamp u := agree .updatedAt (by decide)
  have equal' : stamp v = stamp u' := agree' .updatedAt (by decide)
  have only : u = v := List.inj_on_of_nodup_map distinct listed latest.mem (by omega)
  exact only ▸ agree

/-- A stored row and snapshots of it, imported one after the other with the stale guard:
all upserted columns of the row come from the latest version, the one with the greatest
time and of those the first to arrive, and nothing else changes. Importing any of the
snapshots again changes nothing, and with distinct times the snapshots may come in any
order. -/
theorem importAll_latest (db : Datetime) (skipPrefixValidation : Bool) (t : IssueTable)
    (stored : Columns)
    (held : stored ∈ t) (arrivals : List Arrival)
    (same : ∀ a ∈ arrivals, a.issue.columns.key = stored.key) :
    ∃ t' version, importAll db (importOptions false skipPrefixValidation) t arrivals = .ok t' ∧
      Latest stamp (versions db stored arrivals) version ∧ RowTaken t t' stored version ∧
      (∀ again : List Arrival, (∀ a ∈ again, ∃ b ∈ arrivals, a.issue = b.issue) →
        importAll db (importOptions false skipPrefixValidation) t' again = .ok t') ∧
      (((versions db stored arrivals).map stamp).Nodup → ∀ arrivals' : List Arrival,
        (arrivals'.map Arrival.issue).Perm (arrivals.map Arrival.issue) →
        ∃ t'' version', importAll db (importOptions false skipPrefixValidation) t arrivals' = .ok t'' ∧
          RowTaken t t'' stored version' ∧ Agree version' version) := by
  obtain ⟨t', version, imported, latest, taken⟩ :=
    importAll_row db skipPrefixValidation held arrivals same
  refine ⟨t', version, imported, latest, taken, fun again listed => ?_,
    fun distinct arrivals' perm => ?_⟩
  · have row : overlay issueUpsertColumns version stored ∈ t' := (taken _).mpr (Or.inl rfl)
    have key : ∀ a ∈ again, a.issue.columns.key = stored.key := by
      intro a here
      obtain ⟨b, there, equal⟩ := listed a here
      rw [equal]
      exact same b there
    have known : ∀ a ∈ again, ∃ r ∈ t', r.key = a.issue.columns.key :=
      fun a here => ⟨_, row, (key_overlay version stored).trans (key a here).symm⟩
    rw [importAll_stored skipPrefixValidation t' again known]
    refine congrArg Except.ok (Table.update_eq_self fun r there => settleAll_of_not_newer again fun a here equal => ?_)
    -- The row with the key of the snapshots has the latest version of all of them.
    have only : r = overlay issueUpsertColumns version stored :=
      Table.eq_of_key there row (equal.symm.trans ((key a here).trans (key_overlay version stored).symm))
    obtain ⟨b, listed, issue⟩ := listed a here
    have bound : stamp (b.values db) ≤ stamp version :=
      latest.greatest (List.mem_cons_of_mem _ (List.mem_map_of_mem listed))
    have equal : stamp (a.values db) = stamp (b.values db) :=
      agree_values issue .updatedAt (by decide)
    rw [only, stamp_overlay, equal]
    exact Nat.not_lt.mpr bound
  · have into : ∀ a ∈ arrivals, ∃ b ∈ arrivals', a.issue = b.issue := by
      intro a here
      obtain ⟨b, there, equal⟩ := List.mem_map.mp (perm.mem_iff.mpr (List.mem_map_of_mem here))
      exact ⟨b, there, equal.symm⟩
    have back : ∀ b ∈ arrivals', ∃ a ∈ arrivals, b.issue = a.issue := by
      intro b there
      obtain ⟨a, here, equal⟩ := List.mem_map.mp (perm.mem_iff.mp (List.mem_map_of_mem there))
      exact ⟨a, here, equal.symm⟩
    have same' : ∀ b ∈ arrivals', b.issue.columns.key = stored.key := by
      intro b there
      obtain ⟨a, here, equal⟩ := back b there
      rw [equal]
      exact same a here
    obtain ⟨t'', version', imported', latest', taken'⟩ :=
      importAll_row db skipPrefixValidation held arrivals' same'
    exact ⟨t'', version', imported', taken', Latest.agree distinct into back latest latest'⟩

/-- A row with nothing in it. -/
def blank : Columns
  | .status => .open
  | .storageClass => .unset
  | .priority | .compactionLevel | .timeoutNs | .rowLock => (0 : Int)
  | .estimatedMinutes | .originalSize => none
  | .createdAt | .updatedAt => (0 : Nat)
  | .startedAt | .closedAt | .compactedAt | .dueAt | .deferUntil => none
  | .ephemeral | .noHistory | .pinned | .isTemplate | .isBlocked => false
  | .assignee | .externalRef | .compactedAtCommit => none
  | .id | .contentHash | .title | .description | .design | .acceptanceCriteria | .notes | .issueType | .createdBy
  | .owner | .specID | .sender | .wispType | .molType | .workType | .sourceSystem | .sourceRepo | .closeReason
  | .closedBySession | .eventKind | .actor | .target | .payload | .awaitType | .awaitID | .waiters | .metadata => ""

/-- A snapshot of the row with a title and a time in seconds. -/
def titled (title : String) (second : Nat) : Arrival :=
  ⟨⟨Function.update blank .title title, second * 1000000000⟩, 7⟩

/-- A column that cuts fractions of a second off. -/
def wholeSeconds : Datetime := ⟨fun time => time / 1000000000, fun time second before => by omega⟩

/-- The later of two snapshots wins though it comes first. -/
theorem importAll_latest_titled :
    ∃ t' version, importAll wholeSeconds (importOptions false true) ⟨[blank], List.nodup_singleton _⟩
        [titled "new" 2, titled "old" 1] = .ok t' ∧
      version .title = "new" ∧ overlay issueUpsertColumns version blank ∈ t' := by
  obtain ⟨t', version, imported, latest, taken, -⟩ := importAll_latest wholeSeconds true
    ⟨[blank], List.nodup_singleton _⟩ blank (List.mem_singleton.mpr rfl) [titled "new" 2, titled "old" 1]
    (fun a listed => by
      simp only [List.mem_cons, List.not_mem_nil, or_false] at listed
      rcases listed with rfl | rfl <;> rfl)
  have bound : stamp ((titled "new" 2).values wholeSeconds) ≤ stamp version :=
    latest.greatest (List.mem_cons_of_mem _ List.mem_cons_self)
  refine ⟨t', version, imported, ?_, (taken _).mpr (Or.inl rfl)⟩
  have listed := latest.mem
  simp only [versions, List.map_cons, List.map_nil, List.mem_cons, List.not_mem_nil,
    or_false] at listed
  rcases listed with rfl | rfl | rfl
  · exact absurd bound (by decide)
  · rfl
  · exact absurd bound (by decide)

end Beads.Upsert
