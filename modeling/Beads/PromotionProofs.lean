import Beads.Aggregate
import Beads.Lib.Numbering

/-! The two ways of a wisp to the durable plane.

Where the copies of the persistence move find no key taken, `INSERT IGNORE` copies
the same rows, so the promotion ends in the state of the move but for the child
counter, which it does not copy and which goes with the row of the wisp
(`Aggregates.promoteFromEphemeral_eq`). -/
namespace Beads
open Lib

variable {id : String} {s t u : Aggregates}

/-! ## Statements -/

private theorem insertStrict_ok {ρ κ κ' : Type} {key : ρ → κ} [DecidableEq κ] [DecidableEq κ']
    {unique : ρ → κ'}
    {table result : Table key} {rows : List ρ}
    (ok : insertStrict id unique table rows = .ok result) :
    table.insertAll? unique rows = some result := by
  unfold insertStrict at ok
  cases inserted : table.insertAll? unique rows with
  | none =>
    rw [inserted] at ok
    cases ok
  | some copied =>
    rw [inserted] at ok
    cases ok
    rfl

private theorem retargetInbound_ok {table result : Table DependencyRow.id}
    (ok : retargetInbound id table = .ok result) :
    result.rows = table.rows.map (·.inbound id) := by
  unfold retargetInbound at ok
  split at ok
  · cases ok
  · split at ok
    · cases ok
    · exact dependencyTable_ok ok

namespace Aggregates

/-- The state at the end of a move, with the retargeted edge tables. -/
def finished (s : Aggregates) (id : String) (durable ephemeral : Table DependencyRow.id) :
    Aggregates
  | .issues => { s .issues with dependencies := durable }
  | .wisps => PlaneTables.deleteRow { s .wisps with dependencies := ephemeral } id .wisps

theorem finishMove_ok (ok : s.finishMove id = .ok t) :
    ∃ durable ephemeral, retargetInbound id (s .issues).dependencies = .ok durable ∧
      retargetInbound id (s .wisps).dependencies = .ok ephemeral ∧
        t = s.finished id durable ephemeral := by
  unfold finishMove at ok
  obtain ⟨durable, retargeted, ok⟩ := bind_eq_ok.mp ok
  obtain ⟨ephemeral, retargeted', ok⟩ := bind_eq_ok.mp ok
  cases ok
  refine ⟨durable, ephemeral, retargeted, retargeted', funext fun q => ?_⟩
  cases q <;> rfl

/-- The durable plane with the copied rows. -/
structure Copied (s : Aggregates) (id : String) (moved : PlaneTables) : Prop where
  ids : moved.ids = (s .issues).ids ++ [id]
  labels : (s .issues).labels.insertAll? LabelRow.key ((s .wisps).labelsOf id) = some moved.labels
  dependencies : (s .issues).dependencies.insertAll? DependencyRow.edge ((s .wisps).dependenciesOf id) =
    some moved.dependencies
  events : (s .issues).events.insertAll? EventRow.id ((s .wisps).eventsOf id) = some moved.events
  comments : (s .issues).comments.insertAll? CommentRow.id ((s .wisps).commentsOf id) = some moved.comments
  counters : (s .issues).counters.insertAll? CounterRow.parentID ((s .wisps).countersOf id) = some moved.counters

/-- The state between the copies and the end of a move. -/
def between (s : Aggregates) (id : String) (moved : PlaneTables) : Aggregates
  | .issues => moved
  | .wisps =>
    { (s .wisps).withoutCopied id with counters := (s .wisps).counters.delete (·.parentID = id) }

theorem moveIssuePersistence_ok (active : s.isActiveWisp id = true)
    (ok : s.moveIssuePersistence id = .ok t) :
    id ∉ (s .issues).ids ∧ ∃ moved, s.Copied id moved ∧
      (s.between id moved).finishMove id = .ok t := by
  unfold moveIssuePersistence at ok
  obtain ⟨absent, ok⟩ := guard_eq_ok.mp ok
  rw [if_neg (not_not.mpr active)] at ok
  obtain ⟨labels, copied, ok⟩ := bind_eq_ok.mp ok
  obtain ⟨dependencies, copied', ok⟩ := bind_eq_ok.mp ok
  obtain ⟨events, copied'', ok⟩ := bind_eq_ok.mp ok
  obtain ⟨comments, copied''', ok⟩ := bind_eq_ok.mp ok
  obtain ⟨counters, copied'''', ok⟩ := bind_eq_ok.mp ok
  refine ⟨fun held => absent ⟨active, held⟩,
    ⟨(s .issues).ids ++ [id], labels, dependencies, events, comments, counters⟩,
    ⟨rfl, insertStrict_ok copied, insertStrict_ok copied', insertStrict_ok copied'', insertStrict_ok copied''',
      insertStrict_ok copied''''⟩, ?_⟩
  rw [← ok]
  congr 1
  funext q
  cases q <;> rfl

/-- The same with the child counters left in their tables. -/
def between' (s : Aggregates) (id : String) (moved : PlaneTables) : Aggregates
  | .issues => { moved with counters := (s .issues).counters }
  | .wisps => (s .wisps).withoutCopied id

private theorem promoteFromEphemeral_ok {moved : PlaneTables} (absent : id ∉ (s .issues).ids)
    (copied : s.Copied id moved)
    (ok : s.promoteFromEphemeral id = .ok u) : (s.between' id moved).finishMove id = .ok u := by
  unfold promoteFromEphemeral at ok
  obtain ⟨-, ok⟩ := guard_eq_ok.mp ok
  rw [← ok]
  congr 1
  funext q
  cases q with
  | issues =>
    have new : (s .issues).insertIfNew id = { s .issues with ids := (s .issues).ids ++ [id] } :=
      if_neg absent
    simp only [between', new, Table.insertIgnoreAll_of_insertAll? copied.labels,
      Table.insertIgnoreAll_of_insertAll? copied.dependencies, Table.insertIgnoreAll_of_insertAll? copied.events,
      Table.insertIgnoreAll_of_insertAll? copied.comments, ← copied.ids, if_true]
  | wisps => rfl

/-- A promotion leaves the durable counters as they were and is a move otherwise. -/
theorem promoteFromEphemeral_eq (active : s.isActiveWisp id = true)
    (moved : s.moveIssuePersistence id = .ok t) (promoted : s.promoteFromEphemeral id = .ok u) :
    u .issues = { t .issues with counters := (s .issues).counters } ∧ u .wisps = t .wisps := by
  obtain ⟨absent, tables, copied, moved⟩ := moveIssuePersistence_ok active moved
  have promoted := promoteFromEphemeral_ok absent copied promoted
  obtain ⟨durable, ephemeral, retargeted, retargeted', rfl⟩ := finishMove_ok moved
  obtain ⟨durable', ephemeral', again, again', rfl⟩ := finishMove_ok promoted
  -- The edge tables do not depend on the counters.
  have same : durable' = durable := Except.ok.inj (again.symm.trans retargeted)
  have same' : ephemeral' = ephemeral := Except.ok.inj (again'.symm.trans retargeted')
  subst same same'
  refine ⟨rfl, ?_⟩
  simp only [finished, between, between', PlaneTables.deleteRow, PlaneTables.withoutCopied,
    PlaneTables.mk.injEq, true_and]
  refine Table.ext ?_
  simp [Table.delete]

/-! ## Nothing lost -/

/-- The row of a wisp with all that hangs on it is durable, the edges under their
keys and with the wisp's ends moved. -/
structure Carried (s : Aggregates) (id : String) (t : Aggregates) : Prop where
  row : id ∈ (t .issues).ids
  labels : ∀ r ∈ (s .wisps).labels, r.issueID = id → r ∈ (t .issues).labels
  outgoing : ∀ r ∈ (s .wisps).dependencies, r.issueID = id → r.inbound id ∈ (t .issues).dependencies
  incoming : ∀ q, ∀ r ∈ (s q).dependencies, r.issueID ≠ id → r.target = .node (.wisps, id) →
    r.inbound id ∈ (t q).dependencies
  events : ∀ r ∈ (s .wisps).events, r.issueID = id → r ∈ (t .issues).events
  comments : ∀ r ∈ (s .wisps).comments, r.issueID = id → r ∈ (t .issues).comments
  counter : ∀ r ∈ (s .wisps).counters, r.parentID = id → r ∈ (t .issues).counters

/-- Rows that a copy has inserted. -/
theorem mem_of_insertAll? {ρ κ κ' : Type} {key : ρ → κ} [DecidableEq κ] [DecidableEq κ']
    {unique : ρ → κ'} {table result source : Table key} {P : ρ → Prop} [DecidablePred P]
    (inserted : table.insertAll? unique (source.rows.filter P) = some result) {r : ρ}
    (held : r ∈ source) (owned : P r) :
    r ∈ result := by
  change r ∈ result.rows
  rw [Table.rows_of_insertAll? inserted, List.mem_append, List.mem_filter]
  exact .inr ⟨held, decide_eq_true owned⟩

private theorem carried_move (active : s.isActiveWisp id = true)
    (ok : s.moveIssuePersistence id = .ok t) :
    s.Carried id t := by
  obtain ⟨absent, tables, copied, ok⟩ := moveIssuePersistence_ok active ok
  obtain ⟨durable, ephemeral, retargeted, retargeted', rfl⟩ := finishMove_ok ok
  have durableRow {r : DependencyRow} (held : r ∈ tables.dependencies) :
      r.inbound id ∈ durable := by
    change r.inbound id ∈ durable.rows
    rw [retargetInbound_ok retargeted]
    exact List.mem_map_of_mem held
  refine ⟨?_, fun r => mem_of_insertAll? copied.labels,
    fun r held owned => durableRow (mem_of_insertAll? copied.dependencies held owned), ?_,
    fun r => mem_of_insertAll? copied.events, fun r => mem_of_insertAll? copied.comments,
    fun r => mem_of_insertAll? copied.counters⟩
  · simp [finished, between, copied.ids]
  · intro q r held other onto
    cases q with
    | issues =>
      refine durableRow ?_
      change r ∈ tables.dependencies.rows
      rw [Table.rows_of_insertAll? copied.dependencies]
      exact List.mem_append_left _ held
    | wisps =>
      -- The edge of another wisp stays in its table and is no longer onto the wisp.
      have kept : r ∈ ((s.between id tables) .wisps).dependencies :=
        Table.mem_delete.mpr ⟨held, other⟩
      have row : r.inbound id ∈ ephemeral := by
        change r.inbound id ∈ ephemeral.rows
        rw [retargetInbound_ok retargeted']
        exact List.mem_map_of_mem kept
      refine Table.mem_delete.mpr ⟨row, ?_⟩
      simp [DependencyRow.inbound, onto, other]

end Aggregates

/-! ## The next child -/

/-- A row is no child of itself: its id has fewer dots than the pattern. -/
theorem directChildren_append_self {t : PlaneTables} {ids : List String}
    (same : t.ids = ids ++ [id]) :
    t.directChildren id = PlaneTables.directChildren { t with ids := ids } id := by
  have apart : like (id.toList ++ ['.', '%']) id.toList = false := by
    rw [Bool.eq_false_iff]
    intro matched
    have dots := like.count_le (c := '.') (by decide) matched
    have one : (['.', '%'] : List Char).count '.' = 1 := by decide
    rw [List.count_append, one] at dots
    omega
  simp only [PlaneTables.directChildren, same, List.filter_append]
  simp [apart]

/-- The parent has a counter if a child id is used, and the numbers of used ones are at
most the counter. Allocation and `ReconcileChildCounters`, which runs on creation, keep it so. -/
def PlaneTables.Counted (t : PlaneTables) (parentID : String) (used : List String) : Prop :=
  ∀ num, childID parentID num ∈ used → ∃ counter, t.counters.find? parentID = some counter ∧ num ≤ counter.lastChild

theorem counter_le_lastChild (t : PlaneTables) (id : String) :
    ((t.counters.find? id).map CounterRow.lastChild).getD 0 ≤ t.lastChild id := by
  refine le_foldl (fun last child => ?_) _ _
  split
  · split <;> omega
  · exact Int.le_refl last

theorem childID_inj {a b : Int} (same : childID id a = childID id b) : a = b := by
  have text : (Int.repr a).toList = (Int.repr b).toList :=
    congrArg String.toList (by simpa [childID] using same)
  have unsigned {m : Nat} : '-' ∉ Nat.toDigits 10 m := not_mem_toDigits (by decide)
  rw [Int.repr_eq_if, Int.repr_eq_if] at text
  by_cases left : 0 ≤ a
  · by_cases right : 0 ≤ b
    · simp only [left, right, if_true, Nat.toList_repr] at text
      have := toDigits_inj text
      omega
    · simp only [left, right, if_true, if_false, Nat.toList_repr, String.toList_append] at text
      exact absurd (by rw [text]; simp) (unsigned (m := a.toNat))
  · by_cases right : 0 ≤ b
    · simp only [left, right, if_true, if_false, Nat.toList_repr, String.toList_append] at text
      exact absurd (by rw [← text]; simp) (unsigned (m := b.toNat))
    · simp only [left, right, if_false, Nat.toList_repr, String.toList_append] at text
      have := toDigits_inj (List.append_cancel_left text)
      omega

namespace Aggregates

/-- Allocation gives an unused child id, and the counter is right after it again. -/
theorem getNextChildID_counted {used : List String} {p : Plane}
    (plane : (if s.isActiveWisp id then Plane.wisps else .issues) = p)
    (counted : (s p).Counted id used) :
    (s.getNextChildID id).1 ∉ used ∧
      ((s.getNextChildID id).2 p).Counted id ((s.getNextChildID id).1 :: used) := by
  have atMost := counter_le_lastChild (s p) id
  simp only [getNextChildID, plane, Function.update_self]
  constructor
  · intro taken
    obtain ⟨counter, found, small⟩ := counted _ taken
    rw [found] at atMost
    simp only [Option.map_some, Option.getD_some] at atMost
    omega
  · intro num member
    have counter : ((((s p).counters.delete (·.parentID = id)).insert ⟨id, (s p).lastChild id + 1⟩ fun _ held same =>
        (Table.mem_delete.mp held).2 same).find? id) = some ⟨id, (s p).lastChild id + 1⟩ :=
      Table.find?_eq_some.mpr ⟨Table.mem_insert.mpr (.inr rfl), rfl⟩
    refine ⟨_, counter, ?_⟩
    rcases List.mem_cons.mp member with same | taken
    · exact (childID_inj same).le
    · obtain ⟨last, found, small⟩ := counted num taken
      rw [found] at atMost
      simp only [Option.map_some, Option.getD_some] at atMost ⊢
      omega

/-- After a move the next child id is one past the durable children and the counter. -/
theorem getNextChildID_durable (ids : (t .issues).ids = (s .issues).ids ++ [id])
    (gone : t.isActiveWisp id = false) (counters : (t .issues).counters = (s .issues).counters) :
    (t.getNextChildID id).1 = childID id ((s .issues).lastChild id + 1) := by
  have last : (t .issues).lastChild id = (s .issues).lastChild id := by
    unfold PlaneTables.lastChild
    rw [directChildren_append_self ids, counters]
    rfl
  simp only [getNextChildID, gone, Bool.false_eq_true, if_false, last]

theorem moveIssuePersistence_ids (active : s.isActiveWisp id = true)
    (ok : s.moveIssuePersistence id = .ok t) :
    (t .issues).ids = (s .issues).ids ++ [id] ∧ t.isActiveWisp id = false := by
  obtain ⟨absent, tables, copied, ok⟩ := moveIssuePersistence_ok active ok
  obtain ⟨durable, ephemeral, -, -, rfl⟩ := finishMove_ok ok
  refine ⟨copied.ids, ?_⟩
  simp [isActiveWisp, finished, PlaneTables.deleteRow]

/-- The counters after a move: the one of the wisp is a new row. -/
theorem moveIssuePersistence_counters (active : s.isActiveWisp id = true)
    (ok : s.moveIssuePersistence id = .ok t) :
    (s .issues).counters.insertAll? CounterRow.parentID ((s .wisps).countersOf id) = some (t .issues).counters := by
  obtain ⟨absent, tables, copied, ok⟩ := moveIssuePersistence_ok active ok
  obtain ⟨durable, ephemeral, -, -, rfl⟩ := finishMove_ok ok
  exact copied.counters

private theorem countersOf_eq_nil :
    (s .wisps).countersOf id = [] ↔ (s .wisps).counters.find? id = none := by
  rw [Table.find?_eq_none, PlaneTables.countersOf, List.filter_eq_nil_iff]
  simp only [decide_eq_true_eq]
  rfl

/-- A move takes the counter along, so the next child id is unused after it. -/
theorem moveIssuePersistence_counted {used : List String} (active : s.isActiveWisp id = true)
    (ok : s.moveIssuePersistence id = .ok t) (counted : (s .wisps).Counted id used) :
    (t.getNextChildID id).1 ∉ used := by
  have copied := moveIssuePersistence_counters active ok
  refine (getNextChildID_counted (p := .issues) ?_ fun num member => ?_).1
  · rw [(moveIssuePersistence_ids active ok).2]
    rfl
  · obtain ⟨counter, found, small⟩ := counted num member
    refine ⟨counter, ?_, small⟩
    obtain ⟨held, same⟩ := Table.find?_eq_some.mp found
    refine Table.find?_eq_some.mpr ⟨?_, same⟩
    change counter ∈ (t .issues).counters.rows
    rw [Table.rows_of_insertAll? copied, List.mem_append, PlaneTables.countersOf, List.mem_filter,
      decide_eq_true_eq]
    exact .inr ⟨held, same⟩

/-! ## Both ways -/

/-- The two ways leave the same durable rows, lose nothing, and allocate a child
id that is not among the used ones. -/
structure SamePromotion (s : Aggregates) (id : String) (used : List String) (t u : Aggregates) :
    Prop where
  labels : (t .issues).labels = (u .issues).labels
  dependencies : ∀ q, (t q).dependencies = (u q).dependencies
  events : (t .issues).events = (u .issues).events
  comments : (t .issues).comments = (u .issues).comments
  counter : (t .issues).counters.find? id = (u .issues).counters.find? id
  moved : s.Carried id t
  promoted : s.Carried id u
  movedFresh : (t.getNextChildID id).1 ∉ used
  promotedFresh : (u.getNextChildID id).1 ∉ used

/-- A promotion does as much as a move and gives an unused child id exactly if the
wisp has no child counter and the child one past the durable ones is unused. -/
theorem samePromotion_iff (s t u : Aggregates) (id : String) (used : List String)
    (active : s.isActiveWisp id = true)
    (moved : s.moveIssuePersistence id = .ok t) (promoted : s.promoteFromEphemeral id = .ok u) :
    s.SamePromotion id used t u ↔
      (s .wisps).counters.find? id = none ∧ childID id ((s .issues).lastChild id + 1) ∉ used := by
  obtain ⟨durable, ephemeral⟩ := promoteFromEphemeral_eq active moved promoted
  obtain ⟨ids, gone⟩ := moveIssuePersistence_ids active moved
  have copied := moveIssuePersistence_counters active moved
  have ids' : (u .issues).ids = (s .issues).ids ++ [id] := by rw [durable, ids]
  have gone' : u.isActiveWisp id = false := by
    unfold isActiveWisp at gone ⊢
    rw [ephemeral, gone]
  have counters : (u .issues).counters = (s .issues).counters := by rw [durable]
  have next := getNextChildID_durable ids' gone' counters
  constructor
  · intro same
    refine ⟨?_, next ▸ same.promotedFresh⟩
    rw [Table.find?_eq_none]
    intro r held owned
    -- The durable counters would hold the row already, and the strict copy would have failed.
    have stored : r ∈ (s .issues).counters := counters ▸ same.promoted.counter r held owned
    have distinct := (t .issues).counters.distinct
    rw [Table.rows_of_insertAll? copied, List.map_append, List.nodup_append] at distinct
    refine distinct.2.2 r.parentID (List.mem_map_of_mem stored) r.parentID (List.mem_map_of_mem ?_)
      rfl
    exact List.mem_filter.mpr ⟨held, decide_eq_true owned⟩
  · rintro ⟨none, fresh⟩
    have kept : (t .issues).counters = (s .issues).counters := by
      refine Table.ext ?_
      rw [Table.rows_of_insertAll? copied, countersOf_eq_nil.mpr none, List.append_nil]
    have equal : u = t := by
      funext q
      cases q with
      | issues => rw [durable, ← kept]
      | wisps => exact ephemeral
    subst equal
    have carried := carried_move active moved
    exact ⟨rfl, fun _ => rfl, rfl, rfl, rfl, carried, carried, next ▸ fresh, next ▸ fresh⟩

end Aggregates

/-- The counter that a first child leaves. -/
def oneChild : Table CounterRow.parentID := ⟨[⟨"bd-1", 1⟩], by simp⟩

/-- A wisp with a label and a child. -/
def withChild (counters : Table CounterRow.parentID) : Aggregates
  | .issues => ⟨[], .empty, .empty, .empty, .empty, .empty⟩
  | .wisps => ⟨["bd-1", "bd-1.1"], ⟨[⟨"bd-1", "draft"⟩], by simp⟩, .empty, .empty, .empty, counters⟩

/-- A wisp that never had a child gets its first one after both. -/
theorem samePromotion_iff_childless :
    ∃ t u, (withChild .empty).moveIssuePersistence "bd-1" = .ok t ∧
      (withChild .empty).promoteFromEphemeral "bd-1" = .ok u ∧
        (withChild .empty).SamePromotion "bd-1" ["bd-1"] t u := by
  obtain ⟨t, moved⟩ :=
    ok_of_isOk (x := (withChild .empty).moveIssuePersistence "bd-1") (by decide +kernel)
  obtain ⟨u, promoted⟩ :=
    ok_of_isOk (x := (withChild .empty).promoteFromEphemeral "bd-1") (by decide +kernel)
  refine ⟨t, u, moved, promoted,
    (Aggregates.samePromotion_iff _ t u "bd-1" ["bd-1"] (by decide +kernel) moved
    promoted).mpr ⟨rfl, by decide +kernel⟩⟩

/-- After a promotion the child id that is in use is allocated again; after a move it is not. -/
theorem not_samePromotion_child :
    ∃ t u, (withChild oneChild).moveIssuePersistence "bd-1" = .ok t ∧
      (withChild oneChild).promoteFromEphemeral "bd-1" = .ok u ∧
        (t.getNextChildID "bd-1").1 = "bd-1.2" ∧ (u.getNextChildID "bd-1").1 = "bd-1.1" ∧
          ¬ (withChild oneChild).SamePromotion "bd-1" ["bd-1", "bd-1.1"] t u := by
  have run : ((withChild oneChild).moveIssuePersistence "bd-1").toOption.map
        (fun t => (t.getNextChildID "bd-1").1) = some "bd-1.2" ∧
      ((withChild oneChild).promoteFromEphemeral "bd-1").toOption.map
        (fun u => (u.getNextChildID "bd-1").1) = some "bd-1.1" := by
    decide +kernel
  cases moved : (withChild oneChild).moveIssuePersistence "bd-1" with
  | error err => simp [moved, Except.toOption] at run
  | ok t =>
    cases promoted : (withChild oneChild).promoteFromEphemeral "bd-1" with
    | error err => simp [promoted, Except.toOption] at run
    | ok u =>
      rw [moved, promoted] at run
      have next : (t.getNextChildID "bd-1").1 = "bd-1.2" := Option.some.inj run.1
      have again : (u.getNextChildID "bd-1").1 = "bd-1.1" := Option.some.inj run.2
      exact ⟨t, u, rfl, rfl, next, again, fun same => same.promotedFresh (by rw [again]; simp)⟩

/-- A moved wisp that has a child gets a second one. -/
theorem moveIssuePersistence_counted_child :
    ∃ t, (withChild oneChild).moveIssuePersistence "bd-1" = .ok t ∧
      (t.getNextChildID "bd-1").1 ∉ ["bd-1.1"] := by
  obtain ⟨t, moved⟩ :=
    ok_of_isOk (x := (withChild oneChild).moveIssuePersistence "bd-1") (by decide +kernel)
  have counted : (withChild oneChild .wisps).Counted "bd-1" ["bd-1.1"] := by
    intro num held
    have first : childID "bd-1" num = childID "bd-1" 1 :=
      (List.mem_singleton.mp held).trans (by decide +kernel)
    exact ⟨_, rfl, (childID_inj first).le⟩
  exact ⟨t, moved, Aggregates.moveIssuePersistence_counted (by decide +kernel) moved counted⟩

end Beads
