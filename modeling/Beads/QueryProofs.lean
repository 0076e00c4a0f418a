import Beads.Query

/-! What the two kinds of plan select.

A conjunction is planned into one filter, and a filter has one place for most of
its values. The filter of `A AND B` is that of `A` overlaid by that of `B`
(`Evaluator.buildFilter_overlay`), which is not always their intersection
(`Evaluator.conjunction_selects_iff`).

A base filter is meant to keep every row that the predicate accepts. Most of its
clauses follow from the predicate (`Evaluator.Mild`); the others compare more
strictly (`Evaluator.base_selects_iff`). -/
namespace Beads.Query
open Lib

variable {e : Evaluator} {c : Comparison} {n : Node} {f g : Filter} {issue : Issue}

/-! ## Overlaid filters -/

/-- The values of a later filter replace those of an earlier one, and lists grow. -/
def Filter.overlay (filter later : Filter) : Filter where
  contains field := (later.contains field).or (filter.contains field)
  status := later.status.or filter.status
  excludeStatus := filter.excludeStatus ++ later.excludeStatus
  issueType := later.issueType.or filter.issueType
  excludeTypes := filter.excludeTypes ++ later.excludeTypes
  assignee := later.assignee.or filter.assignee
  priority := later.priority.or filter.priority
  priorityMin := later.priorityMin.or filter.priorityMin
  priorityMax := later.priorityMax.or filter.priorityMax
  ids := filter.ids ++ later.ids
  idPrefix := later.idPrefix.or filter.idPrefix
  specIDPrefix := later.specIDPrefix.or filter.specIDPrefix
  parentID := later.parentID.or filter.parentID
  molType := later.molType.or filter.molType
  labels := filter.labels ++ later.labels
  labelsAny := filter.labelsAny ++ later.labelsAny
  noLabels := filter.noLabels || later.noLabels
  flag flag := (later.flag flag).or (filter.flag flag)
  emptyDescription := filter.emptyDescription || later.emptyDescription
  noAssignee := filter.noAssignee || later.noAssignee
  after field := (later.after field).or (filter.after field)
  before field := (later.before field).or (filter.before field)
  hasMetadataKey := later.hasMetadataKey.or filter.hasMetadataKey
  metadataFields :=
    filter.metadataFields.filter (fun entry => entry.1 ∉ later.metadataFields.map Prod.fst) ++ later.metadataFields

namespace Filter

@[simp] theorem overlay_empty (f : Filter) : f.overlay {} = f := by
  simp [overlay]

theorem overlay_assoc (f g h : Filter) : (f.overlay g).overlay h = f.overlay (g.overlay h) := by
  simp only [overlay, Option.or_assoc, Bool.or_assoc, List.append_assoc, List.filter_append,
    List.filter_filter, List.map_append, mk.injEq, true_and, List.append_cancel_right_eq]
  refine List.filter_congr fun entry _ => ?_
  -- A key that the middle filter sets and the last one replaces is set by the two together.
  by_cases last : entry.1 ∈ h.metadataFields.map Prod.fst
  · simp [last]
  · simp only [last, not_false_eq_true, decide_true, Bool.true_and, List.mem_append, or_false]
    refine decide_eq_decide.mpr (not_congr ?_)
    simp only [List.mem_map, List.mem_filter, decide_not, Bool.not_eq_true',
      decide_eq_false_iff_not]
    constructor
    · rintro ⟨other, held, same⟩
      exact ⟨other, ⟨held, by rwa [same, ← List.mem_map]⟩, same⟩
    · rintro ⟨other, ⟨held, -⟩, same⟩
      exact ⟨other, held, same⟩

/-- The update of one value of a family is the overlay of that value. -/
theorem update_or {α β : Type} [DecidableEq α] (values : α → Option β) (a : α) (b : β) :
    (fun x => (Function.update (fun _ => none) a (some b) x).or (values x)) = Function.update values a (some b) := by
  funext x
  by_cases same : x = a
  · subst same
    simp
  · simp [Function.update_of_ne same]

end Filter

namespace Evaluator

@[simp] theorem map_pure {α β : Type} (f : α → β) (a : α) :
    Except.map f (pure a : Except String α) = pure (f a) := rfl

@[simp] theorem map_throw {α β : Type} (f : α → β) (text : String) :
    Except.map f (throw text : Except String α) = throw text := rfl

private theorem applyTimeFilter_overlay (field : TimeField) :
    e.applyTimeFilter c f field = (e.applyTimeFilter c {} field).map f.overlay := by
  simp only [applyTimeFilter]
  cases e.parseTimeValue c.value c.valueType with
  | error err => rfl
  | ok t =>
    cases c.op <;> dsimp only <;> (try split_ifs) <;> simp [Filter.overlay, Filter.update_or]

/-- What a comparison adds to a filter does not depend on it. -/
theorem applyComparison_overlay :
    e.applyComparison c f = (e.applyComparison c {}).map f.overlay := by
  unfold applyComparison
  cases c.kind with
  | status =>
    simp only [applyStatusFilter]
    split_ifs <;> simp [Filter.overlay]
  | priority =>
    simp only [applyPriorityFilter]
    cases atoi c.value with
    | none => rfl
    | some priority => cases c.op <;> dsimp only <;> split_ifs <;> simp [Filter.overlay]
  | type =>
    simp only [applyTypeFilter]
    split_ifs <;> simp [Filter.overlay]
  | assignee =>
    simp only [applyAssigneeFilter]
    split_ifs <;> simp [Filter.overlay]
  | owner => rfl
  | label =>
    simp only [applyLabelFilter]
    split_ifs <;> simp [Filter.overlay]
  | text field =>
    cases field <;> simp only [applyTitleFilter, applyDescriptionFilter, applyNotesFilter, setContains] <;>
      split_ifs <;> simp [Filter.overlay, Filter.update_or]
  | time field =>
    cases field <;> exact applyTimeFilter_overlay _
  | id =>
    simp only [applyIDFilter]
    cases wildcard? c.value <;> split_ifs <;> simp [Filter.overlay]
  | spec =>
    simp only [applySpecFilter]
    split_ifs <;> simp [Filter.overlay]
  | parent =>
    simp only [applyParentFilter]
    split_ifs <;> simp [Filter.overlay]
  | flag flag =>
    simp only [applyBoolFilter]
    cases e.parseBool c.value <;> split_ifs <;> simp [Filter.overlay, Filter.update_or]
  | molType =>
    simp only [applyMolTypeFilter]
    split_ifs <;> simp [Filter.overlay]
  | hasMetadataKey =>
    simp only [applyHasMetadataKeyFilter]
    split_ifs <;> simp [Filter.overlay]
  | metadata key =>
    simp only [applyMetadataFilter]
    split_ifs <;> simp [Filter.overlay, Filter.setMetadata]
  | unknown => rfl

theorem applyNot_overlay : e.applyNot n f = (e.applyNot n {}).map f.overlay := by
  unfold applyNot
  cases n with
  | comparison c =>
    dsimp only
    cases c.kind with
    | status =>
      dsimp only
      split_ifs <;> simp [Filter.overlay]
    | type =>
      dsimp only
      split_ifs <;> simp [Filter.overlay]
    | _ => rfl
  | and | or | not => rfl

/-- What an expression adds to a filter does not depend on it. -/
theorem buildFilter_overlay : e.buildFilter n f = (e.buildFilter n {}).map f.overlay := by
  induction n generalizing f with
  | comparison c => exact applyComparison_overlay
  | and left right ihLeft ihRight =>
    simp only [buildFilter, ihLeft (f := f)]
    cases e.buildFilter left {} with
    | error err => rfl
    | ok first =>
      change e.buildFilter right (f.overlay first) = (e.buildFilter right first).map f.overlay
      rw [ihRight, ihRight (f := first)]
      cases e.buildFilter right {} with
      | error err => rfl
      | ok second => exact congrArg Except.ok (f.overlay_assoc first second)
  | or left right =>
    simp only [buildFilter]
    cases collectOrLabels (.or left right) <;> simp [Filter.overlay]
  | not operand => exact applyNot_overlay

theorem extractBaseFilters_overlay :
    e.extractBaseFilters n f = f.overlay (e.extractBaseFilters n {}) := by
  induction n generalizing f with
  | comparison c =>
    simp only [extractBaseFilters, applyComparison_overlay (f := f)]
    cases e.applyComparison c {} <;> simp [Except.map, Except.toOption]
  | and left right ihLeft ihRight =>
    simp only [extractBaseFilters]
    rw [ihRight, ihLeft, ihRight (f := e.extractBaseFilters left {}), Filter.overlay_assoc]
  | or left right => simp [extractBaseFilters]
  | not operand =>
    simp only [extractBaseFilters, applyNot_overlay (f := f)]
    cases e.applyNot operand {} <;> simp [Except.map, Except.toOption]

end Evaluator

/-! ## Conjunctions -/

section Conjunction
variable {toLower : Char → Char}

theorem wanted_or {α : Type} {first second : Option α} {P : α → Prop} (one : Wanted first P)
    (two : Wanted second P) :
    Wanted (second.or first) P := by
  intro v held
  cases second with
  | none => exact one v held
  | some w => exact two v held

/-- A value that two filters admit is admitted by their overlay. -/
theorem Filter.Admits.overlay {c : Column} {v : c.Value} (one : f.Admits toLower c v)
    (two : g.Admits toLower c v) : (f.overlay g).Admits toLower c v := by
  cases c with
  | text field =>
    refine ⟨?_, fun here empty => ?_⟩
    · simp only [Filter.overlay, Option.map_or]
      exact wanted_or one.1 two.1
    · rcases Bool.or_eq_true_iff.mp empty with empty | empty
      · exact one.2 here empty
      · exact two.2 here empty
  | status => exact ⟨wanted_or one.1 two.1, by simp [Filter.overlay, one.2, two.2]⟩
  | issueType => exact ⟨wanted_or one.1 two.1, by simp [Filter.overlay, one.2, two.2]⟩
  | assignee =>
    refine ⟨wanted_or one.1 two.1, fun empty => ?_⟩
    rcases Bool.or_eq_true_iff.mp empty with empty | empty
    · exact one.2 empty
    · exact two.2 empty
  | priority => exact ⟨wanted_or one.1 two.1, wanted_or one.2.1 two.2.1, wanted_or one.2.2 two.2.2⟩
  | identity =>
    refine ⟨fun listed => ?_, wanted_or one.2.1 two.2.1, wanted_or one.2.2 two.2.2⟩
    simp only [Filter.overlay, List.mem_append] at listed ⊢
    by_cases none : f.ids = []
    · rw [none] at listed
      exact .inr (two.1 (by simpa using listed))
    · exact .inl (one.1 none)
  | specID => exact wanted_or one two
  | molType => exact wanted_or one two
  | labels =>
    refine ⟨fun label listed => ?_, fun listed => ?_, fun empty => ?_⟩
    · rcases List.mem_append.mp listed with listed | listed
      · exact one.1 label listed
      · exact two.1 label listed
    · simp only [Filter.overlay, List.mem_append] at listed ⊢
      by_cases none : f.labelsAny = []
      · rw [none] at listed
        obtain ⟨label, held, here⟩ := two.2.1 (by simpa using listed)
        exact ⟨label, .inr held, here⟩
      · obtain ⟨label, held, here⟩ := one.2.1 none
        exact ⟨label, .inl held, here⟩
    · rcases Bool.or_eq_true_iff.mp empty with empty | empty
      · exact one.2.2 empty
      · exact two.2.2 empty
  | flag flag => exact wanted_or one two
  | time field => exact ⟨wanted_or one.1 two.1, wanted_or one.2 two.2⟩
  | metadata =>
    refine ⟨wanted_or one.1 two.1, fun entry held => ?_⟩
    rcases List.mem_append.mp held with held | held
    · exact one.2 entry (List.mem_of_mem_filter held)
    · exact two.2 entry held

/-- Any value can stand in any column. -/
def Issue.ofColumns (row : (c : Column) → c.Value) : Issue where
  id := (row .identity).1
  parents := (row .identity).2
  text field := row (.text field)
  status := row .status
  issueType := row .issueType
  priority := row .priority
  assignee := row .assignee
  owner := ""
  specID := row .specID
  molType := row .molType
  labels := row .labels
  flag flag := row (.flag flag)
  time field := row (.time field)
  metadata := row .metadata

private theorem Issue.column_ofColumns (row : (c : Column) → c.Value) :
    (Issue.ofColumns row).column = row := by
  funext c
  cases c <;> rfl

/-- What stays of two filters when one is laid over the other allows in every
column only what both allow, or allows nothing in some column. -/
def Filter.Conjoined (toLower : Char → Char) (f g : Filter) : Prop :=
  (∃ c, ∀ v, ¬ (f.overlay g).Admits toLower c v) ∨
    ∀ c v, (f.overlay g).Admits toLower c v → f.Admits toLower c v ∧ g.Admits toLower c v

private theorem Filter.overlay_selects_iff :
    (∀ issue, (f.overlay g).Selects toLower issue ↔
      f.Selects toLower issue ∧ g.Selects toLower issue) ↔
      Filter.Conjoined toLower f g := by
  rw [Filter.Conjoined, ← forall_columns]
  constructor
  · intro exact row admitted c
    have both := (exact (.ofColumns row)).mp (by rwa [Filter.Selects, Issue.column_ofColumns])
    simp only [Filter.Selects, Issue.column_ofColumns] at both
    exact ⟨both.1 c, both.2 c⟩
  · intro implied issue
    refine ⟨fun selected => ?_, fun both c => (both.1 c).overlay (both.2 c)⟩
    have admitted := implied issue.column selected
    exact ⟨fun c => (admitted c).1, fun c => (admitted c).2⟩

/-- No field that holds one value, or alternatives of which one is enough, is set in both filters.
-/
structure Filter.Apart (f g : Filter) : Prop where
  contains : ∀ field, f.contains field = none ∨ g.contains field = none
  status : f.status = none ∨ g.status = none
  issueType : f.issueType = none ∨ g.issueType = none
  assignee : f.assignee = none ∨ g.assignee = none
  priority : f.priority = none ∨ g.priority = none
  priorityMin : f.priorityMin = none ∨ g.priorityMin = none
  priorityMax : f.priorityMax = none ∨ g.priorityMax = none
  ids : f.ids = [] ∨ g.ids = []
  idPrefix : f.idPrefix = none ∨ g.idPrefix = none
  specIDPrefix : f.specIDPrefix = none ∨ g.specIDPrefix = none
  parentID : f.parentID = none ∨ g.parentID = none
  molType : f.molType = none ∨ g.molType = none
  labelsAny : f.labelsAny = [] ∨ g.labelsAny = []
  flag : ∀ flag, f.flag flag = none ∨ g.flag flag = none
  after : ∀ field, f.after field = none ∨ g.after field = none
  before : ∀ field, f.before field = none ∨ g.before field = none
  hasMetadataKey : f.hasMetadataKey = none ∨ g.hasMetadataKey = none
  metadataFields : ∀ entry ∈ f.metadataFields, entry.1 ∉ g.metadataFields.map Prod.fst

private theorem wanted_both {α : Type} {first second : Option α} {P : α → Prop}
    (apart : first = none ∨ second = none)
    (wanted : Wanted (second.or first) P) : Wanted first P ∧ Wanted second P := by
  rcases apart with rfl | rfl
  · exact ⟨nofun, by simpa using wanted⟩
  · exact ⟨by simpa using wanted, nofun⟩

private theorem listed_both {α : Type} {first second : List α} {P : List α → Prop}
    (apart : first = [] ∨ second = []) (listed : first ++ second ≠ [] → P (first ++ second)) :
    (first ≠ [] → P first) ∧ (second ≠ [] → P second) := by
  rcases apart with rfl | rfl
  · exact ⟨fun other => absurd rfl other, listed⟩
  · rw [List.append_nil] at listed
    exact ⟨listed, fun other => absurd rfl other⟩

/-- Filters with no such field in common are conjoined. -/
theorem Filter.Apart.conjoined (apart : f.Apart g) : f.Conjoined toLower g := by
  refine .inr fun c v admitted => ?_
  cases c with
  | text field =>
    obtain ⟨like, empty⟩ := admitted
    simp only [Filter.overlay, Option.map_or] at like
    obtain ⟨one, two⟩ := wanted_both ((apart.contains field).imp (by simp [·]) (by simp [·])) like
    exact ⟨⟨one, fun here set => empty here (by simp [Filter.overlay, set])⟩,
      ⟨two, fun here set => empty here (by simp [Filter.overlay, set])⟩⟩
  | status =>
    obtain ⟨one, two⟩ := wanted_both apart.status admitted.1
    have other := admitted.2
    simp only [Filter.overlay, List.mem_append, not_or] at other
    exact ⟨⟨one, other.1⟩, ⟨two, other.2⟩⟩
  | issueType =>
    obtain ⟨one, two⟩ := wanted_both apart.issueType admitted.1
    have other := admitted.2
    simp only [Filter.overlay, List.mem_append, not_or] at other
    exact ⟨⟨one, other.1⟩, ⟨two, other.2⟩⟩
  | assignee =>
    obtain ⟨one, two⟩ := wanted_both apart.assignee admitted.1
    exact ⟨⟨one, fun set => admitted.2 (by simp [Filter.overlay, set])⟩,
      ⟨two, fun set => admitted.2 (by simp [Filter.overlay, set])⟩⟩
  | priority =>
    obtain ⟨one, two⟩ := wanted_both apart.priority admitted.1
    obtain ⟨least, least'⟩ := wanted_both apart.priorityMin admitted.2.1
    obtain ⟨most, most'⟩ := wanted_both apart.priorityMax admitted.2.2
    exact ⟨⟨one, least, most⟩, ⟨two, least', most'⟩⟩
  | identity =>
    obtain ⟨one, two⟩ := listed_both (P := fun ids => v.1 ∈ ids) apart.ids admitted.1
    obtain ⟨start, start'⟩ := wanted_both apart.idPrefix admitted.2.1
    obtain ⟨parent, parent'⟩ := wanted_both apart.parentID admitted.2.2
    exact ⟨⟨one, start, parent⟩, ⟨two, start', parent'⟩⟩
  | specID => exact wanted_both apart.specIDPrefix admitted
  | molType => exact wanted_both apart.molType admitted
  | labels =>
    obtain ⟨all, any, none⟩ := admitted
    obtain ⟨one, two⟩ :=
      listed_both (P := fun labels => ∃ label ∈ labels, label ∈ v) apart.labelsAny any
    exact ⟨⟨fun label listed => all label (List.mem_append_left _ listed), one, fun set =>
        none (by simp [Filter.overlay, set])⟩,
      ⟨fun label listed => all label (List.mem_append_right _ listed), two, fun set =>
        none (by simp [Filter.overlay, set])⟩⟩
  | flag flag => exact wanted_both (apart.flag flag) admitted
  | time field =>
    obtain ⟨one, two⟩ := wanted_both (apart.after field) admitted.1
    obtain ⟨early, early'⟩ := wanted_both (apart.before field) admitted.2
    exact ⟨⟨one, early⟩, ⟨two, early'⟩⟩
  | metadata =>
    obtain ⟨one, two⟩ := wanted_both apart.hasMetadataKey admitted.1
    refine ⟨⟨one, fun entry held => admitted.2 entry (List.mem_append_left _ ?_)⟩,
      ⟨two, fun entry held => admitted.2 entry (List.mem_append_right _ held)⟩⟩
    exact List.mem_filter.mpr ⟨held, decide_eq_true (apart.metadataFields entry held)⟩

end Conjunction

namespace Evaluator
variable {a b : Node}

/-- A plan without a predicate is a filter that was built. -/
theorem evaluate_filter (planned : e.evaluate n = .ok ⟨f, none⟩) :
    canUseFilterOnly n = true ∧ e.buildFilter n {} = .ok f := by
  unfold evaluate at planned
  split at planned
  · next simple =>
    cases built : e.buildFilter n {} with
    | error err => rw [built] at planned; cases planned
    | ok filter =>
      rw [built] at planned
      cases planned
      exact ⟨simple, rfl⟩
  · cases built : e.buildPredicate n with
    | error err => rw [built] at planned; cases planned
    | ok pred => rw [built] at planned; cases planned

/-- A plan with a predicate is a base filter with the predicate that was built. -/
theorem evaluate_predicate {base : Filter} {pred : Issue → Bool}
    (planned : e.evaluate n = .ok ⟨base, some pred⟩) :
    base = e.extractBaseFilters n {} ∧ e.buildPredicate n = .ok pred := by
  unfold evaluate at planned
  split at planned
  · cases built : e.buildFilter n {} with
    | error err => rw [built] at planned; cases planned
    | ok filter => rw [built] at planned; cases planned
  · cases built : e.buildPredicate n with
    | error err => rw [built] at planned; cases planned
    | ok p =>
      rw [built] at planned
      cases planned
      exact ⟨rfl, rfl⟩

/-- Both sides of a conjunction that is planned without a predicate are planned so. -/
theorem evaluate_and (planned : e.evaluate (.and a b) = .ok ⟨f, none⟩) :
    ∃ fa fb, e.evaluate a = .ok ⟨fa, none⟩ ∧ e.evaluate b = .ok ⟨fb, none⟩ ∧ f = fa.overlay fb := by
  obtain ⟨simple, built⟩ := evaluate_filter planned
  obtain ⟨left, right⟩ := Bool.and_eq_true_iff.mp simple
  simp only [buildFilter] at built
  cases first : e.buildFilter a {} with
  | error err => rw [first] at built; cases built
  | ok fa =>
    rw [first] at built
    change e.buildFilter b fa = _ at built
    rw [buildFilter_overlay] at built
    cases second : e.buildFilter b {} with
    | error err => rw [second] at built; cases built
    | ok fb =>
      rw [second] at built
      cases built
      exact ⟨fa, fb, by simp [evaluate, left, first], by simp [evaluate, right, second], rfl⟩

theorem evaluate_and_of (left : e.evaluate a = .ok ⟨f, none⟩)
    (right : e.evaluate b = .ok ⟨g, none⟩) :
    e.evaluate (.and a b) = .ok ⟨f.overlay g, none⟩ := by
  obtain ⟨simple, first⟩ := evaluate_filter left
  obtain ⟨simple', second⟩ := evaluate_filter right
  have built : e.buildFilter (.and a b) {} = .ok (f.overlay g) := by
    simp only [buildFilter, first]
    change e.buildFilter b f = _
    rw [buildFilter_overlay, second]
    rfl
  simp [evaluate, canUseFilterOnly, simple, simple', built]

/-- A conjunction that is planned into one filter selects what both sides select
exactly if, in every column, what stays of the sides' filters allows no more than
both, or allows nothing in some column. -/
theorem conjunction_selects_iff (e : Evaluator) (a b : Node) (f : Filter)
    (planned : e.evaluate (.and a b) = .ok ⟨f, none⟩) :
    ∃ fa fb, e.evaluate a = .ok ⟨fa, none⟩ ∧ e.evaluate b = .ok ⟨fb, none⟩ ∧
      ((∀ issue, f.Selects e.toLower issue ↔ fa.Selects e.toLower issue ∧ fb.Selects e.toLower issue) ↔
        Filter.Conjoined e.toLower fa fb) := by
  obtain ⟨fa, fb, left, right, rfl⟩ := evaluate_and planned
  exact ⟨fa, fb, left, right, Filter.overlay_selects_iff⟩

/-- ASCII letters, and no times. -/
def ascii : Evaluator where
  toLower := Char.toLower
  sameFold a b := a.toLower = b.toLower
  parseTimeValue value _ := .error ("cannot parse " ++ value)

def statusIs (value : String) : Node := .comparison ⟨"status", .equals, value, .ident⟩

def atMost (value : String) : Node := .comparison ⟨"priority", .lessEq, value, .number⟩

theorem evaluate_statusIs {value : String} (known : value ∈ allStatuses)
    (lower : ascii.lower value = value) :
    ascii.evaluate (statusIs value) = .ok ⟨{ status := some value }, none⟩ := by
  have kind : Field.ofName "status" = .status := by decide +kernel
  simp only [evaluate, canUseFilterOnly, statusIs, buildFilter, applyComparison, Comparison.kind,
    kind, applyStatusFilter, lower]
  simp [known]
  rfl

private theorem evaluate_atMost :
    ascii.evaluate (atMost "1") = .ok ⟨{ priorityMax := some 1 }, none⟩ := by
  have kind : Field.ofName "priority" = .priority := by decide +kernel
  have one : atoi "1" = some 1 := by decide +kernel
  simp [evaluate, canUseFilterOnly, atMost, buildFilter, applyComparison, Comparison.kind, kind,
    applyPriorityFilter, one]
  rfl

theorem evaluate_statusIs_open :
    ascii.evaluate (statusIs "open") = .ok ⟨{ status := some "open" }, none⟩ :=
  evaluate_statusIs (by decide) (by decide +kernel)

/-- Filters on different columns are not in each other's way. -/
theorem conjunction_selects_iff_status_priority :
    ∃ f fa fb, ascii.evaluate (.and (statusIs "open") (atMost "1")) = .ok ⟨f, none⟩ ∧
      ascii.evaluate (statusIs "open") = .ok ⟨fa, none⟩ ∧
        ascii.evaluate (atMost "1") = .ok ⟨fb, none⟩ ∧
      ∀ issue, f.Selects Char.toLower issue ↔
        fa.Selects Char.toLower issue ∧ fb.Selects Char.toLower issue := by
  have planned := evaluate_and_of evaluate_statusIs_open evaluate_atMost
  obtain ⟨fa, fb, left, right, selects⟩ :=
    conjunction_selects_iff ascii (statusIs "open") (atMost "1") _ planned
  refine ⟨_, fa, fb, planned, left, right, selects.mpr (Filter.Apart.conjoined ?_)⟩
  obtain rfl : { status := some "open" } = fa :=
    congrArg Plan.filter (Except.ok.inj (evaluate_statusIs_open.symm.trans left))
  obtain rfl : { priorityMax := some 1 } = fb :=
    congrArg Plan.filter (Except.ok.inj (evaluate_atMost.symm.trans right))
  constructor <;> simp

def issueNamed (id status assignee : String) : Issue where
  id := id
  parents := []
  text := fun _ => ""
  status := status
  issueType := "task"
  priority := 2
  assignee := assignee
  owner := ""
  specID := ""
  molType := ""
  labels := []
  flag := fun _ => false
  time
    | .created | .updated => ⟨0, ⟨1970, 1, 1⟩⟩
    | .closed | .started => none
  metadata := fun _ => none

/-- `status=open AND status=closed` finds the closed issues. -/
theorem not_conjunction_status :
    ∃ f fa fb, ascii.evaluate (.and (statusIs "open") (statusIs "closed")) = .ok ⟨f, none⟩ ∧
      ascii.evaluate (statusIs "open") = .ok ⟨fa, none⟩ ∧
        ascii.evaluate (statusIs "closed") = .ok ⟨fb, none⟩ ∧
      f.Selects Char.toLower (issueNamed "bd-1" "closed" "") ∧
      ¬ fa.Selects Char.toLower (issueNamed "bd-1" "closed" "") := by
  have closed : ascii.evaluate (statusIs "closed") = .ok ⟨{ status := some "closed" }, none⟩ :=
    evaluate_statusIs (by decide) (by decide +kernel)
  refine ⟨_, _, _, evaluate_and_of evaluate_statusIs_open closed, evaluate_statusIs_open, closed,
    ?_, ?_⟩
  · intro c
    cases c <;> simp [Filter.Admits, Filter.overlay, Filter.Like, Wanted, Issue.column, issueNamed]
  · intro selected
    have same := (selected .status).1 "open" rfl
    simp [Issue.column, issueNamed] at same

end Evaluator

/-! ## Base filters -/

/-- The values of a filter whose clauses can ask for more than the predicate of
the comparison that set them. -/
structure Strict where
  assignee : Option String := none
  labels : List String := []
  contains : TextField → Option String := fun _ => none
  idPrefix : Option String := none
  specIDPrefix : Option String := none
  after : TimeField → Option Int := fun _ => none
  before : TimeField → Option Int := fun _ => none
  metadataFields : List (String × String) := []

def Filter.strict (f : Filter) : Strict :=
  ⟨f.assignee, f.labels, f.contains, f.idPrefix, f.specIDPrefix, f.after, f.before, f.metadataFields⟩

/-- The later of two values counts, and labels add up. -/
def Strict.overlay (s later : Strict) : Strict where
  assignee := later.assignee.or s.assignee
  labels := s.labels ++ later.labels
  contains field := (later.contains field).or (s.contains field)
  idPrefix := later.idPrefix.or s.idPrefix
  specIDPrefix := later.specIDPrefix.or s.specIDPrefix
  after field := (later.after field).or (s.after field)
  before field := (later.before field).or (s.before field)
  metadataFields :=
    s.metadataFields.filter (fun entry => entry.1 ∉ later.metadataFields.map Prod.fst) ++ later.metadataFields

namespace Evaluator

/-- The bounds of a comparison with a time. -/
def strictTime (field : TimeField) (op : ComparisonOp) (t : QueryTime) : Strict :=
  let only bound := Function.update (fun _ => none) field (some bound)
  match op with
  | .equals =>
    if field = .closed ∨ field = .started then {} else { after := only t.dayStart, before := only t.dayEnd }
  | .greater | .greaterEq => { after := only t.target.instant }
  | .less => { before := only t.target.instant }
  | .lessEq => { before := only t.endOfDay }
  | .notEquals => {}

/-- What a comparison says. -/
def strictOf (e : Evaluator) (c : Comparison) : Strict :=
  match c.kind with
  | .assignee =>
    if c.op = .equals ∧ e.isNone c.value = false then { assignee := some c.value } else {}
  | .label => if c.op = .equals ∧ e.isNone c.value = false then { labels := [c.value] } else {}
  | .text field =>
    if c.op = .equals ∧ (field = .description → e.isNone c.value = false) then
      { contains := Function.update (fun _ => none) field (some c.value) }
    else {}
  | .id => if c.op = .equals then { idPrefix := wildcard? c.value } else {}
  | .spec =>
    if c.op = .equals then { specIDPrefix := some ((wildcard? c.value).getD c.value) } else {}
  | .time field =>
    match e.parseTimeValue c.value c.valueType with
    | .ok t => strictTime field c.op t
    | .error _ => {}
  | .metadata key =>
    if c.op = .equals ∧ validMetadataKey key = true then { metadataFields := [(key, c.value)] } else {}
  | _ => {}

/-- What the comparisons of a conjunction say; those under `OR` and `NOT` are left out. -/
def strict (e : Evaluator) : Node → Strict
  | .comparison c => e.strictOf c
  | .and left right => (strict e left).overlay (strict e right)
  | .or _ _ | .not _ => {}

@[simp] theorem toOption_pure {α : Type} (a : α) : (pure a : Except String α).toOption = some a :=
  rfl

@[simp] theorem toOption_throw {α : Type} (text : String) :
    (throw text : Except String α).toOption = none := rfl

/-- What a comparison adds to a base filter. -/
def adds (e : Evaluator) (c : Comparison) : Filter := (e.applyComparison c {}).toOption.getD {}

private theorem strict_adds : (e.adds c).strict = e.strictOf c := by
  unfold adds applyComparison strictOf
  cases c.kind with
  | status =>
    simp only [applyStatusFilter]
    split_ifs <;> rfl
  | priority =>
    simp only [applyPriorityFilter]
    cases atoi c.value with
    | none => rfl
    | some p => cases c.op <;> dsimp only <;> split_ifs <;> rfl
  | type =>
    simp only [applyTypeFilter]
    split_ifs <;> rfl
  | assignee =>
    simp only [applyAssigneeFilter]
    split_ifs <;> simp_all <;> rfl
  | owner => rfl
  | label =>
    simp only [applyLabelFilter]
    split_ifs <;> simp_all <;> rfl
  | text field =>
    cases field <;> simp only [applyTitleFilter, applyDescriptionFilter, applyNotesFilter] <;>
      split_ifs <;> simp_all <;> rfl
  | time field =>
    cases field <;>
      simp only [applyCreatedFilter, applyUpdatedFilter, applyClosedFilter, applyStartedFilter, applyTimeFilter] <;>
      cases e.parseTimeValue c.value c.valueType <;> cases c.op <;> rfl
  | id =>
    simp only [applyIDFilter]
    cases wildcard? c.value <;> split_ifs <;> simp_all <;> rfl
  | spec =>
    simp only [applySpecFilter]
    split_ifs <;> simp_all <;> rfl
  | parent =>
    simp only [applyParentFilter]
    split_ifs <;> rfl
  | flag flag =>
    simp only [applyBoolFilter]
    cases e.parseBool c.value <;> split_ifs <;> rfl
  | molType =>
    simp only [applyMolTypeFilter]
    split_ifs <;> rfl
  | hasMetadataKey =>
    simp only [applyHasMetadataKeyFilter]
    split_ifs <;> rfl
  | metadata key =>
    simp only [applyMetadataFilter]
    split_ifs <;> simp_all <;> rfl
  | unknown => rfl

/-- The clauses of a filter that follow from the predicates, and for texts,
prefixes and metadata what the predicates say of them. -/
structure Mild (e : Evaluator) (f : Filter) (issue : Issue) : Prop where
  contains : ∀ field, Wanted (f.contains field) fun part => e.contains (issue.text field) part = true
  emptyDescription : f.emptyDescription = true → issue.text .description = ""
  status : Wanted f.status (issue.status = ·)
  excludeStatus : issue.status ∉ f.excludeStatus
  issueType : Wanted f.issueType (issue.issueType = ·)
  excludeTypes : issue.issueType ∉ f.excludeTypes
  noAssignee : f.noAssignee = true → issue.assignee = ""
  priority : Wanted f.priority (issue.priority = ·)
  priorityMin : Wanted f.priorityMin (· ≤ issue.priority)
  priorityMax : Wanted f.priorityMax (issue.priority ≤ ·)
  ids : f.ids ≠ [] → issue.id ∈ f.ids
  idPrefix : Wanted f.idPrefix fun start => hasPrefix issue.id start = true
  specIDPrefix : Wanted f.specIDPrefix fun start => hasPrefix issue.specID start = true
  parentID : f.parentID = none
  molType : f.molType = none
  labelsAny : f.labelsAny = []
  noLabels : f.noLabels = true → issue.labels = []
  flag : ∀ flag, Wanted (f.flag flag) (issue.flag flag = ·)
  hasMetadataKey : Wanted f.hasMetadataKey fun key => (issue.metadata key).isSome = true
  metadataFields : ∀ entry ∈ f.metadataFields, (issue.metadata entry.1).any (metadataEquals · entry.2) = true

theorem Mild.empty (e : Evaluator) (issue : Issue) : Mild e {} issue := by
  constructor <;> simp [Wanted]

theorem Mild.overlay (one : Mild e f issue) (two : Mild e g issue) :
    Mild e (f.overlay g) issue where
  contains field := wanted_or (one.contains field) (two.contains field)
  emptyDescription empty := (Bool.or_eq_true_iff.mp empty).elim one.emptyDescription two.emptyDescription
  status := wanted_or one.status two.status
  excludeStatus held := (List.mem_append.mp held).elim one.excludeStatus two.excludeStatus
  issueType := wanted_or one.issueType two.issueType
  excludeTypes held := (List.mem_append.mp held).elim one.excludeTypes two.excludeTypes
  noAssignee none := (Bool.or_eq_true_iff.mp none).elim one.noAssignee two.noAssignee
  priority := wanted_or one.priority two.priority
  priorityMin := wanted_or one.priorityMin two.priorityMin
  priorityMax := wanted_or one.priorityMax two.priorityMax
  ids listed := by
    simp only [Filter.overlay, List.mem_append] at listed ⊢
    by_cases none : f.ids = []
    · rw [none] at listed
      exact .inr (two.ids (by simpa using listed))
    · exact .inl (one.ids none)
  idPrefix := wanted_or one.idPrefix two.idPrefix
  specIDPrefix := wanted_or one.specIDPrefix two.specIDPrefix
  parentID := by simp [Filter.overlay, one.parentID, two.parentID]
  molType := by simp [Filter.overlay, one.molType, two.molType]
  labelsAny := by simp [Filter.overlay, one.labelsAny, two.labelsAny]
  noLabels none := (Bool.or_eq_true_iff.mp none).elim one.noLabels two.noLabels
  flag flag := wanted_or (one.flag flag) (two.flag flag)
  hasMetadataKey := wanted_or one.hasMetadataKey two.hasMetadataKey
  metadataFields entry held := by
    rcases List.mem_append.mp held with held | held
    · exact one.metadataFields entry (List.mem_of_mem_filter held)
    · exact two.metadataFields entry held

/-- A test passes, or its negation does. -/
theorem equality_holds {name : String} {op : ComparisonOp} {test p : Issue → Bool}
    (built : equality name op test = .ok p) (holds : p issue = true) :
    (op = .equals ∧ test issue = true) ∨ (op = .notEquals ∧ test issue = false) := by
  cases op with
  | equals =>
    cases built
    exact .inl ⟨rfl, holds⟩
  | notEquals =>
    cases built
    exact .inr ⟨rfl, by simpa using holds⟩
  | less | lessEq | greater | greaterEq => cases built

variable {p : Issue → Bool}

private theorem priority_mild (built : buildPriorityPredicate c = .ok p) (holds : p issue = true) :
    Mild e ((applyPriorityFilter c {}).toOption.getD {}) issue := by
  unfold buildPriorityPredicate at built
  unfold applyPriorityFilter
  cases number : atoi c.value with
  | none => exact Mild.empty e issue
  | some priority =>
    rw [number] at built
    cases built
    dsimp only
    by_cases range : priority < 0 ∨ 4 < priority
    · simpa [range] using Mild.empty e issue
    rw [if_neg range]
    cases op : c.op <;> simp only [op, compareInts, decide_eq_true_eq] at holds ⊢
    case equals => exact { Mild.empty e issue with priority := by simp [Wanted, holds] }
    case notEquals => exact Mild.empty e issue
    case less =>
      split_ifs
      · exact Mild.empty e issue
      · exact { Mild.empty e issue with priorityMax := by simp [Wanted]; omega }
    case lessEq => exact { Mild.empty e issue with priorityMax := by simp [Wanted, holds] }
    case greater =>
      split_ifs
      · exact Mild.empty e issue
      · exact { Mild.empty e issue with priorityMin := by simp [Wanted]; omega }
    case greaterEq => exact { Mild.empty e issue with priorityMin := by simp [Wanted, holds] }

private theorem text_mild {field : TextField}
    (test : e.contains (issue.text field) c.value = true) :
    Mild e (setContains c {} field) issue :=
  { Mild.empty e issue with
    contains := fun other => by
      by_cases same : other = field
      · subst same
        simp [setContains, Wanted, test]
      · simp [setContains, Wanted, Function.update_of_ne same] }

private theorem time_mild {field : TimeField} :
    Mild e ((e.applyTimeFilter c {} field).toOption.getD {}) issue := by
  unfold applyTimeFilter
  cases e.parseTimeValue c.value c.valueType with
  | error err => exact Mild.empty e issue
  | ok t =>
    cases c.op <;> dsimp only <;> (try split_ifs) <;>
      first | exact Mild.empty e issue | exact { Mild.empty e issue with }

private theorem identity_holds {name : String} {column : Issue → String}
    (built : buildIdentityPredicate c name column = .ok p) (holds : p issue = true)
    (op : c.op = .equals) :
    (∀ start, wildcard? c.value = some start → hasPrefix (column issue) start = true) ∧
      (wildcard? c.value = none → column issue = c.value) := by
  unfold buildIdentityPredicate at built
  constructor
  · intro start wild
    simp only [wild, op] at built
    cases built
    exact holds
  · intro plain
    simp only [plain, op, equality] at built
    cases built
    simpa [texts] using holds

private theorem hasPrefix_self (text : String) : hasPrefix text text = true := by
  simp [hasPrefix]

/-- What a comparison adds to the base filter holds of the rows that pass its predicate. -/
theorem adds_mild (built : e.buildComparisonPredicate c = .ok p) (holds : p issue = true) :
    Mild e (e.adds c) issue := by
  unfold buildComparisonPredicate at built
  unfold adds applyComparison
  cases kind : c.kind with
  | status =>
    rw [kind] at built
    rcases equality_holds built holds with ⟨op, test⟩ | ⟨op, test⟩ <;>
      simp only [texts, decide_eq_true_eq, decide_eq_false_iff_not] at test <;>
      by_cases valid : e.lower c.value ∈ allStatuses <;> simp [applyStatusFilter, op, valid]
    · exact { Mild.empty e issue with status := by simp [Wanted, test] }
    · exact Mild.empty e issue
    · exact { Mild.empty e issue with excludeStatus := by simp [test] }
    · exact Mild.empty e issue
  | priority =>
    rw [kind] at built
    exact priority_mild built holds
  | type =>
    rw [kind] at built
    rcases equality_holds built holds with ⟨op, test⟩ | ⟨op, test⟩ <;>
      simp only [texts, decide_eq_true_eq, decide_eq_false_iff_not] at test <;> simp [applyTypeFilter, op]
    · exact { Mild.empty e issue with issueType := by simp [Wanted, test] }
    · exact { Mild.empty e issue with excludeTypes := by simp [test] }
  | assignee =>
    rw [kind] at built
    rcases equality_holds built holds with ⟨op, test⟩ | ⟨op, test⟩ <;> simp only [applyAssigneeFilter, op]
    · by_cases none : e.isNone c.value = true
      · simp only [none, if_true, texts, decide_eq_true_eq] at test
        simpa [none] using { Mild.empty e issue with noAssignee := fun _ => test }
      · simpa [none] using { Mild.empty e issue with }
    · exact Mild.empty e issue
  | owner => exact Mild.empty e issue
  | label =>
    rw [kind] at built
    rcases equality_holds built holds with ⟨op, test⟩ | ⟨op, test⟩ <;> simp only [applyLabelFilter, op]
    · by_cases none : e.isNone c.value = true
      · simp only [none, if_true, List.isEmpty_iff] at test
        simpa [none] using { Mild.empty e issue with noLabels := fun _ => test }
      · simpa [none] using { Mild.empty e issue with }
    · exact Mild.empty e issue
  | text field =>
    rw [kind] at built
    cases field with
    | title =>
      rcases equality_holds built holds with ⟨op, test⟩ | ⟨op, test⟩ <;> simp only [applyTitleFilter, op]
      · exact text_mild test
      · exact Mild.empty e issue
    | description =>
      rcases equality_holds built holds with ⟨op, test⟩ | ⟨op, test⟩ <;> simp only [applyDescriptionFilter, op]
      · by_cases none : e.isNone c.value = true
        · simp only [none, if_true, texts, decide_eq_true_eq] at test
          simpa [none] using { Mild.empty e issue with emptyDescription := fun _ => test }
        · simp only [none] at test
          simpa [none] using text_mild test
      · exact Mild.empty e issue
    | notes =>
      rcases equality_holds built holds with ⟨op, test⟩ | ⟨op, test⟩ <;> simp only [applyNotesFilter, op]
      · exact text_mild test
      · exact Mild.empty e issue
  | time field => cases field <;> exact time_mild
  | id =>
    rw [kind] at built
    by_cases op : c.op = .equals
    · obtain ⟨starts, equal⟩ := identity_holds built holds op
      cases wild : wildcard? c.value with
      | some start =>
        simpa [applyIDFilter, op, wild] using
          { Mild.empty e issue with idPrefix := by simpa [Wanted] using starts start wild }
      | none =>
        simpa [applyIDFilter, op, wild] using
          { Mild.empty e issue with ids := fun _ => by simpa using equal wild }
    · simpa [applyIDFilter, op] using Mild.empty e issue
  | spec =>
    rw [kind] at built
    by_cases op : c.op = .equals
    · obtain ⟨starts, equal⟩ := identity_holds built holds op
      have either : hasPrefix issue.specID ((wildcard? c.value).getD c.value) = true := by
        cases wild : wildcard? c.value with
        | some start => exact starts start wild
        | none =>
          rw [Option.getD_none, ← equal wild]
          exact hasPrefix_self _
      simpa [applySpecFilter,
        op] using { Mild.empty e issue with specIDPrefix := by simpa [Wanted] using either }
    · simpa [applySpecFilter, op] using Mild.empty e issue
  | parent | molType =>
    rw [kind] at built
    cases built
  | flag flag =>
    rw [kind] at built
    simp only [buildBoolPredicate] at built
    cases val : e.parseBool c.value with
    | none =>
      rw [val] at built
      cases built
    | some val' =>
      rw [val] at built
      rcases equality_holds built holds with ⟨op, test⟩ | ⟨op, test⟩
      · rw [decide_eq_true_eq] at test
        simpa [applyBoolFilter, op, val] using
          { Mild.empty e issue with
            flag := fun other => by
              by_cases same : other = flag
              · subst same
                simpa [Wanted] using test
              · simp [Wanted, Function.update_of_ne same] }
      · simpa [applyBoolFilter, op] using Mild.empty e issue
  | hasMetadataKey =>
    rw [kind] at built
    simp only [buildHasMetadataKeyPredicate] at built
    simp only [applyHasMetadataKeyFilter]
    split_ifs at built ⊢
    cases built
    exact { Mild.empty e issue with hasMetadataKey := by simpa [Wanted] using holds }
  | metadata key =>
    rw [kind] at built
    simp only [buildMetadataPredicate] at built
    simp only [applyMetadataFilter]
    split_ifs at built ⊢
    cases built
    exact { Mild.empty e issue with metadataFields := by simpa [Filter.setMetadata] using holds }
  | unknown => exact Mild.empty e issue

private theorem applyNot_mild {operand : Node} (built : e.buildPredicate operand = .ok p)
    (holds : p issue = false) :
    Mild e ((e.applyNot operand {}).toOption.getD {}) issue := by
  unfold applyNot
  cases operand with
  | comparison c =>
    dsimp only
    simp only [buildPredicate, buildComparisonPredicate] at built
    cases kind : c.kind with
    | status =>
      by_cases op : c.op = .equals
      · simp only [kind, buildStatusPredicate, op, equality] at built
        cases built
        simp only [texts, decide_eq_false_iff_not] at holds
        simpa [op] using { Mild.empty e issue with excludeStatus := by simpa using holds }
      · simpa [op] using Mild.empty e issue
    | type =>
      by_cases op : c.op = .equals
      · simp only [kind, buildTypePredicate, op, equality] at built
        cases built
        simp only [texts, decide_eq_false_iff_not] at holds
        simpa [op] using { Mild.empty e issue with excludeTypes := by simpa using holds }
      · simpa [op] using Mild.empty e issue
    | _ => exact Mild.empty e issue
  | and | or | not => exact Mild.empty e issue

/-- The mild clauses of a base filter hold of every row that passes the predicate. -/
theorem extractBaseFilters_mild (built : e.buildPredicate n = .ok p) (holds : p issue = true) :
    Mild e (e.extractBaseFilters n {}) issue := by
  induction n generalizing p with
  | comparison c => exact adds_mild built holds
  | and left right ihLeft ihRight =>
    simp only [buildPredicate] at built
    cases first : e.buildPredicate left with
    | error err => rw [first] at built; cases built
    | ok one =>
      cases second : e.buildPredicate right with
      | error err => rw [first, second] at built; cases built
      | ok two =>
        rw [first, second] at built
        cases built
        obtain ⟨leftHolds, rightHolds⟩ := Bool.and_eq_true_iff.mp holds
        rw [extractBaseFilters, extractBaseFilters_overlay]
        exact (ihLeft first leftHolds).overlay (ihRight second rightHolds)
  | or => exact Mild.empty e issue
  | not operand =>
    simp only [buildPredicate] at built
    cases inner : e.buildPredicate operand with
    | error err => rw [inner] at built; cases built
    | ok test =>
      rw [inner] at built
      cases built
      exact applyNot_mild inner (by simpa using holds)

theorem strict_extractBaseFilters : (e.extractBaseFilters n {}).strict = e.strict n := by
  induction n with
  | comparison c => exact strict_adds
  | and left right ihLeft ihRight =>
    rw [extractBaseFilters, extractBaseFilters_overlay, strict, ← ihLeft, ← ihRight]
    rfl
  | or => rfl
  | not operand =>
    unfold extractBaseFilters applyNot strict
    cases operand with
    | comparison c =>
      dsimp only
      cases c.kind with
      | status | type =>
        dsimp only
        split_ifs <;> rfl
      | _ => rfl
    | and | or | not => rfl

/-- A row that the clauses of a conjunction's base filter do not miss: the
assignee and the labels are written as in the query, no escaping spoils a
pattern, the times lie strictly within the bounds, which are cut to seconds, and
no metadata value is `null`. -/
structure Spared (e : Evaluator) (s : Strict) (issue : Issue) : Prop where
  assignee : Wanted s.assignee (issue.assignee = ·)
  labels : ∀ label ∈ s.labels, label ∈ issue.labels
  contains : ∀ field, Wanted (s.contains field) fun part => '\\' ∈ (e.lower part).toList →
    like (Filter.containing (e.lower part).toList) (e.lower (issue.text field)).toList = true
  idPrefix : Wanted s.idPrefix fun start => '\\' ∈ start.toList →
    like (Filter.starting start.toList) issue.id.toList = true
  specIDPrefix : Wanted s.specIDPrefix fun start => '\\' ∈ start.toList →
    like (Filter.starting start.toList) issue.specID.toList = true
  after : ∀ field, Wanted (s.after field) fun bound => ∃ t ∈ issue.time? field, seconds bound < t.instant
  before : ∀ field, Wanted (s.before field) fun bound => ∃ t ∈ issue.time? field, t.instant < seconds bound
  metadata : ∀ entry ∈ s.metadataFields, issue.metadata entry.1 ≠ some .null

private theorem like_containing {part text : String} (inside : e.contains text part = true)
    (escaped : '\\' ∈ (e.lower part).toList →
      like (Filter.containing (e.lower part).toList) (e.lower text).toList = true) :
    like (Filter.containing (e.lower part).toList) (e.lower text).toList = true := by
  by_cases plain : '\\' ∈ (e.lower part).toList
  · exact escaped plain
  · exact like.of_infix plain (of_decide_eq_true inside)

private theorem like_starting {start text : String} (starts : hasPrefix text start = true)
    (escaped : '\\' ∈ start.toList → like (Filter.starting start.toList) text.toList = true) :
    like (Filter.starting start.toList) text.toList = true := by
  by_cases plain : '\\' ∈ start.toList
  · exact escaped plain
  · exact like.of_prefix plain (of_decide_eq_true starts)

private theorem trimQuotes_literal (raw : JSONLiteral) : trimQuotes raw.text = raw.text := by
  obtain ⟨text, first, last⟩ := raw
  have head : text.toList.dropWhile (· = '"') = text.toList := by
    cases chars : text.toList with
    | nil => rfl
    | cons c rest =>
      rw [chars] at first
      simp_all
  have tail : text.toList.rdropWhile (· = '"') = text.toList := by
    rw [List.rdropWhile_eq_self_iff]
    intro some quote
    rw [List.getLast?_eq_some_getLast some] at last
    exact last (congrArg Option.some (of_decide_eq_true quote))
  rw [trimQuotes, head, tail, String.ofList_toList]

private theorem unquote_of_metadataEquals {value : JSONValue} {text : String}
    (same : metadataEquals value text = true) :
    value.unquote = text ↔ value ≠ .null := by
  cases value with
  | string s => simpa [JSONValue.unquote, metadataEquals] using same
  | null =>
    have empty : text = "" := by simpa [metadataEquals] using same
    simp [JSONValue.unquote, empty]
  | literal raw =>
    simp only [metadataEquals, trimQuotes_literal, decide_eq_true_eq] at same
    simp [JSONValue.unquote, same]

private theorem ne_empty_of_mem {c : Char} {text : String} (held : c ∈ text.toList) :
    text ≠ "" := by
  rintro rfl
  simp at held

/-- Of the clauses of a filter, the mild ones hold by themselves. -/
theorem Mild.selects_iff (mild : Mild e f issue) :
    f.Selects e.toLower issue ↔ Spared e f.strict issue := by
  constructor
  · intro selected
    exact {
      assignee := (selected .assignee).1
      labels := (selected .labels).1
      contains := fun field part held escaped =>
        (selected (.text field)).1 (e.lower part) (Option.mem_map_of_mem _ held) (ne_empty_of_mem escaped)
      idPrefix := fun start held escaped => (selected .identity).2.1 start held (ne_empty_of_mem escaped)
      specIDPrefix := fun start held escaped => selected .specID start held (ne_empty_of_mem escaped)
      after := fun field => (selected (.time field)).1
      before := fun field => (selected (.time field)).2
      metadata := fun entry held null => by
        obtain ⟨value, stored, same⟩ := (selected .metadata).2 entry held
        have equal := mild.metadataFields entry held
        obtain rfl : JSONValue.null = value := Option.some.inj (null.symm.trans stored)
        rw [null, Option.any_some] at equal
        exact (unquote_of_metadataEquals equal).mp same rfl }
  · intro spared c
    cases c with
    | text field =>
      refine ⟨fun part held filled => ?_, fun here => here ▸ mild.emptyDescription⟩
      obtain ⟨word, set, rfl⟩ := Option.map_eq_some_iff.mp held
      exact like_containing (mild.contains field word set) (spared.contains field word set)
    | status => exact ⟨mild.status, mild.excludeStatus⟩
    | issueType => exact ⟨mild.issueType, mild.excludeTypes⟩
    | assignee => exact ⟨spared.assignee, mild.noAssignee⟩
    | priority => exact ⟨mild.priority, mild.priorityMin, mild.priorityMax⟩
    | identity =>
      refine ⟨mild.ids, fun start held _ => ?_, ?_⟩
      · exact like_starting (mild.idPrefix start held) (spared.idPrefix start held)
      · simp [mild.parentID, Wanted]
    | specID =>
      exact fun start held _ => like_starting (mild.specIDPrefix start held)
        (spared.specIDPrefix start held)
    | molType => simp [Filter.Admits, mild.molType, Wanted]
    | labels => exact ⟨spared.labels, by simp [mild.labelsAny], mild.noLabels⟩
    | flag flag => exact mild.flag flag
    | time field => exact ⟨spared.after field, spared.before field⟩
    | metadata =>
      refine ⟨mild.hasMetadataKey, fun entry held => ?_⟩
      obtain ⟨value, stored, equal⟩ := (Option.any_eq_true _ _).mp (mild.metadataFields entry held)
      refine ⟨value, stored, (unquote_of_metadataEquals equal).mpr ?_⟩
      rintro rfl
      exact spared.metadata entry held stored

/-- A row that passes the predicate of a plan passes its base filter exactly if
the conjunction's comparisons spare it. -/
theorem base_selects_iff (e : Evaluator) (n : Node) (base : Filter) (pred : Issue → Bool)
    (planned : e.evaluate n = .ok ⟨base, some pred⟩) (issue : Issue) :
    (pred issue = true → base.Selects e.toLower issue) ↔
      (pred issue = true → Spared e (e.strict n) issue) := by
  obtain ⟨rfl, built⟩ := evaluate_predicate planned
  refine forall_congr' fun passes => ?_
  rw [(extractBaseFilters_mild built passes).selects_iff, strict_extractBaseFilters]

def orPriorities (first second : String) : Node :=
  .or (.comparison ⟨"priority", .equals, first, .number⟩) (.comparison ⟨"priority", .equals, second, .number⟩)

def assigneeIs (value : String) : Node := .comparison ⟨"assignee", .equals, value, .ident⟩

/-- The plan of `assignee=bob AND (priority=1 OR priority=2)`. -/
theorem evaluate_assigneeIs :
    ∃ pred, ascii.evaluate (.and (assigneeIs "bob") (orPriorities "1" "2")) =
      .ok ⟨{ assignee := some "bob" }, some pred⟩ ∧
    ∀ issue, pred issue = (ascii.equalFold issue.assignee "bob" &&
      (compareInts .equals issue.priority 1 || compareInts .equals issue.priority 2)) := by
  have assignee : Field.ofName "assignee" = .assignee := by decide +kernel
  have priority : Field.ofName "priority" = .priority := by decide +kernel
  have one : atoi "1" = some 1 := by decide +kernel
  have two : atoi "2" = some 2 := by decide +kernel
  have named : ascii.isNone "bob" = false := by decide +kernel
  refine ⟨fun issue => ascii.equalFold issue.assignee "bob" &&
    (compareInts .equals issue.priority 1 || compareInts .equals issue.priority 2), ?_, fun _ => rfl⟩
  simp [evaluate, canUseFilterOnly, collectOrLabels, assigneeIs, orPriorities, buildPredicate,
    buildComparisonPredicate, Comparison.kind, assignee, priority, one, two, named, buildAssigneePredicate,
    buildPriorityPredicate, equality, extractBaseFilters, applyComparison, applyAssigneeFilter]
  rfl

/-- An issue of the person that the query names is found. -/
theorem base_selects_iff_assignee :
    ∃ base pred, ascii.evaluate (.and (assigneeIs "bob") (orPriorities "1" "2")) = .ok ⟨base, some pred⟩ ∧
      pred (issueNamed "bd-1" "open" "bob") = true ∧
        base.Selects Char.toLower (issueNamed "bd-1" "open" "bob") := by
  obtain ⟨pred, planned, passes⟩ := evaluate_assigneeIs
  have found : pred (issueNamed "bd-1" "open" "bob") = true := by
    rw [passes]
    decide +kernel
  refine ⟨_, pred, planned, found, (base_selects_iff ascii _ _ _ planned _).mpr (fun _ => ?_) found⟩
  obtain ⟨base, -⟩ := evaluate_predicate planned
  rw [← strict_extractBaseFilters, ← base]
  constructor <;> simp [Filter.strict, Wanted, issueNamed]

/-- The predicate of `assignee=bob` does not mind the case of letters; the column does. -/
theorem base_hides_assignee :
    ∃ base pred, ascii.evaluate (.and (assigneeIs "bob") (orPriorities "1" "2")) = .ok ⟨base, some pred⟩ ∧
      pred (issueNamed "bd-1" "open" "Bob") = true ∧
        ¬ base.Selects Char.toLower (issueNamed "bd-1" "open" "Bob") := by
  obtain ⟨pred, planned, passes⟩ := evaluate_assigneeIs
  refine ⟨_, pred, planned, ?_, fun selected => ?_⟩
  · rw [passes]
    decide +kernel
  · have same := (selected .assignee).1 "bob" rfl
    simp [Issue.column, issueNamed] at same

end Evaluator
end Beads.Query
