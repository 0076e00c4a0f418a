import Mathlib.Data.List.DropRight
import Beads.Lib.Selection

/-! Query expressions and the planner that turns one into a filter for the
database, or into a filter and a predicate over the rows it returns
(`query/parser.go`, `query/evaluator.go`), with the clauses that the filter
stands for (`sqlbuild/filter.go`). Fields of `types.IssueFilter` that the planner
does not set are left out. -/
namespace Beads.Query
open Lib

/-! ## Expressions -/

/-- `ComparisonOp`. -/
inductive ComparisonOp where
  | equals
  | notEquals
  | less
  | lessEq
  | greater
  | greaterEq
  deriving DecidableEq

/-- `ComparisonOp.String`. -/
def ComparisonOp.text : ComparisonOp → String
  | .equals => "="
  | .notEquals => "!="
  | .less => "<"
  | .lessEq => "<="
  | .greater => ">"
  | .greaterEq => ">="

/-- The token types a value can have. -/
inductive ValueType where
  | ident
  | string
  | number
  | duration
  deriving DecidableEq

/-- `ComparisonNode`. -/
structure Comparison where
  field : String
  op : ComparisonOp
  value : String
  valueType : ValueType
  deriving DecidableEq

/-- `Node`. -/
inductive Node where
  | comparison (c : Comparison)
  | and (left right : Node)
  | or (left right : Node)
  | not (operand : Node)
  deriving DecidableEq

/-! ## Issues -/

inductive TextField where
  | title
  | description
  | notes
  deriving DecidableEq

inductive Flag where
  | pinned
  | ephemeral
  | template
  deriving DecidableEq

inductive TimeField where
  | created
  | updated
  | closed
  | started
  deriving DecidableEq

structure Date where
  year : Int
  month : Nat
  day : Nat
  deriving DecidableEq

/-- `time.Time`: an instant in nanoseconds, and its day where the clock stands. -/
structure Time where
  instant : Int
  date : Date
  deriving DecidableEq

/-- The time of `CreatedAt` and `UpdatedAt` is always there. -/
abbrev TimeField.Value : TimeField → Type
  | .created | .updated => Time
  | .closed | .started => Option Time

def TimeField.get? : (field : TimeField) → field.Value → Option Time
  | .created, time | .updated, time => some time
  | .closed, time | .started, time => time

/-- The text of a JSON number, truth value, array or object. -/
structure JSONLiteral where
  text : String
  bare : text.toList.head? ≠ some '"' ∧ text.toList.getLast? ≠ some '"'

/-- The value of a top-level metadata key, as the database renders it. -/
inductive JSONValue where
  | string (text : String)
  | null
  | literal (raw : JSONLiteral)

/-- The top-level keys of `Metadata`; none if it is empty or not an object. -/
abbrev Metadata := String → Option JSONValue

/-- What a query reads of `types.Issue`, labels and parent-child edges included.
A column that is `NULL` is read as the empty text and as false. -/
structure Issue where
  id : String
  parents : List String
  text : TextField → String
  status : String
  issueType : String
  priority : Int
  assignee : String
  owner : String
  specID : String
  molType : String
  labels : List String
  flag : Flag → Bool
  time : (field : TimeField) → field.Value
  metadata : Metadata

def Issue.time? (issue : Issue) (field : TimeField) : Option Time := field.get? (issue.time field)

/-- The columns that the clauses of a filter look at. Parent clauses look at the
id and the parents. -/
inductive Column where
  | text (field : TextField)
  | status
  | issueType
  | assignee
  | priority
  | identity
  | specID
  | molType
  | labels
  | flag (flag : Flag)
  | time (field : TimeField)
  | metadata
  deriving DecidableEq

abbrev Column.Value : Column → Type
  | .text _ | .status | .issueType | .assignee | .specID | .molType => String
  | .priority => Int
  | .identity => String × List String
  | .labels => List String
  | .flag _ => Bool
  | .time field => field.Value
  | .metadata => Metadata

def Issue.column (issue : Issue) : (c : Column) → c.Value
  | .text field => issue.text field
  | .status => issue.status
  | .issueType => issue.issueType
  | .assignee => issue.assignee
  | .priority => issue.priority
  | .identity => (issue.id, issue.parents)
  | .specID => issue.specID
  | .molType => issue.molType
  | .labels => issue.labels
  | .flag flag => issue.flag flag
  | .time field => issue.time field
  | .metadata => issue.metadata

/-! ## Filters -/

/-- `types.IssueFilter`. A text that no comparison has set is `none`; like the
empty text, it stands for no clause. Times are in nanoseconds. -/
structure Filter where
  /-- `TitleContains`, `DescriptionContains`, `NotesContains`. -/
  contains : TextField → Option String := fun _ => none
  status : Option String := none
  excludeStatus : List String := []
  issueType : Option String := none
  excludeTypes : List String := []
  assignee : Option String := none
  priority : Option Int := none
  priorityMin : Option Int := none
  priorityMax : Option Int := none
  ids : List String := []
  idPrefix : Option String := none
  specIDPrefix : Option String := none
  parentID : Option String := none
  molType : Option String := none
  labels : List String := []
  labelsAny : List String := []
  noLabels : Bool := false
  /-- `Pinned`, `Ephemeral`, `IsTemplate`. -/
  flag : Flag → Option Bool := fun _ => none
  emptyDescription : Bool := false
  noAssignee : Bool := false
  /-- `CreatedAfter`, `UpdatedAfter`, `ClosedAfter`, `StartedAfter`. -/
  after : TimeField → Option Int := fun _ => none
  /-- `CreatedBefore`, `UpdatedBefore`, `ClosedBefore`, `StartedBefore`. -/
  before : TimeField → Option Int := fun _ => none
  hasMetadataKey : Option String := none
  metadataFields : List (String × String) := []

/-- `time.RFC3339` drops the fraction of a second. -/
def seconds (instant : Int) : Int := instant / 1000000000 * 1000000000

/-- `strings.ToLower` with the case table of `unicode.ToLower`. -/
def mapText (table : Char → Char) (text : String) : String := String.ofList (text.toList.map table)

/-- `JSON_UNQUOTE` of a value. -/
def JSONValue.unquote : JSONValue → String
  | .string text => text
  | .null => "null"
  | .literal raw => raw.text

/-- A value with the clauses that are stored for it. -/
def Wanted {α : Type} (value : Option α) (P : α → Prop) : Prop := ∀ v ∈ value, P v

namespace Filter
variable (toLower : Char → Char) (filter : Filter)

/-- A `LIKE` clause, which is left out for the empty text. -/
def Like (pattern : List Char → List Char) (wanted : Option String) (text : String) : Prop :=
  Wanted wanted fun part => part ≠ "" → like (pattern part.toList) text.toList = true

/-- `%part%`, and `part%`. -/
def containing (part : List Char) : List Char := '%' :: part ++ ['%']

def starting (part : List Char) : List Char := part ++ ['%']

/-- The clause of `ParentID`. -/
def HasParent (parent : String) (identity : String × List String) : Prop :=
  parent ∈ identity.2 ∨
    (like (parent.toList ++ ['.', '%']) identity.1.toList = true ∧ identity.2 = [])

/-- `BuildIssueFilterClauses`: the clauses that look at a column. -/
def Admits : (c : Column) → c.Value → Prop
  | .text field, text =>
    Like containing ((filter.contains field).map (mapText toLower)) (mapText toLower text) ∧
      (field = .description → filter.emptyDescription = true → text = "")
  | .status, status =>
    Wanted filter.status (status = ·) ∧ status ∉ filter.excludeStatus
  | .issueType, issueType =>
    Wanted filter.issueType (issueType = ·) ∧ issueType ∉ filter.excludeTypes
  | .assignee, assignee =>
    Wanted filter.assignee (assignee = ·) ∧ (filter.noAssignee = true → assignee = "")
  | .priority, priority =>
    Wanted filter.priority (priority = ·) ∧ Wanted filter.priorityMin (· ≤ priority) ∧
      Wanted filter.priorityMax (priority ≤ ·)
  | .identity, identity =>
    (filter.ids ≠ [] → identity.1 ∈ filter.ids) ∧ Like starting filter.idPrefix identity.1 ∧
      Wanted filter.parentID (HasParent · identity)
  | .specID, specID => Like starting filter.specIDPrefix specID
  | .molType, molType => Wanted filter.molType (molType = ·)
  | .labels, labels =>
    (∀ label ∈ filter.labels, label ∈ labels) ∧
      (filter.labelsAny ≠ [] → ∃ label ∈ filter.labelsAny, label ∈ labels) ∧
      (filter.noLabels = true → labels = [])
  | .flag flag, set => Wanted (filter.flag flag) (set = ·)
  | .time field, time =>
    Wanted (filter.after field) (fun bound => ∃ t ∈ field.get? time, seconds bound < t.instant) ∧
      Wanted (filter.before field) fun bound => ∃ t ∈ field.get? time, t.instant < seconds bound
  | .metadata, metadata =>
    Wanted filter.hasMetadataKey (fun key => (metadata key).isSome = true) ∧
      ∀ entry ∈ filter.metadataFields, ∃ value ∈ metadata entry.1, value.unquote = entry.2

/-- The rows that a query with the clauses of the filter returns. -/
def Selects (issue : Issue) : Prop := ∀ c, filter.Admits toLower c (issue.column c)

/-- `MetadataFields[key] = value`. -/
def setMetadata (fields : List (String × String)) (key value : String) : List (String × String) :=
  fields.filter (·.1 ≠ key) ++ [(key, value)]

end Filter

/-! ## Comparisons in a filter -/

/-- The fields that the planner tells apart. -/
inductive Field where
  | status
  | priority
  | type
  | assignee
  | owner
  | label
  | text (field : TextField)
  | time (field : TimeField)
  | id
  | spec
  | parent
  | flag (flag : Flag)
  | molType
  | hasMetadataKey
  | metadata (key : String)
  | unknown
  deriving DecidableEq

/-- The cases of `applyComparison` and `buildComparisonPredicate`. -/
def Field.ofName (name : String) : Field :=
  if name = "status" then .status
  else if name = "priority" then .priority
  else if name = "type" then .type
  else if name = "assignee" then .assignee
  else if name = "owner" then .owner
  else if name = "label" ∨ name = "labels" then .label
  else if name = "title" then .text .title
  else if name = "description" ∨ name = "desc" then .text .description
  else if name = "notes" then .text .notes
  else if name = "created" ∨ name = "created_at" then .time .created
  else if name = "updated" ∨ name = "updated_at" then .time .updated
  else if name = "closed" ∨ name = "closed_at" then .time .closed
  else if name = "started" ∨ name = "started_at" then .time .started
  else if name = "id" then .id
  else if name = "spec" ∨ name = "spec_id" then .spec
  else if name = "parent" then .parent
  else if name = "pinned" then .flag .pinned
  else if name = "ephemeral" then .flag .ephemeral
  else if name = "template" then .flag .template
  else if name = "mol_type" then .molType
  else if name = "has_metadata_key" then .hasMetadataKey
  else if "metadata.".toList <+: name.toList then .metadata (String.ofList (name.toList.drop 9))
  else .unknown

def Comparison.kind (c : Comparison) : Field := Field.ofName c.field

/-- A time that a comparison names, with the start of its day and its last
nanosecond as `time.Date` gives them. -/
structure QueryTime where
  target : Time
  dayStart : Int
  endOfDay : Int
  deriving DecidableEq

def QueryTime.dayEnd (time : QueryTime) : Int := time.dayStart + 24 * 60 * 60 * 1000000000

/-- `Evaluator`, with the case table, the folding of `strings.EqualFold` and the
reading of times as parameters. -/
structure Evaluator where
  toLower : Char → Char
  sameFold : Char → Char → Bool
  parseTimeValue : String → ValueType → Except String QueryTime

/-- `strconv.Atoi`. -/
def atoi (text : String) : Option Int :=
  let (negative, digits) := match text.toList with
    | '-' :: digits => (true, digits)
    | '+' :: digits => (false, digits)
    | digits => (false, digits)
  if digits ≠ [] ∧ digits.all Char.isDigit = true then
    let amount : Int := digits.foldl (fun n d => n * 10 + (d.toNat - '0'.toNat : Nat)) 0
    let number := if negative then -amount else amount
    if -9223372036854775808 ≤ number ∧ number ≤ 9223372036854775807 then some number else none
  else none

theorem foldl_digits (digits : List Char) (start : Nat) :
    digits.foldl (fun (n : Int) d => n * 10 + (d.toNat - '0'.toNat : Nat)) start =
      (digits.foldl (fun n d => n * 10 + (d.toNat - '0'.toNat)) start : Nat) := by
  induction digits generalizing start with
  | nil => rfl
  | cons d digits ih =>
    rw [List.foldl_cons, List.foldl_cons, ← ih]
    congr 1

/-- Digits without a sign are read if their number fits. -/
theorem atoi_digits {digits : List Char} (some' : digits ≠ [])
    (all : ∀ d ∈ digits, d.isDigit = true) {n : Nat}
    (value : digits.foldl (fun (n : Int) d => n * 10 + (d.toNat - '0'.toNat : Nat)) 0 = n) :
    atoi (String.ofList digits) = if n ≤ 9223372036854775807 then some (n : Int) else none := by
  have unsigned (d : Char) (held : d ∈ digits) : d ≠ '-' ∧ d ≠ '+' := by
    have digit := all d held
    constructor
    · rintro rfl
      cases digit
    · rintro rfl
      cases digit
  unfold atoi
  rw [String.toList_ofList]
  split
  next negative digits' parts =>
  split at parts
  · exact absurd rfl (unsigned '-' List.mem_cons_self).1
  · exact absurd rfl (unsigned '+' List.mem_cons_self).2
  · cases parts
    rw [if_pos ⟨some', List.all_eq_true.mpr all⟩]
    simp only [Bool.false_eq_true, if_false, value]
    by_cases fits : n ≤ 9223372036854775807
    · rw [if_pos fits, if_pos ⟨by omega, by omega⟩]
    · rw [if_neg fits, if_neg (by omega)]

/-- `AllStatuses`. -/
def allStatuses : List String :=
  ["open", "in_progress", "blocked", "deferred", "closed", "pinned", "hooked"]

/-- `MolType.IsValid`. -/
def validMolTypes : List String := ["", "swarm", "patrol", "work"]

/-- `validMetadataKeyRe`. -/
def validMetadataKey (key : String) : Bool :=
  match key.toList with
  | [] => false
  | c :: rest =>
    (c.isAlpha || c = '_') && rest.all fun c => c.isAlphanum || c = '_' || c = '.' || c = '/'

/-- The error of `ValidateMetadataKey`. -/
def invalidMetadataKey (key : String) : String :=
  "invalid metadata key \"" ++ key ++ "\": must match ^[a-zA-Z_][a-zA-Z0-9_./]*$"

def Flag.name : Flag → String
  | .pinned => "pinned"
  | .ephemeral => "ephemeral"
  | .template => "template"

def TimeField.name : TimeField → String
  | .created => "created"
  | .updated => "updated"
  | .closed => "closed"
  | .started => "started"

namespace Evaluator
variable (e : Evaluator)

def lower (text : String) : String := mapText e.toLower text

/-- The values that stand for no value. -/
def isNone (value : String) : Bool := value = "" ∨ e.lower value = "none" ∨ e.lower value = "null"

/-- The truth values of `applyBoolFilter` and `buildBoolPredicate`. -/
def parseBool (value : String) : Option Bool :=
  let val := e.lower value
  if val = "true" ∨ val = "yes" ∨ val = "1" then some true
  else if val = "false" ∨ val = "no" ∨ val = "0" then some false
  else none

/-- `strings.EqualFold`. -/
def equalFold (a b : String) : Bool :=
  a.toList.length = b.toList.length ∧ (a.toList.zip b.toList).all (fun p => e.sameFold p.1 p.2) = true

variable (c : Comparison) (filter : Filter)

def applyStatusFilter : Except String Filter :=
  let status := e.lower c.value
  if c.op ≠ .equals ∧ c.op ≠ .notEquals then throw "status only supports = and != operators"
  else if status ∉ allStatuses then throw ("invalid status: " ++ c.value)
  else if c.op = .equals then pure { filter with status := some status }
  else pure { filter with excludeStatus := filter.excludeStatus ++ [status] }

def applyPriorityFilter : Except String Filter :=
  match atoi c.value with
  | none => throw ("invalid priority value: " ++ c.value)
  | some priority =>
    if priority < 0 ∨ 4 < priority then throw "priority must be between 0 and 4"
    else match c.op with
    | .equals => pure { filter with priority := some priority }
    | .notEquals => throw "priority != requires predicate filtering"
    | .less =>
      if priority - 1 < 0 then throw ("priority < " ++ toString priority ++ " matches nothing")
      else pure { filter with priorityMax := some (priority - 1) }
    | .lessEq => pure { filter with priorityMax := some priority }
    | .greater =>
      if 4 < priority + 1 then throw ("priority > " ++ toString priority ++ " matches nothing")
      else pure { filter with priorityMin := some (priority + 1) }
    | .greaterEq => pure { filter with priorityMin := some priority }

def applyTypeFilter : Except String Filter :=
  let issueType := e.lower c.value
  if c.op ≠ .equals ∧ c.op ≠ .notEquals then throw "type only supports = and != operators"
  else if c.op = .equals then pure { filter with issueType := some issueType }
  else pure { filter with excludeTypes := filter.excludeTypes ++ [issueType] }

def applyAssigneeFilter : Except String Filter :=
  if c.op ≠ .equals then throw "assignee only supports = operator"
  else if e.isNone c.value then pure { filter with noAssignee := true }
  else pure { filter with assignee := some c.value }

def applyOwnerFilter : Except String Filter := throw "owner filtering requires predicate mode"

def applyLabelFilter : Except String Filter :=
  if c.op ≠ .equals then throw "label only supports = operator"
  else if e.isNone c.value then pure { filter with noLabels := true }
  else pure { filter with labels := filter.labels ++ [c.value] }

/-- The text that a comparison with a text field sets. -/
def setContains (field : TextField) : Filter :=
  { filter with contains := Function.update filter.contains field (some c.value) }

def applyTitleFilter : Except String Filter :=
  if c.op ≠ .equals then throw "title only supports = operator (use title contains pattern)"
  else pure (setContains c filter .title)

def applyDescriptionFilter : Except String Filter :=
  if c.op ≠ .equals then throw "description only supports = operator (use desc contains pattern)"
  else if e.isNone c.value then pure { filter with emptyDescription := true }
  else pure (setContains c filter .description)

def applyNotesFilter : Except String Filter :=
  if c.op ≠ .equals then throw "notes only supports = operator"
  else pure (setContains c filter .notes)

/-- The bounds that a comparison with a time field sets. Only `created` and
`updated` can be compared with a day. -/
def applyTimeFilter (field : TimeField) : Except String Filter :=
  let unsupported := field.name ++ " does not support " ++ c.op.text ++ " operator"
  let after bound := Function.update filter.after field (some bound)
  let before bound := Function.update filter.before field (some bound)
  match e.parseTimeValue c.value c.valueType with
  | .error err => throw ("invalid " ++ field.name ++ " time: " ++ err)
  | .ok t =>
    match c.op with
    | .equals =>
      if field = .closed ∨ field = .started then throw unsupported
      else pure { filter with after := after t.dayStart, before := before t.dayEnd }
    | .greater | .greaterEq => pure { filter with after := after t.target.instant }
    | .less => pure { filter with before := before t.target.instant }
    | .lessEq => pure { filter with before := before t.endOfDay }
    | .notEquals => throw unsupported

def applyCreatedFilter : Except String Filter := e.applyTimeFilter c filter .created

def applyUpdatedFilter : Except String Filter := e.applyTimeFilter c filter .updated

def applyClosedFilter : Except String Filter := e.applyTimeFilter c filter .closed

def applyStartedFilter : Except String Filter := e.applyTimeFilter c filter .started

/-- The value before a final `*`. -/
def wildcard? (value : String) : Option String :=
  if value.toList.getLast? = some '*' then some (String.ofList value.toList.dropLast) else none

def applyIDFilter : Except String Filter :=
  if c.op ≠ .equals then throw "id only supports = operator"
  else match wildcard? c.value with
  | some start => pure { filter with idPrefix := some start }
  | none => pure { filter with ids := filter.ids ++ [c.value] }

def applySpecFilter : Except String Filter :=
  if c.op ≠ .equals then throw "spec only supports = operator"
  else pure { filter with specIDPrefix := some ((wildcard? c.value).getD c.value) }

def applyParentFilter : Except String Filter :=
  if c.op ≠ .equals then throw "parent only supports = operator"
  else pure { filter with parentID := some c.value }

def applyBoolFilter (flag : Flag) : Except String Filter :=
  if c.op ≠ .equals then throw (flag.name ++ " only supports = operator")
  else match e.parseBool c.value with
  | some val => pure { filter with flag := Function.update filter.flag flag (some val) }
  | none => throw ("invalid boolean value for " ++ flag.name ++ ": " ++ c.value)

def applyMolTypeFilter : Except String Filter :=
  let mt := e.lower c.value
  if c.op ≠ .equals then throw "mol_type only supports = operator"
  else if mt ∉ validMolTypes then throw ("invalid mol_type: " ++ c.value)
  else pure { filter with molType := some mt }

def applyMetadataFilter (key : String) : Except String Filter :=
  if c.op ≠ .equals then throw "metadata fields only support = operator"
  else if validMetadataKey key then
    pure { filter with metadataFields := Filter.setMetadata filter.metadataFields key c.value }
  else throw (invalidMetadataKey key)

def applyHasMetadataKeyFilter : Except String Filter :=
  if c.op ≠ .equals then throw "has_metadata_key only supports = operator"
  else if validMetadataKey c.value then pure { filter with hasMetadataKey := some c.value }
  else throw (invalidMetadataKey c.value)

/-- `applyComparison`. -/
def applyComparison : Except String Filter :=
  match c.kind with
  | .status => e.applyStatusFilter c filter
  | .priority => applyPriorityFilter c filter
  | .type => e.applyTypeFilter c filter
  | .assignee => e.applyAssigneeFilter c filter
  | .owner => applyOwnerFilter
  | .label => e.applyLabelFilter c filter
  | .text .title => applyTitleFilter c filter
  | .text .description => e.applyDescriptionFilter c filter
  | .text .notes => applyNotesFilter c filter
  | .time .created => e.applyCreatedFilter c filter
  | .time .updated => e.applyUpdatedFilter c filter
  | .time .closed => e.applyClosedFilter c filter
  | .time .started => e.applyStartedFilter c filter
  | .id => applyIDFilter c filter
  | .spec => applySpecFilter c filter
  | .parent => applyParentFilter c filter
  | .flag flag => e.applyBoolFilter c filter flag
  | .molType => e.applyMolTypeFilter c filter
  | .hasMetadataKey => applyHasMetadataKeyFilter c filter
  | .metadata key => applyMetadataFilter c filter key
  | .unknown => throw ("unknown field: " ++ c.field)

/-- `applyNot`. -/
def applyNot (operand : Node) (filter : Filter) : Except String Filter :=
  match operand with
  | .comparison c =>
    match c.kind with
    | .status =>
      if c.op ≠ .equals then throw "NOT status only supports = operator"
      else pure { filter with excludeStatus := filter.excludeStatus ++ [e.lower c.value] }
    | .type =>
      if c.op ≠ .equals then throw "NOT type only supports = operator"
      else pure { filter with excludeTypes := filter.excludeTypes ++ [e.lower c.value] }
    | _ => throw ("NOT not supported for field " ++ c.field ++ " in filter mode")
  | _ => throw "NOT only supports simple comparisons in filter mode"

/-! ## Filters of expressions -/

/-- `collectOrLabels`; `none` is the list that is not there. -/
def collectOrLabels : Node → Option (List String)
  | .comparison c => if c.kind = .label ∧ c.op = .equals then some [c.value] else none
  | .or left right =>
    match collectOrLabels left, collectOrLabels right with
    | some left, some right => some (left ++ right)
    | _, _ => none
  | _ => none

/-- `canUseFilterOnly`. -/
def canUseFilterOnly : Node → Bool
  | .comparison _ => true
  | .and left right => canUseFilterOnly left && canUseFilterOnly right
  | .not (.comparison c) => (c.kind = .status ∨ c.kind = .type) ∧ c.op = .equals
  | .not _ => false
  | .or left right => (collectOrLabels (.or left right)).isSome

/-- `buildFilter`. -/
def buildFilter : Node → Filter → Except String Filter
  | .comparison c, filter => e.applyComparison c filter
  | .and left right, filter => do
    let filter ← buildFilter left filter
    buildFilter right filter
  | .not operand, filter => e.applyNot operand filter
  | .or left right, filter =>
    match collectOrLabels (.or left right) with
    | some labels => pure { filter with labelsAny := filter.labelsAny ++ labels }
    | none => throw "OR not supported for this field combination"

/-- `extractBaseFilters`: what cannot be applied is skipped. -/
def extractBaseFilters : Node → Filter → Filter
  | .comparison c, filter => (e.applyComparison c filter).toOption.getD filter
  | .and left right, filter => extractBaseFilters right (extractBaseFilters left filter)
  | .not operand, filter => (e.applyNot operand filter).toOption.getD filter
  | .or _ _, filter => filter

/-! ## Predicates -/

/-- A test with its negation; no other operator is supported. -/
def equality (name : String) (op : ComparisonOp) (test : Issue → Bool) :
    Except String (Issue → Bool) :=
  match op with
  | .equals => pure test
  | .notEquals => pure fun issue => !test issue
  | _ => throw (name ++ " does not support " ++ op.text ++ " operator")

/-- A test of equality with a text. -/
def texts (a b : String) : Bool := a = b

/-- `strings.Contains` of texts in lower case. -/
def contains (text part : String) : Bool := (e.lower part).toList <:+: (e.lower text).toList

def buildStatusPredicate : Except String (Issue → Bool) :=
  equality "status" c.op fun issue => texts issue.status (e.lower c.value)

/-- A comparison of integers. -/
def compareInts (op : ComparisonOp) (actual target : Int) : Bool :=
  match op with
  | .equals => actual = target
  | .notEquals => actual ≠ target
  | .less => actual < target
  | .lessEq => actual ≤ target
  | .greater => target < actual
  | .greaterEq => target ≤ actual

def buildPriorityPredicate : Except String (Issue → Bool) :=
  match atoi c.value with
  | none => throw ("invalid priority: " ++ c.value)
  | some priority => pure fun issue => compareInts c.op issue.priority priority

def buildTypePredicate : Except String (Issue → Bool) :=
  equality "type" c.op fun issue => texts issue.issueType (e.lower c.value)

def buildAssigneePredicate : Except String (Issue → Bool) :=
  equality "assignee" c.op fun issue =>
    if e.isNone c.value then texts issue.assignee "" else e.equalFold issue.assignee c.value

def buildOwnerPredicate : Except String (Issue → Bool) :=
  equality "owner" c.op fun issue => e.equalFold issue.owner c.value

def buildLabelPredicate : Except String (Issue → Bool) :=
  equality "label" c.op fun issue =>
    if e.isNone c.value then issue.labels.isEmpty else issue.labels.any (e.equalFold · c.value)

def buildTitlePredicate : Except String (Issue → Bool) :=
  equality "title" c.op fun issue => e.contains (issue.text .title) c.value

def buildDescriptionPredicate : Except String (Issue → Bool) :=
  equality "description" c.op fun issue =>
    if e.isNone c.value then texts (issue.text .description) "" else e.contains (issue.text .description) c.value

def buildNotesPredicate : Except String (Issue → Bool) :=
  equality "notes" c.op fun issue => e.contains (issue.text .notes) c.value

/-- `compareTime`. -/
def compareTime (op : ComparisonOp) (actual target : Time) : Bool :=
  match op with
  | .equals => actual.date = target.date
  | .notEquals => actual.date ≠ target.date
  | op => compareInts op actual.instant target.instant

/-- The predicate of a time field; a row without the time does not pass. -/
def buildTimePredicate (field : TimeField) : Except String (Issue → Bool) :=
  match e.parseTimeValue c.value c.valueType with
  | .error err => throw ("invalid " ++ field.name ++ " time: " ++ err)
  | .ok t => pure fun issue => (issue.time? field).any (compareTime c.op · t.target)

def buildCreatedPredicate : Except String (Issue → Bool) := e.buildTimePredicate c .created

def buildUpdatedPredicate : Except String (Issue → Bool) := e.buildTimePredicate c .updated

def buildClosedPredicate : Except String (Issue → Bool) := e.buildTimePredicate c .closed

def buildStartedPredicate : Except String (Issue → Bool) := e.buildTimePredicate c .started

/-- `strings.HasPrefix`. -/
def hasPrefix (text start : String) : Bool := start.toList <+: text.toList

/-- The predicate of an id, with or without a wildcard. -/
def buildIdentityPredicate (name : String) (column : Issue → String) :
    Except String (Issue → Bool) :=
  match wildcard? c.value with
  | some start =>
    match c.op with
    | .equals => pure fun issue => hasPrefix (column issue) start
    | .notEquals => pure fun issue => !hasPrefix (column issue) start
    | _ => throw (name ++ " with wildcard only supports = and != operators")
  | none => equality name c.op fun issue => texts (column issue) c.value

def buildIDPredicate : Except String (Issue → Bool) := buildIdentityPredicate c "id" Issue.id

def buildSpecPredicate : Except String (Issue → Bool) :=
  buildIdentityPredicate c "spec" Issue.specID

def buildBoolPredicate (getter : Issue → Bool) : Except String (Issue → Bool) :=
  match e.parseBool c.value with
  | none => throw ("invalid boolean value: " ++ c.value)
  | some val => equality "boolean field" c.op fun issue => getter issue = val

/-- `strings.Trim(raw, "\"")`. -/
def trimQuotes (raw : String) : String :=
  String.ofList ((raw.toList.dropWhile (· = '"')).rdropWhile (· = '"'))

/-- The comparison of `buildMetadataPredicate`. `null` is read into an empty text. -/
def metadataEquals (value : JSONValue) (text : String) : Bool :=
  match value with
  | .string s => s = text
  | .null => text = ""
  | .literal raw => trimQuotes raw.text = text

def buildMetadataPredicate (key : String) : Except String (Issue → Bool) :=
  if c.op ≠ .equals then throw "metadata fields only support = operator"
  else if validMetadataKey key then pure fun issue => (issue.metadata key).any (metadataEquals · c.value)
  else throw (invalidMetadataKey key)

def buildHasMetadataKeyPredicate : Except String (Issue → Bool) :=
  if c.op ≠ .equals then throw "has_metadata_key only supports = operator"
  else if validMetadataKey c.value then pure fun issue => (issue.metadata c.value).isSome
  else throw (invalidMetadataKey c.value)

/-- `buildComparisonPredicate`. There is no predicate for `parent` and `mol_type`. -/
def buildComparisonPredicate : Except String (Issue → Bool) :=
  match c.kind with
  | .status => e.buildStatusPredicate c
  | .priority => buildPriorityPredicate c
  | .type => e.buildTypePredicate c
  | .assignee => e.buildAssigneePredicate c
  | .owner => e.buildOwnerPredicate c
  | .label => e.buildLabelPredicate c
  | .text .title => e.buildTitlePredicate c
  | .text .description => e.buildDescriptionPredicate c
  | .text .notes => e.buildNotesPredicate c
  | .time .created => e.buildCreatedPredicate c
  | .time .updated => e.buildUpdatedPredicate c
  | .time .closed => e.buildClosedPredicate c
  | .time .started => e.buildStartedPredicate c
  | .id => buildIDPredicate c
  | .spec => buildSpecPredicate c
  | .flag flag => e.buildBoolPredicate c fun issue => issue.flag flag
  | .hasMetadataKey => buildHasMetadataKeyPredicate c
  | .metadata key => buildMetadataPredicate c key
  | .parent | .molType | .unknown => throw ("unknown field: " ++ c.field)

/-- `buildPredicate`. -/
def buildPredicate : Node → Except String (Issue → Bool)
  | .comparison c => e.buildComparisonPredicate c
  | .and left right => do
    let left ← buildPredicate left
    let right ← buildPredicate right
    return fun issue => left issue && right issue
  | .or left right => do
    let left ← buildPredicate left
    let right ← buildPredicate right
    return fun issue => left issue || right issue
  | .not operand => do
    let operand ← buildPredicate operand
    return fun issue => !operand issue

/-! ## Plans -/

/-- `QueryResult`. -/
structure Plan where
  filter : Filter
  predicate : Option (Issue → Bool)

/-- `Evaluate`. -/
def evaluate (node : Node) : Except String Plan :=
  if canUseFilterOnly node then do
    let filter ← e.buildFilter node {}
    return ⟨filter, none⟩
  else do
    let pred ← e.buildPredicate node
    return ⟨e.extractBaseFilters node {}, some pred⟩

end Evaluator
end Beads.Query
