import Mathlib.Data.String.Basic
import Beads.Loops
import Beads.Query
import Beads.Tracker

/-! Conditions of gates and loops (`internal/formula/condition.go`): the regular expressions that
read them, as scanners, and their evaluation against the states of steps. -/
namespace Beads.Formula

/-! ## Conditions -/

/-- `Operator`. -/
inductive Operator where
  | equal
  | notEqual
  | greater
  | greaterEqual
  | less
  | lessEqual
  | other (text : String)
  deriving DecidableEq

def Operator.ofText (text : String) : Operator :=
  match text with
  | "==" => .equal
  | "!=" => .notEqual
  | ">" => .greater
  | ">=" => .greaterEqual
  | "<" => .less
  | "<=" => .lessEqual
  | text => .other text

def Operator.text : Operator → String
  | .equal => "=="
  | .notEqual => "!="
  | .greater => ">"
  | .greaterEqual => ">="
  | .less => "<"
  | .lessEqual => "<="
  | .other text => text

/-- `ConditionType`. -/
inductive ConditionType where
  | field
  | aggregate
  | external
  deriving DecidableEq

/-- What `AggregateFunc` may be. -/
inductive AggregateFunc where
  | all
  | any
  | count
  deriving DecidableEq

/-- What `AggregateOver` may be. -/
inductive AggregateOver where
  | children
  | descendants
  | steps
  deriving DecidableEq

def AggregateOver.text : AggregateOver → String
  | .children => "children"
  | .descendants => "descendants"
  | .steps => "steps"

/-- What `ExternalType` may be. -/
inductive ExternalType where
  | fileExists
  | env
  deriving DecidableEq

/-- `Condition`. The conditions of all types share one record. -/
structure Condition where
  raw : String
  type : ConditionType
  stepRef : String := ""
  field : String := ""
  operator : Operator := .other ""
  value : String := ""
  aggregateFunc : Option AggregateFunc := none
  aggregateOver : Option AggregateOver := none
  externalType : Option ExternalType := none
  externalArg : String := ""
  deriving DecidableEq

/-! ## Parsing -/

/-- The space characters of a regular expression. -/
def isRegexSpace (c : Char) : Bool := c ∈ [' ', '\t', '\n', '\x0c', '\r']

def isOperatorChar (c : Char) : Bool := c ∈ ['=', '!', '<', '>']

/-- What follows a literal. -/
def skip (literal : String) (chars : List Char) : Option (List Char) :=
  if literal.toList.isPrefixOf chars then some (chars.drop literal.length) else none

/-- What follows the first of these literals that is there. -/
def skipOne {α : Type} (literals : List (String × α)) (chars : List Char) :
    Option (α × List Char) :=
  literals.findSome? fun (literal, meaning) => (skip literal chars).map (meaning, ·)

/-- A word, and what follows it. -/
def word (chars : List Char) : Option (List Char × List Char) :=
  let found := chars.takeWhile isWordChar
  if found = [] then none else some (found, chars.dropWhile isWordChar)

/-- What stands before and after the last such character. -/
def splitLast (c : Char) (chars : List Char) : Option (List Char × List Char) :=
  match chars.reverse.dropWhile (· ≠ c) with
  | _ :: front => some (front.reverse, (chars.reverse.takeWhile (· ≠ c)).reverse)
  | [] => none

/-- The end of a comparison, an operator and a value. Nothing ends in spaces here, so that only the
operator can give back a character for the value. -/
def comparison (chars : List Char) : Option (List Char × List Char) :=
  let rest := chars.dropWhile isRegexSpace
  let operator := rest.takeWhile isOperatorChar
  let value := (rest.dropWhile isOperatorChar).dropWhile isRegexSpace
  if operator = [] ∨ '\n' ∈ value then none
  else if value ≠ [] then some (operator, value)
  else
    match operator.reverse with
    | last :: front => if front = [] then none else some (front.reverse, [last])
    | [] => none

def isQuote (c : Char) : Bool := c = '\'' || c = '"'

/-- `fileExistsPattern`. -/
def fileExistsPattern (chars : List Char) : Option (List Char) :=
  match skip "file.exists(" chars with
  | some (opening :: rest) =>
    match rest.reverse with
    | ')' :: closing :: arg =>
      if isQuote opening ∧ isQuote closing ∧ arg ≠ [] ∧ '\n' ∉ arg then some arg.reverse else none
    | _ => none
  | _ => none

/-- `envPattern`: the variable, the operator and the value. -/
def envPattern (chars : List Char) : Option (List Char × List Char × List Char) := do
  let rest ← skip "env." chars
  let (name, rest) ← word rest
  let (operator, value) ← comparison rest
  return (name, operator, value)

/-- The groups of `aggregatePattern`. -/
structure AggregateMatch where
  among : AggregateOver
  step : List Char
  func : AggregateFunc
  inner : List Char
  tail : List Char

/-- `aggregatePattern`. The inner condition goes up to the last parenthesis. -/
def aggregatePattern (chars : List Char) : Option AggregateMatch := do
  let (among, rest) ←
    skipOne [("children(", .children), ("descendants(", .descendants), ("steps(", .steps)] chars
  let (step, rest) ← word rest
  let rest ← skip ")." rest
  let (func, rest) ← skipOne [("all(", .all), ("any(", .any), ("count(", .count)] rest
  if '\n' ∈ rest then none
  else
    let (inner, tail) ← splitLast ')' rest
    if inner = [] then none else some { among, step, func, inner, tail }

/-- `countComparePattern`: the operator and the digits at the end. -/
def countComparePattern (chars : List Char) : Option (List Char × List Char) :=
  let digits := chars.reverse.takeWhile Char.isDigit
  let front := (chars.reverse.dropWhile Char.isDigit).dropWhile isRegexSpace
  let operator := front.takeWhile isOperatorChar
  if digits = [] ∨ operator = [] then none else some (operator.reverse, digits.reverse)

/-- `stepsStatPattern`: the status, the operator and the digits. -/
def stepsStatPattern (chars : List Char) : Option (List Char × List Char × List Char) := do
  let rest ← skip "steps." chars
  let (name, rest) ← word rest
  let rest := rest.dropWhile isRegexSpace
  let operator := rest.takeWhile isOperatorChar
  let digits := (rest.dropWhile isOperatorChar).dropWhile isRegexSpace
  if operator = [] ∨ digits = [] ∨ digits.any (fun c => !c.isDigit) then none else some (name, operator, digits)

/-- `fieldPattern`: the path, the operator and the value. -/
def fieldPattern (chars : List Char) : Option (List Char × List Char × List Char) :=
  let path := chars.takeWhile fun c => isWordChar c || c = '.'
  if (path.splitOn '.').any List.isEmpty then none
  else (comparison (chars.drop path.length)).map (path, ·)

/-- `unquote`. -/
def unquote (s : String) : String :=
  let s := trimSpace s
  match s.toList with
  | opening :: rest =>
    match rest.reverse with
    | closing :: inside =>
      if isQuote opening ∧ closing = opening then String.ofList inside.reverse else s
    | [] => s
  | [] => s

/-- The step and the field that a path names. -/
def fieldRef (path : List Char) : String × String :=
  match path.splitOn '.' with
  | first :: _ :: _ =>
    let rest := String.ofList (path.drop (first.length + 1))
    if String.ofList first = "step" then ("step", rest)
    else if String.ofList first = "output" then ("step", String.ofList path)
    else (String.ofList first, rest)
  | _ => ("step", String.ofList path)

/-- The rest of `ParseCondition`, given what parses the inner condition of an aggregate. -/
def parseConditionWith (inner : List Char → Except String Condition) (expr : String) :
    Except String Condition :=
  let chars := expr.toList
  if expr = "" then .error "empty condition"
  else
    match fileExistsPattern chars with
    | some arg =>
      .ok { raw := expr, type := .external, externalType := some .fileExists, externalArg := String.ofList arg }
    | none =>
    match envPattern chars with
    | some (name, operator, value) =>
      .ok { raw := expr, type := .external, externalType := some .env, externalArg := String.ofList name
            operator := .ofText (String.ofList operator), value := unquote (String.ofList value) }
    | none =>
    match aggregatePattern chars with
    | some m =>
      match inner m.inner with
      | .error err => .error ("parsing aggregate inner condition: " ++ err)
      | .ok innerCond =>
        let cond : Condition :=
          { raw := expr, type := .aggregate, aggregateOver := some m.among, stepRef := String.ofList m.step
            aggregateFunc := some m.func, field := innerCond.field, operator := innerCond.operator
            value := innerCond.value }
        match countComparePattern m.tail with
        | some (operator, digits) =>
          .ok { cond with aggregateFunc := some .count, operator := .ofText (String.ofList operator)
                          value := String.ofList digits }
        | none => .ok cond
    | none =>
    match stepsStatPattern chars with
    | some (name, operator, digits) =>
      .ok { raw := expr, type := .aggregate, aggregateOver := some .steps, aggregateFunc := some .count
            field := String.ofList name, operator := .ofText (String.ofList operator), value := String.ofList digits }
    | none =>
    match fieldPattern chars with
    | some (path, operator, value) =>
      .ok { raw := expr, type := .field, stepRef := (fieldRef path).1, field := (fieldRef path).2
            operator := .ofText (String.ofList operator), value := unquote (String.ofList value) }
    | none => .error ("unrecognized condition format: " ++ expr)

/-- `ParseCondition`, for texts shorter than the fuel. -/
def parseConditionWithin : Nat → List Char → Except String Condition
  | 0, _ => .error "empty condition"
  | fuel + 1, chars =>
    parseConditionWith (parseConditionWithin fuel) (trimSpace (String.ofList chars))

/-- `ParseCondition`. The inner condition of an aggregate is shorter. -/
def parseCondition (expr : String) : Except String Condition :=
  parseConditionWithin (expr.length + 1) expr.toList

/-! ## Evaluation -/

/-- A value of a step's output; what is neither missing nor a boolean or a map by its text. -/
inductive OutputValue where
  | null
  | bool (b : Bool)
  | text (t : String)
  | map (entries : List (String × OutputValue))

mutual

/-- The text of a value, as `fmt` writes it. -/
def OutputValue.format : OutputValue → String
  | .null => "<nil>"
  | .bool b => if b then "true" else "false"
  | .text t => t
  | .map entries =>
    let sorted := (formatEntries entries).mergeSort fun a b => a.1 ≤ b.1
    "map[" ++ " ".intercalate (sorted.map fun (key, text) => key ++ ":" ++ text) ++ "]"

def formatEntries : List (String × OutputValue) → List (String × String)
  | [] => []
  | (key, value) :: rest => (key, value.format) :: formatEntries rest

end

/-- `StepState`. -/
structure StepState where
  id : String
  status : String
  output : List (String × OutputValue) := []
  children : List StepState := []

/-- `ConditionContext`. -/
structure ConditionContext where
  steps : List (String × StepState)
  currentStep : String
  vars : List (String × String) := []
  unique : (steps.map Prod.fst).Nodup

/-- `ConditionResult`. -/
structure ConditionResult where
  satisfied : Bool
  reason : String
  deriving DecidableEq

/-- The files and the environment. -/
structure System where
  exists' : String → Bool
  getenv : String → String

/-- Floating point numbers: how `strconv.ParseFloat` reads them, how they are compared and
written. -/
structure Floats where
  Number : Type
  parseFloat : String → Option Number
  holds : Number → Operator → Number → Bool
  format : Number → String
  empty : parseFloat "" = none
  brace : ∀ s : String, '{' ∈ s.toList → parseFloat s = none

/-- Whether a comparison holds; one that is not known does not. -/
def Operator.holds {α : Type} [LinearOrder α] (actual : α) (op : Operator) (expected : α) : Bool :=
  match op with
  | .equal => actual = expected
  | .notEqual => actual ≠ expected
  | .greater => expected < actual
  | .greaterEqual => expected ≤ actual
  | .less => actual < expected
  | .lessEqual => actual ≤ expected
  | .other _ => false

/-- What was compared, and with what result. -/
def reasonOf (actual : String) (op : Operator) (expected : String) (satisfied : Bool) : String :=
  actual ++ " " ++ op.text ++ " " ++ expected ++ ": " ++ toString satisfied

/-- `compareInt`. -/
def compareInt (actual : Int) (op : Operator) (expected : Int) : ConditionResult :=
  let satisfied := op.holds actual expected
  { satisfied, reason := reasonOf (toString actual) op (toString expected) satisfied }

/-- `compareString`. -/
def compareString (actual : String) (op : Operator) (expected : String) : ConditionResult :=
  let satisfied := op.holds actual expected
  { satisfied, reason := reasonOf actual.quote op expected.quote satisfied }

/-- `compareFloat`. -/
def compareFloat (floats : Floats) (actual : floats.Number) (op : Operator)
    (expected : floats.Number) :
    ConditionResult :=
  let satisfied := floats.holds actual op expected
  { satisfied, reason := reasonOf (floats.format actual) op (floats.format expected) satisfied }

/-- `compare`. -/
def compare' (floats : Floats) (actual : OutputValue) (op : Operator) (expected : String) :
    ConditionResult :=
  match actual with
  | .null =>
    match op with
    | .equal =>
      { satisfied := expected = "", reason := reasonOf "nil" op expected.quote (expected = "") }
    | .notEqual =>
      { satisfied := expected ≠ "", reason := reasonOf "nil" op expected.quote (expected ≠ "") }
    | _ => { satisfied := false, reason := "nil cannot be compared with " ++ op.text }
  | .bool b =>
    let actualStr := (OutputValue.bool b).format
    let satisfied : Bool := if op = .notEqual then actualStr ≠ expected else actualStr = expected
    { satisfied, reason := reasonOf actualStr op expected.quote satisfied }
  | actual =>
    let actualStr := actual.format
    match op with
    | .equal | .notEqual => compareString actualStr op expected
    | .greater | .greaterEqual | .less | .lessEqual =>
      match floats.parseFloat actualStr, floats.parseFloat expected with
      | some actualNum, some expectedNum => compareFloat floats actualNum op expectedNum
      | _, _ => compareString actualStr op expected
    | .other text => { satisfied := false, reason := "unknown operator: " ++ text }

/-- The value below a part of a path. -/
def OutputValue.get (current : OutputValue) (part : List Char) : OutputValue :=
  match current with
  | .map entries => (entries.lookup (String.ofList part)).getD .null
  | _ => .null

/-- `getNestedValue`. -/
def getNestedValue (m : List (String × OutputValue)) (path : List Char) : OutputValue :=
  (path.splitOn '.').foldl OutputValue.get (.map m)

/-- The path of a field in the output. -/
def outputPath (field : String) : Option (List Char) := skip "output." field.toList

/-- `matchStep`. -/
def matchStep (floats : Floats) (s : StepState) (field : String) (op : Operator)
    (expected : String) :
    ConditionResult :=
  let actual : OutputValue :=
    if field = "status" then .text s.status
    else
      match outputPath field with
      | some path => getNestedValue s.output path
      | none => .text s.status
  compare' floats actual op expected

mutual

def StepState.descendants : StepState → List StepState
  | ⟨_, _, _, children⟩ => collectDescendants children

/-- `collectDescendants`, of the parent of these steps. -/
def collectDescendants : List StepState → List StepState
  | [] => []
  | child :: rest => child :: (child.descendants ++ collectDescendants rest)

end

/-- The step that a condition refers to. -/
def ConditionContext.resolve (ctx : ConditionContext) (stepRef : String) : String :=
  if stepRef = "step" then ctx.currentStep else stepRef

def stepNotFound (stepID : String) : ConditionResult :=
  { satisfied := false, reason := "step " ++ stepID.quote ++ " not found" }

/-- `evaluateField`. -/
def Condition.evaluateField (floats : Floats) (c : Condition) (ctx : ConditionContext) :
    Except String ConditionResult :=
  match ctx.steps.lookup (ctx.resolve c.stepRef) with
  | none => .ok (stepNotFound (ctx.resolve c.stepRef))
  | some step =>
    if c.field = "status" then .ok (compare' floats (.text step.status) c.operator c.value)
    else
      match outputPath c.field with
      | some path => .ok (compare' floats (getNestedValue step.output path) c.operator c.value)
      | none => .error ("unknown field: " ++ c.field)

/-- The steps that are aggregated over; those of a context in the order of the list. -/
def ConditionContext.aggregated (ctx : ConditionContext) (among : AggregateOver)
    (stepRef : String) :
    Option (List StepState) :=
  match among with
  | .children => (ctx.steps.lookup (ctx.resolve stepRef)).map (·.children)
  | .descendants => (ctx.steps.lookup (ctx.resolve stepRef)).map (·.descendants)
  | .steps => some (ctx.steps.map Prod.snd)

/-- The statuses that a count may name. -/
def countedStatuses : List String := ["complete", "failed", "pending", "in_progress"]

/-- Whether a step is counted. -/
def Condition.counts (floats : Floats) (c : Condition) (among : AggregateOver) (s : StepState) :
    Bool :=
  if among = .steps ∧ c.field ∈ countedStatuses then s.status = c.field
  else (matchStep floats s c.field .equal c.value).satisfied

/-- The error of `strconv.Atoi`. -/
def atoiError (text : String) : String :=
  let digits := text.toList.dropWhile fun c => c = '-' || c = '+'
  let cause :=
    if digits ≠ [] ∧ digits.all Char.isDigit ∧ text.length ≤ digits.length + 1 then "value out of range"
    else "invalid syntax"
  "strconv.Atoi: parsing " ++ text.quote ++ ": " ++ cause

/-- `evaluateAggregate`. -/
def Condition.evaluateAggregate (floats : Floats) (c : Condition) (ctx : ConditionContext) :
    Except String ConditionResult :=
  match c.aggregateOver with
  | none => .error "unknown aggregate function: "
  | some among =>
    match ctx.aggregated among c.stepRef with
    | none => .ok (stepNotFound (ctx.resolve c.stepRef))
    | some steps =>
      let described := c.field ++ " " ++ c.operator.text ++ " " ++ c.value
      let satisfies (s : StepState) : Bool :=
        (matchStep floats s c.field c.operator c.value).satisfied
      match c.aggregateFunc with
      | none => .error "unknown aggregate function: "
      | some .all =>
        if steps.isEmpty then .ok { satisfied := false, reason := "no " ++ among.text ++ " to evaluate" }
        else
          match steps.find? fun s => !satisfies s with
          | some s =>
            .ok { satisfied := false, reason := "step " ++ s.id.quote ++ " does not match: " ++ described }
          | none =>
            .ok { satisfied := true, reason := "all " ++ toString steps.length ++ " " ++ among.text ++ " match" }
      | some .any =>
        match steps.find? satisfies with
        | some s =>
          .ok { satisfied := true, reason := "step " ++ s.id.quote ++ " matches: " ++ described }
        | none => .ok { satisfied := false, reason := "no steps match: " ++ described }
      | some .count =>
        match Query.atoi c.value with
        | none =>
          .error ("count comparison requires integer value, got " ++ c.value.quote ++ ": " ++ atoiError c.value)
        | some expected =>
          .ok (compareInt (steps.countP (c.counts floats among)) c.operator expected)

/-- `evaluateExternal`. -/
def Condition.evaluateExternal (floats : Floats) (system : System) (c : Condition)
    (ctx : ConditionContext) :
    Except String ConditionResult :=
  match c.externalType with
  | some .fileExists =>
    let path := ctx.vars.foldl (fun path (k, v) =>
      String.ofList (replaceChars ("\x7b\x7b" ++ k ++ "\x7d\x7d").toList v.toList 0 path.toList)) c.externalArg
    let found := system.exists' path
    .ok { satisfied := found, reason := "file " ++ path.quote ++ " exists: " ++ toString found }
  | some .env => .ok (compare' floats (.text (system.getenv c.externalArg)) c.operator c.value)
  | none => .error "unknown external type: "

/-- `Evaluate`. -/
def Condition.evaluate (floats : Floats) (system : System) (c : Condition)
    (ctx : ConditionContext) :
    Except String ConditionResult :=
  match c.type with
  | .field => c.evaluateField floats ctx
  | .aggregate => c.evaluateAggregate floats ctx
  | .external => c.evaluateExternal floats system ctx

/-- `EvaluateCondition`. -/
def evaluateCondition (floats : Floats) (system : System) (expr : String) (ctx : ConditionContext) :
    Except String ConditionResult :=
  match parseCondition expr with
  | .error err => .error err
  | .ok cond => cond.evaluate floats system ctx

end Beads.Formula
