import Beads.Formula

/-! The expansion of loops (`ApplyLoops` of `internal/formula/controlflow.go`). A step with a loop
is replaced by the copies of its body, one for each iteration. Copies of steps are deep, so that
cloning is the identity here. -/
namespace Beads.Formula

/-- What is read from the texts of a loop: `ParseCondition`, `ValidateRange`, and the bounds of
`ParseRange` without variables. -/
structure LoopSyntax where
  parseCondition : String → Except String Unit
  validateRange : String → Except String Unit
  parseRange : String → Except String (Int × Int)

/-- A result, an error, or nothing if the fuel did not last. -/
abbrev Expansion := ExceptT String Option (List Step)

/-! ## Validation -/

/-- `validateLoopSpec`. -/
def validateLoopSpec (reads : LoopSyntax) (loop : LoopSpec Step) (stepID : String) :
    Except String Unit := do
  let named := "loop " ++ stepID.quote ++ ": "
  if loop.body.isEmpty then throw (named ++ "body is required")
  let loopTypes := (if 0 < loop.count then 1 else 0) + (if loop.untilCondition ≠ "" then 1 else 0) +
    (if loop.range ≠ "" then 1 else 0)
  if loopTypes = 0 then throw (named ++ "one of count, until, or range is required")
  if 1 < loopTypes then throw (named ++ "only one of count, until, or range can be specified")
  if loop.untilCondition ≠ "" ∧ loop.max = 0 then throw (named ++ "max is required when until is set")
  if loop.count < 0 then throw (named ++ "count must be positive")
  if loop.max < 0 then throw (named ++ "max must be positive")
  if loop.untilCondition ≠ "" then
    if let .error err := reads.parseCondition loop.untilCondition then
      throw (named ++ "invalid until condition " ++ loop.untilCondition.quote ++ ": " ++ err)
  if loop.range ≠ "" then
    if let .error err := reads.validateRange loop.range then
      throw (named ++ "invalid range " ++ loop.range.quote ++ ": " ++ err)

/-! ## One iteration -/

/-- `strings.ReplaceAll` for a text that is not empty, with so many characters of a match still to
pass over. -/
def replaceChars (old new : List Char) : Nat → List Char → List Char
  | _, [] => []
  | matched + 1, _ :: rest => replaceChars old new matched rest
  | 0, c :: rest =>
    if old.isPrefixOf (c :: rest) then new ++ replaceChars old new (old.length - 1) rest
    else c :: replaceChars old new 0 rest

/-- `substituteLoopVars`. -/
def substituteLoopVars (s : String) (vars : List (String × String)) : String :=
  vars.foldl (fun s var => String.ofList (replaceChars ("\x7b" ++ var.1 ++ "\x7d").toList var.2.toList 0 s.toList)) s

mutual

def Step.collectIDs : Step → List String
  | ⟨fields, children, _⟩ => fields.id :: collectBodyStepIDs children

/-- `collectBodyStepIDs`. -/
def collectBodyStepIDs : List Step → List String
  | [] => []
  | s :: rest => s.collectIDs ++ collectBodyStepIDs rest

end

/-- The id of a step in an iteration of a loop. -/
def iterationID (loopID : String) (iteration : Nat) (id : String) : String :=
  loopID ++ ".iter" ++ toString iteration ++ "." ++ id

/-- `rewriteLoopDependencies`. -/
def rewriteLoopDependencies (deps : List String) (loopID : String) (iteration : Nat)
    (bodyStepIDs : List String) :
    List String :=
  deps.map fun dep => if dep ∈ bodyStepIDs then iterationID loopID iteration dep else dep

section Children
variable (loopID : String) (iteration : Nat) (bodyStepIDs : List String)

mutual

def Step.expandChild : Step → Step
  | ⟨fields, children, loop⟩ =>
    { toStepFields :=
        { fields with
          id := iterationID loopID iteration fields.id
          dependsOn := rewriteLoopDependencies fields.dependsOn loopID iteration bodyStepIDs
          needs := rewriteLoopDependencies fields.needs loopID iteration bodyStepIDs }
      children := expandLoopChildren children
      loop }

/-- `expandLoopChildren`. -/
def expandLoopChildren : List Step → List Step
  | [] => []
  | child :: rest => child.expandChild :: expandLoopChildren rest

end

end Children

/-- The variables of the body step with those of the iteration put over them. -/
def overlayVars (expandVars iterVars : List (String × String)) : List (String × String) :=
  expandVars.filter (fun var => iterVars.all fun other => other.1 ≠ var.1) ++ iterVars

/-- A body step in an iteration. The notes are not copied. -/
def expandBodyStep (loopID : String) (iteration : Nat) (iterVars : List (String × String))
    (bodyStepIDs : List String) (bodyStep : Step) : Step where
  id := iterationID loopID iteration bodyStep.id
  title := substituteLoopVars bodyStep.title iterVars
  description := substituteLoopVars bodyStep.description iterVars
  type := bodyStep.type
  priority := bodyStep.priority
  labels := bodyStep.labels
  dependsOn := rewriteLoopDependencies bodyStep.dependsOn loopID iteration bodyStepIDs
  needs := rewriteLoopDependencies bodyStep.needs loopID iteration bodyStepIDs
  waitsFor := bodyStep.waitsFor
  assignee := bodyStep.assignee
  expand := bodyStep.expand
  expandVars := overlayVars bodyStep.expandVars iterVars
  condition := bodyStep.condition
  sourceFormula := bodyStep.sourceFormula
  sourceLocation := bodyStep.sourceLocation ++ ".iter" ++ toString iteration
  children := expandLoopChildren loopID iteration bodyStepIDs bodyStep.children
  loop := bodyStep.loop

/-- `expandLoopIteration`. -/
def expandLoopIteration (loopID : String) (loop : LoopSpec Step) (iteration : Nat)
    (iterVars : List (String × String)) :
    List Step :=
  loop.body.map (expandBodyStep loopID iteration iterVars (collectBodyStepIDs loop.body))

/-! ## Chaining -/

/-- `appendUnique`. -/
def appendUnique (slice : List String) (item : String) : List String :=
  if item ∈ slice then slice else slice ++ [item]

theorem mem_appendUnique {slice : List String} {item d : String} :
    d ∈ appendUnique slice item ↔ d ∈ slice ∨ d = item := by
  unfold appendUnique
  by_cases held : item ∈ slice
  · rw [if_pos held]
    exact ⟨.inl, fun either => either.elim id fun same => same ▸ held⟩
  · rw [if_neg held, List.mem_append, List.mem_singleton]

/-- The iteration whose prefix the id of the step has. -/
def iterationOf (loopID : String) (count : Nat) (s : Step) : Option Nat :=
  (List.range' 1 count).find? fun iter => (iterationID loopID iter "").toList.isPrefixOf s.id.toList

/-- One turn of the second loop of `chainExpandedIterations`, over the steps as they were found. -/
def chainIteration (steps : List Step) (loopID : String) (count : Nat) (chained : List Step)
    (iter : Nat) : List Step :=
  let firstIdx := steps.findIdx? fun s => iterationOf loopID count s = some iter
  let prevLast := steps.reverse.find? fun s => iterationOf loopID count s = some (iter - 1)
  match firstIdx, prevLast with
  | some first, some last =>
    chained.modify first fun s => { s with needs := appendUnique s.needs last.id }
  | _, _ => chained

/-- `chainExpandedIterations`. -/
def chainExpandedIterations (steps : List Step) (loopID : String) (count : Nat) : List Step :=
  if steps.isEmpty ∨ count < 2 then steps
  else (List.range' 2 (count - 1)).foldl (chainIteration steps loopID count) steps

/-! ## Expansion -/

/-- A string as `json.Marshal` writes it. -/
def jsonChar (c : Char) : String :=
  let hex (n : Nat) : String :=
    let digits := Nat.toDigits 16 n
    "\\u" ++ String.ofList (List.replicate (4 - digits.length) '0' ++ digits)
  if c = '"' then "\\\"" else if c = '\\' then "\\\\"
  else if c = '\n' then "\\n" else if c = '\r' then "\\r" else if c = '\t' then "\\t"
  else if c.toNat = 8 then "\\b" else if c.toNat = 12 then "\\f"
  else if c.toNat < 32 ∨ c = '<' ∨ c = '>' ∨ c = '&' ∨ c.toNat = 0x2028 ∨ c.toNat = 0x2029 then hex c.toNat
  else String.singleton c

/-- The label that hands a conditional loop to the runtime. -/
def loopLabel (loop : LoopSpec Step) : String :=
  "loop:\x7b\"max\":" ++ toString loop.max ++ ",\"until\":\"" ++
    String.join (loop.untilCondition.toList.map jsonChar) ++ "\"\x7d"

/-- The first step gets a label. -/
def labelFirst (label : String) : List Step → List Step
  | [] => []
  | first :: rest => { first with labels := first.labels ++ [label] } :: rest

/-- The variables of an iteration of a range loop. -/
def iterVars (loop : LoopSpec Step) (value : Int) : List (String × String) :=
  if loop.var ≠ "" then [(loop.var, toString value)] else []

section Expansion
variable (reads : LoopSyntax)

/-- `expandLoopWithVars` without variables, given what expands the nested loops. The counters have
no bound here; with a count or an end of the range of 2^63 - 1 the loops of the source never end. -/
def expandLoop (applyLoops : List Step → Expansion) (step : Step) (loop : LoopSpec Step) :
    Expansion :=
  if 0 < loop.count then do
    let count := loop.count.toNat
    let result := (List.range count).flatMap fun i => expandLoopIteration step.id loop (i + 1) []
    let result ← applyLoops result
    return if 1 < count then chainExpandedIterations result step.id count else result
  else if loop.range ≠ "" then
    match reads.parseRange loop.range with
    | .error err => throw ("loop " ++ step.id.quote ++ ": " ++ err)
    | .ok (start, stop) =>
      if stop < start then
        throw ("loop " ++ step.id.quote ++ ": range end (" ++ toString stop ++ ") is less than start (" ++
          toString start ++ ")")
      else do
        let count := (stop - start + 1).toNat
        let result := (List.range count).flatMap fun i =>
          expandLoopIteration step.id loop (i + 1) (iterVars loop (start + i))
        let result ← applyLoops result
        return if 1 < count then chainExpandedIterations result step.id count else result
  else applyLoops (labelFirst (loopLabel loop) (expandLoopIteration step.id loop 1 []))

section Walk
variable (expand : Step → LoopSpec Step → Expansion)

mutual

def Step.applyLoop : Step → Expansion
  | ⟨fields, children, none⟩ => do
    let children ← applySteps children
    return [⟨fields, children, none⟩]
  | ⟨fields, children, some loop⟩ => do
    ExceptT.mk (some (validateLoopSpec reads loop fields.id))
    expand ⟨fields, children, some loop⟩ loop

/-- The loop of `ApplyLoops`, given what expands a loop. -/
def applySteps : List Step → Expansion
  | [] => return []
  | s :: rest => do
    let first ← s.applyLoop
    let others ← applySteps rest
    return first ++ others

end

end Walk

/-- `ApplyLoops`, for loops that are nested less deep than the fuel. -/
def applyLoopsWithin : Nat → List Step → Expansion
  | 0, _ => ExceptT.mk none
  | fuel + 1, steps => applySteps reads (expandLoop reads (applyLoopsWithin fuel)) steps

/-- `ApplyLoops`. -/
def applyLoops (steps : List Step) : Expansion := applyLoopsWithin reads (loopDepth steps + 1) steps

end Expansion

end Beads.Formula
