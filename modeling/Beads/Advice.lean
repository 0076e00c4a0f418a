import Beads.Loops

/-! Advice (`internal/formula/advice.go`): steps that are put before and after the steps which a
pattern matches, at every depth, and chained to them. -/
namespace Beads.Formula

/-! ## Patterns -/

/-- The terms of a pattern of `filepath.Match`. -/
inductive GlobTerm where
  | star
  | any
  | one (c : Char)
  | range (negated : Bool) (ranges : List (Char × Char))

/-- `getEsc`: a character of a class, which may be escaped and is not the last of the pattern. -/
def getEsc : List Char → Option (Char × List Char)
  | '\\' :: c :: next :: rest => some (c, next :: rest)
  | c :: next :: rest => if c = '\\' ∨ c = '-' ∨ c = ']' then none else some (c, next :: rest)
  | _ => none

/-- The ranges of a class up to its end, for patterns shorter than the fuel. -/
def classRanges : Nat → List (Char × Char) → List Char → Option (List (Char × Char) × List Char)
  | 0, _, _ => none
  | fuel + 1, ranges, chars =>
    if chars.head? = some ']' ∧ ranges ≠ [] then some (ranges, chars.tail)
    else
      match getEsc chars with
      | some (lo, '-' :: rest) =>
        match getEsc rest with
        | some (hi, rest) => classRanges fuel (ranges ++ [(lo, hi)]) rest
        | none => none
      | some (lo, rest) => classRanges fuel (ranges ++ [(lo, lo)]) rest
      | none => none

/-- The terms of a pattern that is well formed, for patterns shorter than the fuel. -/
def globTerms : Nat → List Char → Option (List GlobTerm)
  | 0, _ => none
  | _, [] => some []
  | fuel + 1, '*' :: rest => (globTerms fuel rest).map (.star :: ·)
  | fuel + 1, '?' :: rest => (globTerms fuel rest).map (.any :: ·)
  | fuel + 1, '\\' :: c :: rest => (globTerms fuel rest).map (.one c :: ·)
  | _, ['\\'] => none
  | fuel + 1, '[' :: rest =>
    let negated := rest.head? = some '^'
    match classRanges fuel [] (if negated then rest.tail else rest) with
    | some (ranges, rest) => (globTerms fuel rest).map (.range negated ranges :: ·)
    | none => none
  | fuel + 1, c :: rest => (globTerms fuel rest).map (.one c :: ·)

/-- A star stands for any characters but the separator. -/
def matchStar (matchRest : List Char → Bool) : List Char → Bool
  | [] => matchRest []
  | c :: rest => matchRest (c :: rest) || (c ≠ '/' && matchStar matchRest rest)

def matchTerms : List GlobTerm → List Char → Bool
  | [], name => name.isEmpty
  | .star :: terms, name => matchStar (matchTerms terms) name
  | .any :: terms, c :: name => c ≠ '/' && matchTerms terms name
  | .one c' :: terms, c :: name => c = c' && matchTerms terms name
  | .range negated ranges :: terms, c :: name =>
    (ranges.any fun (lo, hi) => lo ≤ c && c ≤ hi) ≠ negated && matchTerms terms name
  | _ :: _, [] => false

/-- `filepath.Match`, where a pattern that is not well formed matches nothing. -/
def filepathMatch (pattern name : String) : Bool :=
  match globTerms (pattern.length + 1) pattern.toList with
  | some terms => matchTerms terms name.toList
  | none => false

/-- `MatchGlob`. -/
def matchGlob (pattern stepID : String) : Bool :=
  if filepathMatch pattern stepID then true
  else if pattern = "*" then true
  else if ['*', '.'].isPrefixOf pattern.toList then pattern.toList.tail.isSuffixOf stepID.toList
  else if ['.', '*'].isSuffixOf pattern.toList then pattern.toList.dropLast.isPrefixOf stepID.toList
  else pattern = stepID

/-! ## Rules -/

/-- `AdviceStep`; what no step takes over is left out. -/
structure AdviceStep where
  id : String
  title : String := ""
  description : String := ""
  type : String := ""

/-- `AroundAdvice`. -/
structure AroundAdvice where
  before : List AdviceStep := []
  after : List AdviceStep := []

/-- `AdviceRule`. -/
structure AdviceRule where
  target : String
  before : Option AdviceStep := none
  after : Option AdviceStep := none
  around : Option AroundAdvice := none

/-- `strings.ReplaceAll`, for a text that is not empty. -/
def replaceAll (s old new : String) : String :=
  String.ofList (replaceChars old.toList new.toList 0 s.toList)

/-- `substituteStepRef`. -/
def substituteStepRef (s : String) (target : StepFields) : String :=
  replaceAll (replaceAll s "\x7bstep.id\x7d" target.id) "\x7bstep.title\x7d" target.title

/-- `adviceStepToStep`. -/
def adviceStepToStep (as : AdviceStep) (target : StepFields) : Step :=
  let id := substituteStepRef as.id target
  let title := substituteStepRef as.title target
  { id
    title := if title = "" then id else title
    description := substituteStepRef as.description target
    type := as.type
    sourceFormula := target.sourceFormula
    sourceLocation := "advice" }

/-- The steps of the rules that match, in the order of the rules. -/
def adviceSteps (choose : AdviceRule → List AdviceStep) (advice : List AdviceRule)
    (target : StepFields) : List Step :=
  advice.flatMap fun rule =>
    if matchGlob rule.target target.id then (choose rule).map fun as => adviceStepToStep as target else []

/-- The steps before a step. -/
def beforeSteps (advice : List AdviceRule) (target : StepFields) : List Step :=
  adviceSteps (fun rule => rule.before.toList ++ (rule.around.map (·.before)).getD []) advice target

/-- The steps after a step. -/
def afterSteps (advice : List AdviceRule) (target : StepFields) : List Step :=
  adviceSteps (fun rule => rule.after.toList ++ (rule.around.map (·.after)).getD []) advice target

/-- One more need. -/
def Step.need (s : Step) (id : String) : Step := { s with needs := appendUnique s.needs id }

/-- Each step needs the one in front of it. -/
def chainSteps (previous : String) : List Step → List Step
  | [] => []
  | s :: rest => s.need previous :: chainSteps s.id rest

/-- The steps before a step; the first has nothing in front of it. -/
def chainBefore : List Step → List Step
  | [] => []
  | s :: rest => s :: chainSteps s.id rest

/-- `collectStepIDs`. -/
def collectStepIDs (steps : List Step) : List String := collectBodyStepIDs steps

mutual

def Step.applyAdvice (advice : List AdviceRule) (originalIDs : List String) : Step → List Step
  | ⟨fields, children, loop⟩ =>
    if fields.id ∉ originalIDs then [⟨fields, children, loop⟩]
    else
      let before := beforeSteps advice fields
      let fields' := match before.getLast? with
        | some last => { fields with needs := appendUnique fields.needs last.id }
        | none => fields
      let children' := applyAdviceWithGuard advice (collectStepIDs children) children
      chainBefore before ++ ⟨fields', children', loop⟩ :: chainSteps fields.id (afterSteps advice fields)

/-- `applyAdviceWithGuard`. -/
def applyAdviceWithGuard (advice : List AdviceRule) (originalIDs : List String) :
    List Step → List Step
  | [] => []
  | s :: rest => s.applyAdvice advice originalIDs ++ applyAdviceWithGuard advice originalIDs rest

end

/-- `ApplyAdvice`. -/
def applyAdvice (steps : List Step) (advice : List AdviceRule) : List Step :=
  if advice.isEmpty then steps else applyAdviceWithGuard advice (collectStepIDs steps) steps

end Beads.Formula
