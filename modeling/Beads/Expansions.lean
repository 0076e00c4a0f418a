import Beads.Advice
import Beads.FormulaParser

/-! Expansions (`internal/formula/expand.go`): a step is replaced by the steps of a template, and
the steps that waited for it wait for the last of them. -/
namespace Beads.Formula

/-! ## Substitution -/

/-- `substituteTargetPlaceholders`. -/
def substituteTargetPlaceholders (s : String) (target : StepFields) : String :=
  if s = "" then s
  else
    let s := replaceAll s "\x7btarget\x7d" target.id
    let s := replaceAll s "\x7btarget.id\x7d" target.id
    let s := replaceAll s "\x7btarget.title\x7d" target.title
    replaceAll s "\x7btarget.description\x7d" target.description

/-- The variables in braces are replaced by their values, with so many characters of a match still
to pass over. A variable without a value stays. -/
def substituteVarChars (vars : List (String × String)) : Nat → List Char → List Char
  | _, [] => []
  | matched + 1, _ :: rest => substituteVarChars vars matched rest
  | 0, c :: rest =>
    let name := rest.takeWhile isWordChar
    if c = '\x7b' ∧ name ≠ [] ∧ (rest.drop name.length).head? = some '\x7d' then
      match vars.lookup (String.ofList name) with
      | some val => val.toList ++ substituteVarChars vars (name.length + 1) rest
      | none => '\x7b' :: name ++ '\x7d' :: substituteVarChars vars (name.length + 1) rest
    else c :: substituteVarChars vars 0 rest

/-- `substituteVars`. -/
def substituteVars (expr : String) (vars : List (String × String)) : String :=
  String.ofList (substituteVarChars vars 0 expr.toList)

/-- `mergeVars`. The first value of a name counts. -/
def mergeVars (formula : Formula) (overrides : List (String × String)) : List (String × String) :=
  overrides ++ formula.vars.filterMap fun (name, v) => v.default.map (name, ·)

/-! ## Templates -/

/-- `DefaultMaxExpansionDepth`. -/
def defaultMaxExpansionDepth : Nat := 5

/-- The texts of a template that name the target or variables. -/
def instantiate (target : StepFields) (vars : List (String × String)) (s : String) : String :=
  substituteVars (substituteTargetPlaceholders s target) vars

/-- The fields of a step of a template. -/
def instantiateFields (target : StepFields) (vars : List (String × String)) (tmpl : StepFields) :
    StepFields where
  id := instantiate target vars tmpl.id
  title := instantiate target vars tmpl.title
  description := instantiate target vars tmpl.description
  type := tmpl.type
  priority := tmpl.priority
  assignee := substituteVars tmpl.assignee vars
  sourceFormula := tmpl.sourceFormula
  sourceLocation := tmpl.sourceLocation
  labels := tmpl.labels.map (instantiate target vars)
  dependsOn := tmpl.dependsOn.map (instantiate target vars)
  needs := tmpl.needs.map (instantiate target vars)

def depthExceeded (target : StepFields) (depth : Nat) : String :=
  "expansion depth limit exceeded: max " ++ toString defaultMaxExpansionDepth ++ " levels (currently at " ++
    toString depth ++ ") - step " ++ target.id.quote

mutual

def Step.expandTemplate (target : StepFields) (vars : List (String × String)) (depth : Nat) :
    Step → Except String Step
  | ⟨tmpl, children, _⟩ => do
    let children ←
      if children.isEmpty then .ok []
      else if defaultMaxExpansionDepth < depth + 1 then .error (depthExceeded target (depth + 1))
      else expandTemplates target vars (depth + 1) children
    return ⟨instantiateFields target vars tmpl, children, none⟩

/-- The loop of `expandStep`. -/
def expandTemplates (target : StepFields) (vars : List (String × String)) (depth : Nat) :
    List Step → Except String (List Step)
  | [] => .ok []
  | tmpl :: rest => do
    let expanded ← tmpl.expandTemplate target vars depth
    let result ← expandTemplates target vars depth rest
    return expanded :: result

end

/-- `expandStep`. -/
def expandStep (target : StepFields) (template : List Step) (depth : Nat)
    (vars : List (String × String)) :
    Except String (List Step) :=
  if defaultMaxExpansionDepth < depth then .error (depthExceeded target depth)
  else expandTemplates target vars depth template

/-! ## Replacing steps -/

/-- The entries of `buildStepMap`: of steps with the same id the last one. -/
def buildStepMap (steps : List Step) : List Step :=
  (nested steps).foldr (fun s entries => if entries.any fun other => other.id = s.id then entries else s :: entries) []

mutual

def Step.replaceStep (targetID : String) (replacement : List Step) : Step → List Step
  | ⟨fields, children, loop⟩ =>
    if fields.id = targetID then replacement else [⟨fields, replaceStep targetID replacement children, loop⟩]

/-- `replaceStep`. -/
def replaceStep (targetID : String) (replacement : List Step) : List Step → List Step
  | [] => []
  | s :: rest => s.replaceStep targetID replacement ++ replaceStep targetID replacement rest

end

/-- A reference to the expanded step becomes one to the last step of the expansion. -/
def redirect (expandedID lastID : String) (dep : String) : String :=
  if dep = expandedID then lastID else dep

mutual

def Step.updateDependencies (expandedID lastID : String) : Step → Step
  | ⟨fields, children, loop⟩ =>
    let fields := { fields with
      dependsOn := fields.dependsOn.map (redirect expandedID lastID)
      needs := fields.needs.map (redirect expandedID lastID) }
    ⟨fields, updateDependenciesForExpansion expandedID lastID children, loop⟩

/-- `UpdateDependenciesForExpansion`. -/
def updateDependenciesForExpansion (expandedID lastID : String) : List Step → List Step
  | [] => []
  | s :: rest =>
    s.updateDependencies expandedID lastID :: updateDependenciesForExpansion expandedID lastID rest

end

/-- No dependency of the step is among these. -/
def StepFields.isRoot (s : StepFields) (expandedIDs : List String) : Bool :=
  s.dependencies.all fun dep => dep ∉ expandedIDs

/-- `propagateTargetDeps`. -/
def propagateTargetDeps (target : StepFields) (expandedSteps : List Step) : List Step :=
  let expandedIDs := expandedSteps.map (·.id)
  expandedSteps.map fun s =>
    if s.isRoot expandedIDs then
      { s with needs := target.needs ++ s.needs, dependsOn := target.dependsOn ++ s.dependsOn }
    else s

/-! ## Rules -/

/-- `LoadByName`. -/
abbrev Loads := String → Except String Formula

/-- The steps, and which have been expanded. -/
structure Expanding where
  steps : List Step
  expanded : List String := []

/-- The template of an expansion formula, and its variables. -/
def loadTemplate (loads : Loads) (place name : String) (overrides : List (String × String)) :
    Except String (List Step × List (String × String)) :=
  match loads name with
  | .error err => .error (place ++ "loading " ++ name.quote ++ ": " ++ err)
  | .ok formula =>
    if formula.type ≠ .expansion then
      .error (place ++ name.quote ++ " is not an expansion formula (type=" ++ formula.type.text ++ ")")
    else if formula.template.isEmpty then .error (place ++ name.quote ++ " has no template steps")
    else .ok (formula.template, mergeVars formula overrides)

/-- The steps that come in place of the target. -/
def expandTarget (target : Step) (template : List Step) (vars : List (String × String)) :
    Except String (List Step) :=
  (expandStep target.toStepFields template 0 vars).map (propagateTargetDeps target.toStepFields)

/-- The target is replaced, and what waited for it waits for the last step. -/
def Expanding.replace (st : Expanding) (targetID : String) (expandedSteps : List Step) :
    Expanding where
  steps :=
    let result := replaceStep targetID expandedSteps st.steps
    match expandedSteps.getLast? with
    | some last => updateDependenciesForExpansion targetID last.id result
    | none => result
  expanded := targetID :: st.expanded

/-- An expand rule. -/
def Expanding.expand (loads : Loads) (st : Expanding) (rule : ExpandRule) :
    Except String Expanding :=
  match (buildStepMap st.steps).find? fun s => s.id = rule.target with
  | none => .error ("expand: target step " ++ rule.target.quote ++ " not found")
  | some target =>
    if rule.target ∈ st.expanded then .ok st
    else do
      let (template, vars) ← loadTemplate loads "expand: " rule.with' rule.vars
      match expandTarget target template vars with
      | .error err => .error ("expand " ++ rule.target.quote ++ ": " ++ err)
      | .ok expandedSteps => .ok (st.replace rule.target expandedSteps)

/-! ## Inline expansions -/

mutual

/-- A step with its expansion, given what is done with the steps of the expansion. -/
def Step.applyInline (loads : Loads) (again : List Step → Except String (List Step)) :
    Step → Except String (List Step)
  | ⟨fields, children, loop⟩ =>
    if fields.expand ≠ "" then do
      let place := "inline expand on step " ++ fields.id.quote ++ ": "
      let (template, vars) ← loadTemplate loads place fields.expand fields.expandVars
      match expandTarget ⟨fields, children, loop⟩ template vars with
      | .error err => .error (place ++ err)
      | .ok expandedSteps => again expandedSteps
    else do
      let children ← applyInlineSteps loads again children
      return [⟨fields, children, loop⟩]

/-- The loop of `applyInlineExpansionsRecursive`. -/
def applyInlineSteps (loads : Loads) (again : List Step → Except String (List Step)) :
    List Step → Except String (List Step)
  | [] => .ok []
  | s :: rest => do
    let processed ← s.applyInline loads again
    let result ← applyInlineSteps loads again rest
    return processed ++ result

end

/-- `applyInlineExpansionsRecursive`, with so many levels still allowed. -/
def applyInlineWithin (loads : Loads) : Nat → List Step → Except String (List Step)
  | 0, _ => .error ("inline expansion depth limit exceeded: max " ++ toString defaultMaxExpansionDepth ++ " levels")
  | levels + 1, steps => applyInlineSteps loads (applyInlineWithin loads levels) steps

/-- `ApplyInlineExpansions`. -/
def applyInlineExpansions (loads : Loads) (steps : List Step) : Except String (List Step) :=
  applyInlineWithin loads (defaultMaxExpansionDepth + 1) steps

end Beads.Formula
