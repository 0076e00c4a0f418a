import Beads.Formula

/-! Loading and resolving formulas (`internal/formula/parser.go`, `types.go`). A formula is merged
with the formulas that it extends, which are resolved in the same way; a set and a chain of the
formulas being resolved stop at cycles. -/
namespace Beads.Formula

/-! ## Formulas -/

/-- `FormulaType`. -/
inductive FormulaType where
  | workflow
  | expansion
  | aspect
  | convoy
  | other (text : String)
  deriving DecidableEq

/-- `IsValid`. -/
def FormulaType.isValid : FormulaType → Bool
  | .other _ => false
  | _ => true

def FormulaType.text : FormulaType → String
  | .workflow => "workflow"
  | .expansion => "expansion"
  | .aspect => "aspect"
  | .convoy => "convoy"
  | .other text => text

/-- `VarDef`, as far as a formula is checked. -/
structure VarDef where
  default : Option String := none
  required : Bool := false

/-- `BondPoint`. -/
structure BondPoint where
  id : String
  description : String := ""
  afterStep : String := ""
  beforeStep : String := ""
  parallel : Bool := false
  deriving DecidableEq

/-- `Hook`. -/
structure Hook where
  trigger : String
  attach : String
  at' : String := ""
  vars : List (String × String) := []
  deriving DecidableEq

/-- `ExpandRule`. -/
structure ExpandRule where
  target : String
  with' : String
  vars : List (String × String) := []
  deriving DecidableEq

/-- `MapRule`. -/
structure MapRule where
  select : String
  with' : String
  vars : List (String × String) := []
  deriving DecidableEq

/-- `BranchRule`. -/
structure BranchRule where
  start : String
  steps : List String
  join : String
  deriving DecidableEq

/-- `GateRule`. -/
structure GateRule where
  before : String
  condition : String
  deriving DecidableEq

/-- `ComposeRules`. -/
structure ComposeRules where
  bondPoints : List BondPoint := []
  hooks : List Hook := []
  expand : List ExpandRule := []
  map : List MapRule := []
  branch : List BranchRule := []
  gate : List GateRule := []
  aspects : List String := []
  deriving DecidableEq

end Beads.Formula

namespace Beads

/-- `Formula`; advice, pointcuts and what is only read elsewhere is left out. -/
structure Formula where
  formula : String
  description : String := ""
  version : Int := 1
  type : Formula.FormulaType := .workflow
  extended : List String := []
  vars : List (String × Formula.VarDef) := []
  steps : List Formula.Step := []
  template : List Formula.Step := []
  compose : Option Formula.ComposeRules := none
  source : String := ""

end Beads

namespace Beads.Formula

/-! ## Validation -/

/-- The ids that were met, where each was met first, and what is wrong. -/
structure Findings where
  locations : List (String × String) := []
  errs : List String := []

def Findings.add (found : Findings) (err : String) : Findings :=
  { found with errs := found.errs ++ [err] }

def Findings.locate (found : Findings) (id location : String) : Findings :=
  match found.locations.lookup id with
  | some first =>
    found.add (location ++ ": duplicate id " ++ id.quote ++ " (first defined at " ++ first ++ ")")
  | none => { found with locations := found.locations ++ [(id, location)] }

/-- The checks of a step that has an id. -/
def Findings.checkStep (found : Findings) (untitled location : String) (s : StepFields) :
    Findings :=
  let named := location ++ " (" ++ s.id ++ ")"
  let found := found.locate s.id location
  let found := if s.title = "" ∧ s.expand = "" then found.add (named ++ untitled) else found
  match s.priority with
  | some priority =>
    if priority < 0 ∨ 4 < priority then found.add (named ++ ": priority must be 0-4") else found
  | none => found

mutual

def Step.collectChild (location : String) (found : Findings) : Step → Findings
  | ⟨fields, children, _⟩ =>
    if fields.id = "" then found.add (location ++ ": id is required")
    else collectChildIDs location 0 (found.checkStep ": title is required" location fields) children

/-- `collectChildIDs`, from this index on. -/
def collectChildIDs (location : String) (index : Nat) (found : Findings) : List Step → Findings
  | [] => found
  | child :: rest =>
    let found := child.collectChild (location ++ ".children[" ++ toString index ++ "]") found
    collectChildIDs location (index + 1) found rest

end

/-- The first loop over the steps. -/
def collectSteps (found : Findings) (steps : List Step) : Findings :=
  steps.zipIdx.foldl (fun found (s, index) =>
    let location := "steps[" ++ toString index ++ "]"
    if s.id = "" then found.add (location ++ ": id is required")
    else
      collectChildIDs location 0 (found.checkStep ": title is required (unless using expand)" location s.toStepFields)
        s.children) found

/-- `validateWaitsFor`. -/
def validateWaitsFor (value : String) (known : String → Bool) : Option String :=
  let opening := "children-of("
  if value = "all-children" ∨ value = "any-children" then none
  else if opening.toList.isPrefixOf value.toList ∧ value.toList.getLast? = some ')' then
    let stepID := String.ofList ((value.toList.drop opening.length).dropLast)
    if stepID = "" then some "waits_for children-of() requires a step ID"
    else if known stepID then none
    else some ("waits_for references unknown step " ++ stepID.quote ++ " in children-of()")
  else
    some ("waits_for has invalid value " ++ value.quote ++
      " (must be all-children, any-children, or children-of(step-id))")

/-- The references of a step. -/
def checkReferences (location : String) (known : String → Bool) (s : StepFields) : List String :=
  let named := location ++ " (" ++ s.id ++ "): "
  let unknown (field : String) (deps : List String) : List String :=
    (deps.filter fun dep => !known dep).map fun dep => named ++ field ++ " references unknown step " ++ dep.quote
  unknown "depends_on" s.dependsOn ++ unknown "needs" s.needs ++
    (if s.waitsFor ≠ "" then ((validateWaitsFor s.waitsFor known).map (named ++ ·)).toList else [])

mutual

def Step.validateChild (location : String) (known : String → Bool) : Step → List String
  | ⟨fields, children, _⟩ => checkReferences location known fields ++ validateChildDependsOn location known 0 children

/-- `validateChildDependsOn`, from this index on. -/
def validateChildDependsOn (location : String) (known : String → Bool) (index : Nat) :
    List Step → List String
  | [] => []
  | child :: rest =>
    child.validateChild (location ++ ".children[" ++ toString index ++ "]") known ++
      validateChildDependsOn location known (index + 1) rest

end

/-- The checks of the rules. -/
def checkCompose (known : String → Bool) (compose : ComposeRules) : List String :=
  (compose.bondPoints.zipIdx.flatMap fun (bp, index) =>
    let location := "compose.bond_points[" ++ toString index ++ "]"
    let named := location ++ " (" ++ bp.id ++ "): "
    let unknown (field step : String) : List String :=
      if step ≠ "" ∧ ¬known step then [named ++ field ++ " references unknown step " ++ step.quote] else []
    (if bp.id = "" then [location ++ ": id is required"] else []) ++
      (if bp.afterStep ≠ "" ∧ bp.beforeStep ≠ "" then [named ++ "cannot have both after_step and before_step"]
        else []) ++
      unknown "after_step" bp.afterStep ++ unknown "before_step" bp.beforeStep) ++
  compose.hooks.zipIdx.flatMap fun (hook, index) =>
    let location := "compose.hooks[" ++ toString index ++ "]"
    (if hook.trigger = "" then [location ++ ": trigger is required"] else []) ++
      (if hook.attach = "" then [location ++ ": attach is required"] else [])

/-- What `Validate` finds wrong. -/
def findings (f : Formula) : List String :=
  let head := (if f.formula = "" then ["formula: name is required"] else []) ++
    (if f.version < 1 then ["version: must be >= 1"] else []) ++
    (if f.type ≠ .other "" ∧ ¬f.type.isValid then
      ["type: invalid value " ++ f.type.text.quote ++ " (must be workflow, expansion, or aspect)"] else []) ++
    f.vars.flatMap fun (name, v) =>
      if name = "" then ["vars: variable name cannot be empty"]
      else if v.required ∧ v.default.isSome then ["vars." ++ name ++ ": cannot have both required:true and default"]
      else []
  let found := collectSteps { errs := head } f.steps
  let known (id : String) : Bool := (found.locations.lookup id).isSome
  found.errs ++
    (f.steps.zipIdx.flatMap fun (s, index) =>
      let location := "steps[" ++ toString index ++ "]"
      checkReferences location known s.toStepFields ++ validateChildDependsOn location known 0 s.children) ++
    (f.compose.map (checkCompose known)).getD []

/-- `Validate`. -/
def validate (f : Formula) : Except String Unit :=
  let errs := f.findings
  if errs.isEmpty then .ok ()
  else .error ("formula validation failed:\n  - " ++ "\n  - ".intercalate errs)

/-! ## Merging -/

/-- The item at the last index with this key is replaced, or the item comes at the end if there was
none in the base. -/
def overrideAt {α : Type} (key : α → String) (base : List α) (merged : List α) (item : α) :
    List α :=
  match (base.zipIdx.reverse.find? fun entry => key entry.1 = key item) with
  | some (_, index) => merged.set index item
  | none => merged ++ [item]

/-- `mergeSteps`. -/
def mergeSteps (parent child : List Step) : List Step :=
  child.foldl (overrideAt (·.id) parent) parent

/-- `mergeComposeRules`. Rules for branches, gates and aspects are not merged. -/
def mergeComposeRules (base overlay : Option ComposeRules) : Option ComposeRules :=
  match base, overlay with
  | base, none => base
  | none, some overlay => some overlay
  | some base, some overlay =>
    some {
      bondPoints := overlay.bondPoints.foldl (overrideAt (·.id) base.bondPoints) base.bondPoints
      hooks := base.hooks ++ overlay.hooks
      expand := base.expand ++ overlay.expand
      map := base.map ++ overlay.map }

/-- The variables of a parent, unless they are there already. -/
def inheritVars (vars parent : List (String × VarDef)) : List (String × VarDef) :=
  vars ++ parent.filter fun var => vars.all fun other => other.1 ≠ var.1

/-- The variables of the child over those of the parents. -/
def overrideVars (vars child : List (String × VarDef)) : List (String × VarDef) :=
  vars.filter (fun var => child.all fun other => other.1 ≠ var.1) ++ child

/-- What a formula starts to be merged from. -/
def startMerge (f : Formula) : Formula where
  formula := f.formula
  description := f.description
  version := f.version
  type := f.type
  source := f.source

/-- A resolved parent is merged. -/
def mergeParent (merged parent : Formula) : Formula :=
  { merged with
    vars := inheritVars merged.vars parent.vars
    steps := merged.steps ++ parent.steps
    compose := mergeComposeRules merged.compose parent.compose }

/-- The formula itself is merged. -/
def mergeChild (merged f : Formula) : Formula :=
  { merged with
    vars := overrideVars merged.vars f.vars
    steps := mergeSteps merged.steps f.steps
    compose := mergeComposeRules merged.compose f.compose
    description := if f.description ≠ "" then f.description else merged.description }

/-! ## Loading -/

/-- A formula file: the name and the path that it is stored under, and the formula in it with its
defaults and the source info of its steps, or why it cannot be read. -/
structure File where
  name : String
  path : String
  content : Except String Formula

/-- The files in the order in which they are searched. -/
abbrev Library := List File

/-- Absolute paths and names in the cache. -/
inductive CacheKey where
  | path (path : String)
  | name (name : String)
  deriving DecidableEq

/-- `Parser`. -/
structure Parser where
  cache : List (CacheKey × Formula) := []
  resolvingSet : List String := []
  resolvingChain : List String := []

/-- `ParseFile`. -/
def Parser.parseFile (p : Parser) (file : File) : Except String Formula × Parser :=
  match p.cache.lookup (.path file.path) with
  | some cached => (.ok cached, p)
  | none =>
    match file.content with
    | .error err => (.error err, p)
    | .ok f => (.ok f, { p with cache := (.name f.formula, f) :: (.path file.path, f) :: p.cache })

/-- `loadFormula`. -/
def Parser.loadFormula (lib : Library) (p : Parser) (name : String) :
    Except String Formula × Parser :=
  match p.cache.lookup (.name name) with
  | some cached => (.ok cached, p)
  | none =>
    match lib.find? fun file => file.name = name with
    | some file => p.parseFile file
    | none => (.error ("formula " ++ name.quote ++ " not found in search paths"), p)

/-! ## Resolving -/

/-- Why a formula cannot be resolved. -/
inductive ResolveError where
  | circular (chain : List String)
  | load (parentName err : String)
  | parent (parentName : String) (err : ResolveError)
  | invalid (err : String)

/-- The text of the error. -/
def ResolveError.text : ResolveError → String
  | .circular chain => "circular extends detected: " ++ " -> ".intercalate chain
  | .load parentName err => "extends " ++ parentName ++ ": " ++ err
  | .parent parentName err => "resolve parent " ++ parentName ++ ": " ++ err.text
  | .invalid err => err

/-- The error at the bottom is that of a cycle. -/
def ResolveError.isCircular : ResolveError → Bool
  | .circular _ => true
  | .parent _ err => err.isCircular
  | _ => false

/-- A formula or an error, and the parser afterwards. -/
abbrev Resolution := Except ResolveError Formula × Parser

def validated (f : Formula) (p : Parser) : Resolution :=
  match f.validate with
  | .ok () => (.ok f, p)
  | .error err => (.error (.invalid err), p)

/-- The loop over the parents of `Resolve`, given what resolves a parent. -/
def resolveParents (lib : Library) (resolve : Parser → Formula → Option Resolution)
    (merged : Formula) :
    List String → Parser → Option Resolution
  | [], p => some (.ok merged, p)
  | parentName :: rest, p =>
    match p.loadFormula lib parentName with
    | (.error err, p) => some (.error (.load parentName err), p)
    | (.ok parent, p) =>
      match resolve p parent with
      | none => none
      | some (.error err, p) => some (.error (.parent parentName err), p)
      | some (.ok parent, p) => resolveParents lib resolve (mergeParent merged parent) rest p

/-- The body of `Resolve`, between taking up the formula and giving it back. -/
def resolveBody (lib : Library) (resolve : Parser → Formula → Option Resolution) (p : Parser)
    (f : Formula) :
    Option Resolution :=
  if f.extended.isEmpty then some (validated f p)
  else
    match resolveParents lib resolve (startMerge f) f.extended p with
    | none => none
    | some (.error err, p) => some (.error err, p)
    | some (.ok merged, p) => some (validated (mergeChild merged f) p)

def Parser.enter (p : Parser) (name : String) : Parser :=
  { p with resolvingSet := name :: p.resolvingSet, resolvingChain := p.resolvingChain ++ [name] }

def Parser.leave (p : Parser) (name : String) : Parser :=
  { p with resolvingSet := p.resolvingSet.erase name, resolvingChain := p.resolvingChain.dropLast }

/-- `Resolve`, for formulas that are resolved through fewer parents than the fuel. -/
def resolveWithin (lib : Library) : Nat → Parser → Formula → Option Resolution
  | 0, _, _ => none
  | fuel + 1, p, f =>
    if f.formula ∈ p.resolvingSet then some (.error (.circular (p.resolvingChain ++ [f.formula])), p)
    else (resolveBody lib (resolveWithin lib fuel) (p.enter f.formula) f).map fun (outcome, p) =>
      (outcome, p.leave f.formula)

/-- `Resolve`. The formulas on the way are in the library or in the cache. -/
def resolve (lib : Library) (p : Parser) (f : Formula) : Option Resolution :=
  resolveWithin lib (lib.length + p.cache.length + 2) p f

end Beads.Formula
