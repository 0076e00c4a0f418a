import Mathlib.Data.List.Basic
import Mathlib.Tactic.Common

/-! Formulas (`internal/formula/types.go`): steps with their children, and the loops that stand in
for a body of steps. -/
namespace Beads.Formula

/-- `LoopSpec`. -/
structure LoopSpec (S : Type) where
  count : Int
  untilCondition : String
  max : Int
  range : String
  var : String
  body : List S

/-- The fields of `Step` without the nested steps; metadata, gates and completion actions are left
out. -/
structure StepFields where
  id : String
  title : String := ""
  description : String := ""
  notes : String := ""
  type : String := ""
  priority : Option Int := none
  labels : List String := []
  dependsOn : List String := []
  needs : List String := []
  waitsFor : String := ""
  assignee : String := ""
  expand : String := ""
  expandVars : List (String × String) := []
  condition : String := ""
  sourceFormula : String := ""
  sourceLocation : String := ""
  deriving DecidableEq

/-- Both lists of steps that a step waits for. -/
def StepFields.dependencies (s : StepFields) : List String := s.needs ++ s.dependsOn

/-- `Step`. -/
structure Step extends StepFields where
  children : List Step := []
  loop : Option (LoopSpec Step) := none

/-! ## Forests -/

mutual

def Step.all : Step → List Step
  | ⟨fields, children, loop⟩ => ⟨fields, children, loop⟩ :: (allSteps children ++ loopSteps loop)

/-- The steps, their children and the bodies of their loops, at any depth. -/
def allSteps : List Step → List Step
  | [] => []
  | s :: rest => s.all ++ allSteps rest

def loopSteps : Option (LoopSpec Step) → List Step
  | none => []
  | some ⟨_, _, _, _, _, body⟩ => allSteps body

end

mutual

def Step.visible : Step → List Step
  | ⟨fields, children, none⟩ => ⟨fields, children, none⟩ :: visible children
  | ⟨fields, children, some loop⟩ => [⟨fields, children, some loop⟩]

/-- The steps and their children, but not what is inside a step with a loop. -/
def visible : List Step → List Step
  | [] => []
  | s :: rest => s.visible ++ visible rest

end

mutual

def Step.nested : Step → List Step
  | ⟨fields, children, loop⟩ => ⟨fields, children, loop⟩ :: nested children

/-- The steps and their children, at any depth. -/
def nested : List Step → List Step
  | [] => []
  | s :: rest => s.nested ++ nested rest

end

/-- A step waits for another. -/
def DependsOn (steps : List Step) (x y : String) : Prop :=
  ∃ s ∈ nested steps, s.id = x ∧ y ∈ s.dependencies

mutual

def Step.loopDepth : Step → Nat
  | ⟨_, children, loop⟩ => Nat.max (loopDepth children) (specDepth loop)

/-- How deep loops are nested. -/
def loopDepth : List Step → Nat
  | [] => 0
  | s :: rest => Nat.max s.loopDepth (loopDepth rest)

def specDepth : Option (LoopSpec Step) → Nat
  | none => 0
  | some ⟨_, _, _, _, _, body⟩ => loopDepth body + 1

end

section Forests
variable {s t : Step} {steps rest steps' : List Step}

theorem allSteps_cons :
    allSteps (s :: rest) = s :: (allSteps s.children ++ loopSteps s.loop ++ allSteps rest) := by
  cases s
  simp [allSteps, Step.all]

theorem visible_cons_plain (plain : s.loop = none) :
    visible (s :: rest) = s :: (visible s.children ++ visible rest) := by
  obtain ⟨fields, children, loop⟩ := s
  cases plain
  rfl

theorem visible_cons_loop {loop : LoopSpec Step} (looping : s.loop = some loop) :
    visible (s :: rest) = s :: visible rest := by
  obtain ⟨fields, children, _⟩ := s
  cases looping
  rfl

theorem allSteps_append : allSteps (steps ++ steps') = allSteps steps ++ allSteps steps' := by
  induction steps with
  | nil => rfl
  | cons s rest ih => rw [List.cons_append, allSteps, allSteps, ih, List.append_assoc]

private theorem visible_append : visible (steps ++ steps') = visible steps ++ visible steps' := by
  induction steps with
  | nil => rfl
  | cons s rest ih => rw [List.cons_append, visible, visible, ih, List.append_assoc]

theorem nested_cons : nested (s :: rest) = s :: (nested s.children ++ nested rest) := by
  cases s
  rfl

theorem nested_append : nested (steps ++ steps') = nested steps ++ nested steps' := by
  induction steps with
  | nil => rfl
  | cons s rest ih => rw [List.cons_append, nested, nested, ih, List.append_assoc]

theorem mem_nested_of_mem (held : s ∈ steps) : s ∈ nested steps := by
  induction steps with
  | nil => cases held
  | cons t rest ih =>
    rw [nested_cons, List.mem_cons, List.mem_append]
    rcases List.mem_cons.mp held with rfl | held
    · exact .inl rfl
    · exact .inr (.inr (ih held))

theorem visible_flatMap {α : Type} (f : α → List Step) (l : List α) :
    visible (l.flatMap f) = l.flatMap fun a => visible (f a) := by
  induction l with
  | nil => rfl
  | cons a l ih => rw [List.flatMap_cons, visible_append, ih, List.flatMap_cons]

theorem loopDepth_cons :
    loopDepth (s :: rest) = max (max (loopDepth s.children) (specDepth s.loop)) (loopDepth rest) := by
  cases s
  rfl

end Forests

section Induction
variable {motive : List Step → Prop} (nil : motive [])
  (cons : ∀ s rest, motive s.children → (∀ loop, s.loop = some loop → motive loop.body) → motive rest →
    motive (s :: rest))
include nil cons

-- the mutual theorems use both, each through the others
set_option linter.unusedSectionVars false

mutual

theorem step_induction :
    ∀ s : Step, motive s.children ∧ ∀ loop, s.loop = some loop → motive loop.body
  | ⟨_, children, loop⟩ => ⟨forest_induction children, loop_induction loop⟩

/-- Over the children, the body of the loop and the steps behind. -/
theorem forest_induction : ∀ steps : List Step, motive steps
  | [] => nil
  | s :: rest => cons s rest (step_induction s).1 (step_induction s).2 (forest_induction rest)

theorem loop_induction :
    ∀ (found : Option (LoopSpec Step)) (loop : LoopSpec Step), found = some loop → motive loop.body
  | some ⟨_, _, _, _, _, body⟩, _, rfl => forest_induction body

end

end Induction

/-- The word characters of a regular expression. -/
def isWordChar (c : Char) : Bool := c.isAlphanum || c = '_'

end Beads.Formula
