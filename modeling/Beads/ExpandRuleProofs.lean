import Mathlib.Data.Set.Function
import Beads.Lib.Rules
import Beads.ExpansionProofs

/-! Expand rules and cycles: what the references of a template come to when they are redirected
with all the others. -/
namespace Beads.Formula
open Lib Lib.Graph Relation

/-- A template waits in no cycle, and only for its own steps. -/
structure SelfContained (template : List Step) : Prop where
  acyclic : Acyclic (DependsOn template)
  own : ∀ a d, DependsOn template a d → d ∈ collectStepIDs template

/-- The ids of an expansion are read as the id of its target. -/
def collapse (targetID : String) (ids : List String) (id : String) : String :=
  if id ∈ ids then targetID else id

/-- A template filled in for a target makes no cycle in place of it: its ids stay apart, reading
them as that of the target makes no cycle, and its last step waits in no way for a step that keeps
the target's id. -/
structure Fits (steps template : List Step) (targetID : String) (fill : String → String) :
    Prop where
  apart : ∀ x ∈ collectStepIDs template, ∀ y ∈ collectStepIDs template, fill x = fill y → x = y
  outside : Acyclic (Relation.Map (DependsOn steps) (collapse targetID ((collectStepIDs template).map fill))
    (collapse targetID ((collectStepIDs template).map fill)))
  inside : ∀ last, template.getLast? = some last → ∀ x ∈ collectStepIDs template, fill x = targetID →
    ¬TransGen (DependsOn template) last.id x

/-- An expand rule that replaces a step has a template that fits. -/
def ExpandRule.Fits (loads : Loads) (st : Expanding) (rule : ExpandRule) : Prop :=
  ∀ target formula, (buildStepMap st.steps).find? (fun s => s.id = rule.target) = some target →
    rule.target ∉ st.expanded → loads rule.with' = .ok formula →
      Formula.Fits st.steps formula.template rule.target
        (instantiate target.toStepFields (mergeVars formula rule.vars))

section Cycles
variable {loads : Loads} {st st' : Expanding} {rule : ExpandRule}
  {steps template filled : List Step}
  {target : StepFields} {vars : List (String × String)} {fill : String → String}

theorem mem_ids_of_dependsOn {a d : String} (edge : DependsOn steps a d) :
    a ∈ collectStepIDs steps := by
  obtain ⟨f, held, rfl, -⟩ := dependsOn_iff.mp edge
  rw [collectStepIDs_fieldsOf]
  exact List.mem_map_of_mem held

/-- The references of the template, filled in and redirected. -/
def Redirected (template : List Step) (targetID lastID : String) (fill : String → String)
    (a b : String) : Prop :=
  ∃ x y, DependsOn template x y ∧ a = fill x ∧ b = redirect targetID lastID (fill y)

private theorem acyclic_redirected {targetID : String} {last : Step}
    (contained : SelfContained template) (final : template.getLast? = some last)
    (fits : Fits steps template targetID fill) :
    Acyclic (Redirected template targetID (fill last.id) fill) := by
  have lastHeld : last.id ∈ collectStepIDs template := by
    rw [collectStepIDs_eq]
    exact List.mem_map_of_mem (mem_nested_of_mem (List.mem_of_getLast? final))
  -- the same in the ids of the template
  let moved (x : String) : Prop := x ∈ collectStepIDs template ∧ fill x = targetID
  let within (x y : String) : Prop :=
    DependsOn template x y ∨ y = last.id ∧ ∃ z, moved z ∧ DependsOn template x z
  have acyclic : Acyclic within := by
    refine contained.acyclic.redirect (fun x away => ?_) fun a b edge => edge
    exact fits.inside last final x away.1 away.2
  let back := Function.invFunOn fill {x | x ∈ collectStepIDs template}
  have inverse {x : String} (held : x ∈ collectStepIDs template) : back (fill x) = x := by
    have image : ∃ y ∈ {x | x ∈ collectStepIDs template}, fill y = fill x := ⟨x, held, rfl⟩
    exact fits.apart _ (Function.invFunOn_mem image) _ held (Function.invFunOn_eq image)
  refine acyclic.comap back ?_
  rintro _ _ ⟨x, y, edge, rfl, rfl⟩
  have held := contained.own x y edge
  rw [inverse (mem_ids_of_dependsOn edge)]
  unfold redirect
  by_cases same : fill y = targetID
  · rw [if_pos same, inverse lastHeld]
    exact .inr ⟨rfl, y, ⟨held, same⟩, edge⟩
  · rw [if_neg same, inverse held]
    exact .inl edge

/-- A step is replaced by a template that fits. -/
theorem acyclic_replace {found : Step} {expandedSteps : List Step}
    (contained : SelfContained template) (nonempty : template ≠ []) (held : found ∈ nested st.steps)
    (fits : Fits st.steps template found.id (instantiate found.toStepFields vars))
    (done : expandTarget found template vars = .ok expandedSteps) :
    Acyclic (DependsOn (st.replace found.id expandedSteps).steps) := by
  obtain ⟨filled, filling, rfl⟩ := expandTarget_ok done
  obtain ⟨all, top⟩ := expandStep_ok filling
  obtain ⟨last, final, known, final', same⟩ := getLast_filled nonempty top
  let fill := instantiate found.toStepFields vars
  let ids := (collectStepIDs template).map fill
  have inIDs {x : String} (held : x ∈ collectStepIDs template) :
      collapse found.id ids (fill x) = found.id :=
    if_pos (List.mem_map_of_mem held)
  have lastHeld : last.id ∈ collectStepIDs template := by
    rw [collectStepIDs_eq]
    exact List.mem_map_of_mem (mem_nested_of_mem (List.mem_of_getLast? known))
  have own : collapse found.id ids found.id = found.id := ite_self _
  have redirects (d : String) :
      collapse found.id ids (redirect found.id (fill last.id) d) = collapse found.id ids d := by
    unfold redirect
    by_cases target : d = found.id
    · rw [if_pos target, inIDs lastHeld, target, own]
    · rw [if_neg target]
  have steps : (st.replace found.id (propagateTargetDeps found.toStepFields filled)).steps =
      updateDependenciesForExpansion found.id (fill last.id)
        (replaceStep found.id (propagateTargetDeps found.toStepFields filled) st.steps) := by
    rw [replace_steps_eq final', same]
  rw [steps]
  refine fits.outside.collapse (collapse found.id ids) (acyclic_redirected contained known fits)
    fun a b edge => ?_
  obtain ⟨d, before, rfl⟩ := dependsOn_update.mp edge
  rcases dependsOn_replaceStep before with old | new
  · exact .inl ⟨a, d, old, rfl, (redirects d).symm⟩
  · rcases dependsOn_propagate.mp new with inner | ⟨root, top', -, rfl, dep⟩
    · obtain ⟨x, y, own', rfl, rfl⟩ := dependsOn_filled all inner
      refine .inr ⟨?_, x, y, own', rfl, rfl⟩
      rw [inIDs (mem_ids_of_dependsOn own')]
      exact ((redirects _).trans (inIDs (contained.own x y own'))).symm
    · refine .inl ⟨found.id, d, ⟨found, held, rfl, dep⟩, ?_, (redirects d).symm⟩
      have inside : root.id ∈ ids := by
        have member : root.toStepFields ∈ fieldsOf filled := mem_fieldsOf.mpr ⟨root, top', .inl rfl⟩
        rw [all] at member
        obtain ⟨tmpl, member, same⟩ := List.mem_map.mp member
        rw [← same]
        refine List.mem_map_of_mem ?_
        rw [collectStepIDs_fieldsOf]
        exact List.mem_map_of_mem member
      rw [own, collapse, if_pos inside]

/-- One rule keeps the steps free of cycles. -/
theorem acyclic_expand (acyclic : Acyclic (DependsOn st.steps))
    (contained : ∀ formula, loads rule.with' = .ok formula → SelfContained formula.template)
    (fits : rule.Fits loads st) (done : st.expand loads rule = .ok st') :
    Acyclic (DependsOn st'.steps) := by
  rcases expand_cases done with
    rfl | ⟨target, formula, expandedSteps, found, fresh, known, some, filled, rfl⟩
  · exact acyclic
  · have same : target.id = rule.target := by
      have holds := List.find?_some found
      exact of_decide_eq_true holds
    have fitting := fits target formula found fresh known
    rw [← same] at fitting ⊢
    exact acyclic_replace (contained formula known) some
      (mem_buildStepMap (List.mem_of_find?_eq_some found)) fitting
      filled

end Cycles

/-- Expand rules keep the steps free of cycles, in every state of a run in which each template
fits where it is filled in. -/
theorem expandRules_acyclic (loads : Loads) (steps : List Step) (rules : List ExpandRule)
    (acyclic : Acyclic (DependsOn steps))
    (contained : ∀ rule ∈ rules, ∀ formula, loads rule.with' = .ok formula →
      SelfContained formula.template)
    (fits : Along (Expanding.expand loads) (fun st rule => rule.Fits loads st) { steps } rules) :
    ∀ front st, front <+: rules → front.foldlM (Expanding.expand loads) { steps } = .ok st →
      Acyclic (DependsOn st.steps) := by
  intro front st within done
  refine (fits.of_front within).run (fun st => Acyclic (DependsOn st.steps)) ?_ acyclic done
  intro s t rule held before fitting step
  exact acyclic_expand before (contained rule (within.subset held)) fitting step

/-- The references of the steps, each with the id of its step. -/
def references (steps : List Step) : List (String × String) :=
  (fieldsOf steps).flatMap fun f => f.dependencies.map (f.id, ·)

theorem mem_references {steps : List Step} {a d : String} :
    DependsOn steps a d ↔ (a, d) ∈ references steps := by
  simp only [dependsOn_iff, references, List.mem_flatMap, List.mem_map, Prod.mk.injEq,
    exists_eq_right_right]
  exact exists_congr fun f => and_congr_right fun _ => and_comm

/-- A step is checked after it. -/
def checked : List Step :=
  [{ id := "\x7btarget\x7d" }, { id := "\x7btarget\x7d.check", needs := ["\x7btarget\x7d"] }]

def designAndTest : List Step := [{ id := "design" }, { id := "test", needs := ["design"] }]

def expandDesign : ExpandRule where
  target := "design"
  with' := "expansion"

theorem selfContained_pair {first second : String} (other : first ≠ second) :
    SelfContained [{ id := first }, { id := second, needs := [first] }] := by
  have edges {a d : String} (edge : DependsOn [{ id := first }, { id := second, needs := [first] }] a d) :
      a = second ∧ d = first := by
    simpa [mem_references, references, fieldsOf, nested, Step.nested,
      StepFields.dependencies] using edge
  constructor
  · refine acyclic_of_lt (fun id => if id = first then 1 else 0) fun a d edge => ?_
    obtain ⟨rfl, rfl⟩ := edges edge
    rw [if_neg other.symm, if_pos rfl]
    exact Nat.zero_lt_one
  · intro a d edge
    rw [(edges edge).2]
    exact List.mem_cons_self

theorem expandRules_designDrafted :
    ∃ st, [expandDesign].foldlM (Expanding.expand (loading drafted)) { steps := designAndTest } = .ok st ∧
      Acyclic (DependsOn st.steps) := by
  have acyclic : Acyclic (DependsOn designAndTest) := (selfContained_pair (by decide)).acyclic
  have contained : SelfContained drafted := selfContained_pair (by decide)
  refine ⟨_, rfl, expandRules_acyclic (loading drafted) designAndTest [expandDesign] acyclic ?_
    ⟨?_, fun _ _ => trivial⟩ [expandDesign] _ (List.prefix_refl _) rfl⟩
  · intro rule _ formula found
    cases found
    exact contained
  · intro target formula found _ loaded
    cases loaded
    cases found
    have edges {a d : String} (edge : DependsOn designAndTest a d) : a = "test" ∧ d = "design" := by
      simpa [designAndTest, mem_references, references, fieldsOf, nested, Step.nested,
        StepFields.dependencies]
        using edge
    refine ⟨by decide, ?_, ?_⟩
    · refine acyclic_of_lt (fun id => if id = "design" then 1 else 0) ?_
      rintro _ _ ⟨a, d, edge, rfl, rfl⟩
      obtain ⟨rfl, rfl⟩ := edges edge
      decide
    · intro last final x held same path
      cases final
      have ids : collectStepIDs drafted = ["\x7btarget\x7d.draft", "\x7btarget\x7d"] := rfl
      have cases' : x = "\x7btarget\x7d.draft" ∨ x = "\x7btarget\x7d" := by simpa [ids] using held
      rcases cases' with rfl | rfl
      · exact absurd same (by decide)
      · exact contained.acyclic _ path

/-- The check waits for the design, which is redirected to the check. -/
theorem expandRules_checkWaitsForItself :
    Acyclic (DependsOn designAndTest) ∧ SelfContained checked ∧
      ∃ st, [expandDesign].foldlM (Expanding.expand (loading checked)) { steps := designAndTest } = .ok st ∧
        DependsOn st.steps "design.check" "design.check" := by
  refine ⟨(selfContained_pair (by decide)).acyclic, selfContained_pair (by decide), _, rfl, ?_⟩
  rw [mem_references]
  exact List.mem_cons_self

end Beads.Formula
