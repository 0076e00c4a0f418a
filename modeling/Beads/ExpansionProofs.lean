import Beads.Lib.Call
import Beads.AdviceProofs
import Beads.Expansions

/-! What comes in place of a step that is expanded: the steps of the template with their texts
filled in, the first of which wait for what the step waited for. -/
namespace Beads.Formula
open Lib

section Forests
variable {s : Step} {steps rest : List Step} {f : StepFields}

theorem fieldsOf_cons :
    fieldsOf (s :: rest) = s.toStepFields :: (fieldsOf s.children ++ fieldsOf rest) := by
  rw [fieldsOf, nested_cons, List.map_cons, List.map_append]
  rfl

theorem fieldsOf_append : fieldsOf (steps ++ rest) = fieldsOf steps ++ fieldsOf rest := by
  rw [fieldsOf, nested_append, List.map_append]
  rfl

theorem collectStepIDs_fieldsOf (steps : List Step) :
    collectStepIDs steps = (fieldsOf steps).map (·.id) := by
  rw [collectStepIDs_eq, fieldsOf, List.map_map]
  rfl

end Forests

/-! ## Templates -/

section Templates
variable {target : StepFields} {vars : List (String × String)} {depth : Nat}
  {template expanded : List Step}

theorem loadTemplate_ok {loads : Loads} {place name : String} {overrides : List (String × String)}
    {loaded : List Step × List (String × String)}
    (found : loadTemplate loads place name overrides = .ok loaded) :
    ∃ formula, loads name = .ok formula ∧ loaded = (formula.template, mergeVars formula overrides) ∧
      formula.template ≠ [] := by
  unfold loadTemplate at found
  cases known : loads name with
  | error err =>
    rw [known] at found
    cases found
  | ok formula =>
    simp only [known] at found
    by_cases other : formula.type ≠ .expansion
    · rw [if_pos other] at found
      cases found
    · rw [if_neg other] at found
      by_cases empty : formula.template.isEmpty = true
      · rw [if_pos empty] at found
        cases found
      · rw [if_neg empty] at found
        exact ⟨formula, rfl, (Except.ok.inj found).symm,
          fun none => empty (List.isEmpty_iff.mpr none)⟩

private theorem expandTemplate_cases {tmpl s : Step}
    (done : tmpl.expandTemplate target vars depth = .ok s) :
    ∃ children, s = ⟨instantiateFields target vars tmpl.toStepFields, children, none⟩ ∧
      (tmpl.children = [] ∧ children = [] ∨
        expandTemplates target vars (depth + 1) tmpl.children = .ok children) := by
  obtain ⟨fields, children, loop⟩ := tmpl
  rw [Step.expandTemplate] at done
  by_cases empty : children.isEmpty = true
  · rw [if_pos empty] at done
    cases done
    exact ⟨[], rfl, .inl ⟨List.isEmpty_iff.mp empty, rfl⟩⟩
  · rw [if_neg empty] at done
    by_cases deep : defaultMaxExpansionDepth < depth + 1
    · rw [if_pos deep] at done
      cases done
    · rw [if_neg deep] at done
      obtain ⟨inner, below, done⟩ := bind_eq_ok.mp done
      cases done
      exact ⟨inner, rfl, .inr below⟩

private theorem expandTemplates_cons {tmpl : Step} {rest : List Step}
    (done : expandTemplates target vars depth (tmpl :: rest) = .ok expanded) :
    ∃ children behind, expanded = ⟨instantiateFields target vars tmpl.toStepFields, children, none⟩ :: behind ∧
      (tmpl.children = [] ∧ children = [] ∨
        expandTemplates target vars (depth + 1) tmpl.children = .ok children) ∧
      expandTemplates target vars depth rest = .ok behind := by
  rw [expandTemplates] at done
  obtain ⟨s, first, done⟩ := bind_eq_ok.mp done
  obtain ⟨behind, others, done⟩ := bind_eq_ok.mp done
  cases done
  obtain ⟨children, rfl, inner⟩ := expandTemplate_cases first
  exact ⟨children, behind, rfl, inner, others⟩

/-- Each step of the template, at any depth, with its texts filled in. -/
theorem expandTemplates_fields (done : expandTemplates target vars depth template = .ok expanded) :
    fieldsOf expanded = (fieldsOf template).map (instantiateFields target vars) ∧
      expanded.map (·.toStepFields) = template.map fun tmpl => instantiateFields target vars tmpl.toStepFields := by
  induction template using forest_induction generalizing depth expanded with
  | nil =>
    cases done
    exact ⟨rfl, rfl⟩
  | cons tmpl rest below _ behind =>
    obtain ⟨children, others, rfl, inner, done⟩ := expandTemplates_cons done
    obtain ⟨all, top⟩ := behind done
    have inside : fieldsOf children = (fieldsOf tmpl.children).map
        (instantiateFields target vars) := by
      rcases inner with ⟨none, rfl⟩ | inner
      · rw [none]
        rfl
      · exact (below inner).1
    rw [fieldsOf_cons, fieldsOf_cons, List.map_cons, List.map_append, inside, all, List.map_cons,
      List.map_cons, top]
    exact ⟨rfl, rfl⟩

theorem expandStep_ok (done : expandStep target template depth vars = .ok expanded) :
    fieldsOf expanded = (fieldsOf template).map (instantiateFields target vars) ∧
      expanded.map (·.toStepFields) = template.map fun tmpl => instantiateFields target vars tmpl.toStepFields := by
  unfold expandStep at done
  by_cases deep : defaultMaxExpansionDepth < depth
  · rw [if_pos deep] at done
    cases done
  · rw [if_neg deep] at done
    exact expandTemplates_fields done

/-- What comes in place of the target: the template, and then the dependencies of the target. -/
theorem expandStep_map_ok
    (done : (expandStep target template depth vars).map (propagateTargetDeps target) = .ok expanded) :
    ∃ filled, expandStep target template depth vars = .ok filled ∧
      expanded = propagateTargetDeps target filled := by
  cases filling : expandStep target template depth vars with
  | error err =>
    rw [filling] at done
    cases done
  | ok filled =>
    rw [filling] at done
    cases done
    exact ⟨filled, rfl, rfl⟩

theorem expandTarget_ok {found : Step} (done : expandTarget found template vars = .ok expanded) :
    ∃ filled, expandStep found.toStepFields template 0 vars = .ok filled ∧
      expanded = propagateTargetDeps found.toStepFields filled :=
  expandStep_map_ok done

/-- The last step of an expansion is that of the template. -/
theorem getLast_filled {filled : List Step} (nonempty : template ≠ [])
    (top : filled.map (·.toStepFields) = template.map fun tmpl => instantiateFields target vars tmpl.toStepFields) :
    ∃ last final, template.getLast? = some last ∧ filled.getLast? = some final ∧
      final.id = instantiate target vars last.id := by
  have last := List.getLast?_eq_some_getLast nonempty
  have mapped := congrArg List.getLast? top
  rw [List.getLast?_map, List.getLast?_map, last, Option.map_some] at mapped
  obtain ⟨final, found, same⟩ := Option.map_eq_some_iff.mp mapped
  exact ⟨_, final, last, found, congrArg (·.id) same⟩

end Templates

/-! ## The dependencies of the target -/

section Propagation
variable {target : StepFields} {steps : List Step} {ids : List String} {x y : String}

/-- A root waits for what the target waits for. -/
def StepFields.carry (target : StepFields) (ids : List String) (f : StepFields) : StepFields :=
  if f.isRoot ids then
    { f with needs := target.needs ++ f.needs, dependsOn := target.dependsOn ++ f.dependsOn }
  else f

private theorem mem_carry {f : StepFields} :
    y ∈ (target.carry ids f).dependencies ↔
      y ∈ f.dependencies ∨ f.isRoot ids = true ∧ y ∈ target.dependencies := by
  unfold StepFields.carry
  by_cases root : f.isRoot ids = true
  · rw [if_pos root]
    simp only [StepFields.dependencies, List.mem_append, root, true_and]
    tauto
  · rw [if_neg root]
    simp only [root, false_and, or_false, Bool.false_eq_true]

theorem carry_id (f : StepFields) : (target.carry ids f).id = f.id := by
  unfold StepFields.carry
  split <;> rfl

theorem carry_expand (f : StepFields) : (target.carry ids f).expand = f.expand := by
  unfold StepFields.carry
  split <;> rfl

/-- Only the steps on top have other fields. -/
theorem fieldsOf_propagate :
    fieldsOf (propagateTargetDeps target steps) =
      steps.flatMap fun s => target.carry (steps.map (·.id)) s.toStepFields :: fieldsOf s.children := by
  unfold propagateTargetDeps
  generalize steps.map (·.id) = ids
  induction steps with
  | nil => rfl
  | cons s rest ih =>
    rw [List.map_cons, fieldsOf_cons, ih, List.flatMap_cons]
    unfold StepFields.carry
    by_cases root : s.isRoot ids = true
    · simp only [root, if_true, List.cons_append]
    · simp only [root, if_false, List.cons_append, Bool.false_eq_true]

theorem mem_fieldsOf {g : StepFields} :
    g ∈ fieldsOf steps ↔ ∃ s ∈ steps, g = s.toStepFields ∨ g ∈ fieldsOf s.children := by
  induction steps with
  | nil => simp [fieldsOf, nested]
  | cons s rest ih =>
    rw [fieldsOf_cons, List.mem_cons, List.mem_append, ih, List.exists_mem_cons_iff, or_assoc]

theorem collectStepIDs_propagate :
    collectStepIDs (propagateTargetDeps target steps) = collectStepIDs steps := by
  rw [collectStepIDs_fieldsOf, collectStepIDs_fieldsOf, fieldsOf_propagate]
  generalize steps.map (·.id) = ids
  induction steps with
  | nil => rfl
  | cons s rest ih =>
    rw [List.flatMap_cons, List.map_append, ih, fieldsOf_cons, List.map_cons, List.map_cons,
      List.map_append, carry_id]
    rfl

theorem dependsOn_propagate :
    DependsOn (propagateTargetDeps target steps) x y ↔
      DependsOn steps x y ∨
        ∃ s ∈ steps, s.isRoot (steps.map (·.id)) = true ∧ s.id = x ∧ y ∈ target.dependencies := by
  rw [dependsOn_iff, dependsOn_iff, fieldsOf_propagate]
  simp only [List.mem_flatMap, List.mem_cons]
  constructor
  · rintro ⟨f, ⟨s, held, rfl | below⟩, same, dep⟩
    · rw [carry_id] at same
      rcases mem_carry.mp dep with own | ⟨root, dep⟩
      · exact .inl ⟨s.toStepFields, mem_fieldsOf.mpr ⟨s, held, .inl rfl⟩, same, own⟩
      · exact .inr ⟨s, held, root, same, dep⟩
    · exact .inl ⟨f, mem_fieldsOf.mpr ⟨s, held, .inr below⟩, same, dep⟩
  · rintro (⟨f, held, same, dep⟩ | ⟨s, held, root, same, dep⟩)
    · obtain ⟨s, top, rfl | below⟩ := mem_fieldsOf.mp held
      · exact ⟨_, ⟨s, top, .inl rfl⟩, (carry_id _).trans same, mem_carry.mpr (.inl dep)⟩
      · exact ⟨f, ⟨s, top, .inr below⟩, same, dep⟩
    · exact ⟨_, ⟨s, held, .inl rfl⟩, (carry_id _).trans same, mem_carry.mpr (.inr ⟨root, dep⟩)⟩

/-- The references in a filled template, without those of the target. -/
theorem dependsOn_filled {filled template : List Step} {vars : List (String × String)}
    {a d : String}
    (all : fieldsOf filled = (fieldsOf template).map (instantiateFields target vars))
    (edge : DependsOn filled a d) :
    ∃ x y, DependsOn template x y ∧ a = instantiate target vars x ∧
      d = instantiate target vars y := by
  obtain ⟨f, held, rfl, dep⟩ := dependsOn_iff.mp edge
  rw [all] at held
  obtain ⟨tmpl, inside, rfl⟩ := List.mem_map.mp held
  have dep : d ∈ tmpl.dependencies.map (instantiate target vars) := by
    rw [StepFields.dependencies, List.map_append]
    exact dep
  obtain ⟨y, own, rfl⟩ := List.mem_map.mp dep
  exact ⟨tmpl.id, y, dependsOn_iff.mpr ⟨tmpl, inside, rfl, own⟩, rfl, rfl⟩

end Propagation

/-! ## Replacing and redirecting -/

section Replacing
variable {s : Step} {steps rest replacement : List Step} {target last x y : String} {f : StepFields}

theorem mem_buildStepMap (held : s ∈ buildStepMap steps) : s ∈ nested steps := by
  unfold buildStepMap at held
  generalize nested steps = l at held ⊢
  induction l with
  | nil => exact held
  | cons t others ih =>
    rw [List.foldr_cons] at held
    split at held
    · exact List.mem_cons_of_mem _ (ih held)
    · rcases List.mem_cons.mp held with rfl | held
      · exact List.mem_cons_self
      · exact List.mem_cons_of_mem _ (ih held)

private theorem replaceStep_cons_same (same : s.id = target) :
    replaceStep target replacement (s :: rest) = replacement ++ replaceStep target replacement rest := by
  obtain ⟨fields, children, loop⟩ := s
  rw [replaceStep, Step.replaceStep, if_pos same]

private theorem replaceStep_cons_other (other : s.id ≠ target) :
    replaceStep target replacement (s :: rest) =
      ⟨s.toStepFields, replaceStep target replacement s.children, s.loop⟩ :: replaceStep target replacement rest := by
  obtain ⟨fields, children, loop⟩ := s
  rw [replaceStep, Step.replaceStep, if_neg other]
  rfl

private theorem mem_replaceStep (held : f ∈ fieldsOf (replaceStep target replacement steps)) :
    f ∈ fieldsOf steps ∧ f.id ≠ target ∨ f ∈ fieldsOf replacement := by
  induction steps using forest_induction with
  | nil => cases held
  | cons s rest below _ behind =>
    rw [fieldsOf_cons, List.mem_cons, List.mem_append]
    by_cases same : s.id = target
    · rw [replaceStep_cons_same same, fieldsOf_append, List.mem_append] at held
      rcases held with held | held
      · exact .inr held
      · exact (behind held).imp_left fun ⟨held, other⟩ => ⟨.inr (.inr held), other⟩
    · rw [replaceStep_cons_other same, fieldsOf_cons, List.mem_cons, List.mem_append] at held
      rcases held with rfl | held | held
      · exact .inl ⟨.inl rfl, same⟩
      · exact (below held).imp_left fun ⟨held, other⟩ => ⟨.inr (.inl held), other⟩
      · exact (behind held).imp_left fun ⟨held, other⟩ => ⟨.inr (.inr held), other⟩

/-- A step whose references to the expanded step are redirected. -/
def StepFields.redirected (expandedID lastID : String) (f : StepFields) : StepFields :=
  { f with
    dependsOn := f.dependsOn.map (redirect expandedID lastID)
    needs := f.needs.map (redirect expandedID lastID) }

private theorem fieldsOf_update :
    fieldsOf (updateDependenciesForExpansion target last steps) = (fieldsOf steps).map (·.redirected target last) := by
  induction steps using forest_induction with
  | nil => rfl
  | cons s rest below _ behind =>
    obtain ⟨fields, children, loop⟩ := s
    rw [updateDependenciesForExpansion, Step.updateDependencies, fieldsOf_cons, fieldsOf_cons,
      List.map_cons, List.map_append, ← below, ← behind]
    rfl

private theorem redirected_dependencies :
    (f.redirected target last).dependencies = f.dependencies.map (redirect target last) := by
  rw [StepFields.dependencies, StepFields.dependencies, List.map_append]
  rfl

theorem dependsOn_update :
    DependsOn (updateDependenciesForExpansion target last steps) x y ↔
      ∃ d, DependsOn steps x d ∧ y = redirect target last d := by
  simp only [dependsOn_iff, fieldsOf_update, List.mem_map]
  constructor
  · rintro ⟨_, ⟨f, held, rfl⟩, same, dep⟩
    rw [redirected_dependencies] at dep
    obtain ⟨d, own, rfl⟩ := List.mem_map.mp dep
    exact ⟨d, ⟨f, held, same, own⟩, rfl⟩
  · rintro ⟨d, ⟨f, held, same, dep⟩, rfl⟩
    refine ⟨_, ⟨f, held, rfl⟩, same, ?_⟩
    rw [redirected_dependencies]
    exact List.mem_map_of_mem dep

theorem dependsOn_replaceStep (edge : DependsOn (replaceStep target replacement steps) x y) :
    DependsOn steps x y ∨ DependsOn replacement x y := by
  obtain ⟨f, held, same, dep⟩ := dependsOn_iff.mp edge
  rcases mem_replaceStep held with ⟨held, -⟩ | held
  · exact .inl (dependsOn_iff.mpr ⟨f, held, same, dep⟩)
  · exact .inr (dependsOn_iff.mpr ⟨f, held, same, dep⟩)

private theorem getLast_propagate (target : StepFields) {filled : List Step} {last : Step}
    (final : filled.getLast? = some last) :
    ∃ last', (propagateTargetDeps target filled).getLast? = some last' ∧ last'.id = last.id := by
  unfold propagateTargetDeps
  rw [List.getLast?_map, final]
  refine ⟨_, rfl, ?_⟩
  dsimp only
  split <;> rfl

/-- What a replacement comes to, given the last step of the expansion. -/
theorem replace_steps_eq {st : Expanding} {target : StepFields} {filled : List Step} {last : Step}
    (final : filled.getLast? = some last) :
    (st.replace target.id (propagateTargetDeps target filled)).steps =
      updateDependenciesForExpansion target.id last.id
        (replaceStep target.id (propagateTargetDeps target filled) st.steps) := by
  obtain ⟨last', final', same⟩ := getLast_propagate target final
  rw [Expanding.replace, final', ← same]

/-- What an expand rule can do. -/
theorem expand_cases {loads : Loads} {st st' : Expanding} {rule : ExpandRule}
    (done : st.expand loads rule = .ok st') :
    st' = st ∨ ∃ target formula expandedSteps,
      (buildStepMap st.steps).find? (fun s => s.id = rule.target) = some target ∧
        rule.target ∉ st.expanded ∧
      loads rule.with' = .ok formula ∧ formula.template ≠ [] ∧
      expandTarget target formula.template (mergeVars formula rule.vars) = .ok expandedSteps ∧
      st' = st.replace rule.target expandedSteps := by
  unfold Expanding.expand at done
  cases found : (buildStepMap st.steps).find? (fun s => s.id = rule.target) with
  | none =>
    rw [found] at done
    cases done
  | some target =>
    simp only [found] at done
    by_cases again : rule.target ∈ st.expanded
    · rw [if_pos again] at done
      cases done
      exact .inl rfl
    · rw [if_neg again] at done
      obtain ⟨⟨template, vars⟩, loaded, done⟩ := bind_eq_ok.mp done
      obtain ⟨formula, known, same, some⟩ := loadTemplate_ok loaded
      cases same
      cases filled : expandTarget target formula.template (mergeVars formula rule.vars) with
      | error err =>
        simp only [filled] at done
        cases done
      | ok expandedSteps =>
        simp only [filled] at done
        cases done
        exact .inr ⟨target, formula, expandedSteps, rfl, again, known, some, filled, rfl⟩

end Replacing

/-- Every name is that of an expansion with this template. -/
def loading (template : List Step) : Loads :=
  fun name => .ok { formula := name, type := .expansion, template }

/-- A step is drafted first, and keeps its id. -/
def drafted : List Step :=
  [{ id := "\x7btarget\x7d.draft" }, { id := "\x7btarget\x7d", needs := ["\x7btarget\x7d.draft"] }]

end Beads.Formula
