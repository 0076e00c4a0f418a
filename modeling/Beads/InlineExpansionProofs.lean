import Beads.ExpansionProofs

/-! Inline expansions: which steps stay, which come, and what is left of the references between
them. -/
namespace Beads.Formula
open Lib

/-! ## Steps that stay and steps that go -/

mutual

def Step.remaining : Step → List StepFields
  | ⟨fields, children, _⟩ => if fields.expand ≠ "" then [] else fields :: remaining children

/-- The steps that stay: they have no expansion, and no step above them has one. -/
def remaining : List Step → List StepFields
  | [] => []
  | s :: rest => s.remaining ++ remaining rest

end

mutual

def Step.inlined : Step → List StepFields
  | ⟨fields, children, _⟩ => if fields.expand ≠ "" then [fields] else inlined children

/-- The steps that are expanded. Those below them go with them. -/
def inlined : List Step → List StepFields
  | [] => []
  | s :: rest => s.inlined ++ inlined rest

end

/-- The template that a step is expanded with, and its variables. -/
def inlineTemplate (loads : Loads) (x : StepFields) : List Step × List (String × String) :=
  match loads x.expand with
  | .ok formula => (formula.template, mergeVars formula x.expandVars)
  | .error _ => ([], [])

/-- The ids that come in place of a step. -/
def expansionIDs (loads : Loads) (x : StepFields) : List String :=
  (collectStepIDs (inlineTemplate loads x).1).map (instantiate x (inlineTemplate loads x).2)

/-- The references in the expansion of a step that are its template's. -/
def expansionDependencies (loads : Loads) (x : StepFields) : List String :=
  (fieldsOf (inlineTemplate loads x).1).flatMap fun tmpl =>
    tmpl.dependencies.map (instantiate x (inlineTemplate loads x).2)

/-- A step on top of the expansion refers to none of the others there. -/
def HasRoot (loads : Loads) (x : StepFields) : Prop :=
  ∃ tmpl ∈ (inlineTemplate loads x).1,
    (instantiateFields x (inlineTemplate loads x).2 tmpl.toStepFields).isRoot
      ((inlineTemplate loads x).1.map fun tmpl => instantiate x (inlineTemplate loads x).2 tmpl.id) = true

section Inline
variable {loads : Loads} {again : List Step → Except String (List Step)} {s : Step}
  {steps rest result : List Step}
  {x f : StepFields}

theorem remaining_cons_plain (plain : s.expand = "") :
    remaining (s :: rest) = s.toStepFields :: (remaining s.children ++ remaining rest) := by
  obtain ⟨fields, children, loop⟩ := s
  rw [remaining, Step.remaining, if_neg (not_not.mpr plain)]
  rfl

theorem inlined_cons_plain (plain : s.expand = "") :
    inlined (s :: rest) = inlined s.children ++ inlined rest := by
  obtain ⟨fields, children, loop⟩ := s
  rw [inlined, Step.inlined, if_neg (not_not.mpr plain)]

theorem remaining_cons_expand (expand : s.expand ≠ "") :
    remaining (s :: rest) = remaining rest := by
  obtain ⟨fields, children, loop⟩ := s
  rw [remaining, Step.remaining, if_pos expand]
  rfl

theorem inlined_cons_expand (expand : s.expand ≠ "") :
    inlined (s :: rest) = s.toStepFields :: inlined rest := by
  obtain ⟨fields, children, loop⟩ := s
  rw [inlined, Step.inlined, if_pos expand]
  rfl

/-- What a step is expanded to. -/
def inlineExpansion (loads : Loads) (x : StepFields) : Except String (List Step) :=
  (expandStep x (inlineTemplate loads x).1 0 (inlineTemplate loads x).2).map (propagateTargetDeps x)

private theorem applyInline_plain (plain : s.expand = "") :
    applyInlineSteps loads again (s :: rest) = .ok result →
      ∃ children behind, result = ⟨s.toStepFields, children, s.loop⟩ :: behind ∧
        applyInlineSteps loads again s.children = .ok children ∧
          applyInlineSteps loads again rest = .ok behind := by
  intro done
  obtain ⟨fields, children, loop⟩ := s
  rw [applyInlineSteps] at done
  obtain ⟨processed, first, done⟩ := bind_eq_ok.mp done
  obtain ⟨behind, others, done⟩ := bind_eq_ok.mp done
  rw [Step.applyInline, if_neg (not_not.mpr plain)] at first
  obtain ⟨inner, below, first⟩ := bind_eq_ok.mp first
  cases first
  cases done
  exact ⟨inner, behind, rfl, below, others⟩

private theorem applyInline_expand (expand : s.expand ≠ "")
    (done : applyInlineSteps loads again (s :: rest) = .ok result) :
    ∃ expanded processed behind, result = processed ++ behind ∧
      inlineExpansion loads s.toStepFields = .ok expanded ∧ again expanded = .ok processed ∧
      applyInlineSteps loads again rest = .ok behind := by
  obtain ⟨fields, children, loop⟩ := s
  rw [applyInlineSteps] at done
  obtain ⟨processed, first, done⟩ := bind_eq_ok.mp done
  obtain ⟨behind, others, done⟩ := bind_eq_ok.mp done
  cases done
  rw [Step.applyInline, if_pos expand] at first
  obtain ⟨⟨template, vars⟩, loaded, first⟩ := bind_eq_ok.mp first
  have known : inlineTemplate loads fields = (template, vars) := by
    obtain ⟨formula, found, same, -⟩ := loadTemplate_ok loaded
    rw [inlineTemplate, found, same]
  cases filled : expandTarget ⟨fields, children, loop⟩ template vars with
  | error err =>
    simp only [filled] at first
    cases first
  | ok expanded =>
    simp only [filled] at first
    refine ⟨expanded, processed, behind, rfl, ?_, first, others⟩
    rw [inlineExpansion, known]
    exact filled

/-- Steps without expansions stay as they are. -/
theorem applyInlineSteps_plain (plain : ∀ f ∈ fieldsOf steps, f.expand = "") :
    applyInlineSteps loads again steps = .ok steps := by
  induction steps using forest_induction with
  | nil => rfl
  | cons s rest below _ behind =>
    rw [fieldsOf_cons, List.forall_mem_cons, List.forall_mem_append] at plain
    obtain ⟨own, inside, others⟩ := plain
    obtain ⟨fields, children, loop⟩ := s
    rw [applyInlineSteps, Step.applyInline, if_neg (not_not.mpr own), below inside, behind others]
    rfl

/-- The expansion before the dependencies of the step are put on its roots. -/
theorem inlineExpansion_ok {expanded : List Step} (done : inlineExpansion loads x = .ok expanded) :
    ∃ filled, expanded = propagateTargetDeps x filled ∧
      fieldsOf filled = (fieldsOf (inlineTemplate loads x).1).map (instantiateFields x (inlineTemplate loads x).2) ∧
      filled.map (·.toStepFields) = (inlineTemplate loads x).1.map
        fun tmpl => instantiateFields x (inlineTemplate loads x).2 tmpl.toStepFields := by
  obtain ⟨filled, filling, same⟩ := expandStep_map_ok done
  exact ⟨filled, same, expandStep_ok filling⟩

theorem inlineExpansion_plain {expanded : List Step}
    (done : inlineExpansion loads x = .ok expanded) :
    ∀ f ∈ fieldsOf expanded, f.expand = "" := by
  obtain ⟨filled, rfl, all, -⟩ := inlineExpansion_ok done
  have plain : ∀ f ∈ fieldsOf filled, f.expand = "" := by
    intro f held
    rw [all] at held
    obtain ⟨tmpl, -, rfl⟩ := List.mem_map.mp held
    rfl
  intro f held
  rw [fieldsOf_propagate] at held
  obtain ⟨s, top, held⟩ := List.mem_flatMap.mp held
  rcases List.mem_cons.mp held with rfl | held
  · exact (carry_expand _).trans (plain _ (mem_fieldsOf.mpr ⟨s, top, .inl rfl⟩))
  · exact plain _ (mem_fieldsOf.mpr ⟨s, top, .inr held⟩)

private theorem expansionIDs_eq {expanded : List Step}
    (done : inlineExpansion loads x = .ok expanded) :
    collectStepIDs expanded = expansionIDs loads x := by
  obtain ⟨filled, rfl, all, -⟩ := inlineExpansion_ok done
  rw [collectStepIDs_propagate, collectStepIDs_fieldsOf, all, expansionIDs, collectStepIDs_fieldsOf,
    List.map_map, List.map_map]
  rfl

private theorem dependsOn_inlineExpansion {expanded : List Step} {d : String}
    (done : inlineExpansion loads x = .ok expanded) :
    (∃ a, DependsOn expanded a d) ↔
      d ∈ expansionDependencies loads x ∨ HasRoot loads x ∧ d ∈ x.dependencies := by
  obtain ⟨filled, rfl, all, top⟩ := inlineExpansion_ok done
  have own : (∃ a, DependsOn filled a d) ↔ d ∈ expansionDependencies loads x := by
    simp only [dependsOn_iff, all, List.mem_map, expansionDependencies, List.mem_flatMap]
    constructor
    · rintro ⟨a, _, ⟨tmpl, held, rfl⟩, -, dep⟩
      refine ⟨tmpl, held, ?_⟩
      simpa only [StepFields.dependencies, instantiateFields, ← List.map_append,
        List.mem_map] using dep
    · rintro ⟨tmpl, held, dep⟩
      refine ⟨_, _, ⟨tmpl, held, rfl⟩, rfl, ?_⟩
      simpa only [StepFields.dependencies, instantiateFields, ← List.map_append,
        List.mem_map] using dep
  have ids : filled.map (·.id) = (inlineTemplate loads x).1.map
      fun tmpl => instantiate x (inlineTemplate loads x).2 tmpl.id := by
    have mapped := congrArg (List.map (·.id)) top
    rw [List.map_map, List.map_map] at mapped
    exact mapped
  have rooted : (∃ s ∈ filled, s.isRoot (filled.map (·.id)) = true) ↔ HasRoot loads x := by
    rw [HasRoot, ← ids]
    have same (p : StepFields → Prop) : (∃ s ∈ filled, p s.toStepFields) ↔
        ∃ tmpl ∈ (inlineTemplate loads x).1, p (instantiateFields x (inlineTemplate loads x).2 tmpl.toStepFields) := by
      have mapped : (∃ f ∈ filled.map (·.toStepFields), p f) ↔ ∃ f ∈
          (inlineTemplate loads x).1.map fun tmpl =>
          instantiateFields x (inlineTemplate loads x).2 tmpl.toStepFields, p f := by rw [top]
      simpa only [List.mem_map, exists_exists_and_eq_and] using mapped
    exact same fun f => f.isRoot (filled.map (·.id)) = true
  simp only [dependsOn_propagate, exists_or, own, ← rooted]
  refine or_congr_right ⟨?_, ?_⟩
  · rintro ⟨a, s, held, root, -, dep⟩
    exact ⟨⟨s, held, root⟩, dep⟩
  · rintro ⟨⟨s, held, root⟩, dep⟩
    exact ⟨_, s, held, root, rfl, dep⟩

/-- A step comes with the expansion of another. -/
def ComesFrom (loads : Loads) (l : List StepFields) (f : StepFields) : Prop :=
  ∃ x ∈ l, ∃ expanded, inlineExpansion loads x = .ok expanded ∧ f ∈ fieldsOf expanded

private theorem comesFrom_append {l l' : List StepFields} :
    ComesFrom loads (l ++ l') f ↔ ComesFrom loads l f ∨ ComesFrom loads l' f := by
  simp only [ComesFrom, List.mem_append, or_and_right, exists_or]

private theorem comesFrom_cons {l : List StepFields} {expanded : List Step}
    (filled : inlineExpansion loads x = .ok expanded) :
    ComesFrom loads (x :: l) f ↔ f ∈ fieldsOf expanded ∨ ComesFrom loads l f := by
  simp only [ComesFrom, List.exists_mem_cons_iff, filled, Except.ok.injEq, exists_eq_left']

/-- The steps of the result stayed, or came with an expansion. -/
theorem mem_applyInlineSteps (same : ∀ l, (∀ f ∈ fieldsOf l, f.expand = "") → again l = .ok l)
    (done : applyInlineSteps loads again steps = .ok result) :
    (∀ x ∈ inlined steps, ∃ expanded, inlineExpansion loads x = .ok expanded) ∧
      ∀ f, f ∈ fieldsOf result ↔ f ∈ remaining steps ∨ ComesFrom loads (inlined steps) f := by
  induction steps using forest_induction generalizing result with
  | nil =>
    cases done
    simp [remaining, inlined, fieldsOf, nested, ComesFrom]
  | cons s rest below _ behind =>
    by_cases plain : s.expand = ""
    · obtain ⟨children, others, rfl, inner, done⟩ := applyInline_plain plain done
      obtain ⟨loaded, inside⟩ := below inner
      obtain ⟨loaded', outside⟩ := behind done
      rw [inlined_cons_plain plain, remaining_cons_plain plain, List.forall_mem_append]
      refine ⟨⟨loaded, loaded'⟩, fun f => ?_⟩
      rw [fieldsOf_cons, List.mem_cons, List.mem_append, inside, outside, List.mem_cons,
        List.mem_append, comesFrom_append]
      tauto
    · obtain ⟨expanded, processed, others, rfl, filled, processing, behind'⟩ :=
        applyInline_expand plain done
      rw [same _ (inlineExpansion_plain filled)] at processing
      cases processing
      obtain ⟨loaded', outside⟩ := behind behind'
      rw [inlined_cons_expand plain, remaining_cons_expand plain, List.forall_mem_cons]
      refine ⟨⟨⟨_, filled⟩, loaded'⟩, fun f => ?_⟩
      rw [fieldsOf_append, List.mem_append, outside, comesFrom_cons filled]
      exact or_left_comm

theorem mem_remaining (held : f ∈ remaining steps) : f ∈ fieldsOf steps ∧ f.expand = "" := by
  induction steps using forest_induction with
  | nil => cases held
  | cons s rest below _ behind =>
    rw [fieldsOf_cons, List.mem_cons, List.mem_append]
    by_cases plain : s.expand = ""
    · rw [remaining_cons_plain plain, List.mem_cons, List.mem_append] at held
      rcases held with rfl | held | held
      · exact ⟨.inl rfl, plain⟩
      · exact ⟨.inr (.inl (below held).1), (below held).2⟩
      · exact ⟨.inr (.inr (behind held).1), (behind held).2⟩
    · rw [remaining_cons_expand plain] at held
      exact ⟨.inr (.inr (behind held).1), (behind held).2⟩

theorem mem_inlined (held : f ∈ inlined steps) : f ∈ fieldsOf steps ∧ f.expand ≠ "" := by
  induction steps using forest_induction with
  | nil => cases held
  | cons s rest below _ behind =>
    rw [fieldsOf_cons, List.mem_cons, List.mem_append]
    by_cases plain : s.expand = ""
    · rw [inlined_cons_plain plain, List.mem_append] at held
      rcases held with held | held
      · exact ⟨.inr (.inl (below held).1), (below held).2⟩
      · exact ⟨.inr (.inr (behind held).1), (behind held).2⟩
    · rw [inlined_cons_expand plain, List.mem_cons] at held
      rcases held with rfl | held
      · exact ⟨.inl rfl, plain⟩
      · exact ⟨.inr (.inr (behind held).1), (behind held).2⟩

/-- With unique ids, no step that stays has the id of one that is expanded. -/
theorem remaining_ne_inlined (unique : (collectStepIDs steps).Nodup) (stays : f ∈ remaining steps)
    (goes : x ∈ inlined steps) : x.id ≠ f.id := by
  intro same
  rw [collectStepIDs_fieldsOf] at unique
  have equal := List.inj_on_of_nodup_map unique (mem_inlined goes).1 (mem_remaining stays).1 same
  exact (mem_inlined goes).2 (equal ▸ (mem_remaining stays).2)

end Inline

/-! ## References -/

/-- The steps that stay are as they were, every reference names a step of the result, and one that
names a step that was expanded names a step of its expansion. -/
structure InlineResolved (loads : Loads) (steps result : List Step) : Prop where
  stays : ∀ s ∈ remaining steps, s ∈ fieldsOf result
  names : ∀ a d, DependsOn result a d → d ∈ collectStepIDs result
  waits : ∀ x ∈ inlined steps, ∀ a, DependsOn result a x.id → x.id ∈ expansionIDs loads x

/-- A step goes: it is expanded, or a step above it is. -/
def Goes (steps : List Step) (d : String) : Prop :=
  d ∈ collectStepIDs steps ∧ d ∉ (remaining steps).map (·.id)

/-- An expansion has a step with the id; if the id is that of an expanded step, its own. -/
def KeptID (loads : Loads) (steps : List Step) (d : String) : Prop :=
  (∃ x ∈ inlined steps, d ∈ expansionIDs loads x) ∧ ∀ x ∈ inlined steps, x.id = d → d ∈ expansionIDs loads x

/-- Whoever refers to a step that goes, refers to an id that is kept. -/
structure KeepsReferenced (loads : Loads) (steps : List Step) : Prop where
  stays : ∀ s ∈ remaining steps, ∀ d ∈ s.dependencies, Goes steps d → KeptID loads steps d
  roots : ∀ x ∈ inlined steps, HasRoot loads x → ∀ d ∈ x.dependencies, Goes steps d → KeptID loads steps d
  templates : ∀ x ∈ inlined steps, ∀ d ∈ expansionDependencies loads x,
    d ∈ (remaining steps).map (·.id) ∨ KeptID loads steps d

section References
variable {loads : Loads} {steps result : List Step} {d : String}

theorem mem_applyInlineExpansions (done : applyInlineExpansions loads steps = .ok result) :
    (∀ x ∈ inlined steps, ∃ expanded, inlineExpansion loads x = .ok expanded) ∧
      ∀ f, f ∈ fieldsOf result ↔ f ∈ remaining steps ∨ ComesFrom loads (inlined steps) f := by
  refine mem_applyInlineSteps (fun l plain => ?_) done
  exact applyInlineSteps_plain plain

private theorem mem_collectStepIDs_inline (done : applyInlineExpansions loads steps = .ok result) :
    d ∈ collectStepIDs result ↔
      d ∈ (remaining steps).map (·.id) ∨ ∃ x ∈ inlined steps, d ∈ expansionIDs loads x := by
  obtain ⟨loaded, all⟩ := mem_applyInlineExpansions done
  simp only [collectStepIDs_fieldsOf, List.mem_map, all, or_and_right, exists_or]
  refine or_congr_right ⟨?_, ?_⟩
  · rintro ⟨f, ⟨x, goes, expanded, filled, held⟩, rfl⟩
    refine ⟨x, goes, ?_⟩
    rw [← expansionIDs_eq filled, collectStepIDs_fieldsOf]
    exact List.mem_map_of_mem held
  · rintro ⟨x, goes, held⟩
    obtain ⟨expanded, filled⟩ := loaded x goes
    rw [← expansionIDs_eq filled, collectStepIDs_fieldsOf] at held
    obtain ⟨f, inside, rfl⟩ := List.mem_map.mp held
    exact ⟨f, ⟨x, goes, expanded, filled, inside⟩, rfl⟩

private theorem dependsOn_inline (done : applyInlineExpansions loads steps = .ok result) :
    (∃ a, DependsOn result a d) ↔ (∃ s ∈ remaining steps, d ∈ s.dependencies) ∨
      ∃ x ∈ inlined steps, d ∈ expansionDependencies loads x ∨
        HasRoot loads x ∧ d ∈ x.dependencies := by
  obtain ⟨loaded, all⟩ := mem_applyInlineExpansions done
  simp only [dependsOn_iff, all]
  constructor
  · rintro ⟨a, f, stays | ⟨x, goes, expanded, filled, held⟩, rfl, dep⟩
    · exact .inl ⟨f, stays, dep⟩
    · exact .inr ⟨x, goes, (dependsOn_inlineExpansion filled).mp ⟨_, dependsOn_iff.mpr ⟨f, held, rfl, dep⟩⟩⟩
  · rintro (⟨f, stays, dep⟩ | ⟨x, goes, dep⟩)
    · exact ⟨_, f, .inl stays, rfl, dep⟩
    · obtain ⟨expanded, filled⟩ := loaded x goes
      obtain ⟨a, edge⟩ := (dependsOn_inlineExpansion filled).mpr dep
      obtain ⟨f, held, same, dep⟩ := dependsOn_iff.mp edge
      exact ⟨a, f, .inr ⟨x, goes, expanded, filled, held⟩, same, dep⟩

end References

/-- Inline expansions leave every reference right exactly when nothing refers to a step that goes
but by an id that its expansion keeps. -/
theorem applyInlineExpansions_resolved_iff (loads : Loads) (steps result : List Step)
    (unique : (collectStepIDs steps).Nodup)
    (resolvable : ∀ a d, DependsOn steps a d → d ∈ collectStepIDs steps)
    (done : applyInlineExpansions loads steps = .ok result) :
    InlineResolved loads steps result ↔ KeepsReferenced loads steps := by
  obtain ⟨-, all⟩ := mem_applyInlineExpansions done
  constructor
  · intro resolved
    have known {d : String} (edge : ∃ a, DependsOn result a d)
        (gone : d ∉ (remaining steps).map (·.id)) :
        KeptID loads steps d := by
      obtain ⟨a, edge⟩ := edge
      refine ⟨((mem_collectStepIDs_inline done).mp (resolved.names a d edge)).resolve_left gone, ?_⟩
      rintro x goes rfl
      exact resolved.waits x goes a edge
    exact
      { stays := fun s stays d dep goes => known ((dependsOn_inline done).mpr (.inl ⟨s, stays, dep⟩)) goes.2
        roots := fun x goes root d dep gone =>
          known ((dependsOn_inline done).mpr (.inr ⟨x, goes, .inr ⟨root, dep⟩⟩)) gone.2
        templates := fun x goes d dep => by
          by_cases stays : d ∈ (remaining steps).map (·.id)
          · exact .inl stays
          · exact .inr (known ((dependsOn_inline done).mpr (.inr ⟨x, goes, .inl dep⟩)) stays) }
  · intro keeps
    have listed {f : StepFields} {d : String} (held : f ∈ fieldsOf steps) (dep : d ∈ f.dependencies)
        (kept : Goes steps d → KeptID loads steps d) : d ∈ (remaining steps).map (·.id) ∨ KeptID loads steps d := by
      by_cases stays : d ∈ (remaining steps).map (·.id)
      · exact .inl stays
      · exact .inr (kept ⟨resolvable _ _ (dependsOn_iff.mpr ⟨f, held, rfl, dep⟩), stays⟩)
    have right {a d : String} (edge : DependsOn result a d) :
        d ∈ (remaining steps).map (·.id) ∨ KeptID loads steps d := by
      rcases (dependsOn_inline done).mp ⟨a, edge⟩ with
        ⟨s, stays, dep⟩ | ⟨x, goes, dep | ⟨root, dep⟩⟩
      · exact listed (mem_remaining stays).1 dep (keeps.stays s stays d dep)
      · exact keeps.templates x goes d dep
      · exact listed (mem_inlined goes).1 dep (keeps.roots x goes root d dep)
    refine ⟨fun s stays => (all s).mpr (.inl stays), fun a d edge => ?_, fun x goes a edge => ?_⟩
    · exact (mem_collectStepIDs_inline done).mpr ((right edge).imp_right And.left)
    · rcases right edge with stays | kept
      · obtain ⟨f, stays, same⟩ := List.mem_map.mp stays
        exact absurd same.symm (remaining_ne_inlined unique stays goes)
      · exact kept.2 x goes rfl

/-- A step waits for one with an expansion. -/
def designAndReview : List Step :=
  [{ id := "design", expand := "drafted" }, { id := "review", needs := ["design"] }]

theorem designAndReview_resolvable :
    ∀ a d, DependsOn designAndReview a d → d ∈ collectStepIDs designAndReview := by
  have all : ∀ s ∈ nested designAndReview, ∀ d ∈ s.dependencies, d ∈ collectStepIDs designAndReview := by
    intro s held d dep
    have cases' : s = { id := "design", expand := "drafted" } ∨ s =
        { id := "review", needs := ["design"] } := by
      simpa [designAndReview, nested, Step.nested] using held
    rcases cases' with rfl | rfl
    · cases dep
    · rw [List.mem_singleton.mp dep]
      exact List.mem_cons_self
  rintro a d ⟨s, held, -, dep⟩
  exact all s held d dep

theorem applyInlineExpansions_designAndReview :
    InlineResolved (loading drafted) designAndReview
      [{ id := "design.draft" }, { id := "design", needs := ["design.draft"] },
        { id := "review", needs := ["design"] }] := by
  have design : inlined designAndReview = [{ id := "design", expand := "drafted" }] := rfl
  have ids : expansionIDs (loading drafted) { id := "design", expand := "drafted" } =
      ["design.draft", "design"] := rfl
  have kept (d : String) (among : d ∈ ["design.draft", "design"]) :
      KeptID (loading drafted) designAndReview d := by
    unfold KeptID
    simp only [design, List.mem_singleton, exists_eq_left, forall_eq, ids]
    exact ⟨among, fun _ => among⟩
  refine (applyInlineExpansions_resolved_iff (loading drafted) designAndReview _ (by decide)
    designAndReview_resolvable rfl).mpr ⟨?_, ?_, ?_⟩
  · intro s held d dep _
    have review : s = { id := "review", needs := ["design"] } := List.mem_singleton.mp held
    rw [review] at dep
    exact kept d (List.mem_cons_of_mem _ dep)
  · intro x held _ d dep
    rw [design, List.mem_singleton] at held
    rw [held] at dep
    cases dep
  · intro x held d dep
    rw [design, List.mem_singleton] at held
    rw [held] at dep
    have deps : expansionDependencies (loading drafted) { id := "design", expand := "drafted" } =
        ["design.draft"] :=
      rfl
    rw [deps, List.mem_singleton] at dep
    exact .inr (kept d (dep ▸ List.mem_cons_self))

/-- The review still names the design, which is gone. -/
theorem applyInlineExpansions_dangling :
    ∃ result, (collectStepIDs designAndReview).Nodup ∧
      (∀ a d, DependsOn designAndReview a d → d ∈ collectStepIDs designAndReview) ∧
      applyInlineExpansions (loading [{ id := "\x7btarget\x7d.draft" }]) designAndReview = .ok result ∧
      DependsOn result "review" "design" ∧ "design" ∉ collectStepIDs result := by
  refine ⟨[{ id := "design.draft" }, { id := "review", needs := ["design"] }], by decide,
    designAndReview_resolvable,
    rfl, ⟨{ id := "review", needs := ["design"] }, ?_, rfl, List.mem_cons_self⟩, by decide⟩
  exact List.mem_cons_of_mem _ List.mem_cons_self

end Beads.Formula
