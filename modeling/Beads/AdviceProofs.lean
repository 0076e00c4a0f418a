import Mathlib.Data.List.Pairwise
import Mathlib.Data.List.Perm.Basic
import Beads.Lib.Graph
import Beads.Advice

/-! What advice does to the steps: it puts chains of steps around those that match, and leaves the
tree otherwise as it was. -/
namespace Beads.Formula
open Beads.Lib.Graph Relation

/-! ## The steps that are inserted -/

/-- The ids of the steps that advice inserts anywhere. -/
def insertedIDs (advice : List AdviceRule) (steps : List Step) : List String :=
  (nested steps).flatMap fun s => (beforeSteps advice s.toStepFields ++ afterSteps advice s.toStepFields).map (·.id)

mutual

def Step.without (ids : List String) : Step → List Step
  | ⟨fields, children, loop⟩ =>
    if fields.id ∈ ids then []
    else
      let fields := { fields with
        needs := fields.needs.filter fun dep => dep ∉ ids
        dependsOn := fields.dependsOn.filter fun dep => dep ∉ ids }
      [⟨fields, without ids children, loop⟩]

/-- The tree without the steps that have these ids, and without the references to them. -/
def without (ids : List String) : List Step → List Step
  | [] => []
  | s :: rest => s.without ids ++ without ids rest

end

/-- A step needs another. -/
def Needs (steps : List Step) (x y : String) : Prop := ∃ s ∈ nested steps, s.id = x ∧ y ∈ s.needs

/-- A step of the tree with advice. -/
def adviseFields (advice : List AdviceRule) (fields : StepFields) : StepFields :=
  match (beforeSteps advice fields).getLast? with
  | some last => { fields with needs := appendUnique fields.needs last.id }
  | none => fields

/-- The tree with advice. -/
def advise (advice : List AdviceRule) (steps : List Step) : List Step :=
  applyAdviceWithGuard advice (collectStepIDs steps) steps

section Shape
variable {advice : List AdviceRule} {s t : Step} {steps rest l : List Step} {ids : List String}
  {previous : String}

theorem collectStepIDs_eq (steps : List Step) :
    collectStepIDs steps = (nested steps).map (·.id) := by
  unfold collectStepIDs
  induction steps using forest_induction with
  | nil => rfl
  | cons s rest below _ behind =>
    obtain ⟨fields, children, loop⟩ := s
    rw [nested_cons, List.map_cons, List.map_append, ← below, ← behind]
    rfl

theorem applyAdviceWithGuard_cons (known : s.id ∈ ids) :
    applyAdviceWithGuard advice ids (s :: rest) =
      chainBefore (beforeSteps advice s.toStepFields) ++
        ⟨adviseFields advice s.toStepFields, advise advice s.children, s.loop⟩ ::
          (chainSteps s.id (afterSteps advice s.toStepFields) ++ applyAdviceWithGuard advice ids rest) := by
  obtain ⟨fields, children, loop⟩ := s
  rw [applyAdviceWithGuard, Step.applyAdvice, if_neg (not_not.mpr known)]
  simp only [List.append_assoc, List.cons_append]
  rfl

/-- The steps are all among the original ones. -/
theorem applyAdviceWithGuard_eq (known : ∀ s ∈ steps, s.id ∈ ids) :
    applyAdviceWithGuard advice ids steps = advise advice steps := by
  have any (ids' : List String) (known' : ∀ s ∈ steps, s.id ∈ ids') :
      applyAdviceWithGuard advice ids steps = applyAdviceWithGuard advice ids' steps := by
    induction steps with
    | nil => rfl
    | cons s rest ih =>
      rw [List.forall_mem_cons] at known known'
      rw [applyAdviceWithGuard_cons known.1, applyAdviceWithGuard_cons known'.1,
        ih known.2 known'.2]
  refine any _ fun s held => ?_
  rw [collectStepIDs_eq]
  exact List.mem_map_of_mem (mem_nested_of_mem held)

theorem advise_cons :
    advise advice (s :: rest) =
      chainBefore (beforeSteps advice s.toStepFields) ++
        ⟨adviseFields advice s.toStepFields, advise advice s.children, s.loop⟩ ::
          (chainSteps s.id (afterSteps advice s.toStepFields) ++ advise advice rest) := by
  have known : ∀ t ∈ s :: rest, t.id ∈ collectStepIDs (s :: rest) := fun t held => by
    rw [collectStepIDs_eq]
    exact List.mem_map_of_mem (mem_nested_of_mem held)
  rw [List.forall_mem_cons] at known
  rw [advise, applyAdviceWithGuard_cons known.1, applyAdviceWithGuard_eq known.2]

private theorem applyAdvice_eq (advice : List AdviceRule) (steps : List Step) :
    applyAdvice steps advice = advise advice steps := by
  unfold applyAdvice
  cases advice with
  | cons rule advice => rfl
  | nil =>
    rw [if_pos List.isEmpty_nil]
    induction steps using forest_induction with
    | nil => rfl
    | cons s rest below _ behind =>
      obtain ⟨fields, children, loop⟩ := s
      rw [advise_cons, ← below, ← behind]
      rfl

/-! ## The original tree -/

private theorem without_append :
    without ids (steps ++ rest) = without ids steps ++ without ids rest := by
  induction steps with
  | nil => rfl
  | cons s steps ih => rw [List.cons_append, without, without, ih, List.append_assoc]

private theorem without_all (gone : ∀ s ∈ steps, s.id ∈ ids) : without ids steps = [] := by
  induction steps with
  | nil => rfl
  | cons s rest ih =>
    rw [List.forall_mem_cons] at gone
    obtain ⟨fields, children, loop⟩ := s
    rw [without, Step.without, if_pos gone.1, ih gone.2]
    rfl

theorem chainSteps_ids (previous : String) (l : List Step) :
    (chainSteps previous l).map (·.id) = l.map (·.id) := by
  induction l generalizing previous with
  | nil => rfl
  | cons s l ih =>
    rw [chainSteps, List.map_cons, ih]
    rfl

private theorem chainBefore_ids (l : List Step) : (chainBefore l).map (·.id) = l.map (·.id) := by
  cases l with
  | nil => rfl
  | cons s l => rw [chainBefore, List.map_cons, chainSteps_ids, List.map_cons]

private theorem gone_of_ids (same : rest.map (·.id) = steps.map (·.id))
    (gone : ∀ s ∈ steps, s.id ∈ ids) :
    ∀ s ∈ rest, s.id ∈ ids := by
  intro s held
  obtain ⟨t, among, equal⟩ := List.mem_map.mp (same ▸ List.mem_map_of_mem held)
  exact equal ▸ gone t among

theorem filter_kept {deps : List String} (kept : ∀ dep ∈ deps, dep ∉ ids) :
    (deps.filter fun dep => dep ∉ ids) = deps := by
  simpa [List.filter_eq_self] using kept

theorem adviseFields_eq (advice : List AdviceRule) (fields : StepFields) :
    ∃ needs, adviseFields advice fields = { fields with needs } := by
  unfold adviseFields
  cases (beforeSteps advice fields).getLast? with
  | none => exact ⟨fields.needs, rfl⟩
  | some last => exact ⟨_, rfl⟩

/-- The need of a step before is removed again. -/
theorem filter_adviseFields {fields : StepFields}
    (gone : ∀ s ∈ beforeSteps advice fields, s.id ∈ ids) (kept : ∀ dep ∈ fields.needs, dep ∉ ids) :
    ((adviseFields advice fields).needs.filter fun dep => dep ∉ ids) = fields.needs := by
  unfold adviseFields
  cases last : (beforeSteps advice fields).getLast? with
  | none => exact filter_kept kept
  | some s =>
    have inside : s.id ∈ ids := gone s (List.mem_of_getLast? last)
    have new : s.id ∉ fields.needs := fun held => kept _ held inside
    dsimp only
    rw [appendUnique, if_neg new, List.filter_append, filter_kept kept]
    simp [inside]

/-- A step of the tree is itself again. -/
theorem without_cons_advised {children : List Step} (ownID : s.id ∉ ids)
    (gone : ∀ t ∈ beforeSteps advice s.toStepFields, t.id ∈ ids)
    (kept : ∀ dep ∈ s.dependencies, dep ∉ ids) :
    without ids (⟨adviseFields advice s.toStepFields, children, s.loop⟩ :: rest) =
      ⟨s.toStepFields, without ids children, s.loop⟩ :: without ids rest := by
  have needs := filter_adviseFields gone fun dep held => kept dep (List.mem_append_left _ held)
  have dependsOn := filter_kept fun dep held => kept dep (List.mem_append_right _ held)
  obtain ⟨needs', shape⟩ := adviseFields_eq advice s.toStepFields
  rw [shape] at needs
  have own : ¬({ s.toStepFields with needs := needs' } : StepFields).id ∈ ids := ownID
  rw [shape, without, Step.without, if_neg own, List.singleton_append, needs, dependsOn]

private theorem insertedIDs_cons :
    insertedIDs advice (s :: rest) =
      (beforeSteps advice s.toStepFields ++ afterSteps advice s.toStepFields).map (·.id) ++
        (insertedIDs advice s.children ++ insertedIDs advice rest) := by
  rw [insertedIDs, nested_cons, List.flatMap_cons, List.flatMap_append]
  rfl

private theorem without_advise (gone : ∀ id ∈ insertedIDs advice steps, id ∈ ids)
    (kept : ∀ s ∈ nested steps, s.id ∉ ids ∧ ∀ dep ∈ s.dependencies, dep ∉ ids) :
    without ids (advise advice steps) = steps := by
  induction steps using forest_induction with
  | nil => rfl
  | cons s rest below _ behind =>
    rw [insertedIDs_cons] at gone
    rw [nested_cons] at kept
    obtain ⟨⟨ownID, ownDeps⟩, kept⟩ := List.forall_mem_cons.mp kept
    obtain ⟨gone, goneRest⟩ := List.forall_mem_append.mp gone
    obtain ⟨goneBelow, goneBehind⟩ := List.forall_mem_append.mp goneRest
    obtain ⟨keptBelow, keptBehind⟩ := List.forall_mem_append.mp kept
    have around : ∀ t ∈ beforeSteps advice s.toStepFields ++ afterSteps advice s.toStepFields, t.id ∈ ids :=
      fun t held => gone _ (List.mem_map_of_mem held)
    obtain ⟨before, after⟩ := List.forall_mem_append.mp around
    rw [advise_cons, without_append, without_all (gone_of_ids (chainBefore_ids _) before),
      List.nil_append, without_cons_advised ownID before ownDeps, without_append,
      without_all (gone_of_ids (chainSteps_ids _ _) after), List.nil_append, behind goneBehind keptBehind,
      below goneBelow keptBelow]
    cases s
    rfl

/-! ## The steps with advice -/

/-- The steps at any depth, without what is nested in them. -/
def fieldsOf (steps : List Step) : List StepFields := (nested steps).map (·.toStepFields)

/-- A step and what advice puts around it. -/
def block (advice : List AdviceRule) (f : StepFields) : List StepFields :=
  (chainBefore (beforeSteps advice f)).map (·.toStepFields) ++
    adviseFields advice f :: (chainSteps f.id (afterSteps advice f)).map (·.toStepFields)

/-- Steps that advice inserts: nothing is nested in them, and they wait for nothing. -/
def Bare (s : Step) : Prop := s.children = [] ∧ s.dependencies = []

theorem bare_adviceSteps {choose : AdviceRule → List AdviceStep} {f : StepFields} :
    ∀ s ∈ adviceSteps choose advice f, Bare s := by
  intro s held
  obtain ⟨rule, -, held⟩ := List.mem_flatMap.mp held
  by_cases matched : matchGlob rule.target f.id = true
  · rw [if_pos matched] at held
    obtain ⟨as, -, rfl⟩ := List.mem_map.mp held
    exact ⟨rfl, rfl⟩
  · rw [if_neg matched] at held
    cases held

private theorem nested_leaves (leaves : ∀ s ∈ steps, s.children = []) : nested steps = steps := by
  induction steps with
  | nil => rfl
  | cons s rest ih =>
    rw [List.forall_mem_cons] at leaves
    rw [nested_cons, leaves.1, ih leaves.2]
    rfl

theorem chainSteps_leaves (leaves : ∀ s ∈ l, s.children = []) :
    ∀ s ∈ chainSteps previous l, s.children = [] := by
  induction l generalizing previous with
  | nil => exact leaves
  | cons s l ih =>
    rw [List.forall_mem_cons] at leaves
    exact List.forall_mem_cons.mpr ⟨leaves.1, ih leaves.2⟩

private theorem chainBefore_leaves (leaves : ∀ s ∈ l, s.children = []) :
    ∀ s ∈ chainBefore l, s.children = [] := by
  cases l with
  | nil => exact leaves
  | cons s l =>
    rw [List.forall_mem_cons] at leaves
    exact List.forall_mem_cons.mpr ⟨leaves.1, chainSteps_leaves leaves.2⟩

/-- Each step has its block among the steps with advice. -/
theorem fieldsOf_advise (advice : List AdviceRule) (steps : List Step) :
    (fieldsOf (advise advice steps)).Perm ((fieldsOf steps).flatMap (block advice)) := by
  induction steps using forest_induction with
  | nil => rfl
  | cons s rest below _ behind =>
    have before : nested (chainBefore (beforeSteps advice s.toStepFields)) =
        chainBefore (beforeSteps advice s.toStepFields) :=
      nested_leaves (chainBefore_leaves fun t held => (bare_adviceSteps t held).1)
    have after : nested (chainSteps s.id (afterSteps advice s.toStepFields)) =
        chainSteps s.id (afterSteps advice s.toStepFields) :=
      nested_leaves (chainSteps_leaves fun t held => (bare_adviceSteps t held).1)
    have shape : fieldsOf (advise advice (s :: rest)) =
        (chainBefore (beforeSteps advice s.toStepFields)).map (·.toStepFields) ++ adviseFields advice s.toStepFields ::
          (fieldsOf (advise advice s.children) ++
            ((chainSteps s.id (afterSteps advice s.toStepFields)).map (·.toStepFields) ++
              fieldsOf (advise advice rest))) := by
      rw [fieldsOf, advise_cons, nested_append, before, nested_cons, nested_append, after]
      simp only [List.map_append, List.map_cons]
      rfl
    have all : fieldsOf (s :: rest) = s.toStepFields :: (fieldsOf s.children ++ fieldsOf rest) := by
      rw [fieldsOf, nested_cons, List.map_cons, List.map_append]
      rfl
    rw [shape, all, List.flatMap_cons, List.flatMap_append, block, List.append_assoc,
      List.cons_append]
    refine .append_left _ (.cons _ ?_)
    exact (List.perm_append_comm_assoc _ _ _).trans (.append_left _ (below.append behind))

theorem mem_fieldsOf_advise {g : StepFields} :
    g ∈ fieldsOf (advise advice steps) ↔ ∃ f ∈ fieldsOf steps, g ∈ block advice f :=
  (fieldsOf_advise advice steps).mem_iff.trans List.mem_flatMap

/-! ## Chains -/

section Reaching
variable {needs : String → String → Prop}

/-- All steps of a chain need what is in front of it. -/
theorem chainSteps_reach (edges : ∀ t ∈ chainSteps previous l, ∀ dep ∈ t.needs, needs t.id dep) :
    ∀ s ∈ l, TransGen needs s.id previous := by
  induction l generalizing previous with
  | nil => exact fun s held => absurd held List.not_mem_nil
  | cons s l ih =>
    rw [chainSteps, List.forall_mem_cons] at edges
    have first : needs s.id previous := edges.1 previous (mem_appendUnique.mpr (.inr rfl))
    refine List.forall_mem_cons.mpr ⟨.single first, fun t held => ?_⟩
    exact (ih edges.2 t held).tail first

/-- The last step of a chain needs all others. -/
theorem chainSteps_last {first : Step} (edges : ∀ t ∈ chainSteps first.id l, ∀ dep ∈ t.needs, needs t.id dep) :
    ∀ t ∈ first :: l, ReflTransGen needs (l.getLastD first).id t.id := by
  induction l generalizing first with
  | nil => exact fun t held => List.mem_singleton.mp held ▸ .refl
  | cons s l ih =>
    rw [chainSteps, List.forall_mem_cons] at edges
    have step : needs s.id first.id := edges.1 first.id (mem_appendUnique.mpr (.inr rfl))
    have later := ih edges.2
    rw [List.getLastD_cons]
    refine List.forall_mem_cons.mpr ⟨?_, later⟩
    exact (later s List.mem_cons_self).tail step

end Reaching

theorem needs_iff {x y : String} :
    Needs steps x y ↔ ∃ f ∈ fieldsOf steps, f.id = x ∧ y ∈ f.needs := by
  simp [Needs, fieldsOf]

theorem dependsOn_iff {x y : String} :
    DependsOn steps x y ↔ ∃ f ∈ fieldsOf steps, f.id = x ∧ y ∈ f.dependencies := by
  simp [DependsOn, fieldsOf]

theorem adviseFields_id (f : StepFields) : (adviseFields advice f).id = f.id := by
  obtain ⟨needs, shape⟩ := adviseFields_eq advice f
  rw [shape]

/-- A step needs all steps that come before it. -/
theorem needs_before (held : s ∈ nested steps) (before : t ∈ beforeSteps advice s.toStepFields) :
    TransGen (Needs (advise advice steps)) s.id t.id := by
  have inside {g : StepFields} (among : g ∈ block advice s.toStepFields) (dep : String)
      (needed : dep ∈ g.needs) :
      Needs (advise advice steps) g.id dep :=
    needs_iff.mpr ⟨g, mem_fieldsOf_advise.mpr ⟨_, List.mem_map_of_mem held, among⟩, rfl, needed⟩
  cases shape : beforeSteps advice s.toStepFields with
  | nil =>
    rw [shape] at before
    cases before
  | cons first others =>
    have chain := chainSteps_last fun g (among : g ∈ chainSteps first.id others) => inside (by
      rw [block, shape, chainBefore, List.mem_append]
      exact .inl (List.mem_map_of_mem (List.mem_cons_of_mem _ among)))
    have last : (others.getLastD first).id ∈ (adviseFields advice s.toStepFields).needs := by
      unfold adviseFields
      rw [shape, List.getLast?_cons, List.getLastD_eq_getLast?]
      exact mem_appendUnique.mpr (.inr rfl)
    have own : Needs (advise advice steps) (adviseFields advice s.toStepFields).id
        (others.getLastD first).id :=
      inside (by simp [block]) _ last
    rw [adviseFields_id] at own
    exact .head' own (chain t (shape ▸ before))

/-- All steps that come after a step need it. -/
theorem needs_after (held : s ∈ nested steps) (after : t ∈ afterSteps advice s.toStepFields) :
    TransGen (Needs (advise advice steps)) t.id s.id := by
  refine chainSteps_reach (fun g among dep needed => needs_iff.mpr ⟨g.toStepFields, ?_, rfl, needed⟩) t after
  refine mem_fieldsOf_advise.mpr ⟨_, List.mem_map_of_mem held, ?_⟩
  rw [block, List.mem_append, List.mem_cons]
  exact .inr (.inr (List.mem_map_of_mem among))

/-! ## Acyclic dependencies -/

/-- The ids of a step and of the steps around it, in order. -/
def chainIDs (advice : List AdviceRule) (f : StepFields) : List String :=
  (beforeSteps advice f).map (·.id) ++ f.id :: (afterSteps advice f).map (·.id)

theorem chainSteps_edges {y : String} (bare : ∀ s ∈ l, Bare s) (held : t ∈ chainSteps previous l)
    (dep : y ∈ t.dependencies) : [y, t.id] <:+: previous :: l.map (·.id) := by
  induction l generalizing previous with
  | nil => cases held
  | cons s l ih =>
    rw [List.forall_mem_cons] at bare
    rcases List.mem_cons.mp held with rfl | held
    · have only : y = previous := by
        obtain ⟨needs, dependsOn⟩ := List.append_eq_nil_iff.mp bare.1.2
        rcases List.mem_append.mp dep with needed | other
        · have either := mem_appendUnique.mp needed
          rw [needs] at either
          exact either.resolve_left List.not_mem_nil
        · have other : y ∈ s.dependsOn := other
          rw [dependsOn] at other
          cases other
      subst only
      exact List.IsPrefix.isInfix ⟨l.map (·.id), rfl⟩
    · exact List.infix_cons (ih bare.2 held)

private theorem chainBefore_edges {y : String} (bare : ∀ s ∈ l, Bare s) (held : t ∈ chainBefore l)
    (dep : y ∈ t.dependencies) : [y, t.id] <:+: l.map (·.id) := by
  cases l with
  | nil => cases held
  | cons s l =>
    rw [List.forall_mem_cons] at bare
    rcases List.mem_cons.mp held with rfl | held
    · rw [bare.1.2] at dep
      cases dep
    · exact chainSteps_edges bare.2 held dep

private theorem adviseFields_edges {f : StepFields} {y : String}
    (dep : y ∈ (adviseFields advice f).dependencies) :
    y ∈ f.dependencies ∨ [y, f.id] <:+: (beforeSteps advice f).map (·.id) ++ [f.id] := by
  unfold adviseFields at dep
  cases last : (beforeSteps advice f).getLast? with
  | none =>
    rw [last] at dep
    exact .inl dep
  | some s =>
    rw [last] at dep
    rcases List.mem_append.mp dep with needed | other
    · rcases mem_appendUnique.mp needed with own | rfl
      · exact .inl (List.mem_append_left _ own)
      · obtain ⟨front, shape⟩ := List.getLast?_eq_some_iff.mp last
        exact .inr ⟨front.map (·.id), [], by simp [shape]⟩
    · exact .inl (List.mem_append_right _ other)

/-- What a step waits for it waited for before, or it stands right behind it in the chain. -/
theorem block_edges {f g : StepFields} {y : String} (held : g ∈ block advice f)
    (dep : y ∈ g.dependencies) :
    g.id = f.id ∧ y ∈ f.dependencies ∨ [y, g.id] <:+: chainIDs advice f := by
  rcases List.mem_append.mp held with before | held
  · obtain ⟨t, among, rfl⟩ := List.mem_map.mp before
    exact .inr ((chainBefore_edges bare_adviceSteps among dep).trans (List.prefix_append _ _).isInfix)
  rcases List.mem_cons.mp held with rfl | after
  · rw [adviseFields_id]
    refine (adviseFields_edges dep).imp (fun own => ⟨rfl, own⟩) fun chained => chained.trans ?_
    exact ⟨[], (afterSteps advice f).map (·.id), by simp [chainIDs]⟩
  · obtain ⟨t, among, rfl⟩ := List.mem_map.mp after
    exact .inr ((chainSteps_edges bare_adviceSteps among dep).trans (List.suffix_append _ _).isInfix)

private theorem idxOf_lt {ids : List String} {x y : String} (once : ids.Nodup)
    (next : [y, x] <:+: ids) :
    ids.idxOf y < ids.idxOf x := by
  obtain ⟨front, behind, rfl⟩ := next
  have once' : (front ++ ([y, x] ++ behind)).Nodup := by rwa [← List.append_assoc]
  obtain ⟨-, tail, apart⟩ := List.nodup_append.mp once'
  have absent {z : String} (held : z ∈ [y, x] ++ behind) : z ∉ front :=
    fun among => apart z among z held rfl
  have different : y ≠ x := fun same => by simp [same] at tail
  rw [List.append_assoc, List.idxOf_append_of_notMem (absent (by simp)),
    List.idxOf_append_of_notMem (absent (by simp))]
  simp [different]


/-- The step around which advice has put a step, if it is not that step itself. -/
def ownerOf (advice : List AdviceRule) (steps : List Step) (x : String) : Option StepFields :=
  (fieldsOf steps).find? fun f => x ∈ chainIDs advice f

private theorem ownerOf_eq {f : StepFields} {x : String}
    (once : ((fieldsOf steps).flatMap (chainIDs advice)).Nodup)
    (held : f ∈ fieldsOf steps) (among : x ∈ chainIDs advice f) :
    ownerOf advice steps x = some f := by
  unfold ownerOf
  cases found : (fieldsOf steps).find? fun f => decide (x ∈ chainIDs advice f) with
  | none => exact absurd among (by simpa using List.find?_eq_none.mp found f held)
  | some g =>
    have among' : x ∈ chainIDs advice g := by simpa using List.find?_some found
    by_contra different
    have symm : Std.Symm (Function.onFun List.Disjoint (chainIDs advice)) :=
      ⟨fun _ _ apart => apart.symm⟩
    have apart :=
      (List.nodup_flatMap.mp once).2.forall held (List.mem_of_find?_eq_some found) fun same =>
        different (same ▸ rfl)
    exact apart among among'

/-- The rules insert steps with new ids, each a different one. -/
structure Fresh (advice : List AdviceRule) (steps : List Step) : Prop where
  distinct : (insertedIDs advice steps).Nodup
  new : ∀ s ∈ nested steps, s.id ∉ insertedIDs advice steps ∧ ∀ dep ∈ s.dependencies, dep ∉ insertedIDs advice steps

private theorem nodup_chains (unique : (collectStepIDs steps).Nodup) (fresh : Fresh advice steps) :
    ((fieldsOf steps).flatMap (chainIDs advice)).Nodup := by
  have split :
      ((fieldsOf steps).flatMap (chainIDs advice)).Perm (collectStepIDs steps ++ insertedIDs advice steps) := by
    rw [collectStepIDs_eq, insertedIDs, fieldsOf, List.flatMap_map]
    refine .trans (List.Perm.flatMap_left _ fun s _ => ?_) (List.map_append_flatMap_perm _ _ _).symm
    rw [List.map_append]
    exact List.perm_middle
  refine split.nodup_iff.mpr (List.nodup_append.mpr ⟨unique, fresh.distinct, ?_⟩)
  rintro id held _ held' rfl
  rw [collectStepIDs_eq] at held
  obtain ⟨s, among, rfl⟩ := List.mem_map.mp held
  exact (fresh.new s among).1 held'

/-- A reference of the tree is to no step that was inserted. -/
theorem owner_reference {f : StepFields} {y : String} (fresh : Fresh advice steps)
    (held : f ∈ fieldsOf steps)
    (dep : y ∈ f.dependencies) : ((ownerOf advice steps y).map (·.id)).getD y = y := by
  cases found : ownerOf advice steps y with
  | none => rfl
  | some g =>
    obtain ⟨s, within, rfl⟩ := List.mem_map.mp held
    obtain ⟨t, among, rfl⟩ := List.mem_map.mp (List.mem_of_find?_eq_some found)
    have inside : y ∈ chainIDs advice t.toStepFields := by simpa using List.find?_some found
    have inserted {l : List Step} (sub : l ⊆ beforeSteps advice t.toStepFields ++ afterSteps advice t.toStepFields)
        (at' : y ∈ l.map (·.id)) : False := by
      refine (fresh.new s within).2 y dep (List.mem_flatMap.mpr ⟨t, among, ?_⟩)
      exact List.map_subset _ sub at'
    rcases List.mem_append.mp inside with before | inside
    · exact (inserted (List.subset_append_left _ _) before).elim
    rcases List.mem_cons.mp inside with rfl | after
    · rfl
    · exact (inserted (List.subset_append_right _ _) after).elim

private theorem acyclic_advise (unique : (collectStepIDs steps).Nodup) (fresh : Fresh advice steps)
    (acyclic : Acyclic (DependsOn steps)) : Acyclic (DependsOn (advise advice steps)) := by
  have once := nodup_chains unique fresh
  let owner (x : String) : String := ((ownerOf advice steps x).map (·.id)).getD x
  let rank (x : String) : Nat :=
    ((ownerOf advice steps x).map fun f => (chainIDs advice f).idxOf x).getD 0
  refine acyclic.collapse owner (acyclic_of_gt rank fun _ _ falls => falls) fun x y edge => ?_
  obtain ⟨g, held, rfl, dep⟩ := dependsOn_iff.mp edge
  obtain ⟨f, among, inside⟩ := mem_fieldsOf_advise.mp held
  have own {x : String} (at' : x ∈ chainIDs advice f) :
      owner x = f.id ∧ rank x = (chainIDs advice f).idxOf x := by
    simp only [owner, rank, ownerOf_eq once among at', Option.map_some, Option.getD_some, and_self]
  rcases block_edges inside dep with ⟨same, before⟩ | chained
  · left
    have here : owner g.id = f.id := (own (same ▸ by simp [chainIDs])).1
    have there : owner y = y := owner_reference fresh among before
    rw [here, there]
    exact dependsOn_iff.mpr ⟨f, among, rfl, before⟩
  · right
    have once' : (chainIDs advice f).Nodup := (List.nodup_flatMap.mp once).1 f among
    obtain ⟨ownerX, rankX⟩ := own (chained.subset (by simp) : g.id ∈ chainIDs advice f)
    obtain ⟨ownerY, rankY⟩ := own (chained.subset (by simp) : y ∈ chainIDs advice f)
    refine ⟨ownerX.trans ownerY.symm, ?_⟩
    rw [rankX, rankY]
    exact idxOf_lt once' chained

end Shape

/-- Removing what advice has inserted gives back the tree. A step needs all steps before it, the
steps after it need it, and the steps wait for each other without a cycle as before. -/
theorem applyAdvice_frame (advice : List AdviceRule) (steps : List Step)
    (unique : (collectStepIDs steps).Nodup) (fresh : Fresh advice steps) :
    without (insertedIDs advice steps) (applyAdvice steps advice) = steps ∧
      (∀ s ∈ nested steps, ∀ t ∈ beforeSteps advice s.toStepFields,
        TransGen (Needs (applyAdvice steps advice)) s.id t.id) ∧
      (∀ s ∈ nested steps, ∀ t ∈ afterSteps advice s.toStepFields,
        TransGen (Needs (applyAdvice steps advice)) t.id s.id) ∧
      (Acyclic (DependsOn steps) → Acyclic (DependsOn (applyAdvice steps advice))) := by
  rw [applyAdvice_eq]
  exact ⟨without_advise (fun _ held => held) fresh.new,
    fun s held t before => needs_before held before,
    fun s held t after => needs_after held after, acyclic_advise unique fresh⟩

/-- Every step is logged, and what is implemented is also reviewed. -/
def logAndReview : List AdviceRule :=
  [{ target := "*", before := some { id := "log-\x7bstep.id\x7d" } },
   { target := "implement*", around := some { before := [{ id := "plan-\x7bstep.id\x7d" }],
                                               after := [{ id := "review-\x7bstep.id\x7d" }] } }]

def designAndImplement : List Step :=
  [{ id := "design" }, { id := "implement", needs := ["design"], children := [{ id := "implement.test" }] }]

theorem applyAdvice_frame_logAndReview :
    without (insertedIDs logAndReview designAndImplement) (applyAdvice designAndImplement logAndReview) =
        designAndImplement ∧
      Acyclic (DependsOn (applyAdvice designAndImplement logAndReview)) := by
  have fresh : Fresh logAndReview designAndImplement := ⟨by decide, by decide⟩
  have acyclic : Acyclic (DependsOn designAndImplement) := by
    refine acyclic_of_gt (fun id => if id = "implement" then 1 else 0) fun x y edge => ?_
    obtain ⟨f, held, rfl, dep⟩ := edge
    have all : ∀ f ∈ nested designAndImplement, ∀ y ∈ f.dependencies,
        (if y = "implement" then 1 else 0) < if f.id = "implement" then 1 else 0 := by decide
    exact all f held y dep
  obtain ⟨frame, -, -, still⟩ := applyAdvice_frame logAndReview designAndImplement (by decide) fresh
  exact ⟨frame, still acyclic⟩

end Beads.Formula
