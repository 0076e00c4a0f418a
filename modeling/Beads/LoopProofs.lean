import Mathlib.Data.List.Forall2
import Beads.Loops
import Beads.Lib.Numbering
import Beads.Lib.Terminated

/-! What the expansion of loops produces: the fields of the steps that are not loops, and those of
the iterations of the others, with more needs where iterations are chained. -/
namespace Beads.Formula
open Lib

/-! ## Results -/

section Results
variable {α β : Type} {x : ExceptT String Option α} {f : α → ExceptT String Option β} {b : β}

theorem run_bind_ok :
    (x >>= f).run = some (.ok b) ↔ ∃ a, x.run = some (.ok a) ∧ (f a).run = some (.ok b) := by
  rw [ExceptT.run_bind]
  cases result : x.run with
  | none => simp
  | some outcome =>
    cases outcome with
    | error err => simp
    | ok a => simp

theorem run_pure_ok {a : α} {b : α} :
    (pure a : ExceptT String Option α).run = some (.ok b) ↔ a = b := by
  simp [ExceptT.run_pure]

private theorem not_run_throw_ok {err : String} {a : α} :
    (throw err : ExceptT String Option α).run ≠ some (.ok a) := by
  simp

end Results

/-! ## The walk over the steps -/

/-- The fields of all steps of a result. -/
def produced (steps : List Step) : List StepFields := (allSteps steps).map Step.toStepFields

section Walk
variable {reads : LoopSyntax} {expand : Step → LoopSpec Step → Expansion} {steps result : List Step}
  {s : Step}
  {f : StepFields}

theorem produced_append {steps' : List Step} :
    produced (steps ++ steps') = produced steps ++ produced steps' := by
  rw [produced, allSteps_append, List.map_append]
  rfl

theorem produced_cons {rest : List Step} : produced (s :: rest) =
    s.toStepFields :: ((allSteps s.children ++ loopSteps s.loop).map Step.toStepFields ++ produced rest) := by
  simp [produced, allSteps_cons]

theorem produced_plain {fields : StepFields} {children rest : List Step} :
    produced (⟨fields, children, none⟩ :: rest) = fields :: (produced children ++ produced rest) := by
  rw [produced_cons]
  simp [produced, loopSteps]

theorem applySteps_cons_ok {rest : List Step} :
    (applySteps reads expand (s :: rest)).run = some (.ok result) ↔
      ∃ first others, (s.applyLoop reads expand).run = some (.ok first) ∧
        (applySteps reads expand rest).run = some (.ok others) ∧ first ++ others = result := by
  rw [applySteps, run_bind_ok]
  simp only [run_bind_ok, run_pure_ok]
  constructor
  · rintro ⟨first, done, others, done', same⟩
    exact ⟨first, others, done, done', same⟩
  · rintro ⟨first, others, done, done', same⟩
    exact ⟨first, done, others, done', same⟩

theorem applyLoop_plain_ok (plain : s.loop = none) :
    (s.applyLoop reads expand).run = some (.ok result) ↔
      ∃ children, (applySteps reads expand s.children).run = some (.ok children) ∧
        [⟨s.toStepFields, children, none⟩] = result := by
  obtain ⟨fields, children, _⟩ := s
  cases plain
  rw [Step.applyLoop, run_bind_ok]
  simp only [run_pure_ok]

theorem applyLoop_loop_ok {loop : LoopSpec Step} (looping : s.loop = some loop) :
    (s.applyLoop reads expand).run = some (.ok result) ↔
      validateLoopSpec reads loop s.id = .ok () ∧ (expand s loop).run = some (.ok result) := by
  obtain ⟨fields, children, _⟩ := s
  cases looping
  rw [Step.applyLoop, run_bind_ok]
  constructor
  · rintro ⟨⟨⟩, valid, done⟩
    exact ⟨Option.some.inj valid, done⟩
  · rintro ⟨valid, done⟩
    exact ⟨(), congrArg some valid, done⟩

/-- A walk produces the steps that are not loops, and what the loops are expanded to. -/
theorem mem_produced_applySteps (found : (applySteps reads expand steps).run = some (.ok result)) :
    f ∈ produced result ↔ (∃ s ∈ visible steps, s.loop = none ∧ s.toStepFields = f) ∨
      ∃ s ∈ visible steps, ∃ loop out,
        s.loop = some loop ∧ (expand s loop).run = some (.ok out) ∧ f ∈ produced out := by
  induction steps using forest_induction generalizing result with
  | nil =>
    rw [applySteps, run_pure_ok] at found
    subst found
    simp [produced, allSteps, visible]
  | cons s rest children body ih =>
    obtain ⟨first, others, done, done', rfl⟩ := applySteps_cons_ok.mp found
    rw [produced_append, List.mem_append, ih done']
    cases looping : s.loop with
    | none =>
      obtain ⟨children', inner, rfl⟩ := (applyLoop_plain_ok looping).mp done
      rw [produced_plain, List.mem_cons, List.mem_append, children inner,
        visible_cons_plain looping]
      simp only [List.mem_cons, List.mem_append, produced, allSteps, List.map_nil, List.not_mem_nil,
        or_false]
      constructor
      · rintro ((rfl | ⟨t, held, facts⟩ | ⟨t, held, facts⟩) | ⟨t, held, facts⟩ | ⟨t, held, facts⟩)
        · exact .inl ⟨s, .inl rfl, looping, rfl⟩
        · exact .inl ⟨t, .inr (.inl held), facts⟩
        · exact .inr ⟨t, .inr (.inl held), facts⟩
        · exact .inl ⟨t, .inr (.inr held), facts⟩
        · exact .inr ⟨t, .inr (.inr held), facts⟩
      · rintro (⟨t, rfl | held | held, facts⟩ | ⟨t, rfl | held | held, facts⟩)
        · exact .inl (.inl facts.2.symm)
        · exact .inl (.inr (.inl ⟨t, held, facts⟩))
        · exact .inr (.inl ⟨t, held, facts⟩)
        · obtain ⟨loop, out, same, -⟩ := facts
          rw [looping] at same
          cases same
        · exact .inl (.inr (.inr ⟨t, held, facts⟩))
        · exact .inr (.inr ⟨t, held, facts⟩)
    | some loop =>
      obtain ⟨-, expanded⟩ := (applyLoop_loop_ok looping).mp done
      rw [visible_cons_loop looping]
      simp only [List.mem_cons]
      constructor
      · rintro (held | ⟨t, held, facts⟩ | ⟨t, held, facts⟩)
        · exact .inr ⟨s, .inl rfl, loop, first, looping, expanded, held⟩
        · exact .inl ⟨t, .inr held, facts⟩
        · exact .inr ⟨t, .inr held, facts⟩
      · rintro (⟨t, rfl | held, facts⟩ | ⟨t, rfl | held, loop', out, same, done'', held'⟩)
        · rw [looping] at facts
          cases facts.1
        · exact .inr (.inl ⟨t, held, facts⟩)
        · cases looping.symm.trans same
          cases expanded.symm.trans done''
          exact .inl held'
        · exact .inr (.inr ⟨t, held, loop', out, same, done'', held'⟩)

/-- A walk that succeeds has expanded every loop that it has met. -/
theorem expanded_of_applySteps (found : (applySteps reads expand steps).run = some (.ok result))
    {loop : LoopSpec Step} (held : s ∈ visible steps) (looping : s.loop = some loop) :
    validateLoopSpec reads loop s.id = .ok () ∧ ∃ out, (expand s loop).run = some (.ok out) := by
  induction steps using forest_induction generalizing result with
  | nil => cases held
  | cons t rest children body ih =>
    obtain ⟨first, others, done, done', rfl⟩ := applySteps_cons_ok.mp found
    cases looping' : t.loop with
    | none =>
      obtain ⟨children', inner, rfl⟩ := (applyLoop_plain_ok looping').mp done
      rw [visible_cons_plain looping', List.mem_cons, List.mem_append] at held
      rcases held with rfl | held | held
      · cases looping.symm.trans looping'
      · exact children inner held
      · exact ih done' held
    | some loop' =>
      obtain ⟨valid, expanded⟩ := (applyLoop_loop_ok looping').mp done
      rw [visible_cons_loop looping', List.mem_cons] at held
      rcases held with rfl | held
      · cases looping.symm.trans looping'
        exact ⟨valid, first, expanded⟩
      · exact ih done' held

end Walk

/-! ## Chained iterations -/

section Chaining
variable {α : Type} {R : α → α → Prop} {steps chained : List Step} {ids : List String}
  {loopID : String}
  {count iter : Nat}
  {s t : Step}

private theorem forall₂_modify {l l' : List α} {change : α → α} (related : List.Forall₂ R l l')
    (index : Nat)
    (kept : ∀ a b, l[index]? = some a → R a b → R a (change b)) :
    List.Forall₂ R l (l'.modify index change) := by
  induction related generalizing index with
  | nil => simp
  | cons first rest ih =>
    cases index with
    | zero => exact .cons (kept _ _ rfl first) rest
    | succ index => exact .cons first (ih index kept)

/-- The id is that of a step of the iteration. -/
def InIteration (loopID : String) (iter : Nat) (id : String) : Prop :=
  (iterationID loopID iter "").toList <+: id.toList

/-- The fields of a step and what has become of them: from the second iteration on, it may have to
wait for further steps. -/
structure Chained (ids : List String) (loopID : String) (f g : StepFields) : Prop where
  others : ∃ needs, g = { f with needs }
  kept : f.dependencies ⊆ g.dependencies
  added : ∀ d ∈ g.dependencies, d ∈ f.dependencies ∨ (∃ iter, 2 ≤ iter ∧ InIteration loopID iter f.id) ∧ d ∈ ids

theorem Chained.id {f g : StepFields} (chained : Chained ids loopID f g) : g.id = f.id := by
  obtain ⟨needs, rfl⟩ := chained.others
  rfl

theorem Chained.refl (f : StepFields) : Chained ids loopID f f where
  others := ⟨f.needs, rfl⟩
  kept := List.Subset.refl _
  added _ held := .inl held

/-- The same for a step, whose children and loop stay. -/
def ChainedStep (ids : List String) (loopID : String) (s t : Step) : Prop :=
  Chained ids loopID s.toStepFields t.toStepFields ∧ t.children = s.children ∧ t.loop = s.loop

private theorem inIteration_of_iterationOf (found : iterationOf loopID count s = some iter) :
    InIteration loopID iter s.id := by
  have matched := List.find?_some found
  exact List.isPrefixOf_iff_prefix.mp matched

theorem ChainedStep.append (chained : ChainedStep ids loopID s t) (later : 2 ≤ iter)
    (inside : InIteration loopID iter s.id) {item : String} (held : item ∈ ids) :
    ChainedStep ids loopID s { t with needs := appendUnique t.needs item } := by
  have waits {d : String} :
      d ∈ appendUnique t.needs item ++ t.dependsOn ↔ d ∈ t.dependencies ∨ d = item := by
    rw [List.mem_append, mem_appendUnique, StepFields.dependencies, List.mem_append]
    exact or_right_comm
  obtain ⟨fields, same⟩ := chained
  have others : ∃ needs, { t.toStepFields with needs := appendUnique t.needs item } =
      { s.toStepFields with needs } := by
    obtain ⟨needs, shape⟩ := fields.others
    rw [shape]
    exact ⟨_, rfl⟩
  refine ⟨⟨others, fun d old => waits.mpr (.inl (fields.kept old)), fun d now => ?_⟩, same⟩
  rcases waits.mp now with old | rfl
  · exact fields.added d old
  · exact .inr ⟨⟨iter, later, inside⟩, held⟩

private theorem chainIteration_chained (related : List.Forall₂ (ChainedStep (steps.map (·.id)) loopID) steps chained)
    (later : 2 ≤ iter) :
    List.Forall₂ (ChainedStep (steps.map (·.id)) loopID) steps (chainIteration steps loopID count chained iter) := by
  unfold chainIteration
  dsimp only
  split
  · next first last foundFirst foundLast =>
    have last :=
      List.mem_map_of_mem (f := fun s => s.id) (List.mem_reverse.mp (List.mem_of_find?_eq_some foundLast))
    refine forall₂_modify related first fun a b there before => before.append later ?_ last
    obtain ⟨bound, inside, -⟩ := List.findIdx?_eq_some_iff_getElem.mp foundFirst
    rw [List.getElem?_eq_getElem bound, Option.some.injEq] at there
    rw [there] at inside
    exact inIteration_of_iterationOf (of_decide_eq_true inside)
  · exact related

theorem chainExpandedIterations_chained (steps : List Step) (loopID : String) (count : Nat) :
    List.Forall₂ (ChainedStep (steps.map (·.id)) loopID) steps (chainExpandedIterations steps loopID count) := by
  have start : List.Forall₂ (ChainedStep (steps.map (·.id)) loopID) steps steps :=
    List.forall₂_same.mpr fun s _ => ⟨.refl s.toStepFields, rfl, rfl⟩
  have run (iters : List Nat) (later : ∀ iter ∈ iters, 2 ≤ iter) (chained : List Step)
      (related : List.Forall₂ (ChainedStep (steps.map (·.id)) loopID) steps chained) :
      List.Forall₂ (ChainedStep (steps.map (·.id)) loopID) steps
        (iters.foldl (chainIteration steps loopID count) chained) := by
    induction iters generalizing chained with
    | nil => exact related
    | cons iter iters ih =>
      obtain ⟨first, others⟩ := List.forall_mem_cons.mp later
      exact ih others _ (chainIteration_chained related first)
  unfold chainExpandedIterations
  split
  · exact start
  · exact run _ (fun iter held => (List.mem_range'_1.mp held).1) _ start

theorem produced_chained (related : List.Forall₂ (ChainedStep ids loopID) steps chained) :
    List.Forall₂ (Chained ids loopID) (produced steps) (produced chained) := by
  induction related with
  | nil => exact .nil
  | @cons s t rest rest' first others ih =>
    obtain ⟨fields, children, loop⟩ := first
    have inside : List.Forall₂ (Chained ids loopID)
        ((allSteps s.children ++ loopSteps s.loop).map Step.toStepFields)
        ((allSteps t.children ++ loopSteps t.loop).map Step.toStepFields) := by
      rw [children, loop]
      exact List.forall₂_same.mpr fun f _ => .refl f
    rw [produced_cons, produced_cons]
    exact .cons fields (List.rel_append inside ih)

theorem exists_right {l l' : List α} {a : α} (related : List.Forall₂ R l l') (held : a ∈ l) :
    ∃ b ∈ l', R a b := by
  induction related with
  | nil => cases held
  | @cons a' b l l' first others ih =>
    rcases List.mem_cons.mp held with rfl | held
    · exact ⟨b, List.mem_cons_self, first⟩
    · obtain ⟨b', held', fact⟩ := ih held
      exact ⟨b', List.mem_cons_of_mem _ held', fact⟩

theorem exists_left {l l' : List α} {b : α} (related : List.Forall₂ R l l') (held : b ∈ l') :
    ∃ a ∈ l, R a b :=
  exists_right related.flip held

end Chaining

/-! ## Iterations -/

section Iterations
variable (reads : LoopSyntax) (loopID : String) (loop : LoopSpec Step)

/-- How often the body of a loop is copied. -/
def rounds : Nat :=
  if 0 < loop.count then loop.count.toNat
  else if loop.range ≠ "" then
    match reads.parseRange loop.range with
    | .error _ => 0
    | .ok (start, stop) => (stop - start + 1).toNat
  else 1

/-- The copy of the body with this index, before its own loops are expanded. -/
def iterationSteps (index : Nat) : List Step :=
  if 0 < loop.count then expandLoopIteration loopID loop (index + 1) []
  else if loop.range ≠ "" then
    match reads.parseRange loop.range with
    | .error _ => []
    | .ok (start, _) => expandLoopIteration loopID loop (index + 1) (iterVars loop (start + index))
  else labelFirst (loopLabel loop) (expandLoopIteration loopID loop (index + 1) [])

variable {reads loop} {applyLoops : List Step → Expansion} {step : Step} {out : List Step}

/-- A loop is expanded by expanding the loops in all of its iterations, and chaining the result. -/
theorem expandLoop_cases (applyLoops : List Step → Expansion) (step : Step) (loop : LoopSpec Step) :
    (∃ err, expandLoop reads applyLoops step loop = throw err) ∨
      0 < rounds reads loop ∧ ∃ chains : Bool, expandLoop reads applyLoops step loop = do
        let flat ← applyLoops ((List.range (rounds reads loop)).flatMap (iterationSteps reads step.id loop))
        return if chains then chainExpandedIterations flat step.id (rounds reads loop) else flat := by
  unfold expandLoop
  by_cases counted : 0 < loop.count
  · have total : rounds reads loop = loop.count.toNat := if_pos counted
    have each : iterationSteps reads step.id loop = fun i => expandLoopIteration step.id loop
        (i + 1) [] := by
      funext i
      exact if_pos counted
    rw [if_pos counted, total, each]
    refine .inr ⟨by omega, decide (1 < loop.count.toNat), ?_⟩
    simp only [decide_eq_true_eq]
  rw [if_neg counted]
  by_cases ranged : loop.range ≠ ""
  · rw [if_pos ranged]
    cases parsed : reads.parseRange loop.range with
    | error err => exact .inl ⟨_, rfl⟩
    | ok bounds =>
      obtain ⟨start, stop⟩ := bounds
      dsimp only
      by_cases reversed : stop < start
      · rw [if_pos reversed]
        exact .inl ⟨_, rfl⟩
      have total : rounds reads loop = (stop - start + 1).toNat := by
        rw [rounds, if_neg counted, if_pos ranged, parsed]
      have each : iterationSteps reads step.id loop = fun i : Nat =>
          expandLoopIteration step.id loop (i + 1) (iterVars loop (start + i)) := by
        funext i
        rw [iterationSteps, if_neg counted, if_pos ranged, parsed]
      rw [if_neg reversed, total, each]
      refine .inr ⟨by omega, decide (1 < (stop - start + 1).toNat), ?_⟩
      simp only [decide_eq_true_eq]
  · have total : rounds reads loop = 1 := by rw [rounds, if_neg counted, if_neg ranged]
    have each : iterationSteps reads step.id loop 0 =
        labelFirst (loopLabel loop) (expandLoopIteration step.id loop 1 []) := by
      rw [iterationSteps, if_neg counted, if_neg ranged]
    rw [if_neg ranged, total, List.range_one, List.flatMap_singleton, each]
    refine .inr ⟨Nat.one_pos, false, ?_⟩
    simp only [Bool.false_eq_true, if_false, bind_pure]

theorem expandLoop_ok (found : (expandLoop reads applyLoops step loop).run = some (.ok out)) :
    0 < rounds reads loop ∧ ∃ flat,
      (applyLoops ((List.range (rounds reads loop)).flatMap (iterationSteps reads step.id loop))).run =
          some (.ok flat) ∧
        (out = flat ∨ out = chainExpandedIterations flat step.id (rounds reads loop)) := by
  rcases expandLoop_cases applyLoops step loop with ⟨err, failed⟩ | ⟨repeats, chains, same⟩
  · rw [failed] at found
    exact absurd found not_run_throw_ok
  · rw [same, run_bind_ok] at found
    obtain ⟨flat, done, returned⟩ := found
    rw [run_pure_ok] at returned
    refine ⟨repeats, flat, done, ?_⟩
    rw [← returned]
    exact (ite_eq_or_eq _ _ _).symm

end Iterations

section Mirrors
variable {loopID : String} {iteration : Nat} {ids : List String} {s t : Step}
  {steps copies : List Step}

/-- A step and its copy in an iteration. -/
structure Mirror (loopID : String) (iteration : Nat) (ids : List String) (s t : Step) : Prop where
  id : t.id = iterationID loopID iteration s.id
  dependencies : t.dependencies = rewriteLoopDependencies s.dependencies loopID iteration ids
  loop : t.loop = s.loop

theorem rewrite_append {deps deps' : List String} :
    rewriteLoopDependencies deps loopID iteration ids ++ rewriteLoopDependencies deps' loopID iteration ids =
      rewriteLoopDependencies (deps ++ deps') loopID iteration ids := List.map_append.symm

private theorem mirror_expandChild (s : Step) :
    Mirror loopID iteration ids s (s.expandChild loopID iteration ids) := by
  obtain ⟨fields, children, loop⟩ := s
  exact ⟨rfl, rewrite_append, rfl⟩

private theorem mirror_expandBodyStep {vars : List (String × String)} (s : Step) :
    Mirror loopID iteration ids s (expandBodyStep loopID iteration vars ids s) := ⟨rfl, rewrite_append, rfl⟩

/-- A copy with mirrored children is mirrored as a whole. -/
theorem visible_mirrored {rest rest' : List Step} (mirror : Mirror loopID iteration ids s t)
    (children : List.Forall₂ (Mirror loopID iteration ids) (visible s.children) (visible t.children))
    (others : List.Forall₂ (Mirror loopID iteration ids) (visible rest) (visible rest')) :
    List.Forall₂ (Mirror loopID iteration ids) (visible (s :: rest)) (visible (t :: rest')) := by
  cases looping : s.loop with
  | none =>
    rw [visible_cons_plain looping, visible_cons_plain (mirror.loop.trans looping)]
    exact .cons mirror (List.rel_append children others)
  | some loop =>
    rw [visible_cons_loop looping, visible_cons_loop (mirror.loop.trans looping)]
    exact .cons mirror others

private theorem visible_expandLoopChildren (steps : List Step) :
    List.Forall₂ (Mirror loopID iteration ids) (visible steps)
      (visible (expandLoopChildren loopID iteration ids steps)) := by
  induction steps using forest_induction with
  | nil => exact .nil
  | cons s rest children body ih =>
    refine visible_mirrored (mirror_expandChild s) ?_ ih
    obtain ⟨fields, _, loop⟩ := s
    exact children

private theorem visible_expandLoopIteration (loop : LoopSpec Step) (vars : List (String × String)) :
    List.Forall₂ (Mirror loopID iteration (collectBodyStepIDs loop.body)) (visible loop.body)
      (visible (expandLoopIteration loopID loop iteration vars)) := by
  unfold expandLoopIteration
  generalize collectBodyStepIDs loop.body = ids
  induction loop.body with
  | nil => exact .nil
  | cons s rest ih =>
    exact visible_mirrored (mirror_expandBodyStep s) (visible_expandLoopChildren s.children) ih

private theorem visible_labelFirst {label : String}
    (mirrored : List.Forall₂ (Mirror loopID iteration ids) (visible steps) (visible copies)) :
    List.Forall₂ (Mirror loopID iteration ids) (visible steps) (visible (labelFirst label copies)) := by
  cases copies with
  | nil => exact mirrored
  | cons t rest =>
    obtain ⟨fields, children, loop⟩ := t
    have first {u : Step} (mirror : Mirror loopID iteration ids u ⟨fields, children, loop⟩) :
        Mirror loopID iteration ids u ⟨{ fields with labels := fields.labels ++ [label] }, children, loop⟩ :=
      ⟨mirror.id, mirror.dependencies, mirror.loop⟩
    cases loop with
    | none =>
      rw [visible_cons_plain rfl] at mirrored
      rw [labelFirst, visible_cons_plain rfl]
      obtain ⟨u, others, mirror, related, same⟩ := List.forall₂_cons_right_iff.mp mirrored
      rw [same]
      exact .cons (first mirror) related
    | some loop =>
      rw [visible_cons_loop rfl] at mirrored
      rw [labelFirst, visible_cons_loop rfl]
      obtain ⟨u, others, mirror, related, same⟩ := List.forall₂_cons_right_iff.mp mirrored
      rw [same]
      exact .cons (first mirror) related

theorem visible_iterationSteps (loopID : String) {reads : LoopSyntax} {loop : LoopSpec Step}
    {index : Nat} (inside : index < rounds reads loop) :
    List.Forall₂ (Mirror loopID (index + 1) (collectBodyStepIDs loop.body)) (visible loop.body)
      (visible (iterationSteps reads loopID loop index)) := by
  unfold iterationSteps
  by_cases counted : 0 < loop.count
  · rw [if_pos counted]
    exact visible_expandLoopIteration loop []
  rw [if_neg counted]
  by_cases ranged : loop.range ≠ ""
  · rw [if_pos ranged]
    rw [rounds, if_neg counted, if_pos ranged] at inside
    cases parsed : reads.parseRange loop.range with
    | error err =>
      rw [parsed] at inside
      cases inside
    | ok bounds => exact visible_expandLoopIteration loop _
  · rw [if_neg ranged]
    exact visible_labelFirst (visible_expandLoopIteration loop [])

end Mirrors

/-! ## Ids in iterations -/

section Ids
variable {loopID id : String} {iteration iteration' : Nat}

theorem iterationID_toList : (iterationID loopID iteration id).toList =
    loopID.toList ++ (".iter".toList ++ (Nat.toDigits 10 iteration ++ '.' :: id.toList)) := by
  have shown : toString iteration = iteration.repr := rfl
  have dot : ".".toList = ['.'] := rfl
  rw [iterationID, shown]
  simp only [String.toList_append, Nat.toList_repr, dot, List.append_assoc, List.singleton_append]

theorem inIteration_iterationID :
    InIteration loopID iteration (iterationID loopID iteration id) := by
  rw [InIteration, iterationID_toList, iterationID_toList]
  exact ⟨id.toList, by simp⟩

theorem InIteration.starts (inside : InIteration loopID iteration id) :
    loopID.toList <+: id.toList := by
  rw [InIteration, iterationID_toList] at inside
  exact (List.prefix_append _ _).trans inside

/-- A step is in one iteration. -/
theorem InIteration.unique (inside : InIteration loopID iteration id)
    (inside' : InIteration loopID iteration' id) :
    iteration = iteration' := by
  obtain ⟨rest, split⟩ := inside
  obtain ⟨rest', split'⟩ := inside'
  have same := split.trans split'.symm
  rw [iterationID_toList, iterationID_toList] at same
  simp only [List.append_assoc, List.append_cancel_left_eq, List.cons_append] at same
  have plain (n : Nat) : '.' ∉ Nat.toDigits 10 n := not_mem_toDigits rfl
  exact toDigits_inj (eq_before_stop (plain _) (plain _) same).1

end Ids

/-! ## What is produced -/

section Yields
variable {reads : LoopSyntax} {steps : List Step} {nums : List Nat} {f : StepFields}

/-- The fields of a step that comes out of an expansion before iterations are chained, with the
numbers of the iterations that it stands in. -/
inductive Yields (reads : LoopSyntax) : List Step → List Nat → StepFields → Prop where
  | here {steps : List Step} {s : Step} (held : s ∈ visible steps) (plain : s.loop = none) :
      Yields reads steps [] s.toStepFields
  | inside {steps : List Step} {s : Step} {loop : LoopSpec Step} {index : Nat} {later : List Nat} {f : StepFields}
      (held : s ∈ visible steps) (looping : s.loop = some loop) (among : index < rounds reads loop)
      (yields : Yields reads (iterationSteps reads s.id loop index) later f) :
      Yields reads steps ((index + 1) :: later) f

theorem Yields.mono {steps' : List Step} (yields : Yields reads steps nums f)
    (subset : visible steps ⊆ visible steps') :
    Yields reads steps' nums f := by
  cases yields with
  | here held plain => exact .here (subset held) plain
  | inside held looping among yields => exact .inside (subset held) looping among yields

private theorem yields_flatMap {α : Type} {each : α → List Step} {l : List α} :
    Yields reads (l.flatMap each) nums f ↔ ∃ a ∈ l, Yields reads (each a) nums f := by
  constructor
  · intro yields
    cases yields with
    | here held plain =>
      rw [visible_flatMap, List.mem_flatMap] at held
      obtain ⟨a, among, held⟩ := held
      exact ⟨a, among, .here held plain⟩
    | inside held looping among yields =>
      rw [visible_flatMap, List.mem_flatMap] at held
      obtain ⟨a, among', held⟩ := held
      exact ⟨a, among', .inside held looping among yields⟩
  · rintro ⟨a, among, yields⟩
    refine yields.mono fun s held => ?_
    rw [visible_flatMap, List.mem_flatMap]
    exact ⟨a, among, held⟩

/-- Ids grow from that of a step in view. -/
theorem Yields.exists_start (yields : Yields reads steps nums f) :
    ∃ s ∈ visible steps, s.id.toList <+: f.id.toList := by
  induction yields with
  | @here steps s held plain => exact ⟨s, held, List.prefix_rfl⟩
  | @inside steps s loop index later f held looping among yields ih =>
    obtain ⟨t, held', starts⟩ := ih
    obtain ⟨u, -, mirror⟩ := exists_left (visible_iterationSteps _ among) held'
    have own : InIteration s.id (index + 1) t.id := mirror.id ▸ inIteration_iterationID
    exact ⟨s, held, own.starts.trans starts⟩

theorem inIteration_of_yields {loopID : String} {loop : LoopSpec Step} {index : Nat}
    (among : index < rounds reads loop)
    (yields : Yields reads (iterationSteps reads loopID loop index) nums f) :
    InIteration loopID (index + 1) f.id := by
  obtain ⟨t, held, starts⟩ := yields.exists_start
  obtain ⟨u, -, mirror⟩ := exists_left (visible_iterationSteps _ among) held
  have own : InIteration loopID (index + 1) t.id := mirror.id ▸ inIteration_iterationID
  exact List.IsPrefix.trans own starts

/-- What comes out of an expansion, up to the needs that chaining adds from the second iteration
on. -/
structure Exact (reads : LoopSyntax) (steps result : List Step) : Prop where
  complete : ∀ nums f, Yields reads steps nums f →
    ∃ g ∈ produced result, g.id = f.id ∧ f.dependencies ⊆ g.dependencies
  sound : ∀ g ∈ produced result, ∃ nums f, Yields reads steps nums f ∧ g.id = f.id ∧
    ∀ d ∈ g.dependencies, d ∈ f.dependencies ∨ (∃ n ∈ nums, 2 ≤ n) ∧ ∃ u ∈ produced result, u.id = d

private theorem mem_produced_of_mem {s : Step} (held : s ∈ steps) :
    s.toStepFields ∈ produced steps := by
  induction steps with
  | nil => cases held
  | cons t rest ih =>
    rw [produced_cons]
    rcases List.mem_cons.mp held with rfl | held
    · exact List.mem_cons_self
    · exact List.mem_cons_of_mem _ (List.mem_append_right _ (ih held))

theorem expandLoop_exact {applyLoops : List Step → Expansion}
    (exact : ∀ ⦃steps result⦄, (applyLoops steps).run = some (.ok result) →
      Exact reads steps result) {step : Step}
    {loop : LoopSpec Step} {out : List Step} (looping : step.loop = some loop)
    (found : (expandLoop reads applyLoops step loop).run = some (.ok out)) :
    Exact reads [step] out := by
  obtain ⟨-, flat, done, shape⟩ := expandLoop_ok found
  have inner := exact done
  have alone : visible [step] = [step] := visible_cons_loop looping
  have related : List.Forall₂ (Chained (flat.map (·.id)) step.id) (produced flat)
      (produced out) := by
    rcases shape with rfl | rfl
    · exact List.forall₂_same.mpr fun f _ => .refl f
    · exact produced_chained (chainExpandedIterations_chained flat step.id _)
  have named {d : String} (known : ∃ u ∈ produced flat, u.id = d) :
      ∃ u ∈ produced out, u.id = d := by
    obtain ⟨u, held, rfl⟩ := known
    obtain ⟨v, held', chained⟩ := exists_right related held
    exact ⟨v, held', chained.id⟩
  constructor
  · intro nums f yields
    cases yields with
    | here held plain =>
      rw [alone, List.mem_singleton] at held
      subst held
      cases looping.symm.trans plain
    | @inside _ s loop' index later _ held looping' among yields =>
      rw [alone, List.mem_singleton] at held
      subst held
      cases looping.symm.trans looping'
      have all := yields_flatMap.mpr ⟨index, List.mem_range.mpr among, yields⟩
      obtain ⟨g, held, same, kept⟩ := inner.complete later f all
      obtain ⟨h, held', chained⟩ := exists_right related held
      exact ⟨h, held', chained.id.trans same, List.Subset.trans kept chained.kept⟩
  · intro h held
    obtain ⟨g, held', chained⟩ := exists_left related held
    obtain ⟨later, f, yields, same, waits⟩ := inner.sound g held'
    obtain ⟨index, among, yields⟩ := yields_flatMap.mp yields
    rw [List.mem_range] at among
    have stands : step ∈ visible [step] := by rw [alone]; exact List.mem_singleton_self step
    refine ⟨(index + 1) :: later, f, .inside stands looping among yields, chained.id.trans same,
      fun d needed => ?_⟩
    rcases chained.added d needed with old | ⟨⟨iter, late, inside⟩, known⟩
    · rcases waits d old with own | ⟨⟨n, later', late⟩, known⟩
      · exact .inl own
      · exact .inr ⟨⟨n, List.mem_cons_of_mem _ later', late⟩, named known⟩
    · -- the id tells the iteration
      rw [same] at inside
      cases inside.unique (inIteration_of_yields among yields)
      obtain ⟨u, held, rfl⟩ := List.mem_map.mp known
      exact .inr ⟨⟨index + 1, List.mem_cons_self, late⟩,
        named ⟨u.toStepFields, mem_produced_of_mem held, rfl⟩⟩

theorem applyLoopsWithin_exact (fuel : Nat) ⦃steps result : List Step⦄
    (found : (applyLoopsWithin reads fuel steps).run = some (.ok result)) :
    Exact reads steps result := by
  induction fuel generalizing steps result with
  | zero => cases found
  | succ fuel ih =>
    rw [applyLoopsWithin] at found
    constructor
    · intro nums f yields
      cases yields with
      | @here _ s held plain =>
        have among := (mem_produced_applySteps found).mpr (.inl ⟨s, held, plain, rfl⟩)
        exact ⟨s.toStepFields, among, rfl, List.Subset.refl _⟩
      | @inside _ s loop index later _ held looping among yields =>
        obtain ⟨-, out, expanded⟩ := expanded_of_applySteps found held looping
        have stands : s ∈ visible [s] := by rw [visible_cons_loop looping]; exact List.mem_cons_self
        have whole := expandLoop_exact ih looping expanded
        obtain ⟨g, held', facts⟩ := whole.complete _ f (.inside stands looping among yields)
        exact ⟨g, (mem_produced_applySteps found).mpr (.inr ⟨s, held, loop, out, looping, expanded, held'⟩), facts⟩
    · intro g held
      rcases (mem_produced_applySteps found).mp held with
        ⟨s, seen, plain, rfl⟩ | ⟨s, seen, loop, out, looping, expanded, held'⟩
      · exact ⟨[], s.toStepFields, .here seen plain, rfl, fun d needed => .inl needed⟩
      · obtain ⟨nums, f, yields, same, waits⟩ :=
          (expandLoop_exact ih looping expanded).sound g held'
        have view : visible [s] ⊆ visible steps := by
          rw [visible_cons_loop looping]
          exact List.cons_subset.mpr ⟨seen, List.nil_subset _⟩
        refine ⟨nums, f, yields.mono view, same, fun d needed => ?_⟩
        rcases waits d needed with own | ⟨late, u, among, named⟩
        · exact .inl own
        · have among' :=
            (mem_produced_applySteps found).mpr (.inr ⟨s, seen, loop, out, looping, expanded, among⟩)
          exact .inr ⟨late, u, among', named⟩

end Yields

/-! ## Loops that are met -/

section Met
variable {reads : LoopSyntax} {steps : List Step} {loop : LoopSpec Step}

/-- The loops that an expansion meets. -/
inductive Nested : List Step → LoopSpec Step → Prop where
  | here {steps : List Step} {s : Step} {loop : LoopSpec Step} (held : s ∈ visible steps)
      (looping : s.loop = some loop) :
      Nested steps loop
  | inside {steps : List Step} {s : Step} {outer loop : LoopSpec Step} (held : s ∈ visible steps)
      (looping : s.loop = some outer) (nested : Nested outer.body loop) : Nested steps loop

private theorem Nested.mono {steps' : List Step} (nested : Nested steps loop)
    (seen : ∀ s ∈ visible steps, ∃ t ∈ visible steps', t.loop = s.loop) : Nested steps' loop := by
  cases nested with
  | here held looping =>
    obtain ⟨t, held', same⟩ := seen _ held
    exact .here held' (same.trans looping)
  | inside held looping nested =>
    obtain ⟨t, held', same⟩ := seen _ held
    exact .inside held' (same.trans looping) nested

/-- Every iteration has the loops of the body. -/
theorem seen_iterations {loopID : String} (repeats : 0 < rounds reads loop) (s : Step)
    (held : s ∈ visible loop.body) :
    ∃ t ∈ visible ((List.range (rounds reads loop)).flatMap (iterationSteps reads loopID loop)),
      t.loop = s.loop := by
  obtain ⟨t, held', mirror⟩ := exists_right (visible_iterationSteps loopID repeats) held
  rw [visible_flatMap]
  exact ⟨t, List.mem_flatMap.mpr ⟨0, List.mem_range.mpr repeats, held'⟩, mirror.loop⟩

private theorem body_of_validateLoopSpec {stepID : String}
    (valid : validateLoopSpec reads loop stepID = .ok ()) :
    loop.body ≠ [] := by
  intro empty
  simp only [validateLoopSpec, empty, List.isEmpty_nil, if_true] at valid
  cases valid

/-- An expansion that succeeds has run through every loop, and none was empty. -/
theorem nested_runs (fuel : Nat) {result : List Step}
    (found : (applyLoopsWithin reads fuel steps).run = some (.ok result))
    (nested : Nested steps loop) :
    loop.body ≠ [] ∧ 0 < rounds reads loop := by
  induction fuel generalizing steps result with
  | zero => cases found
  | succ fuel ih =>
    rw [applyLoopsWithin] at found
    cases nested with
    | here held looping =>
      obtain ⟨valid, out, expanded⟩ := expanded_of_applySteps found held looping
      exact ⟨body_of_validateLoopSpec valid, (expandLoop_ok expanded).1⟩
    | inside held looping nested =>
      obtain ⟨-, out, expanded⟩ := expanded_of_applySteps found held looping
      obtain ⟨repeats, flat, done, -⟩ := expandLoop_ok expanded
      exact ih done (nested.mono (seen_iterations repeats))

end Met

/-! ## The expansion returns -/

section Returning
variable {reads : LoopSyntax} {expand : Step → LoopSpec Step → Expansion} {steps : List Step}

/-- An expansion that has not run out of fuel. -/
def Expansion.Returns (x : Expansion) : Prop := ∃ outcome, x.run = some outcome

theorem returns_bind {x : Expansion} {f : List Step → Expansion} (first : x.Returns)
    (next : ∀ a, x.run = some (.ok a) → (f a).Returns) : Expansion.Returns (x >>= f) := by
  obtain ⟨outcome, done⟩ := first
  rw [Expansion.Returns, ExceptT.run_bind, done]
  cases outcome with
  | error err => exact ⟨.error err, rfl⟩
  | ok a => exact next a done

private theorem applySteps_returns
    (expands : ∀ s ∈ visible steps, ∀ loop, s.loop = some loop → (expand s loop).Returns) :
    (applySteps reads expand steps).Returns := by
  induction steps using forest_induction with
  | nil => exact ⟨.ok [], rfl⟩
  | cons s rest children body ih =>
    rw [applySteps]
    cases looping : s.loop with
    | none =>
      rw [visible_cons_plain looping] at expands
      have inner := children fun t held => expands t (by simp [held])
      have others := ih fun t held => expands t (by simp [held])
      obtain ⟨fields, kids, _⟩ := s
      cases looping
      refine returns_bind ?_ fun first _ => returns_bind others fun _ _ => ⟨_, rfl⟩
      rw [Step.applyLoop]
      exact returns_bind inner fun _ _ => ⟨_, rfl⟩
    | some loop =>
      rw [visible_cons_loop looping] at expands
      have own := expands s List.mem_cons_self loop looping
      have others := ih fun t held => expands t (List.mem_cons_of_mem _ held)
      obtain ⟨fields, kids, _⟩ := s
      cases looping
      refine returns_bind ?_ fun first _ => returns_bind others fun _ _ => ⟨_, rfl⟩
      rw [Step.applyLoop, Expansion.Returns, ExceptT.run_bind]
      cases valid : validateLoopSpec reads loop fields.id with
      | error err => exact ⟨.error err, rfl⟩
      | ok u => exact own

/-- The loops in view are nested no deeper than this. -/
def Shallow : Nat → List Step → Prop
  | 0, steps => ∀ s ∈ visible steps, s.loop = none
  | depth + 1, steps => ∀ s ∈ visible steps, ∀ loop, s.loop = some loop → Shallow depth loop.body

private theorem depth_of_visible {s : Step} {loop : LoopSpec Step} (held : s ∈ visible steps)
    (looping : s.loop = some loop) :
    loopDepth loop.body < loopDepth steps := by
  induction steps using forest_induction with
  | nil => cases held
  | cons t rest children body ih =>
    rw [loopDepth_cons]
    cases looping' : t.loop with
    | none =>
      rw [visible_cons_plain looping', List.mem_cons, List.mem_append] at held
      rcases held with rfl | held | held
      · cases looping.symm.trans looping'
      · have below := children held
        omega
      · have below := ih held
        omega
    | some loop' =>
      rw [visible_cons_loop looping', List.mem_cons] at held
      rcases held with rfl | held
      · cases looping.symm.trans looping'
        have own : specDepth (some loop) = loopDepth loop.body + 1 := rfl
        omega
      · have below := ih held
        omega

private theorem shallow_of_loopDepth (depth : Nat) (below : loopDepth steps ≤ depth) :
    Shallow depth steps := by
  induction depth generalizing steps with
  | zero =>
    intro s held
    cases looping : s.loop with
    | none => rfl
    | some loop =>
      have above := depth_of_visible held looping
      omega
  | succ depth ih =>
    intro s held loop looping
    have above := depth_of_visible held looping
    exact ih (by omega)

private theorem Shallow.iterations {depth count : Nat} {loopID : String} {loop : LoopSpec Step}
    (shallow : Shallow depth loop.body) (few : count ≤ rounds reads loop) :
    Shallow depth ((List.range count).flatMap (iterationSteps reads loopID loop)) := by
  have seen (t : Step) (held : t ∈ visible ((List.range count).flatMap (iterationSteps reads loopID loop))) :
      ∃ s ∈ visible loop.body, t.loop = s.loop := by
    rw [visible_flatMap, List.mem_flatMap] at held
    obtain ⟨index, among, held⟩ := held
    have inside := (List.mem_range.mp among).trans_le few
    obtain ⟨s, held', mirror⟩ := exists_left (visible_iterationSteps loopID inside) held
    exact ⟨s, held', mirror.loop⟩
  cases depth with
  | zero =>
    intro t held
    obtain ⟨s, held', same⟩ := seen t held
    exact same.trans (shallow s held')
  | succ depth =>
    intro t held inner looping
    obtain ⟨s, held', same⟩ := seen t held
    exact shallow s held' inner (same.symm.trans looping)

private theorem expandLoop_returns {depth : Nat} {applyLoops : List Step → Expansion} {step : Step}
    {loop : LoopSpec Step}
    (returns : ∀ steps, Shallow depth steps → (applyLoops steps).Returns)
    (shallow : Shallow depth loop.body) :
    (expandLoop reads applyLoops step loop).Returns := by
  rcases expandLoop_cases applyLoops step loop with ⟨err, failed⟩ | ⟨repeats, chains, same⟩
  · rw [failed]
    exact ⟨.error err, rfl⟩
  · rw [same]
    exact returns_bind (returns _ (shallow.iterations (Nat.le_refl _))) fun _ _ => ⟨_, rfl⟩

private theorem applyLoopsWithin_returns (fuel : Nat) {depth : Nat} (shallow : Shallow depth steps)
    (enough : depth < fuel) : (applyLoopsWithin reads fuel steps).Returns := by
  induction fuel generalizing depth steps with
  | zero => omega
  | succ fuel ih =>
    rw [applyLoopsWithin]
    refine applySteps_returns fun s held loop looping => ?_
    cases depth with
    | zero => cases (shallow s held).symm.trans looping
    | succ depth =>
      exact expandLoop_returns (fun steps shallow => ih shallow (by omega))
        (shallow s held loop looping)

/-- The fuel lasts. -/
theorem applyLoops_returns (reads : LoopSyntax) (steps : List Step) :
    (applyLoops reads steps).Returns :=
  applyLoopsWithin_returns _ (shallow_of_loopDepth _ (Nat.le_refl _)) (Nat.lt_succ_self _)

end Returning

end Beads.Formula
