import Mathlib.Data.List.Flatten
import Mathlib.Data.List.Nodup
import Beads.LoopOrderProofs

/-! The ids of expanded loops. An id tells the loops around a copy and their iterations, so that the
copies of different steps, and those of one step, stay apart. -/
namespace Beads.Formula
open Lib

/-! ## Results in order -/

section Walk
variable {reads : LoopSyntax} {expand : Step → LoopSpec Step → Expansion} {steps result : List Step}
  {s : Step}
  {β : Type} (view : StepFields → β)

/-- What is seen of the steps that come in the place of a step. -/
def walked (expand : Step → LoopSpec Step → Expansion) (s : Step) : List β :=
  match s.loop with
  | none => [view s.toStepFields]
  | some loop =>
    match (expand s loop).run with
    | some (.ok out) => (produced out).map view
    | _ => []

theorem walked_plain (plain : s.loop = none) : walked view expand s = [view s.toStepFields] := by
  unfold walked
  rw [plain]

theorem walked_loop {loop : LoopSpec Step} {out : List Step} (looping : s.loop = some loop)
    (expanded : (expand s loop).run = some (.ok out)) :
    walked view expand s = (produced out).map view := by
  unfold walked
  rw [looping]
  dsimp only
  rw [expanded]

theorem map_produced_applySteps (found : (applySteps reads expand steps).run = some (.ok result)) :
    (produced result).map view = (visible steps).flatMap (walked view expand) := by
  induction steps using forest_induction generalizing result with
  | nil =>
    rw [applySteps, run_pure_ok] at found
    subst found
    rfl
  | cons s rest children body ih =>
    obtain ⟨first, others, done, done', rfl⟩ := applySteps_cons_ok.mp found
    rw [produced_append, List.map_append, ih done']
    cases looping : s.loop with
    | none =>
      obtain ⟨children', inner, rfl⟩ := (applyLoop_plain_ok looping).mp done
      have alone : (produced [⟨s.toStepFields, children', none⟩]).map view =
          view s.toStepFields :: (produced children').map view := by
        rw [produced_plain]
        simp [produced, allSteps]
      rw [alone, children inner, visible_cons_plain looping, List.flatMap_cons,
        walked_plain view looping, List.flatMap_append]
      simp
    | some loop =>
      obtain ⟨-, expanded⟩ := (applyLoop_loop_ok looping).mp done
      rw [visible_cons_loop looping, List.flatMap_cons, walked_loop view looping expanded]

private theorem applySteps_append_ok {steps' : List Step}
    (found : (applySteps reads expand (steps ++ steps')).run =
    some (.ok result)) : ∃ first others, (applySteps reads expand steps).run = some (.ok first) ∧
      (applySteps reads expand steps').run = some (.ok others) ∧ result = first ++ others := by
  induction steps generalizing result with
  | nil => exact ⟨[], result, run_pure_ok.mpr rfl, found, rfl⟩
  | cons s rest ih =>
    obtain ⟨first, others, done, done', rfl⟩ := applySteps_cons_ok.mp found
    obtain ⟨middle, last, done'', final, rfl⟩ := ih done'
    refine ⟨first ++ middle, last, applySteps_cons_ok.mpr ⟨first, middle, done, done'', rfl⟩, final,
      ?_⟩
    rw [List.append_assoc]

private theorem applySteps_part_ok {α : Type} {each : α → List Step} {l : List α} {a : α}
    (found : (applySteps reads expand (l.flatMap each)).run = some (.ok result)) (among : a ∈ l) :
    ∃ out, (applySteps reads expand (each a)).run = some (.ok out) := by
  induction l generalizing result with
  | nil => cases among
  | cons b l ih =>
    rw [List.flatMap_cons] at found
    obtain ⟨first, others, done, done', -⟩ := applySteps_append_ok found
    rcases List.mem_cons.mp among with rfl | among
    · exact ⟨first, done⟩
    · exact ih done' among

theorem map_eq_of_forall₂ {α : Type} {R : α → α → Prop} {f g : α → β} {l l' : List α}
    (related : List.Forall₂ R l l') (same : ∀ a b, R a b → g b = f a) : l'.map g = l.map f := by
  induction related with
  | nil => rfl
  | cons first _ ih => rw [List.map_cons, List.map_cons, same _ _ first, ih]

/-- A loop is replaced by what comes of its iterations, as far as chaining leaves it. -/
theorem map_produced_expandLoop {fuel : Nat} {t : Step} {loop : LoopSpec Step} {out : List Step}
    (lasting : ∀ (f : StepFields) (needs : List String), view { f with needs } = view f)
    (expanded : (expandLoop reads (applyLoopsWithin reads fuel) t loop).run = some (.ok out)) :
    ∃ each : Nat → List Step, (produced out).map view =
        (List.range (rounds reads loop)).flatMap (fun index => (produced (each index)).map view) ∧
      ∀ index ∈ List.range (rounds reads loop),
        (applyLoopsWithin reads fuel (iterationSteps reads t.id loop index)).run = some (.ok (each index)) := by
  obtain ⟨-, flat, done, shape⟩ := expandLoop_ok expanded
  have same : (produced out).map view = (produced flat).map view := by
    rcases shape with rfl | rfl
    · rfl
    · refine map_eq_of_forall₂ (produced_chained (chainExpandedIterations_chained flat t.id _)) fun
        f g chained => ?_
      obtain ⟨needs, rfl⟩ := chained.others
      exact lasting f needs
  cases fuel with
  | zero => cases done
  | succ fuel =>
    have parts (index : Nat) : ∃ inner, index ∈ List.range (rounds reads loop) →
        (applyLoopsWithin reads (fuel + 1) (iterationSteps reads t.id loop index)).run = some (.ok inner) := by
      by_cases round : index ∈ List.range (rounds reads loop)
      · obtain ⟨inner, done'⟩ := applySteps_part_ok done round
        exact ⟨inner, fun _ => done'⟩
      · exact ⟨[], fun round' => absurd round' round⟩
    choose each outs using parts
    refine ⟨each, ?_, outs⟩
    rw [same, map_produced_applySteps view done, visible_flatMap, List.flatMap_assoc]
    exact List.flatMap_congr fun index round =>
      (map_produced_applySteps view (outs index round)).symm

end Walk

/-! ## Ids tell copies apart -/

section Apart
variable {reads : LoopSyntax} {steps copies result : List Step} {p : String} {s t : Step}

/-- What an id tells of the step that it comes from. -/
def Tells (s : Step) (path : List (String × Nat)) (id : String) : Prop :=
  path = [] ∧ id = s.id ∨ ∃ iteration rest, path = (s.id, iteration) :: rest

theorem Tells.unique {path : List (String × Nat)} {id : String} (tells : Tells s path id)
    (tells' : Tells t path id) :
    s.id = t.id := by
  rcases tells with ⟨rfl, rfl⟩ | ⟨iteration, rest, rfl⟩
  · rcases tells' with ⟨-, same⟩ | ⟨iteration', rest', none⟩
    · exact same
    · cases none
  · rcases tells' with ⟨none, -⟩ | ⟨iteration', rest', same⟩
    · cases none
    · exact congrArg Prod.fst (List.cons.inj same).1

/-- An id that comes in the place of a copy tells the loops from there on. -/
theorem exists_copy_of_walked {fuel : Nat} {id : String} (held : s ∈ visible steps)
    (shifted : Shifted p steps s t)
    (produced : id ∈ walked (·.id) (expandLoop reads (applyLoopsWithin reads fuel)) t) :
    ∃ path scope u, Copy reads steps path scope u ∧ id = p ++ copyID path u.id ∧
      Tells s path u.id := by
  cases looping : s.loop with
  | none =>
    rw [walked_plain _ (shifted.loop.trans looping), List.mem_singleton] at produced
    exact ⟨[], steps, s, .here held, produced.trans shifted.id, .inl ⟨rfl, rfl⟩⟩
  | some loop =>
    have looping' := shifted.loop.trans looping
    cases done : (expandLoop reads (applyLoopsWithin reads fuel) t loop).run with
    | none => simp [walked, looping', done] at produced
    | some outcome =>
      cases outcome with
      | error err => simp [walked, looping', done] at produced
      | ok out =>
        rw [walked_loop _ looping' done] at produced
        obtain ⟨f, among, rfl⟩ := List.mem_map.mp produced
        have whole := expandLoop_exact (applyLoopsWithin_exact fuel) looping' done
        obtain ⟨nums, g, yields, same, -⟩ := whole.sound f among
        have alone : visible [t] = [t] := visible_cons_loop looping'
        cases yields with
        | here held' plain =>
          rw [alone, List.mem_singleton] at held'
          subst held'
          cases looping'.symm.trans plain
        | @inside _ t' loop' index later _ held' looping'' round yields =>
          rw [alone, List.mem_singleton] at held'
          subst held'
          cases looping'.symm.trans looping''
          obtain ⟨path, scope, u, copy, -, -, fields⟩ :=
            copy_of_yields (shifted_iterations t'.id round) yields
          rw [shifted.id] at fields
          refine ⟨(s.id, index + 1) :: path, scope, u, .inside held looping round copy, ?_,
            .inr ⟨_, _, rfl⟩⟩
          exact same.trans fields.shift.1

end Apart

section Distinct
variable {reads : LoopSyntax} {steps copies result : List Step} {p : String} {s t : Step}

private theorem inIteration_of_produced {fuel : Nat} {loopID id : String} {loop : LoopSpec Step}
    {index : Nat} (among : index < rounds reads loop)
    (found : (applyLoopsWithin reads fuel (iterationSteps reads loopID loop index)).run = some (.ok result))
    (held : id ∈ (produced result).map (·.id)) : InIteration loopID (index + 1) id := by
  obtain ⟨f, held', rfl⟩ := List.mem_map.mp held
  obtain ⟨nums, g, yields, same, -⟩ := (applyLoopsWithin_exact _ found).sound f held'
  rw [same]
  exact inIteration_of_yields among yields

private theorem nodup_visible (unique : UniqueIDs steps)
    (view : List.Forall₂ (Shifted p steps) (visible steps) (visible copies)) :
    ((visible copies).map (·.id)).Nodup := by
  have own : ((visible steps).map (·.id)).Nodup := unique.sublist ((visible_sublist steps).map _)
  have shifted : (visible copies).map (·.id) = ((visible steps).map (·.id)).map (p ++ ·) := by
    rw [List.map_map]
    exact map_eq_of_forall₂ view fun _ _ shifted => shifted.id
  rw [shifted]
  refine own.map fun id id' same => ?_
  simpa using same

/-- Copies of different steps are replaced by steps with different ids. -/
theorem disjoint_walked {fuel : Nat} {t' : Step}
    (plain : ∀ s ∈ allSteps steps, Unmarked s.id)
    (view : List.Forall₂ (Shifted p steps) (visible steps) (visible copies))
    (held : t ∈ visible copies) (held' : t' ∈ visible copies) (apart : t.id ≠ t'.id) :
    List.Disjoint (walked (·.id) (expandLoop reads (applyLoopsWithin reads fuel)) t)
      (walked (·.id) (expandLoop reads (applyLoopsWithin reads fuel)) t') := by
  intro id produced produced'
  obtain ⟨s, seen, shifted⟩ := exists_left view held
  obtain ⟨s', seen', shifted'⟩ := exists_left view held'
  obtain ⟨path, scope, u, copy, shape, tells⟩ := exists_copy_of_walked seen shifted produced
  obtain ⟨path', scope', u', copy', shape', tells'⟩ :=
    exists_copy_of_walked seen' shifted' produced'
  have same : copyID path u.id = copyID path' u'.id := by simpa using shape.symm.trans shape'
  obtain ⟨rfl, sameID⟩ := copyID_inj (unmarked_places plain copy) (unmarked_places plain copy')
    (unmarked_of_copy plain copy) (unmarked_of_copy plain copy') same
  rw [← sameID] at tells'
  exact apart (by rw [shifted.id, shifted'.id, tells.unique tells'])

private theorem nodup_produced (fuel : Nat) (unique : UniqueIDs steps)
    (plain : ∀ s ∈ allSteps steps, Unmarked s.id)
    (view : List.Forall₂ (Shifted p steps) (visible steps) (visible copies))
    (found : (applyLoopsWithin reads fuel copies).run = some (.ok result)) :
    ((produced result).map (·.id)).Nodup := by
  induction fuel generalizing steps copies p result with
  | zero => cases found
  | succ fuel ih =>
    rw [applyLoopsWithin] at found
    rw [map_produced_applySteps _ found, List.nodup_flatMap]
    constructor
    · intro t held
      obtain ⟨s, seen, shifted⟩ := exists_left view held
      cases looping : t.loop with
      | none =>
        rw [walked_plain _ looping]
        exact List.nodup_singleton _
      | some loop =>
        obtain ⟨-, out, expanded⟩ := expanded_of_applySteps found held looping
        have looping' := shifted.loop.symm.trans looping
        have inside (u : Step) (held : u ∈ allSteps loop.body) :=
          plain u (body_subset seen looping' held)
        obtain ⟨each, same, outs⟩ := map_produced_expandLoop (·.id) (fun _ _ => rfl) expanded
        rw [walked_loop _ looping expanded, same, List.nodup_flatMap]
        constructor
        · intro index round
          exact ih (unique.body seen looping') inside
            (shifted_iterations t.id (List.mem_range.mp round))
            (outs index round)
        · refine List.nodup_range.imp_of_mem fun round round' apart id among among' => ?_
          have own := inIteration_of_produced (List.mem_range.mp round) (outs _ round) among
          have own' := inIteration_of_produced (List.mem_range.mp round') (outs _ round') among'
          exact apart (Nat.succ.inj (own.unique own'))
    · have apart := List.pairwise_map.mp (nodup_visible unique view)
      exact apart.imp_of_mem fun held held' apart => disjoint_walked plain view held held' apart

/-- Loops of a formula with distinct ids without dots are expanded to steps with distinct ids. -/
theorem applyLoops_uniqueIDs (unique : UniqueIDs steps)
    (plain : ∀ s ∈ allSteps steps, '.' ∉ s.id.toList)
    (expanded : (applyLoops reads steps).run = some (.ok result)) : UniqueIDs result := by
  have unmarked (s : Step) (held : s ∈ allSteps steps) : Unmarked s.id := by
    intro marked
    have dot : '.' ∈ ".iter".toList := by decide
    exact plain s held (marked.subset dot)
  have distinct := nodup_produced _ unique unmarked shifted_self expanded
  rwa [produced, List.map_map] at distinct

theorem applyLoops_uniqueIDs_inline : UniqueIDs inlineWaitExpanded := by
  refine applyLoops_uniqueIDs inlineWait_wellFormed.unique ?_
    (show (applyLoops countsOnly inlineWait).run = _ from rfl)
  decide

end Distinct

end Beads.Formula
