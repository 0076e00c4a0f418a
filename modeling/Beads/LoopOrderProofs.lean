import Mathlib.Data.List.Nodup
import Mathlib.Data.List.Perm.Subperm
import Mathlib.Logic.Relation
import Beads.LoopProofs

/-! The ordering of steps across the expansion of loops. A step that waits for a loop, or a loop
that waits for a step, loses the constraint: the needs of other steps are not rewritten, and those
of the loop go with it. -/
namespace Beads.Formula
open Lib

/-! ## Copies of steps -/

/-- A step that an expansion copies, with the loops around the copy and their iterations, and the
steps that it stands among: the formula, or the body of the innermost loop. -/
inductive Copy (reads : LoopSyntax) :
    List Step → List (String × Nat) → List Step → Step → Prop where
  | here {steps : List Step} {s : Step} (held : s ∈ visible steps) : Copy reads steps [] steps s
  | inside {steps scope : List Step} {l s : Step} {loop : LoopSpec Step} {index : Nat} {path : List (String × Nat)}
      (held : l ∈ visible steps) (looping : l.loop = some loop) (among : index < rounds reads loop)
      (copy : Copy reads loop.body path scope s) : Copy reads steps ((l.id, index + 1) :: path) scope s

/-- The id of a copy. -/
def copyID (path : List (String × Nat)) (id : String) : String :=
  path.foldr (fun place rest => iterationID place.1 place.2 rest) id

/-- What a copy has in the place of a dependency. -/
def copyEntry (path : List (String × Nat)) (scope : List Step) (dep : String) : String :=
  if dep ∈ collectBodyStepIDs scope then copyID path dep else dep

section Copies
variable {reads : LoopSyntax} {steps copies scope result : List Step} {path : List (String × Nat)}
  {s t : Step}
  {p : String} {nums : List Nat} {f g : StepFields}

/-- A step and its copy behind a prefix. -/
structure Shifted (p : String) (steps : List Step) (s t : Step) : Prop where
  id : t.id = p ++ s.id
  dependencies : t.dependencies =
    s.dependencies.map fun dep => if dep ∈ collectBodyStepIDs steps then p ++ dep else dep
  loop : t.loop = s.loop

theorem iterationID_append (loopID id : String) (iteration : Nat) :
    iterationID loopID iteration id = iterationID loopID iteration "" ++ id := by
  simp [iterationID]

private theorem Mirror.shifted {loopID : String} {iteration : Nat} {loop : LoopSpec Step}
    (mirror : Mirror loopID iteration (collectBodyStepIDs loop.body) s t) :
    Shifted (iterationID loopID iteration "") loop.body s t := by
  refine ⟨mirror.id.trans (iterationID_append _ _ _), mirror.dependencies.trans ?_, mirror.loop⟩
  refine List.map_congr_left fun dep _ => ?_
  rw [← iterationID_append]

theorem shifted_iterations (loopID : String) {loop : LoopSpec Step} {index : Nat}
    (among : index < rounds reads loop) :
    List.Forall₂ (Shifted (iterationID loopID (index + 1) "") loop.body) (visible loop.body)
      (visible (iterationSteps reads loopID loop index)) :=
  (visible_iterationSteps loopID among).imp fun _ _ mirror => mirror.shifted

theorem copyID_cons (p : String) (l : String) (index : Nat) (path : List (String × Nat))
    (id : String) :
    iterationID (p ++ l) (index + 1) "" ++ copyID path id = p ++ copyID ((l, index + 1) :: path) id := by
  simp [copyID, iterationID, String.append_assoc]

/-- What a copy of a step has come to. -/
def CopyFields (p : String) (path : List (String × Nat)) (scope : List Step) (s : Step)
    (f : StepFields) : Prop :=
  f.id = p ++ copyID path s.id ∧
    f.dependencies = s.dependencies.map fun dep => if dep ∈ collectBodyStepIDs scope then p ++ copyID path dep else dep

theorem CopyFields.shift {l : String} {index : Nat}
    (fields : CopyFields (iterationID (p ++ l) (index + 1) "") path scope s f) :
    CopyFields p ((l, index + 1) :: path) scope s f := by
  obtain ⟨id, dependencies⟩ := fields
  refine ⟨id.trans (copyID_cons p l index path s.id), dependencies.trans ?_⟩
  refine List.map_congr_left fun dep _ => ?_
  rw [copyID_cons]

private theorem yields_of_copy (view : List.Forall₂ (Shifted p steps) (visible steps) (visible copies))
    (copy : Copy reads steps path scope s) (plain : s.loop = none) :
    ∃ f, Yields reads copies (path.map Prod.snd) f ∧ CopyFields p path scope s f := by
  induction copy generalizing p copies with
  | @here steps s held =>
    obtain ⟨t, held', shifted⟩ := exists_right view held
    exact ⟨t.toStepFields, .here held' (shifted.loop.trans plain), shifted.id, shifted.dependencies⟩
  | @inside steps scope l s loop index path held looping among copy ih =>
    obtain ⟨t, held', shifted⟩ := exists_right view held
    obtain ⟨f, yields, fields⟩ := ih (shifted_iterations t.id among) plain
    rw [shifted.id] at fields
    exact ⟨f, .inside held' (shifted.loop.trans looping) among yields, fields.shift⟩

theorem copy_of_yields (view : List.Forall₂ (Shifted p steps) (visible steps) (visible copies))
    (yields : Yields reads copies nums f) :
    ∃ path scope s, Copy reads steps path scope s ∧ s.loop = none ∧ nums = path.map Prod.snd ∧
      CopyFields p path scope s f := by
  induction yields generalizing p steps with
  | @here copies t held plain =>
    obtain ⟨s, held', shifted⟩ := exists_left view held
    exact ⟨[], steps, s, .here held', shifted.loop.symm.trans plain, rfl, shifted.id,
      shifted.dependencies⟩
  | @inside copies t loop index later f held looping among yields ih =>
    obtain ⟨l, held', shifted⟩ := exists_left view held
    obtain ⟨path, scope, s, copy, plain, same, fields⟩ := ih (shifted_iterations t.id among)
    rw [shifted.id] at fields
    refine ⟨(l.id, index + 1) :: path, scope, s, .inside held' ?_ among copy, plain, ?_,
      fields.shift⟩
    · exact shifted.loop.symm.trans looping
    · rw [same]
      rfl

theorem shifted_self : List.Forall₂ (Shifted "" steps) (visible steps) (visible steps) := by
  refine List.forall₂_same.mpr fun s _ => ⟨by simp, ?_, rfl⟩
  simp

/-- Every copy of a step is in the result, with what it has in the place of its dependencies. -/
theorem produced_of_copy (expanded : (applyLoops reads steps).run = some (.ok result))
    (copy : Copy reads steps path scope s) (plain : s.loop = none) :
    ∃ f ∈ produced result, f.id = copyID path s.id ∧
      ∀ d ∈ s.dependencies, copyEntry path scope d ∈ f.dependencies := by
  obtain ⟨f, yields, id, dependencies⟩ := yields_of_copy shifted_self copy plain
  obtain ⟨g, held, same, kept⟩ := (applyLoopsWithin_exact _ expanded).complete _ f yields
  refine ⟨g, held, same.trans (by simpa using id), fun d needed => kept ?_⟩
  rw [dependencies]
  refine List.mem_map.mpr ⟨d, needed, ?_⟩
  simp [copyEntry]

/-- The result has nothing but copies. From the second iteration of some loop on, they may wait for
further steps of the result. -/
theorem copy_of_produced (expanded : (applyLoops reads steps).run = some (.ok result))
    (held : f ∈ produced result) :
    ∃ path scope s, Copy reads steps path scope s ∧ s.loop = none ∧ f.id = copyID path s.id ∧
      ∀ d ∈ f.dependencies, (∃ dep ∈ s.dependencies, copyEntry path scope dep = d) ∨
        (∃ place ∈ path, 2 ≤ place.2) ∧ ∃ g ∈ produced result, g.id = d := by
  obtain ⟨nums, g, yields, same, waits⟩ := (applyLoopsWithin_exact _ expanded).sound f held
  obtain ⟨path, scope, s, copy, plain, rfl, id, dependencies⟩ := copy_of_yields shifted_self yields
  refine ⟨path, scope, s, copy, plain, same.trans (by simpa using id), fun d needed => ?_⟩
  rcases waits d needed with own | ⟨⟨n, among, late⟩, known⟩
  · rw [dependencies] at own
    obtain ⟨dep, needed', shape⟩ := List.mem_map.mp own
    exact .inl ⟨dep, needed', by simpa [copyEntry] using shape⟩
  · obtain ⟨place, among', rfl⟩ := List.mem_map.mp among
    exact .inr ⟨⟨place, among', late⟩, known⟩

end Copies

/-! ## Unique ids -/

/-- The ids of all steps are distinct. -/
def UniqueIDs (steps : List Step) : Prop := ((allSteps steps).map (·.id)).Nodup

section Unique
variable {reads : LoopSyntax} {steps scope : List Step} {s t l : Step} {loop : LoopSpec Step}

theorem visible_sublist (steps : List Step) : (visible steps).Sublist (allSteps steps) := by
  induction steps using forest_induction with
  | nil => exact List.Sublist.slnil
  | cons s rest children body ih =>
    rw [allSteps_cons]
    cases looping : s.loop with
    | none =>
      rw [visible_cons_plain looping]
      exact .cons_cons s ((children.trans (List.sublist_append_left _ _)).append ih)
    | some loop =>
      rw [visible_cons_loop looping]
      exact .cons_cons s (ih.trans (List.sublist_append_right _ _))

private theorem loopSteps_some : loopSteps (some loop) = allSteps loop.body := rfl

/-- The steps in a loop come beside the steps in view. -/
theorem view_and_body (held : l ∈ visible steps) (looping : l.loop = some loop) :
    (visible steps ++ allSteps loop.body).Subperm (allSteps steps) := by
  induction steps using forest_induction with
  | nil => cases held
  | cons s rest children body ih =>
    rw [allSteps_cons]
    cases looping' : s.loop with
    | none =>
      rw [visible_cons_plain looping', List.mem_cons, List.mem_append] at held
      rw [visible_cons_plain looping', loopSteps, List.append_nil, List.cons_append,
        List.append_assoc, List.subperm_cons]
      rcases held with rfl | held | held
      · cases looping.symm.trans looping'
      · have moved : (visible s.children ++ (visible rest ++ allSteps loop.body)).Perm
            (visible s.children ++ allSteps loop.body ++ visible rest) := by
          rw [List.append_assoc]
          exact List.perm_append_comm.append_left _
        exact moved.subperm.trans ((children held).append (visible_sublist rest).subperm)
      · exact (visible_sublist s.children).subperm.append (ih held)
    | some loop' =>
      rw [visible_cons_loop looping', List.mem_cons] at held
      rw [visible_cons_loop looping', loopSteps_some, List.cons_append, List.subperm_cons]
      rcases held with rfl | held
      · cases looping.symm.trans looping'
        have own : (allSteps loop.body).Subperm (allSteps l.children ++ allSteps loop.body) :=
          (List.sublist_append_right _ _).subperm
        exact List.perm_append_comm.subperm.trans (own.append (visible_sublist rest).subperm)
      · exact (ih held).trans (List.sublist_append_right _ _).subperm

theorem UniqueIDs.eq (unique : UniqueIDs steps) (held : s ∈ allSteps steps)
    (held' : t ∈ allSteps steps)
    (same : s.id = t.id) : s = t := List.inj_on_of_nodup_map unique held held' same

theorem nodup_of_subperm {steps' : List Step} (inside : steps.Subperm steps')
    (unique : (steps'.map (·.id)).Nodup) : (steps.map (·.id)).Nodup := by
  obtain ⟨some, perm, sub⟩ := inside
  exact (perm.map _).nodup_iff.mp (unique.sublist (sub.map _))

theorem UniqueIDs.body (unique : UniqueIDs steps) (held : l ∈ visible steps)
    (looping : l.loop = some loop) :
    UniqueIDs loop.body := by
  have inside :=
    (List.sublist_append_right (visible steps) _).subperm.trans (view_and_body held looping)
  exact nodup_of_subperm inside unique

private theorem UniqueIDs.body_apart (unique : UniqueIDs steps) (held : l ∈ visible steps)
    (looping : l.loop = some loop)
    (seen : s ∈ visible steps) (inside : t ∈ allSteps loop.body) : s.id ≠ t.id := by
  have apart := nodup_of_subperm (view_and_body held looping) unique
  rw [List.map_append] at apart
  exact (List.nodup_append.mp apart).2.2 _ (List.mem_map_of_mem seen) _ (List.mem_map_of_mem inside)

theorem mem_collectIDs_cons {d : String} {rest : List Step} :
    d ∈ collectBodyStepIDs (s :: rest) ↔
      d = s.id ∨ d ∈ collectBodyStepIDs s.children ∨ d ∈ collectBodyStepIDs rest := by
  obtain ⟨fields, children, loop⟩ := s
  simp only [collectBodyStepIDs, Step.collectIDs, List.cons_append, List.mem_cons, List.mem_append]

private theorem exists_of_collected {d : String} (held : d ∈ collectBodyStepIDs steps) :
    ∃ s ∈ allSteps steps, s.id = d := by
  induction steps using forest_induction with
  | nil => cases held
  | cons s rest children body ih =>
    rw [allSteps_cons]
    rcases mem_collectIDs_cons.mp held with rfl | held | held
    · exact ⟨s, List.mem_cons_self, rfl⟩
    · obtain ⟨t, held', same⟩ := children held
      exact ⟨t, by simp [held'], same⟩
    · obtain ⟨t, held', same⟩ := ih held
      exact ⟨t, by simp [held'], same⟩

theorem collected_of_visible (held : s ∈ visible steps) : s.id ∈ collectBodyStepIDs steps := by
  induction steps using forest_induction with
  | nil => cases held
  | cons t rest children body ih =>
    rw [mem_collectIDs_cons]
    cases looping : t.loop with
    | none =>
      rw [visible_cons_plain looping, List.mem_cons, List.mem_append] at held
      rcases held with rfl | held | held
      · exact .inl rfl
      · exact .inr (.inl (children held))
      · exact .inr (.inr (ih held))
    | some loop =>
      rw [visible_cons_loop looping, List.mem_cons] at held
      rcases held with rfl | held
      · exact .inl rfl
      · exact .inr (.inr (ih held))

/-- The formula, or the body of a loop that is met. -/
inductive Scope : List Step → List Step → Prop where
  | here {steps : List Step} : Scope steps steps
  | inside {steps scope : List Step} {l : Step} {loop : LoopSpec Step} (held : l ∈ visible steps)
      (looping : l.loop = some loop) (reached : Scope loop.body scope) : Scope steps scope

theorem body_subset (held : l ∈ visible steps) (looping : l.loop = some loop) :
    allSteps loop.body ⊆ allSteps steps :=
  ((List.sublist_append_right (visible steps) _).subperm.trans (view_and_body held looping)).subset

theorem Scope.subset (reached : Scope steps scope) : allSteps scope ⊆ allSteps steps := by
  induction reached with
  | here => exact List.Subset.refl _
  | inside held looping _ ih => exact List.Subset.trans ih (body_subset held looping)

theorem Scope.unique (reached : Scope steps scope) (unique : UniqueIDs steps) :
    UniqueIDs scope := by
  induction reached with
  | here => exact unique
  | inside held looping _ ih => exact ih (unique.body held looping)

end Unique

/-! ## Ordering constraints -/

/-- The first step of the first iteration of a body, with the loops around it. -/
inductive First : List Step → List (String × Nat) → List Step → Step → Prop where
  | here {s : Step} {rest : List Step} (plain : s.loop = none) : First (s :: rest) [] (s :: rest) s
  | inside {s t : Step} {rest scope : List Step} {loop : LoopSpec Step} {path : List (String × Nat)}
      (looping : s.loop = some loop) (first : First loop.body path scope t) :
      First (s :: rest) ((s.id, 1) :: path) scope t

/-- A step of the result waits for another. -/
def Waits (result : List Step) (id id' : String) : Prop :=
  ∃ f ∈ produced result, f.id = id ∧ id' ∈ f.dependencies

/-- The ids of the formula are distinct, and steps wait for steps of the formula. -/
structure WellFormed (steps : List Step) : Prop where
  unique : UniqueIDs steps
  resolved : ∀ s ∈ allSteps steps, ∀ d ∈ s.dependencies, ∃ t ∈ allSteps steps, t.id = d

/-- An expansion has kept the ordering constraints: every dependency names a step of the result, a
step that waited for a loop waits for the last iteration of the copy of the loop around it, and what
a loop waited for, the first step of its first iteration waits for. -/
structure Kept (reads : LoopSyntax) (steps result : List Step) : Prop where
  named : ∀ f ∈ produced result, ∀ d ∈ f.dependencies, ∃ g ∈ produced result, g.id = d
  followed : ∀ path scope s, Copy reads steps path scope s → s.loop = none →
    ∀ path' scope' l loop, Copy reads steps path' scope' l → l.loop = some loop → path' <+: path →
      l.id ∈ s.dependencies → ∀ inner scope'' last, Copy reads loop.body inner scope'' last → last.loop = none →
        Relation.TransGen (Waits result) (copyID path s.id)
          (copyID (path' ++ (l.id, rounds reads loop) :: inner) last.id)
  inherited : ∀ path scope l loop, Copy reads steps path scope l → l.loop = some loop → ∀ d ∈ l.dependencies,
    ∀ inner scope' first, First loop.body inner scope' first → ∃ f ∈ produced result,
      f.id = copyID (path ++ (l.id, 1) :: inner) first.id ∧ copyEntry path scope d ∈ f.dependencies

/-- The id is that of a step in view without a loop. -/
def Plain (steps : List Step) (id : String) : Prop := ∃ s ∈ visible steps, s.loop = none ∧ s.id = id

/-- No constraint goes across a loop: a step waits for steps without a loop that stand in the same
body or outside of all loops, and a loop waits only for such steps outside, for which its first step
waits too. -/
structure Local (steps : List Step) : Prop where
  named : ∀ scope, Scope steps scope → ∀ s ∈ visible scope, s.loop = none → ∀ d ∈ s.dependencies,
    Plain scope d ∨ Plain steps d
  inherited : ∀ scope, Scope steps scope → ∀ l ∈ visible scope, ∀ loop, l.loop = some loop → ∀ d ∈ l.dependencies,
    Plain steps d ∧ ∀ inner scope' first, First loop.body inner scope' first → d ∈ first.dependencies

section Keeping
variable {reads : LoopSyntax} {steps scope result : List Step} {path : List (String × Nat)}
  {s : Step} {d : String}

theorem Copy.stands (copy : Copy reads steps path scope s) :
    Scope steps scope ∧ s ∈ visible scope := by
  induction copy with
  | here held => exact ⟨.here, held⟩
  | inside held looping _ _ ih => exact ⟨.inside held looping ih.1, ih.2⟩

theorem Copy.beside {t : Step} (copy : Copy reads steps path scope s) (held : t ∈ visible scope) :
    Copy reads steps path scope t := by
  induction copy with
  | here _ => exact .here held
  | inside held' looping among _ ih => exact .inside held' looping among (ih held)

theorem Copy.append {inner : List (String × Nat)} {scope' : List Step} {l t : Step}
    {loop : LoopSpec Step} {index : Nat}
    (copy : Copy reads steps path scope l) (looping : l.loop = some loop)
    (among : index < rounds reads loop) (copy' : Copy reads loop.body inner scope' t) :
    Copy reads steps (path ++ (l.id, index + 1) :: inner) scope' t := by
  induction copy with
  | here held => exact .inside held looping among copy'
  | inside held looping' among' _ ih => exact .inside held looping' among' (ih looping)

/-- A step outside of all loops is not one of a body. -/
theorem copyEntry_outside (unique : UniqueIDs steps) (copy : Copy reads steps path scope s)
    (outside : Plain steps d) :
    copyEntry path scope d = d := by
  unfold copyEntry
  cases copy with
  | here held => split <;> rfl
  | inside held looping among copy =>
    refine if_neg fun collected => ?_
    obtain ⟨t, inside, rfl⟩ := exists_of_collected collected
    obtain ⟨u, seen, -, same⟩ := outside
    exact unique.body_apart held looping seen (copy.stands.1.subset inside) same

theorem copy_of_first {inner : List (String × Nat)} {first : Step}
    (runs : ∀ loop, Nested steps loop → loop.body ≠ [] ∧ 0 < rounds reads loop)
    (leads : First steps inner scope first) :
    Copy reads steps inner scope first := by
  induction leads with
  | here plain =>
    refine .here ?_
    rw [visible_cons_plain plain]
    exact List.mem_cons_self
  | @inside s t rest scope loop path looping first ih =>
    have held : s ∈ visible (s :: rest) := by
      rw [visible_cons_loop looping]
      exact List.mem_cons_self
    exact .inside held looping (runs loop (.here held looping)).2
      (ih fun inner nested => runs inner (.inside held looping nested))

theorem First.plain {inner : List (String × Nat)} {first : Step}
    (leads : First steps inner scope first) :
    first.loop = none := by
  induction leads with
  | here plain => exact plain
  | inside _ _ ih => exact ih

theorem nested_of_scope {loop : LoopSpec Step} (reached : Scope steps scope)
    (nested : Nested scope loop) :
    Nested steps loop := by
  induction reached with
  | here => exact nested
  | inside held looping _ ih => exact .inside held looping (ih nested)

/-- What stands in the place of a local dependency names a step of the result. -/
theorem Local.named_entry (isLocal : Local steps) (unique : UniqueIDs steps)
    (expanded : (applyLoops reads steps).run = some (.ok result))
    (copy : Copy reads steps path scope s)
    (plain : s.loop = none) (needed : d ∈ s.dependencies) :
    ∃ g ∈ produced result, g.id = copyEntry path scope d := by
  obtain ⟨reached, seen⟩ := copy.stands
  rcases isLocal.named scope reached s seen plain d needed with ⟨t, held, plain', rfl⟩ | outside
  · obtain ⟨g, among, same, -⟩ := produced_of_copy expanded (copy.beside held) plain'
    exact ⟨g, among, by rw [copyEntry, if_pos (collected_of_visible held), same]⟩
  · rw [copyEntry_outside unique copy outside]
    obtain ⟨t, held, plain', rfl⟩ := outside
    obtain ⟨g, among, same, -⟩ := produced_of_copy expanded (.here held) plain'
    exact ⟨g, among, same⟩

private theorem kept_of_local (unique : UniqueIDs steps)
    (expanded : (applyLoops reads steps).run = some (.ok result))
    (isLocal : Local steps) : Kept reads steps result := by
  constructor
  · intro f held d needed
    obtain ⟨path, scope, s, copy, plain, -, waits⟩ := copy_of_produced expanded held
    rcases waits d needed with ⟨dep, own, rfl⟩ | ⟨-, known⟩
    · exact isLocal.named_entry unique expanded copy plain own
    · exact known
  · -- nothing waits for a loop
    intro path scope s copy plain path' scope' l loop copy' looping _ needed
    obtain ⟨reached, seen⟩ := copy.stands
    obtain ⟨reached', seen'⟩ := copy'.stands
    have there : l ∈ allSteps steps := reached'.subset ((visible_sublist _).subset seen')
    have unlooped (scope : List Step) (reached : Scope steps scope) : ¬Plain scope l.id := by
      rintro ⟨t, held, plain', same⟩
      have here : t ∈ allSteps steps := reached.subset ((visible_sublist _).subset held)
      cases unique.eq here there same
      cases looping.symm.trans plain'
    rcases isLocal.named scope reached s seen plain l.id needed with inside | outside
    · exact absurd inside (unlooped scope reached)
    · exact absurd outside (unlooped steps .here)
  · intro path scope l loop copy looping d needed inner scope' first leads
    obtain ⟨reached, seen⟩ := copy.stands
    obtain ⟨outside, waits⟩ := isLocal.inherited scope reached l seen loop looping d needed
    have runs (nested : LoopSpec Step) (met : Nested steps nested) := nested_runs _ expanded met
    have met : Nested steps loop := nested_of_scope reached (.here seen looping)
    have inside (nested : LoopSpec Step) (below : Nested loop.body nested) : Nested steps nested :=
      nested_of_scope reached (.inside seen looping below)
    have started := copy_of_first (fun nested below => runs nested (inside nested below)) leads
    have whole := copy.append looping (runs loop met).2 started
    obtain ⟨f, held, same, entries⟩ := produced_of_copy expanded whole leads.plain
    have entry := entries d (waits inner scope' first leads)
    rw [copyEntry_outside unique whole outside] at entry
    exact ⟨f, held, same, by rwa [copyEntry_outside unique copy outside]⟩

end Keeping

/-! ## Ids without marks -/

section Unmarked
variable {reads : LoopSyntax} {steps scope result : List Step} {path path' : List (String × Nat)}
  {s : Step}
  {id id' d : String}

/-- An id without the mark of an iteration. -/
def Unmarked (id : String) : Prop := ¬".iter".toList <:+: id.toList

private theorem not_unmarked_iterationID {loopID : String} {iteration : Nat} :
    ¬Unmarked (iterationID loopID iteration id) := by
  intro plain
  refine plain ?_
  rw [iterationID_toList, ← List.append_assoc]
  exact (List.suffix_append _ _).isInfix.trans (List.prefix_append _ _).isInfix

private theorem iterationID_inj {loopID loopID' : String} {iteration iteration' : Nat}
    (plain : Unmarked loopID)
    (plain' : Unmarked loopID') (same : iterationID loopID iteration id = iterationID loopID' iteration' id') :
    loopID = loopID' ∧ iteration = iteration' ∧ id = id' := by
  have texts := congrArg String.toList same
  have mark : ".iter".toList = '.' :: "iter".toList := by decide
  have once : '.' ∉ "iter".toList := by decide
  unfold Unmarked at plain plain'
  rw [mark] at plain plain'
  rw [iterationID_toList, iterationID_toList, mark] at texts
  obtain ⟨first, rest⟩ := eq_before_marker once plain plain' texts
  have digits (n : Nat) : '.' ∉ Nat.toDigits 10 n := not_mem_toDigits rfl
  obtain ⟨second, last⟩ := eq_before_stop (digits _) (digits _) rest
  exact ⟨String.toList_injective first, toDigits_inj second, String.toList_injective last⟩

theorem copyID_inj (plain : ∀ place ∈ path, Unmarked place.1)
    (plain' : ∀ place ∈ path', Unmarked place.1)
    (own : Unmarked id) (own' : Unmarked id') (same : copyID path id = copyID path' id') :
    path = path' ∧ id = id' := by
  induction path generalizing path' with
  | nil =>
    cases path' with
    | nil => exact ⟨rfl, same⟩
    | cons place path' =>
      rw [show id = _ from same] at own
      exact absurd own not_unmarked_iterationID
  | cons place path ih =>
    cases path' with
    | nil =>
      rw [← show _ = id' from same] at own'
      exact absurd own' not_unmarked_iterationID
    | cons place' path' =>
      obtain ⟨first, others⟩ := List.forall_mem_cons.mp plain
      obtain ⟨first', others'⟩ := List.forall_mem_cons.mp plain'
      obtain ⟨sameLoop, sameNumber, rest⟩ := iterationID_inj first first' same
      obtain ⟨rfl, rfl⟩ := ih others others' rest
      exact ⟨by rw [Prod.ext sameLoop sameNumber], rfl⟩

private theorem Copy.uncons {loopID : String} {iteration : Nat}
    (copy : Copy reads steps ((loopID, iteration) :: path) scope s) :
    ∃ l ∈ visible steps, ∃ loop, l.id = loopID ∧ l.loop = some loop ∧
      Copy reads loop.body path scope s := by
  cases copy with
  | @inside _ _ l _ loop _ _ held looping among copy => exact ⟨l, held, loop, rfl, looping, copy⟩

/-- The loops around a copy tell where it stands. -/
theorem Copy.scope_unique {scope' : List Step} {t : Step} (unique : UniqueIDs steps)
    (copy : Copy reads steps path scope s) (copy' : Copy reads steps path scope' t) :
    scope = scope' := by
  induction copy with
  | here _ =>
    cases copy'
    rfl
  | @inside steps scope l s loop index path held looping among copy ih =>
    obtain ⟨l', held', loop', same, looping', copy'⟩ := copy'.uncons
    cases unique.eq ((visible_sublist _).subset held') ((visible_sublist _).subset held) same
    cases looping.symm.trans looping'
    exact ih (unique.body held looping) copy'

/-- The loops around a copy are steps of the formula. -/
theorem Copy.places (copy : Copy reads steps path scope s) :
    ∀ place ∈ path, ∃ l ∈ allSteps steps, l.id = place.1 := by
  induction copy with
  | here _ => simp
  | @inside steps scope l s loop index path held looping among copy ih =>
    refine List.forall_mem_cons.mpr
      ⟨⟨l, (visible_sublist _).subset held, rfl⟩, fun place among => ?_⟩
    obtain ⟨l', inside, same⟩ := ih place among
    exact ⟨l', body_subset held looping inside, same⟩

/-- Where all loops run, each scope has a copy in the first iterations. -/
theorem exists_firstCopy (runs : ∀ loop, Nested steps loop → loop.body ≠ [] ∧ 0 < rounds reads loop)
    (reached : Scope steps scope) :
    ∃ path : List (String × Nat), (∀ place ∈ path, place.2 = 1) ∧
      ∀ s ∈ visible scope, Copy reads steps path scope s := by
  induction reached with
  | here => exact ⟨[], by simp, fun s held => .here held⟩
  | @inside steps scope l loop held looping _ ih =>
    obtain ⟨path, ones, copies⟩ := ih fun nested below => runs nested (.inside held looping below)
    refine ⟨(l.id, 1) :: path, List.forall_mem_cons.mpr ⟨rfl, ones⟩, fun s seen => ?_⟩
    exact .inside held looping (runs loop (.here held looping)).2 (copies s seen)

theorem First.ones {inner : List (String × Nat)} (leads : First steps inner scope s) :
    ∀ place ∈ inner, place.2 = 1 := by
  induction leads with
  | here _ => simp
  | inside _ _ ih => exact List.forall_mem_cons.mpr ⟨rfl, ih⟩

private theorem exists_first (some : steps ≠ [])
    (runs : ∀ loop, Nested steps loop → loop.body ≠ []) :
    ∃ inner scope first, First steps inner scope first := by
  induction steps using forest_induction with
  | nil => exact absurd rfl some
  | cons s rest children body ih =>
    cases looping : s.loop with
    | none => exact ⟨[], s :: rest, s, .here looping⟩
    | some loop =>
      have held : s ∈ visible (s :: rest) := by
        rw [visible_cons_loop looping]
        exact List.mem_cons_self
      obtain ⟨inner, scope, first, leads⟩ := body loop looping (runs loop (.here held looping))
        fun nested below => runs nested (.inside held looping below)
      exact ⟨(s.id, 1) :: inner, scope, first, .inside looping leads⟩

end Unmarked

section Converse
variable {reads : LoopSyntax} {steps result : List Step} (formula : WellFormed steps)
  (plain : ∀ s ∈ allSteps steps, Unmarked s.id) (expanded : (applyLoops reads steps).run = some (.ok result))
  (kept : Kept reads steps result)
include formula plain

theorem unmarked_dependency {scope : List Step} {path : List (String × Nat)} {s : Step} {d : String}
    (copy : Copy reads steps path scope s) (needed : d ∈ s.dependencies) : Unmarked d := by
  obtain ⟨reached, seen⟩ := copy.stands
  obtain ⟨t, held, rfl⟩ :=
    formula.resolved s (reached.subset ((visible_sublist _).subset seen)) d needed
  exact plain t held

omit formula in
theorem unmarked_places {scope : List Step} {path : List (String × Nat)} {s : Step}
    (copy : Copy reads steps path scope s) : ∀ place ∈ path, Unmarked place.1 := by
  intro place among
  obtain ⟨l, held, same⟩ := copy.places place among
  exact same ▸ plain l held

omit formula in
theorem unmarked_of_copy {scope : List Step} {path : List (String × Nat)} {s : Step}
    (copy : Copy reads steps path scope s) : Unmarked s.id := by
  obtain ⟨reached, seen⟩ := copy.stands
  exact plain s (reached.subset ((visible_sublist _).subset seen))

omit formula plain in
theorem copyEntry_eq (path : List (String × Nat)) (scope : List Step) (d : String) :
    ∃ places, copyEntry path scope d = copyID places d ∧
      (d ∈ collectBodyStepIDs scope ∧ places = path ∨
        d ∉ collectBodyStepIDs scope ∧ places = []) := by
  unfold copyEntry
  by_cases collected : d ∈ collectBodyStepIDs scope
  · exact ⟨path, if_pos collected, .inl ⟨collected, rfl⟩⟩
  · exact ⟨[], if_neg collected, .inr ⟨collected, rfl⟩⟩

omit formula in
theorem unmarked_entry {scope : List Step} {path places : List (String × Nat)} {s : Step}
    {d : String} (copy : Copy reads steps path scope s)
    (shape : d ∈ collectBodyStepIDs scope ∧ places = path ∨
      d ∉ collectBodyStepIDs scope ∧ places = []) :
    ∀ place ∈ places, Unmarked place.1 := by
  rcases shape with ⟨-, rfl⟩ | ⟨-, rfl⟩
  · exact unmarked_places plain copy
  · simp

/-- What stands in the place of a dependency names one step at most. -/
theorem copyEntry_inj {scope scope' : List Step} {path path' : List (String × Nat)} {s t : Step}
    {d : String}
    (copy : Copy reads steps path scope s) (needed : d ∈ s.dependencies)
    (copy' : Copy reads steps path' scope' t) (same : copyEntry path scope d = copyID path' t.id) :
    t.id = d ∧ (d ∈ collectBodyStepIDs scope ∧ path' = path ∨
      d ∉ collectBodyStepIDs scope ∧ path' = []) := by
  obtain ⟨places, entry, shape⟩ := copyEntry_eq path scope d
  obtain ⟨rfl, rfl⟩ := copyID_inj (unmarked_entry plain copy shape) (unmarked_places plain copy')
    (unmarked_dependency formula plain copy needed) (unmarked_of_copy plain copy') (entry.symm.trans same)
  exact ⟨rfl, shape⟩

/-- What a step around a loop has in the place of a dependency, a step inside can only have for a
dependency that is not rewritten. -/
theorem copyEntry_deeper {scope scope' : List Step} {path deeper : List (String × Nat)} {s t : Step}
    {d dep : String}
    {place : String × Nat} (copy : Copy reads steps path scope s) (needed : d ∈ s.dependencies)
    (copy' : Copy reads steps (path ++ place :: deeper) scope' t) (needed' : dep ∈ t.dependencies)
    (same : copyEntry (path ++ place :: deeper) scope' dep = copyEntry path scope d) :
    dep = d ∧ dep ∉ collectBodyStepIDs scope' := by
  obtain ⟨places, entry, shape⟩ := copyEntry_eq path scope d
  obtain ⟨places', entry', shape'⟩ := copyEntry_eq (path ++ place :: deeper) scope' dep
  obtain ⟨rfl, rfl⟩ :=
    copyID_inj (unmarked_entry plain copy' shape') (unmarked_entry plain copy shape)
    (unmarked_dependency formula plain copy' needed') (unmarked_dependency formula plain copy needed)
    (entry'.symm.trans (same.trans entry))
  rcases shape' with ⟨-, deep⟩ | ⟨outside, -⟩
  · exfalso
    have length := congrArg List.length deep
    rcases shape with ⟨-, rfl⟩ | ⟨-, rfl⟩ <;> simp at length
  · exact ⟨rfl, outside⟩

include expanded kept

theorem named_of_kept {scope : List Step} (reached : Scope steps scope) {s : Step}
    (seen : s ∈ visible scope)
    (unlooped : s.loop = none) {d : String} (needed : d ∈ s.dependencies) :
    Plain scope d ∨ Plain steps d := by
  obtain ⟨path, -, copies⟩ := exists_firstCopy (fun _ met => nested_runs _ expanded met) reached
  have copy := copies s seen
  obtain ⟨f, held, -, entries⟩ := produced_of_copy expanded copy unlooped
  obtain ⟨g, among, same⟩ := kept.named f held _ (entries d needed)
  obtain ⟨path', scope', t, copy', unlooped', id, -⟩ := copy_of_produced expanded among
  obtain ⟨rfl, ⟨-, rfl⟩ | ⟨-, rfl⟩⟩ :=
    copyEntry_inj formula plain copy needed copy' (same.symm.trans id)
  · cases copy.scope_unique formula.unique copy'
    exact .inl ⟨t, copy'.stands.2, unlooped', rfl⟩
  · cases copy' with
    | here seen' => exact .inr ⟨t, seen', unlooped', rfl⟩

private theorem inherited_of_kept {scope : List Step} (reached : Scope steps scope) {l : Step}
    (seen : l ∈ visible scope)
    {loop : LoopSpec Step} (looping : l.loop = some loop) {d : String}
    (needed : d ∈ l.dependencies) :
    Plain steps d ∧ ∀ inner scope' first, First loop.body inner scope' first →
      d ∈ first.dependencies := by
  have runs (nested : LoopSpec Step) (met : Nested steps nested) := nested_runs _ expanded met
  have below (nested : LoopSpec Step) (met : Nested loop.body nested) : Nested steps nested :=
    nested_of_scope reached (.inside seen looping met)
  have met := runs loop (nested_of_scope reached (.here seen looping))
  obtain ⟨path, ones, copies⟩ := exists_firstCopy runs reached
  have copy := copies l seen
  have listed (inner : List (String × Nat)) (scope' : List Step) (first : Step)
      (leads : First loop.body inner scope' first) :
      d ∈ first.dependencies ∧ d ∉ collectBodyStepIDs scope' := by
    have started := copy_of_first (fun nested inside => runs nested (below nested inside)) leads
    have whole := copy.append looping met.2 started
    obtain ⟨f, held, id, entry⟩ :=
      kept.inherited path scope l loop copy looping d needed inner scope' first leads
    obtain ⟨path', scope'', t, copy', -, id', waits⟩ := copy_of_produced expanded held
    obtain ⟨samePath, sameID⟩ :=
      copyID_inj (unmarked_places plain whole) (unmarked_places plain copy')
      (unmarked_of_copy plain whole) (unmarked_of_copy plain copy') (id.symm.trans id')
    subst samePath
    cases whole.scope_unique formula.unique copy'
    cases (whole.stands.1.unique formula.unique).eq ((visible_sublist _).subset whole.stands.2)
      ((visible_sublist _).subset copy'.stands.2) sameID
    rcases waits _ entry with ⟨dep, own, same⟩ | ⟨⟨place, among, late⟩, -⟩
    · obtain ⟨rfl, outside⟩ := copyEntry_deeper formula plain copy needed whole own same
      exact ⟨own, outside⟩
    · -- on the way to the first step all iterations are the first
      exfalso
      have one : place.2 = 1 := by
        rw [List.mem_append, List.mem_cons] at among
        rcases among with among | rfl | among
        · exact ones place among
        · rfl
        · exact leads.ones place among
      omega
  obtain ⟨inner, scope', first, leads⟩ :=
    exists_first met.1 fun nested inside => (runs nested (below nested inside)).1
  obtain ⟨own, outside⟩ := listed inner scope' first leads
  have started := copy_of_first (fun nested inside => runs nested (below nested inside)) leads
  obtain ⟨reached', seen'⟩ := (copy.append looping met.2 started).stands
  refine ⟨?_, fun inner scope' first leads => (listed inner scope' first leads).1⟩
  rcases named_of_kept formula plain expanded kept reached' seen' leads.plain own with
    ⟨t, held, -, rfl⟩ | named
  · exact absurd (collected_of_visible held) outside
  · exact named

end Converse

/-- Of the steps of a formula with distinct ids that wait for one another, the expansion of loops
keeps the ordering constraints if none of them goes across a loop. Where no id can be read in
another, it keeps them only then. -/
theorem applyLoops_kept_iff {reads : LoopSyntax} {steps result : List Step}
    (formula : WellFormed steps) (expanded : (applyLoops reads steps).run = some (.ok result)) :
    (Local steps → Kept reads steps result) ∧
      ((∀ s ∈ allSteps steps, Unmarked s.id) → (Kept reads steps result ↔ Local steps)) := by
  refine ⟨kept_of_local formula.unique expanded,
    fun plain => ⟨fun kept => ?_, kept_of_local formula.unique expanded⟩⟩
  constructor
  · intro scope reached s seen unlooped d needed
    exact named_of_kept formula plain expanded kept reached seen unlooped needed
  · intro scope reached l seen loop looping d needed
    exact inherited_of_kept formula plain expanded kept reached seen looping needed

/-- A reader for formulas without conditions and ranges. -/
def countsOnly : LoopSyntax where
  parseCondition := fun _ => .error "no conditions"
  validateRange := fun _ => .error "no ranges"
  parseRange := fun _ => .error "no ranges"

/-- A loop of two iterations. -/
def twice (body : List Step) : LoopSpec Step :=
  { count := 2, untilCondition := "", max := 0, range := "", var := "", body }

def inlineBody : List Step :=
  [{ id := "work", needs := ["setup"] }, { id := "save", needs := ["work"] }]

/-- A loop that waits for a step, as does the first step of its body. -/
def inlineWait : List Step :=
  [{ id := "setup" }, { id := "process", needs := ["setup"], loop := some (twice inlineBody) }]

def inlineWaitExpanded : List Step :=
  [{ id := "setup" },
   { id := "process.iter1.work", needs := ["setup"], sourceLocation := ".iter1" },
   { id := "process.iter1.save", needs := ["process.iter1.work"], sourceLocation := ".iter1" },
   { id := "process.iter2.work", needs := ["setup", "process.iter1.save"], sourceLocation := ".iter2" },
   { id := "process.iter2.save", needs := ["process.iter2.work"], sourceLocation := ".iter2" }]

theorem inlineWait_wellFormed : WellFormed inlineWait := by
  constructor
  · unfold UniqueIDs
    decide
  · decide

theorem inlineWait_loops {l : Step} {loop : LoopSpec Step} (held : l ∈ visible inlineWait)
    (looping : l.loop = some loop) : l.dependencies = ["setup"] ∧ loop = twice inlineBody := by
  have view : visible inlineWait = inlineWait := rfl
  rw [view, inlineWait, List.mem_pair] at held
  rcases held with rfl | rfl
  · cases looping
  · cases looping
    exact ⟨rfl, rfl⟩

theorem inlineBody_plain {s : Step} (held : s ∈ visible inlineBody) : s.loop = none := by
  have view : visible inlineBody = inlineBody := rfl
  rw [view, inlineBody, List.mem_pair] at held
  rcases held with rfl | rfl <;> rfl

private theorem inlineWait_scopes {scope : List Step} (reached : Scope inlineWait scope) :
    scope = inlineWait ∨ scope = inlineBody := by
  cases reached with
  | here => exact .inl rfl
  | inside held looping reached =>
    obtain ⟨-, rfl⟩ := inlineWait_loops held looping
    cases reached with
    | here => exact .inr rfl
    | inside held' looping' _ => cases (inlineBody_plain held').symm.trans looping'

private theorem inlineWait_local : Local inlineWait := by
  constructor
  · intro scope reached
    have outside : ∀ s ∈ visible inlineWait, s.loop.isNone → ∀ d ∈ s.dependencies,
        (∃ t ∈ visible inlineWait, t.loop.isNone ∧ t.id = d) := by decide
    have inside : ∀ s ∈ visible inlineBody, ∀ d ∈ s.dependencies,
        (∃ t ∈ visible inlineBody, t.loop.isNone ∧ t.id = d) ∨ ∃ t ∈ visible inlineWait, t.loop.isNone ∧ t.id = d := by
      decide
    simp only [Option.isNone_iff_eq_none] at outside inside
    rcases inlineWait_scopes reached with rfl | rfl
    · exact fun s held plain d needed => .inl (outside s held plain d needed)
    · exact fun s held _ d needed => inside s held d needed
  · intro scope reached l held loop looping d needed
    rcases inlineWait_scopes reached with rfl | rfl
    · obtain ⟨same, rfl⟩ := inlineWait_loops held looping
      rw [same, List.mem_singleton] at needed
      subst needed
      refine ⟨⟨{ id := "setup" }, List.mem_cons_self, rfl, rfl⟩, fun inner scope' first leads => ?_⟩
      cases leads with
      | here _ => decide
      | inside looping' _ => cases looping'
    · cases (inlineBody_plain held).symm.trans looping

theorem applyLoops_kept_inline : WellFormed inlineWait ∧
    (applyLoops countsOnly inlineWait).run = some (.ok inlineWaitExpanded) ∧
      Kept countsOnly inlineWait inlineWaitExpanded :=
  ⟨inlineWait_wellFormed, rfl, (applyLoops_kept_iff inlineWait_wellFormed rfl).1 inlineWait_local⟩

/-- A loop that waits for a step, and a step that waits for the loop. -/
def loopWait : List Step :=
  [{ id := "setup" }, { id := "process", needs := ["setup"], loop := some (twice [{ id := "work" }]) },
   { id := "report", needs := ["process"] }]

def loopWaitExpanded : List Step :=
  [{ id := "setup" },
   { id := "process.iter1.work", sourceLocation := ".iter1" },
   { id := "process.iter2.work", needs := ["process.iter1.work"], sourceLocation := ".iter2" },
   { id := "report", needs := ["process"] }]

theorem applyLoops_loses_waits : WellFormed loopWait ∧
    (applyLoops countsOnly loopWait).run = some (.ok loopWaitExpanded) ∧
      ¬Kept countsOnly loopWait loopWaitExpanded := by
  refine ⟨⟨?_, by decide⟩, rfl, fun kept => ?_⟩
  · unfold UniqueIDs
    decide
  · have dangling : ¬∀ f ∈ produced loopWaitExpanded, ∀ d ∈ f.dependencies,
        ∃ g ∈ produced loopWaitExpanded, g.id = d := by decide
    exact dangling kept.named

end Beads.Formula
