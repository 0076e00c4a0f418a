import Beads.CycleReportProofs
import Beads.GatedReady
import Beads.Lib.Graph

/-! The two finders of molecules that a closed gate lets go on. Both climb to the same issue: a
bounded number of first parents up. Go keeps, for every step that is still climbing, where it is;
what it stands for is the place that the rounds that are left will lead to. -/
namespace Beads.Ready
open Lib Relation

/-! ## Climbing -/

section Climbing
variable {parent : String → Option String} {id : String}

/-- A number of parents up, or as far as there are any. -/
def ascend (parent : String → Option String) : Nat → String → String
  | 0, id => id
  | rounds + 1, id =>
    match parent id with
    | none => id
    | some next => ascend parent rounds next

/-- One parent up. -/
def Above (parent : String → Option String) (child id : String) : Prop := parent child = some id

private theorem ascend_of_none (top : parent id = none) (rounds : Nat) :
    ascend parent rounds id = id := by
  cases rounds with
  | zero => rfl
  | succ rounds => simp [ascend, top]

/-- Where no id is above itself, the record of what was visited stops nothing. -/
theorem Haxe.climb_eq_ascend (loopless : ∀ id, ¬ TransGen (Above parent) id id) (rounds : Nat)
    (visited : List String) (below : ∀ v ∈ visited, TransGen (Above parent) v id) :
    climb parent rounds visited id = ascend parent rounds id := by
  induction rounds generalizing visited id with
  | zero => rfl
  | succ rounds ih =>
    rw [climb, ascend]
    cases above : parent id with
    | none => rfl
    | some next =>
      have fresh : id ∉ visited := fun seen => loopless id (below id seen)
      simp only [if_neg fresh]
      apply ih
      intro v held
      rcases List.mem_cons.mp held with rfl | held
      · exact .single above
      · exact (below v held).tail above

end Climbing

/-! ## The candidates in Haxe -/

private theorem firstParent_append (front behind : List Dependency) :
    firstParent (front ++ behind) = (firstParent front).or (firstParent behind) := by
  rw [firstParent, List.find?_append, firstParent, firstParent]
  cases front.find? (·.dependencyType = .parentChild) <;> rfl

namespace Haxe

/-- The loop over the dependencies of one candidate. -/
theorem foldl_parents (id key : String) (dependencies : List Dependency)
    (parents : String → Option String) : (dependencies.foldl (fun parents dependency =>
      if dependency.dependencyType = .parentChild ∧ parents id = none
      then Function.update parents id (some dependency.dependsOnId) else parents) parents) key =
      if key = id then (parents key).or (firstParent dependencies) else parents key := by
  induction dependencies generalizing parents with
  | nil => simp [firstParent]
  | cons dependency rest ih =>
    rw [List.foldl_cons, ih]
    by_cases here : key = id
    · subst here
      by_cases type : dependency.dependencyType = .parentChild
      · cases known : parents key with
        | none => simp [type, firstParent]
        | some parent => simp [known]
      · simp [type, firstParent]
    · simp only [here, if_false]
      split
      · exact Function.update_of_ne here _ _
      · rfl

private theorem parentOf_eq (candidates : List Issue) (key : String) :
    parentOf candidates key = firstParent ((candidates.filter (·.id = key)).flatMap Issue.dependencies) := by
  have general (parents : String → Option String) :
      (candidates.foldl (fun parents issue => issue.dependencies.foldl (fun parents dependency =>
        if dependency.dependencyType = .parentChild ∧ parents issue.id = none
        then Function.update parents issue.id (some dependency.dependsOnId) else parents) parents) parents) key =
        (parents key).or (firstParent ((candidates.filter (·.id = key)).flatMap Issue.dependencies)) := by
    induction candidates generalizing parents with
    | nil => simp [firstParent]
    | cons issue rest ih =>
      rw [List.foldl_cons, ih, foldl_parents]
      by_cases here : key = issue.id
      · subst here
        simp [firstParent_append, Option.or_assoc]
      · simp [here, Ne.symm here]
  rw [parentOf, general]
  rfl

end Haxe

namespace Workspace
variable {ws : Workspace} {id : String} {root : Issue}

/-- A candidate is found under its id, as no other has it. -/
theorem byId_rows : byId ws.issues.rows id = ws.issues.find? id := by
  rw [byId]
  cases found : ws.issues.rows.reverse.find? (·.id = id) with
  | none =>
    refine (Table.find?_eq_none.mpr ?_).symm
    intro issue held same
    have other := List.find?_eq_none.mp found issue (List.mem_reverse.mpr held)
    simp [same] at other
  | some issue =>
    refine (Table.find?_eq_some.mpr ⟨?_, ?_⟩).symm
    · exact List.mem_reverse.mp (List.mem_of_find?_eq_some found)
    · have same := List.find?_some found
      simpa using same

private theorem filter_rows : ws.issues.rows.filter (·.id = id) = (ws.issues.find? id).toList := by
  have distinct : (ws.issues.rows.map Issue.id).Nodup := ws.issues.distinct
  rw [Table.find?]
  generalize ws.issues.rows = rows at distinct
  induction rows with
  | nil => rfl
  | cons issue rest ih =>
    obtain ⟨fresh, distinct⟩ := List.nodup_cons.mp distinct
    by_cases here : issue.id = id
    · have none : rest.filter (·.id = id) = [] := by
        rw [List.filter_eq_nil_iff]
        intro other held
        have away : other.id ≠ issue.id := fun same => fresh (same ▸ List.mem_map_of_mem held)
        simpa [← here] using away
      simp [here, none]
    · simpa [here] using ih distinct

private theorem parentOf_rows : Haxe.parentOf ws.issues.rows = ws.parent := by
  funext key
  rw [Haxe.parentOf_eq, filter_rows, parent, records]
  cases ws.issues.find? key <;> simp

/-- The root that a climb from an id ends at, when it is the root of a molecule. -/
def IsRoot (ws : Workspace) (id : String) (root : Issue) : Prop :=
  root ∈ ws.issues ∧ root.id = ascend ws.parent maxParentDepth id ∧ root.IsMolecule

/-- The first parents lead nowhere twice. -/
def Loopless (ws : Workspace) : Prop := ∀ id, ¬ TransGen (Above ws.parent) id id

theorem moleculeRoot_iff (loopless : ws.Loopless) :
    Haxe.moleculeRoot ws.issues.rows id = some root ↔ ws.IsRoot id root := by
  have top : Haxe.climb (Haxe.parentOf ws.issues.rows) maxParentDepth
      [] id = ascend ws.parent maxParentDepth id := by
    rw [parentOf_rows]
    exact Haxe.climb_eq_ascend loopless maxParentDepth [] fun v none => absurd none List.not_mem_nil
  rw [Haxe.moleculeRoot, top, byId_rows, IsRoot]
  cases found : ws.issues.find? (ascend ws.parent maxParentDepth id) with
  | none =>
    constructor
    · intro impossible
      cases impossible
    · rintro ⟨held, same, -⟩
      exact absurd same (Table.find?_eq_none.mp found root held)
  | some issue =>
    obtain ⟨held, same⟩ := Table.find?_eq_some.mp found
    constructor
    · intro result
      by_cases molecule : issue.IsMolecule
      · simp only [if_pos molecule, Option.some.injEq] at result
        subst result
        exact ⟨held, same, molecule⟩
      · simp only [if_neg molecule] at result
        cases result
    · rintro ⟨there, equal, molecule⟩
      obtain rfl := Table.eq_of_key held there (same.trans equal.symm)
      simp [molecule]

end Workspace

/-! ## The climb in Go -/

namespace StringMap
variable {m : StringMap} {entries : List (String × String)} {e : String × String}

/-- Entries under distinct keys are all in the map, over what was there. -/
theorem mem_putAll (single : ∀ a ∈ entries, ∀ b ∈ entries, a.1 = b.1 → a = b) :
    e ∈ m.putAll entries ↔ e ∈ entries ∨ e ∈ m ∧ ∀ a ∈ entries, a.1 ≠ e.1 := by
  induction entries generalizing m with
  | nil => simp [putAll]
  | cons first rest ih =>
    have later := ih (m := m.put first) fun a left b right =>
      single a (List.mem_cons_of_mem _ left) b (List.mem_cons_of_mem _ right)
    rw [putAll, List.foldl_cons, ← putAll, later]
    simp only [Table.put, Table.mem_insert, Table.mem_delete, List.mem_cons, forall_eq_or_imp]
    constructor
    · rintro (held | ⟨⟨old, other⟩ | rfl, fresh⟩)
      · exact .inl (.inr held)
      · exact .inr ⟨old, Ne.symm other, fresh⟩
      · exact .inl (.inl rfl)
    · rintro ((rfl | held) | ⟨old, other, fresh⟩)
      · by_cases again : ∃ a ∈ rest, a.1 = e.1
        · obtain ⟨a, held, same⟩ := again
          exact .inl (single a (List.mem_cons_of_mem _ held) e List.mem_cons_self same ▸ held)
        · exact .inr ⟨.inr rfl, fun a held same => again ⟨a, held, same⟩⟩
      · exact .inl held
      · exact .inr ⟨.inl ⟨old, Ne.symm other⟩, fresh⟩

/-- Entries of one map, in any order, do not share a key. -/
theorem single_of_perm (perm : entries.Perm m.rows) :
    ∀ a ∈ entries, ∀ b ∈ entries, a.1 = b.1 → a = b :=
  fun _ left _ right => Table.eq_of_key (perm.mem_iff.mp left) (perm.mem_iff.mp right)

end StringMap

section Go
variable {parent parentOf : String → Option String} {target : String → String} {ids : List String}
  {rounds : Nat} {state : Climb}

/-- Where a climb stands when some rounds are left: the rounds lead every step that is still
climbing to its target, and the others have reached theirs. -/
structure Climbing (parent : String → Option String) (target : String → String) (ids : List String)
    (rounds : Nat) (state : Climb) : Prop where
  current : ∀ e ∈ state.current, e.1 ∈ ids ∧ ascend parent rounds e.2 = target e.1
  rootOf : ∀ e ∈ state.rootOf, e.1 ∈ ids ∧ e.2 = target e.1
  all : ∀ id ∈ ids, (∃ e ∈ state.current, e.1 = id) ∨ ∃ e ∈ state.rootOf, e.1 = id

section Advance
variable {entries : List (String × String)} (perm : entries.Perm state.current.rows)
  (same : ∀ e ∈ state.current, parentOf e.2 = parent e.2) {e : String × String}
include perm same

/-- The steps that go on are those with a parent, and they go on from there. -/
theorem mem_current_advance : e ∈ (state.advance entries parentOf).current ↔
    ∃ a ∈ state.current, a.1 = e.1 ∧ parent a.2 = some e.2 := by
  have listed (e : String × String) : e ∈ (entries.filterMap fun a => (parentOf a.2).map (a.1, ·)) ↔
      ∃ a ∈ state.current, a.1 = e.1 ∧ parent a.2 = some e.2 := by
    rw [List.mem_filterMap]
    apply exists_congr
    intro a
    rw [perm.mem_iff]
    apply and_congr_right
    intro here
    rw [same a here, Option.map_eq_some_iff]
    constructor
    · rintro ⟨next, above, rfl⟩
      exact ⟨rfl, above⟩
    · rintro ⟨key, above⟩
      exact ⟨e.2, above, Prod.ext key rfl⟩
  rw [Climb.advance, StringMap.mem_putAll, listed]
  · exact or_iff_left fun old => absurd old.1 List.not_mem_nil
  · intro a left b right key
    obtain ⟨a', here, keyA, aboveA⟩ := (listed a).mp left
    obtain ⟨b', there, keyB, aboveB⟩ := (listed b).mp right
    obtain rfl := Table.eq_of_key here there (keyA.trans (key.trans keyB.symm))
    exact Prod.ext key (Option.some.inj (aboveA.symm.trans aboveB))

/-- The steps without a parent end where they are. -/
theorem mem_rootOf_advance :
    e ∈ (state.advance entries parentOf).rootOf ↔ (e ∈ state.current ∧ parent e.2 = none) ∨
    e ∈ state.rootOf ∧ ∀ a ∈ state.current, parent a.2 = none → a.1 ≠ e.1 := by
  have listed (e : String × String) : e ∈ (entries.filter fun a => parentOf a.2 = none) ↔
      e ∈ state.current ∧ parent e.2 = none := by
    rw [List.mem_filter, decide_eq_true_eq, perm.mem_iff]
    apply and_congr_right
    intro here
    rw [same e here]
  rw [Climb.advance, StringMap.mem_putAll, listed]
  · simp only [listed, and_imp]
  · intro a left b right
    exact Table.eq_of_key ((listed a).mp left).1 ((listed b).mp right).1

theorem Climbing.advance (climbing : Climbing parent target ids (rounds + 1) state) :
    Climbing parent target ids rounds (state.advance entries parentOf) := by
  refine ⟨?_, ?_, ?_⟩
  · intro e climbs
    obtain ⟨a, held, key, above⟩ := (mem_current_advance perm same).mp climbs
    obtain ⟨known, leads⟩ := climbing.current a held
    rw [ascend, above] at leads
    rw [← key]
    exact ⟨known, leads⟩
  · intro e ended
    rcases (mem_rootOf_advance perm same).mp ended with ⟨held, top⟩ | ⟨old, -⟩
    · obtain ⟨known, leads⟩ := climbing.current e held
      rw [ascend_of_none top] at leads
      exact ⟨known, leads⟩
    · exact climbing.rootOf e old
  · intro id known
    rcases climbing.all id known with ⟨e, climbs, rfl⟩ | ⟨e, ended, rfl⟩
    · cases above : parent e.2 with
      | none => exact .inr ⟨e, (mem_rootOf_advance perm same).mpr (.inl ⟨climbs, above⟩), rfl⟩
      | some next =>
        exact .inl ⟨(e.1, next), (mem_current_advance perm same).mpr ⟨e, climbs, rfl, above⟩, rfl⟩
    · right
      by_cases again : ∃ a ∈ state.current, parent a.2 = none ∧ a.1 = e.1
      · obtain ⟨a, climbs, top, key⟩ := again
        exact ⟨a, (mem_rootOf_advance perm same).mpr (.inl ⟨climbs, top⟩), key⟩
      · refine ⟨e, (mem_rootOf_advance perm same).mpr (.inr ⟨ended, fun a climbs top key => again ?_⟩), rfl⟩
        exact ⟨a, climbs, top, key⟩

end Advance

/-- The rounds end at a state in which no round is left, or no step. -/
theorem climbRounds_spec {ws : Workspace} {readyIssues : List Issue}
    (reader : ws.Reader readyIssues)
    (order : ClimbOrder) (climbing : Climbing ws.parent target ids rounds state) :
    ∃ state', climbRounds reader.toMolReader order rounds state = some state' ∧
      Climbing ws.parent target ids 0 state' := by
  induction rounds generalizing state with
  | zero => exact ⟨state, rfl, climbing⟩
  | succ rounds ih =>
    rw [climbRounds]
    split
    · next none =>
      refine ⟨state, rfl, ?_, climbing.rootOf, climbing.all⟩
      intro e climbs
      have listed : e ∈ state.current.rows := climbs
      rw [List.length_eq_zero_iff.mp none] at listed
      exact absurd listed List.not_mem_nil
    · obtain ⟨allDeps, read, records⟩ := reader.dependencyRecords
        ((order.entries (.toCheck rounds) state.current.rows).map Prod.snd).eraseDups
      simp only [read]
      apply ih
      apply Climbing.advance (order.perm _ _) _ climbing
      intro e climbs
      rw [records e.2, Workspace.parent]
      rw [List.mem_eraseDups]
      exact List.mem_map_of_mem ((order.perm _ _).mem_iff.mpr climbs)

private theorem climbing_start (ids : List String) :
    Climbing parent (ascend parent rounds) ids rounds
    ⟨StringMap.putAll .empty (ids.map fun id => (id, id)), .empty⟩ := by
  have listed (e : String × String) :
      e ∈ StringMap.putAll .empty (ids.map fun id => (id, id)) ↔ e.1 ∈ ids ∧ e.2 = e.1 := by
    rw [StringMap.mem_putAll]
    · simp only [List.mem_map]
      constructor
      · rintro (⟨id, known, rfl⟩ | ⟨none, -⟩)
        · exact ⟨known, rfl⟩
        · exact absurd none List.not_mem_nil
      · rintro ⟨known, same⟩
        exact .inl ⟨e.1, known, Prod.ext rfl same.symm⟩
    · intro a left b right key
      obtain ⟨id, -, rfl⟩ := List.mem_map.mp left
      obtain ⟨other, -, rfl⟩ := List.mem_map.mp right
      exact Prod.ext key key
  refine ⟨?_, fun e none => absurd none List.not_mem_nil, ?_⟩
  · intro e climbs
    obtain ⟨known, same⟩ := (listed e).mp climbs
    exact ⟨known, by rw [same]⟩
  · intro id known
    exact .inl ⟨(id, id), (listed _).mpr ⟨known, rfl⟩, rfl⟩

/-- Steps that are still climbing after the last round are taken to be where they end. -/
theorem Climbing.mem_rootOf (climbing : Climbing parent target ids 0 state)
    {entries : List (String × String)}
    (perm : entries.Perm state.current.rows) {e : String × String} :
    e ∈ state.rootOf.putAll entries ↔ e.1 ∈ ids ∧ e.2 = target e.1 := by
  have held {e : String × String} : e ∈ entries ↔ e ∈ state.current := perm.mem_iff
  rw [StringMap.mem_putAll (StringMap.single_of_perm perm)]
  constructor
  · rintro (climbs | ⟨ended, -⟩)
    · exact climbing.current e (held.mp climbs)
    · exact climbing.rootOf e ended
  · rintro ⟨known, same⟩
    by_cases again : ∃ a ∈ entries, a.1 = e.1
    · obtain ⟨a, listed, key⟩ := again
      have there : a.2 = target a.1 := (climbing.current a (held.mp listed)).2
      have equal : a = e := Prod.ext key (by rw [there, key, same])
      exact .inl (equal ▸ listed)
    · have fresh : ∀ a ∈ entries, a.1 ≠ e.1 := fun a listed key => again ⟨a, listed, key⟩
      rcases climbing.all e.1 known with ⟨a, climbs, key⟩ | ⟨a, ended, key⟩
      · exact absurd key (fresh a (held.mpr climbs))
      · have there : a.2 = target a.1 := (climbing.rootOf a ended).2
        have equal : a = e := Prod.ext key (by rw [there, key, same])
        exact .inr ⟨equal ▸ ended, fresh⟩

/-- The roots that Go finds for the ids that it is given. -/
theorem mem_findParentMolecules {ws : Workspace} {readyIssues : List Issue}
    (reader : ws.Reader readyIssues)
    (order : ClimbOrder) (ids : List String) {e : String × String} :
    e ∈ findParentMolecules reader.toMolReader order ids ↔
      e.1 ∈ ids ∧ ∃ root, ws.IsRoot e.1 root ∧ root.id = e.2 := by
  rw [findParentMolecules]
  split
  · next none =>
    rw [List.length_eq_zero_iff.mp none]
    constructor
    · exact fun held => absurd held List.not_mem_nil
    · exact fun held => absurd held.1 List.not_mem_nil
  · have start : Climbing ws.parent (ascend ws.parent maxParentDepth) ids maxParentDepth _ :=
      climbing_start ids
    obtain ⟨state, climbed, climbing⟩ := climbRounds_spec reader order start
    simp only [climbed]
    have ended {e : String × String} :
        e ∈ state.rootOf.putAll (order.entries .unfinished state.current.rows) ↔
          e.1 ∈ ids ∧ e.2 = ascend ws.parent maxParentDepth e.1 := climbing.mem_rootOf (order.perm _ _)
    generalize state.rootOf.putAll (order.entries .unfinished state.current.rows) = rootOf at ended
    obtain ⟨found, read, listed⟩ :=
      reader.issuesByIDs ((order.entries .roots rootOf.rows).map Prod.snd).eraseDups
    simp only [read]
    rw [Table.mem_delete, not_not, ended]
    constructor
    · rintro ⟨⟨known, top⟩, issue, held, same, molecule⟩
      exact ⟨known, issue, ⟨((listed issue).mp held).1, same.trans top, molecule⟩, same⟩
    · rintro ⟨known, root, ⟨held, top, molecule⟩, same⟩
      have top' : e.2 = ascend ws.parent maxParentDepth e.1 := same.symm.trans top
      refine ⟨⟨known, top'⟩, root, (listed root).mpr ⟨held, ?_⟩, same, molecule⟩
      have entry : e ∈ order.entries .roots rootOf.rows :=
        (order.perm _ _).mem_iff.mpr (ended.mpr ⟨known, top'⟩)
      rw [List.mem_eraseDups, same]
      exact List.mem_map_of_mem entry

end Go

/-! ## The molecules that are found -/

namespace Workspace
variable (ws : Workspace) (readyIssues : List Issue) (id : String)

/-- The id is that of a hooked issue, or of the root of one. -/
def Hooked : Prop :=
  ∃ issue ∈ ws.issues, issue.status = .hooked ∧ (issue.id = id ∨ ∃ root, ws.IsRoot issue.id root ∧ root.id = id)

/-- A ready step lets the molecule go on behind a gate. -/
def Behind (gate step : Issue) : Prop :=
  (∃ ready ∈ readyIssues, ready.id = step.id) ∧ (∃ dependency ∈ step.dependencies, dependency.dependsOnId = gate.id) ∧
    (∃ root, ws.IsRoot step.id root ∧ root.id = id) ∧ ¬ ws.Hooked id

def IsClosedGate (gate : Issue) : Prop :=
  gate ∈ ws.issues ∧ gate.issueType = "gate" ∧ gate.status = .closed

/-- The molecules that closed gates let go on. -/
def Resumes : Prop :=
  ∃ gate, ws.IsClosedGate gate ∧ ∃ step ∈ ws.issues, ws.Behind readyIssues id gate step

end Workspace

/-- There is a molecule of the id. -/
def Has (molecules : MoleculeMap) (id : String) : Prop :=
  ∃ molecule ∈ molecules, molecule.moleculeId = id

section Has
variable {molecules : MoleculeMap} {id : String} {α : Type}

theorem has_insertIgnore (molecule : GatedMolecule) :
    Has (molecules.insertIgnore molecule) id ↔ Has molecules id ∨ molecule.moleculeId = id := by
  simp only [Has, Table.mem_insertIgnore]
  constructor
  · rintro ⟨m, held | ⟨rfl, -⟩, key⟩
    · exact .inl ⟨m, held, key⟩
    · exact .inr key
  · rintro (⟨m, held, key⟩ | key)
    · exact ⟨m, .inl held, key⟩
    · by_cases taken : ∃ old ∈ molecules, old.moleculeId = molecule.moleculeId
      · obtain ⟨old, held, same⟩ := taken
        exact ⟨old, .inl held, same.trans key⟩
      · exact ⟨molecule, .inr ⟨rfl, fun old held same => taken ⟨old, held, same⟩⟩, key⟩

/-- What a loop adds is what its rounds add. -/
theorem has_foldl {add : MoleculeMap → α → MoleculeMap} {adds : α → Prop} {l : List α}
    (step : ∀ molecules, ∀ a ∈ l, Has (add molecules a) id ↔ Has molecules id ∨ adds a) :
    Has (l.foldl add molecules) id ↔ Has molecules id ∨ ∃ a ∈ l, adds a := by
  induction l generalizing molecules with
  | nil => simp
  | cons a rest ih =>
    rw [List.foldl_cons, ih fun molecules a held => step molecules a (List.mem_cons_of_mem _ held)]
    rw [step molecules a List.mem_cons_self, or_assoc, List.exists_mem_cons_iff]

theorem not_has_empty : ¬ Has .empty id := by
  rintro ⟨molecule, none, -⟩
  exact absurd none List.not_mem_nil

/-- The ids of a sorted map: in order, each once. -/
theorem sorted_ids (sorter : Sorter GatedMolecule) (molecules : MoleculeMap) :
    ((sorter.sort compareMolecules molecules.rows).map GatedMolecule.moleculeId).Nodup ∧
      ((sorter.sort compareMolecules molecules.rows).map GatedMolecule.moleculeId).Pairwise (· ≤ ·) ∧
      ∀ id, id ∈ (sorter.sort compareMolecules molecules.rows).map GatedMolecule.moleculeId ↔
        Has molecules id := by
  have perm := sorter.perm compareMolecules molecules.rows
  refine ⟨?_, ?_, ?_⟩
  · exact (perm.map GatedMolecule.moleculeId).nodup_iff.mpr molecules.distinct
  · have order : WeakOrder compareMolecules molecules.rows :=
      (threeWay_weakOrder (molecules.rows.map GatedMolecule.moleculeId)).comap
    rw [List.pairwise_map]
    exact (sorter.sorted compareMolecules molecules.rows order).imp threeWay_nonpos.mp
  · intro id
    rw [List.mem_map]
    apply exists_congr
    intro molecule
    rw [perm.mem_iff]
    exact Iff.rfl

end Has

section Haxe
variable {ws : Workspace} (loopless : ws.Loopless) {readyIssues : List Issue} {id : String}
include loopless

private theorem mem_hookedMolecules_rows :
    id ∈ Haxe.hookedMolecules ws.issues.rows ↔ ws.Hooked id := by
  rw [Haxe.hookedMolecules, List.mem_flatMap, Workspace.Hooked]
  apply exists_congr
  intro issue
  rw [List.mem_filter, decide_eq_true_eq, and_assoc]
  apply and_congr_right
  intro held
  apply and_congr_right
  intro hooked
  rw [List.mem_cons, eq_comm (a := id), Option.mem_toList, Option.map_eq_some_iff]
  simp only [ws.moleculeRoot_iff loopless]

private theorem has_consider (gate : Issue) (molecules : MoleculeMap) (step : Issue) :
    Has (Haxe.consider readyIssues ws.issues.rows gate molecules step) id ↔
      Has molecules id ∨ ws.Behind readyIssues id gate step := by
  have ready : readyIssues.any (·.id = step.id) ↔ ∃ ready ∈ readyIssues, ready.id = step.id := by
    simp
  have depends : Haxe.dependsOn step gate.id ↔
      ∃ dependency ∈ step.dependencies, dependency.dependsOnId = gate.id := by simp [Haxe.dependsOn]
  rw [Haxe.consider, Workspace.Behind, ← ready, ← depends]
  split
  · next skipped =>
    refine (or_iff_left ?_).symm
    rintro ⟨isReady, waits, -⟩
    exact skipped.elim (fun absent => absent isReady) fun absent => absent waits
  · next considered =>
    rw [not_or, not_not, not_not] at considered
    simp only [considered, true_and]
    cases found : Haxe.moleculeRoot ws.issues.rows step.id with
    | none =>
      refine (or_iff_left ?_).symm
      rintro ⟨⟨root, isRoot, -⟩, -⟩
      rw [(ws.moleculeRoot_iff loopless).mpr isRoot] at found
      cases found
    | some root =>
      have only (other : Issue) : ws.IsRoot step.id other ↔ root = other := by
        rw [← ws.moleculeRoot_iff loopless, found, Option.some.injEq]
      simp only [only, exists_eq_left']
      split
      · next hooked =>
        rw [mem_hookedMolecules_rows loopless] at hooked
        refine (or_iff_left ?_).symm
        rintro ⟨rfl, free⟩
        exact free hooked
      · next free =>
        rw [mem_hookedMolecules_rows loopless] at free
        rw [has_insertIgnore]
        apply or_congr_right
        constructor
        · rintro rfl
          exact ⟨rfl, free⟩
        · exact fun held => held.1

private theorem discover_spec (sorter : Sorter GatedMolecule) :
    ((Haxe.discover sorter readyIssues ws.issues.rows).map GatedMolecule.moleculeId).Nodup ∧
      ((Haxe.discover sorter readyIssues ws.issues.rows).map GatedMolecule.moleculeId).Pairwise (· ≤ ·) ∧
      ∀ id, id ∈ (Haxe.discover sorter readyIssues ws.issues.rows).map GatedMolecule.moleculeId ↔
        ws.Resumes readyIssues id := by
  obtain ⟨nodup, sorted, mem⟩ := sorted_ids sorter ((ws.issues.rows.filter fun issue =>
    issue.issueType = "gate" ∧ issue.status = .closed).foldl
      (fun result gate => ws.issues.rows.foldl (Haxe.consider readyIssues ws.issues.rows gate) result) .empty)
  refine ⟨nodup, sorted, ?_⟩
  intro id
  rw [Haxe.discover, mem]
  rw [has_foldl fun molecules gate _ => has_foldl fun molecules step _ => has_consider loopless gate molecules step]
  rw [or_iff_right not_has_empty, Workspace.Resumes]
  simp only [List.mem_filter, decide_eq_true_eq, Workspace.IsClosedGate]
  exact Iff.rfl

end Haxe

section Go
variable {ws : Workspace} {readyIssues : List Issue} (reader : ws.Reader readyIssues)
  (order : ClimbOrder) {id : String}

private theorem mem_hookedMolecules :
    id ∈ hookedMolecules reader.toMolReader order ↔ ws.Hooked id := by
  obtain ⟨found, read, mem⟩ := reader.searches none (some .hooked)
  have listed (issue : Issue) : issue ∈ found ↔ issue ∈ ws.issues ∧ issue.status = .hooked := by
    rw [mem]
    simp
  have hooked : ws.Hooked id ↔ ∃ issue ∈ found, issue.id = id ∨ ∃ root, ws.IsRoot issue.id root ∧ root.id = id := by
    simp only [Workspace.Hooked, listed, and_assoc]
  have opened : hookedMolecules reader.toMolReader order = if found.length = 0 then []
      else found.map Issue.id ++
        (findParentMolecules reader.toMolReader order (found.map Issue.id)).rows.map Prod.snd := by
    rw [hookedMolecules, read]
    rfl
  rw [opened, hooked]
  split
  · next none => simp [List.length_eq_zero_iff.mp none]
  · simp only [List.mem_append, List.mem_map]
    constructor
    · rintro (⟨issue, held, same⟩ | ⟨entry, held, same⟩)
      · exact ⟨issue, held, .inl same⟩
      · obtain ⟨known, root, isRoot, key⟩ := (mem_findParentMolecules reader order _).mp held
        obtain ⟨issue, there, key'⟩ := List.mem_map.mp known
        exact ⟨issue, there, .inr ⟨root, key' ▸ isRoot, key.trans same⟩⟩
    · rintro ⟨issue, held, same | ⟨root, isRoot, same⟩⟩
      · exact .inl ⟨issue, held, same⟩
      · refine .inr ⟨(issue.id, id),
          (mem_findParentMolecules reader order _).mpr ⟨?_, root, isRoot, same⟩, rfl⟩
        exact List.mem_map_of_mem held

private theorem mem_readyBehind {gate step : Issue} :
    step ∈ readyBehind reader.toMolReader readyIssues gate ↔
    step ∈ ws.issues ∧ (∃ ready ∈ readyIssues, ready.id = step.id) ∧
      ∃ dependency ∈ step.dependencies, dependency.dependsOnId = gate.id := by
  obtain ⟨found, read, mem⟩ := reader.dependents gate.id
  simp only [readyBehind, read, List.mem_filter, mem, List.any_eq_true, decide_eq_true_eq,
    and_assoc]
  apply and_congr_right
  intro held
  exact and_comm

private theorem mem_readyDependents {closedGates : List Issue} {entry : Issue × Issue} :
    entry ∈ readyDependents reader.toMolReader closedGates readyIssues ↔
      entry.1 ∈ closedGates ∧ entry.2 ∈ readyBehind reader.toMolReader readyIssues entry.1 := by
  simp only [readyDependents, List.mem_flatMap, List.mem_map]
  constructor
  · rintro ⟨gate, held, step, behind, rfl⟩
    exact ⟨held, behind⟩
  · rintro ⟨held, behind⟩
    exact ⟨entry.1, held, entry.2, behind, rfl⟩

private theorem StringMap.get_eq_iff {m : StringMap} {key value : String} (named : value ≠ "") :
    m.get key = value ↔ (key, value) ∈ m := by
  rw [get]
  cases found : m.find? key with
  | none =>
    refine ⟨fun empty => absurd empty.symm named, fun held => ?_⟩
    exact absurd rfl (Table.find?_eq_none.mp found (key, value) held)
  | some entry =>
    obtain ⟨held, rfl⟩ := Table.find?_eq_some.mp found
    constructor
    · rintro rfl
      exact held
    · intro there
      rw [Table.eq_of_key held there rfl]
      rfl

/-- A step that Go puts into the map, if its molecule is not hooked. -/
theorem has_addMolecule {ids hooked : List String} (isHooked : ∀ id, id ∈ hooked ↔ ws.Hooked id)
    (molecules : MoleculeMap) {entry : Issue × Issue} (known : entry.2.id ∈ ids) :
    Has (addMolecule reader.toMolReader (findParentMolecules reader.toMolReader order ids) hooked molecules entry) id ↔
      Has molecules id ∨ (∃ root, ws.IsRoot entry.2.id root ∧ root.id = id) ∧ ¬ ws.Hooked id := by
  have roots {id : String} (named : id ≠ "") :
      (findParentMolecules reader.toMolReader order ids).get entry.2.id = id ↔
        ∃ root, ws.IsRoot entry.2.id root ∧ root.id = id := by
    rw [StringMap.get_eq_iff named, mem_findParentMolecules]
    exact and_iff_right known
  simp only [addMolecule]
  generalize (findParentMolecules reader.toMolReader order ids).get entry.2.id = moleculeID at roots
  have found : (∃ root, ws.IsRoot entry.2.id root ∧ root.id = id) → moleculeID = id := by
    rintro ⟨root, isRoot, rfl⟩
    exact (roots (ws.named root isRoot.1)).mpr ⟨root, isRoot, rfl⟩
  split
  · next empty =>
    refine (or_iff_left ?_).symm
    rintro ⟨⟨root, isRoot, same⟩, -⟩
    exact ws.named root isRoot.1 (same.trans ((found ⟨root, isRoot, same⟩).symm.trans empty))
  · next named =>
    obtain ⟨root, isRoot, same⟩ := (roots named).mp rfl
    split
    · next hooked =>
      rw [isHooked] at hooked
      refine (or_iff_left ?_).symm
      rintro ⟨there, free⟩
      exact free (found there ▸ hooked)
    · next free =>
      rw [isHooked] at free
      rw [← same, reader.issue root isRoot.1]
      simp only [has_insertIgnore]
      apply or_congr_right
      constructor
      · rintro rfl
        exact ⟨⟨root, isRoot, rfl⟩, same ▸ free⟩
      · rintro ⟨there, -⟩
        exact same.trans (found there)

private theorem findGateReadyMolecules_spec (orders : ClimbOrders) (sorter : Sorter GatedMolecule) :
    ∃ molecules, findGateReadyMolecules reader.toMolReader orders sorter = .ok molecules ∧
      (molecules.map GatedMolecule.moleculeId).Nodup ∧
        (molecules.map GatedMolecule.moleculeId).Pairwise (· ≤ ·) ∧
      ∀ id, id ∈ molecules.map GatedMolecule.moleculeId ↔ ws.Resumes readyIssues id := by
  obtain ⟨closedGates, read, mem⟩ := reader.searches (some "gate") (some .closed)
  have gates (gate : Issue) : gate ∈ closedGates ↔ ws.IsClosedGate gate := by
    rw [mem]
    simp [Workspace.IsClosedGate]
  let dependents := readyDependents reader.toMolReader closedGates readyIssues
  let depMolRoots :=
    findParentMolecules reader.toMolReader orders.dependents (dependents.map (·.2.id))
  let hooked := hookedMolecules reader.toMolReader orders.hooked
  let moleculeMap : MoleculeMap :=
    dependents.foldl (addMolecule reader.toMolReader depMolRoots hooked) .empty
  have opened : findGateReadyMolecules reader.toMolReader orders sorter = if closedGates.length = 0 then .ok []
      else .ok (sorter.sort compareMolecules moleculeMap.rows) := by
    rw [findGateReadyMolecules, read, reader.readyWork]
    rfl
  have resumes (id : String) : Has moleculeMap id ↔ ws.Resumes readyIssues id := by
    have step (molecules : MoleculeMap) (entry : Issue × Issue) (held : entry ∈ dependents) :
        Has (addMolecule reader.toMolReader depMolRoots hooked molecules entry) id ↔
          Has molecules id ∨ (∃ root, ws.IsRoot entry.2.id root ∧ root.id = id) ∧ ¬ ws.Hooked id := by
      apply has_addMolecule reader orders.dependents fun _ => mem_hookedMolecules reader
        orders.hooked
      exact List.mem_map.mpr ⟨entry, held, rfl⟩
    rw [has_foldl step, or_iff_right not_has_empty]
    simp only [dependents, mem_readyDependents, mem_readyBehind, gates, Prod.exists]
    simp only [Workspace.Resumes, Workspace.Behind]
    constructor
    · rintro ⟨gate, step, ⟨closed, held, ready, depends⟩, root, free⟩
      exact ⟨gate, closed, step, held, ready, depends, root, free⟩
    · rintro ⟨gate, closed, step, held, ready, depends, root, free⟩
      exact ⟨gate, step, ⟨closed, held, ready, depends⟩, root, free⟩
  rw [opened]
  split
  · next none =>
    refine ⟨[], rfl, List.nodup_nil, List.Pairwise.nil, ?_⟩
    intro id
    refine ⟨fun held => absurd held List.not_mem_nil, ?_⟩
    rintro ⟨gate, closed, -⟩
    have held := (gates gate).mpr closed
    rw [List.length_eq_zero_iff.mp none] at held
    exact absurd held List.not_mem_nil
  · obtain ⟨nodup, sorted, ids⟩ := sorted_ids sorter moleculeMap
    refine ⟨_, rfl, nodup, sorted, ?_⟩
    intro id
    rw [ids, resumes]

end Go

/-- For every workspace whose first parents lead nowhere twice, both finders list the same
molecules, in the same order. -/
theorem findGateReadyMolecules_eq_discover (ws : Workspace) (readyIssues : List Issue)
    (reader : ws.Reader readyIssues)
    (orders : ClimbOrders) (sorter sorter' : Sorter GatedMolecule) (loopless : ws.Loopless) :
    ∃ molecules, findGateReadyMolecules reader.toMolReader orders sorter = .ok molecules ∧
      molecules.map GatedMolecule.moleculeId =
        (Haxe.discover sorter' readyIssues ws.issues.rows).map GatedMolecule.moleculeId := by
  obtain ⟨molecules, found, nodup, sorted, mem⟩ := findGateReadyMolecules_spec reader orders sorter
  obtain ⟨nodup', sorted', mem'⟩ := discover_spec loopless sorter'
  refine ⟨molecules, found, AdjacencyMap.eq_of_sorted nodup nodup' sorted sorted' ?_⟩
  intro id
  rw [mem, mem']

/-- The reader that goes through the issues in the order of the table. -/
def Workspace.reader (ws : Workspace) (readyIssues : List Issue) : ws.Reader readyIssues where
  searchIssues type status := .ok (ws.issues.rows.filter fun issue =>
    (∀ t ∈ type, issue.issueType = t) ∧ ∀ s ∈ status, issue.status = s)
  getReadyWork := .ok readyIssues
  getDependents id := .ok (ws.issues.rows.filter fun issue => issue.dependencies.any (·.dependsOnId = id))
  getIssue id := .ok (ws.issues.find? id)
  getIssuesByIDs ids := .ok (ws.issues.rows.filter (·.id ∈ ids))
  getDependencyRecordsForIssues _ := .ok ws.records
  searches type status := by
    refine ⟨_, rfl, fun issue => ?_⟩
    rw [List.mem_filter, decide_eq_true_eq]
    rfl
  readyWork := rfl
  dependents id := by
    refine ⟨_, rfl, fun issue => ?_⟩
    rw [List.mem_filter, List.any_eq_true]
    simp only [decide_eq_true_eq]
    rfl
  issue issue held := congrArg Except.ok (Table.find?_eq_some.mpr ⟨held, rfl⟩)
  issuesByIDs ids := by
    refine ⟨_, rfl, fun issue => ?_⟩
    rw [List.mem_filter, decide_eq_true_eq]
    rfl
  dependencyRecords ids := ⟨_, rfl, fun _ _ => rfl⟩

private theorem Workspace.parent_eq_some {ws : Workspace} {child id : String}
    (above : ws.parent child = some id) :
    ∃ issue ∈ ws.issues, issue.id = child ∧
      ∃ dependency ∈ issue.dependencies, dependency.dependencyType = .parentChild ∧
        dependency.dependsOnId = id := by
  rw [parent, records, firstParent, Option.map_eq_some_iff] at above
  obtain ⟨dependency, first, target⟩ := above
  cases found : ws.issues.find? child with
  | none => simp [found] at first
  | some issue =>
    obtain ⟨held, key⟩ := Table.find?_eq_some.mp found
    rw [found] at first
    have type := List.find?_some first
    exact ⟨issue, held, key, dependency, List.mem_of_find?_eq_some first, by simpa using type,
      target⟩

/-- A molecule with a closed gate and a step behind it. -/
def resumedWorkspace : Workspace where
  issues := ⟨[⟨"mol", "", .inProgress, 2, "molecule", [], [], 0, 0, []⟩,
    ⟨"mol.gate", "", .closed, 2, "gate", [], [⟨"mol.gate", "mol", .parentChild⟩], 1, 1, []⟩,
    ⟨"mol.step", "", .open, 2, "task", [], [⟨"mol.step", "mol", .parentChild⟩, ⟨"mol.step", "mol.gate", .blocks⟩],
      2, 0, []⟩], by decide⟩
  named := by decide

private theorem loopless_resumedWorkspace : resumedWorkspace.Loopless := by
  have all : ∀ issue ∈ resumedWorkspace.issues.rows, ∀ dependency ∈ issue.dependencies,
      dependency.dependencyType = .parentChild → issue.id ≠ "mol" ∧ dependency.dependsOnId = "mol" := by decide
  apply Graph.acyclic_of_lt fun id => if id = "mol" then 1 else 0
  intro child id above
  obtain ⟨issue, held, key, dependency, listed, type, target⟩ := Workspace.parent_eq_some above
  obtain ⟨child, parent⟩ := all issue held dependency listed type
  rw [key] at child
  rw [target] at parent
  simp [child, parent]

/-- The order in which the entries were written. -/
def ClimbOrder.written : ClimbOrder := ⟨fun _ rows => rows, fun _ rows => List.Perm.refl rows⟩

theorem findGateReadyMolecules_eq_discover_resumed : resumedWorkspace.Loopless ∧
    let readyIssues := resumedWorkspace.issues.rows.filter (·.status = .open)
    ∃ molecules, findGateReadyMolecules (resumedWorkspace.reader readyIssues).toMolReader ⟨.written, .written⟩ .stable =
        .ok molecules ∧
      molecules.map GatedMolecule.moleculeId =
        (Haxe.discover .stable readyIssues resumedWorkspace.issues.rows).map GatedMolecule.moleculeId ∧
      (Haxe.discover .stable readyIssues resumedWorkspace.issues.rows).map GatedMolecule.moleculeId = ["mol"] := by
  refine ⟨loopless_resumedWorkspace, ?_⟩
  obtain ⟨molecules, found, same⟩ := findGateReadyMolecules_eq_discover resumedWorkspace
    (resumedWorkspace.issues.rows.filter (·.status = .open)) (resumedWorkspace.reader _) ⟨.written, .written⟩
    .stable .stable loopless_resumedWorkspace
  exact ⟨molecules, found, same, by decide +kernel⟩

end Beads.Ready
