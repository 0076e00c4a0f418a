import Mathlib.Data.List.Nodup
import Mathlib.Logic.Relation
import Beads.FormulaParser

/-! Resolving formulas comes to an end, leaves no trace in the set and the chain of the parser, and
reports a cycle exactly where there is one. -/
namespace Beads.Formula
open Relation

/-! ## Bookkeeping -/

/-- A parser after a call: what is being resolved is as before, and the cache has only got what is
in the library. -/
structure Returned (lib : Library) (p p' : Parser) : Prop where
  resolvingSet : p'.resolvingSet = p.resolvingSet
  resolvingChain : p'.resolvingChain = p.resolvingChain
  cache : ∀ entry ∈ p'.cache, entry ∈ p.cache ∨ ∃ file ∈ lib, file.content = .ok entry.2

section Bookkeeping
variable {lib : Library} {p p' p'' : Parser} {f merged : Formula} {name : String}
  {names : List String}
  {outcome : Except ResolveError Formula} {resolve : Parser → Formula → Option Resolution}

theorem Returned.refl (p : Parser) : Returned lib p p := ⟨rfl, rfl, fun _ held => .inl held⟩

private theorem Returned.trans (first : Returned lib p p') (second : Returned lib p' p'') :
    Returned lib p p'' := by
  refine ⟨second.resolvingSet.trans first.resolvingSet,
    second.resolvingChain.trans first.resolvingChain, ?_⟩
  intro entry held
  rcases second.cache entry held with held | stored
  · exact first.cache entry held
  · exact .inr stored

private theorem returned_parseFile {file : File} (stored : file ∈ lib) :
    Returned lib p (p.parseFile file).2 := by
  unfold Parser.parseFile
  cases p.cache.lookup (.path file.path) with
  | some cached => exact .refl p
  | none =>
    cases content : file.content with
    | error err => exact .refl p
    | ok f =>
      refine ⟨rfl, rfl, fun entry held => ?_⟩
      rcases List.mem_cons.mp held with rfl | held
      · exact .inr ⟨file, stored, content⟩
      · rcases List.mem_cons.mp held with rfl | held
        · exact .inr ⟨file, stored, content⟩
        · exact .inl held

theorem returned_loadFormula : Returned lib p (p.loadFormula lib name).2 := by
  unfold Parser.loadFormula
  cases p.cache.lookup (.name name) with
  | some cached => exact .refl p
  | none =>
    cases found : lib.find? fun file => file.name = name with
    | some file => exact returned_parseFile (List.mem_of_find?_eq_some found)
    | none => exact .refl p

theorem validated_snd : (validated f p).2 = p := by
  unfold validated
  split <;> rfl

private theorem returned_resolveParents
    (returned : ∀ ⦃p f outcome p'⦄, resolve p f = some (outcome, p') → Returned lib p p')
    (run : resolveParents lib resolve merged names p = some (outcome, p')) : Returned lib p p' := by
  induction names generalizing merged p with
  | nil =>
    cases run
    exact .refl _
  | cons name rest ih =>
    have loads : Returned lib p (p.loadFormula lib name).2 := returned_loadFormula
    unfold resolveParents at run
    cases loaded : p.loadFormula lib name with
    | mk found q =>
      rw [loaded] at run loads
      cases found with
      | error err =>
        cases run
        exact loads
      | ok parent =>
        dsimp only at run
        cases resolved : resolve q parent with
        | none =>
          rw [resolved] at run
          cases run
        | some result =>
          obtain ⟨inner, r⟩ := result
          rw [resolved] at run
          have inside := loads.trans (returned resolved)
          cases inner with
          | error err =>
            cases run
            exact inside
          | ok parent => exact inside.trans (ih run)

private theorem returned_resolveBody
    (returned : ∀ ⦃p f outcome p'⦄, resolve p f = some (outcome, p') → Returned lib p p')
    (run : resolveBody lib resolve p f = some (outcome, p')) : Returned lib p p' := by
  unfold resolveBody at run
  by_cases alone : f.extended.isEmpty
  · rw [if_pos alone] at run
    have same : p' = (validated f p).2 := congrArg Prod.snd (Option.some.inj run).symm
    rw [same, validated_snd]
    exact .refl p
  · rw [if_neg alone] at run
    cases parents : resolveParents lib resolve (startMerge f) f.extended p with
    | none =>
      rw [parents] at run
      cases run
    | some result =>
      obtain ⟨inner, q⟩ := result
      have inside := returned_resolveParents returned parents
      rw [parents] at run
      cases inner with
      | error err =>
        cases run
        exact inside
      | ok merged =>
        have same : p' = (validated (mergeChild merged f) q).2 :=
          congrArg Prod.snd (Option.some.inj run).symm
        rw [same, validated_snd]
        exact inside

/-- A formula that was taken up is given back. -/
theorem Returned.leave (inside : Returned lib (p.enter name) p') :
    Returned lib p (p'.leave name) := by
  refine ⟨?_, ?_, inside.cache⟩
  · rw [Parser.leave, inside.resolvingSet, Parser.enter]
    exact List.erase_cons_head name p.resolvingSet
  · rw [Parser.leave, inside.resolvingChain, Parser.enter]
    exact List.dropLast_concat

theorem returned_resolveWithin (fuel : Nat) ⦃p :
    Parser⦄ ⦃f : Formula⦄ ⦃outcome : Except ResolveError Formula⦄
    ⦃p' : Parser⦄ (run : resolveWithin lib fuel p f = some (outcome, p')) : Returned lib p p' := by
  induction fuel generalizing p f outcome p' with
  | zero => cases run
  | succ fuel ih =>
    unfold resolveWithin at run
    by_cases again : f.formula ∈ p.resolvingSet
    · rw [if_pos again] at run
      cases run
      exact .refl p
    · rw [if_neg again, Option.map_eq_some_iff] at run
      obtain ⟨⟨inner, q⟩, done, same⟩ := run
      cases same
      exact (returned_resolveBody ih done).leave

end Bookkeeping

/-! ## Termination -/

section Termination
variable {lib : Library} {p p' : Parser} {f : Formula} {name : String} {pool : List String}
  {resolve : Parser → Formula → Option Resolution}

/-- The names of all formulas that can be loaded. -/
structure Covers (lib : Library) (pool : List String) (p : Parser) : Prop where
  stored : ∀ file ∈ lib, ∀ f, file.content = .ok f → f.formula ∈ pool
  cached : ∀ entry ∈ p.cache, entry.2.formula ∈ pool

theorem Covers.returned (covers : Covers lib pool p) (returned : Returned lib p p') :
    Covers lib pool p' := by
  refine ⟨covers.stored, fun entry held => ?_⟩
  rcases returned.cache entry held with held | ⟨file, stored, content⟩
  · exact covers.cached entry held
  · exact covers.stored file stored _ content

private theorem mem_of_lookup {key : CacheKey} {cache : List (CacheKey × Formula)}
    (found : cache.lookup key = some f) : (key, f) ∈ cache := by
  obtain ⟨before, after, rfl, -⟩ := List.lookup_eq_some_iff.mp found
  simp

theorem Covers.loaded (covers : Covers lib pool p) (loaded : p.loadFormula lib name = (.ok f, p')) :
    f.formula ∈ pool := by
  unfold Parser.loadFormula at loaded
  cases cached : p.cache.lookup (.name name) with
  | some g =>
    rw [cached] at loaded
    cases loaded
    exact covers.cached _ (mem_of_lookup cached)
  | none =>
    rw [cached] at loaded
    cases found : lib.find? fun file => file.name = name with
    | none =>
      rw [found] at loaded
      cases loaded
    | some file =>
      rw [found] at loaded
      unfold Parser.parseFile at loaded
      cases kept : p.cache.lookup (.path file.path) with
      | some g =>
        simp only [kept] at loaded
        cases loaded
        exact covers.cached _ (mem_of_lookup kept)
      | none =>
        simp only [kept] at loaded
        cases content : file.content with
        | error err =>
          simp only [content] at loaded
          cases loaded
        | ok g =>
          simp only [content] at loaded
          cases loaded
          exact covers.stored file (List.mem_of_find?_eq_some found) _ content

/-- How many names are not being resolved. -/
def idle (pool : List String) (p : Parser) : Nat :=
  (pool.filter fun name => name ∉ p.resolvingSet).length

private theorem idle_enter : idle pool (p.enter name) =
    ((pool.filter fun name => name ∉ p.resolvingSet).filter fun other => other ≠ name).length := by
  unfold idle Parser.enter
  rw [List.filter_filter]
  congr 2
  funext other
  simp [not_or]

private theorem idle_enter_lt (known : name ∈ pool) (new : name ∉ p.resolvingSet) :
    idle pool (p.enter name) < idle pool p := by
  rw [idle_enter]
  refine List.length_filter_lt_length_iff_exists.mpr ⟨name, ?_, by simp⟩
  exact List.mem_filter.mpr ⟨known, by simpa using new⟩

private theorem idle_returned (returned : Returned lib p p') : idle pool p' = idle pool p := by
  unfold idle
  rw [returned.resolvingSet]

private theorem returns_resolveParents (bound : Nat) (merged : Formula) (names : List String)
    (returned : ∀ ⦃p f outcome p'⦄, resolve p f = some (outcome, p') → Returned lib p p')
    (returns : ∀ p f, Covers lib pool p → f.formula ∈ pool → idle pool p < bound →
      (resolve p f).isSome)
    (covers : Covers lib pool p) (few : idle pool p < bound) :
    (resolveParents lib resolve merged names p).isSome := by
  induction names generalizing merged p with
  | nil => rfl
  | cons name rest ih =>
    have loads : Returned lib p (p.loadFormula lib name).2 := returned_loadFormula
    unfold resolveParents
    cases loaded : p.loadFormula lib name with
    | mk found q =>
      rw [loaded] at loads
      cases found with
      | error err => rfl
      | ok parent =>
        have covers' := covers.returned loads
        have few' : idle pool q < bound := by rwa [idle_returned loads]
        have done := returns q parent covers' (covers.loaded loaded) few'
        dsimp only
        cases resolved : resolve q parent with
        | none =>
          rw [resolved] at done
          cases done
        | some result =>
          obtain ⟨inner, r⟩ := result
          have inside := returned resolved
          cases inner with
          | error err => rfl
          | ok parent => exact ih _ (covers'.returned inside) (by rwa [idle_returned inside])

theorem returns_resolveBody (bound : Nat)
    (returned : ∀ ⦃p f outcome p'⦄, resolve p f = some (outcome, p') → Returned lib p p')
    (returns : ∀ p f, Covers lib pool p → f.formula ∈ pool → idle pool p < bound →
      (resolve p f).isSome)
    (covers : Covers lib pool p) (few : idle pool p < bound) :
    (resolveBody lib resolve p f).isSome := by
  unfold resolveBody
  by_cases alone : f.extended.isEmpty
  · rw [if_pos alone]
    rfl
  · rw [if_neg alone]
    have done := returns_resolveParents bound (startMerge f) f.extended returned returns covers few
    cases parents : resolveParents lib resolve (startMerge f) f.extended p with
    | none =>
      rw [parents] at done
      cases done
    | some result =>
      obtain ⟨inner, q⟩ := result
      cases inner <;> rfl

private theorem returns_resolveWithin (fuel : Nat) (p : Parser) (f : Formula)
    (covers : Covers lib pool p) (known : f.formula ∈ pool) (few : idle pool p < fuel) :
    (resolveWithin lib fuel p f).isSome := by
  induction fuel generalizing p f with
  | zero => cases few
  | succ fuel ih =>
    unfold resolveWithin
    by_cases again : f.formula ∈ p.resolvingSet
    · rw [if_pos again]
      rfl
    · rw [if_neg again, Option.isSome_map]
      have fewer := idle_enter_lt known again
      exact returns_resolveBody fuel (returned_resolveWithin fuel) ih
        ⟨covers.stored, covers.cached⟩ (by omega)

/-- Resolving a formula always comes to an end. -/
theorem returns_resolve (lib : Library) (p : Parser) (f : Formula) :
    (Formula.resolve lib p f).isSome := by
  let pool :=
    lib.filterMap (fun file => file.content.toOption.map (·.formula)) ++ p.cache.map (·.2.formula)
  have covers : Covers lib pool p := by
    refine ⟨fun file stored f content => ?_, fun entry held => ?_⟩
    · refine List.mem_append_left _ (List.mem_filterMap.mpr ⟨file, stored, ?_⟩)
      rw [content]
      rfl
    · exact List.mem_append_right _ (List.mem_map_of_mem held)
  have size : pool.length ≤ lib.length + p.cache.length := by
    rw [List.length_append, List.length_map]
    exact Nat.add_le_add_right (List.length_filterMap_le _ _) _
  have few : idle pool (p.enter f.formula) ≤ pool.length := List.length_filter_le _ _
  unfold Formula.resolve resolveWithin
  by_cases again : f.formula ∈ p.resolvingSet
  · rw [if_pos again]
    rfl
  · rw [if_neg again, Option.isSome_map]
    exact returns_resolveBody _ (returned_resolveWithin _) (returns_resolveWithin _)
      ⟨covers.stored, covers.cached⟩
      (by omega)

end Termination

/-! ## Cycles -/

/-- The formula that is stored under a name. -/
def stored (lib : Library) (name : String) : Option Formula :=
  (lib.find? fun file => file.name = name).bind fun file => file.content.toOption

/-- Files have different paths, and the formula in a file has the name that the file is stored
under. -/
structure Orderly (lib : Library) : Prop where
  paths : (lib.map (·.path)).Nodup
  named : ∀ file ∈ lib, ∀ f, file.content = .ok f → f.formula = file.name

/-- The cache has what is stored. -/
structure Coherent (lib : Library) (p : Parser) : Prop where
  name : ∀ name f, p.cache.lookup (.name name) = some f → stored lib name = some f
  path : ∀ file ∈ lib, ∀ f, p.cache.lookup (.path file.path) = some f → file.content = .ok f

theorem coherent_start (lib : Library) : Coherent lib {} := by
  constructor
  · intro name f found
    cases found
  · intro file _ f found
    cases found

/-- A formula extends another. -/
def Extends (lib : Library) (name parent : String) : Prop :=
  ∃ f, stored lib name = some f ∧ parent ∈ f.extended

/-- What a formula is merged to without a look at cycles. -/
def mergeWithin (lib : Library) : Nat → Formula → Option Formula
  | 0, _ => none
  | fuel + 1, f =>
    if f.extended.isEmpty then some f
    else
      (f.extended.foldlM (fun merged name => do
        let parent ← stored lib name
        let parent ← mergeWithin lib fuel parent
        return mergeParent merged parent) (startMerge f)).map (mergeChild · f)

section Cycles
variable {lib : Library} {p p' : Parser} {f merged : Formula} {name : String} {names : List String}
  {outcome : Except ResolveError Formula} {resolve : Parser → Formula → Option Resolution}

private theorem lookup_cons_eq (key key' : CacheKey) (f : Formula)
    (cache : List (CacheKey × Formula)) :
    ((key', f) :: cache).lookup key = if key = key' then some f else cache.lookup key := by
  rw [List.lookup_cons]
  by_cases same : key = key'
  · simp [same]
  · have apart : (key == key') = false := beq_eq_false_iff_ne.mpr same
    rw [apart, if_neg same]

/-- Loading gives what is stored, and keeps the cache in order. -/
theorem loadFormula_spec (name : String) (orderly : Orderly lib) (coherent : Coherent lib p) :
    Coherent lib (p.loadFormula lib name).2 ∧
      ((∃ f, stored lib name = some f ∧ (p.loadFormula lib name).1 = .ok f) ∨
        stored lib name = none ∧ ∃ err, (p.loadFormula lib name).1 = .error err) := by
  unfold Parser.loadFormula
  cases cached : p.cache.lookup (.name name) with
  | some f => exact ⟨coherent, .inl ⟨f, coherent.name name f cached, rfl⟩⟩
  | none =>
    unfold stored
    cases found : lib.find? fun file => file.name = name with
    | none => exact ⟨coherent, .inr ⟨rfl, _, rfl⟩⟩
    | some file =>
      have held := List.mem_of_find?_eq_some found
      have sameName : file.name = name := by simpa using List.find?_some found
      dsimp only [Option.bind_some]
      unfold Parser.parseFile
      cases kept : p.cache.lookup (.path file.path) with
      | some f =>
        have content := coherent.path file held f kept
        exact ⟨coherent, .inl ⟨f, by rw [content]; rfl, rfl⟩⟩
      | none =>
        cases content : file.content with
        | error err => exact ⟨coherent, .inr ⟨rfl, err, rfl⟩⟩
        | ok f =>
          have named : f.formula = name := (orderly.named file held f content).trans sameName
          refine ⟨⟨fun other g cached' => ?_, fun file' held' g kept' => ?_⟩, .inl ⟨f, rfl, rfl⟩⟩
          · rw [lookup_cons_eq, lookup_cons_eq] at cached'
            by_cases same : CacheKey.name other = .name f.formula
            · cases same
              rw [if_pos rfl] at cached'
              cases cached'
              rw [stored, named, found]
              exact congrArg Except.toOption content
            · rw [if_neg same, if_neg CacheKey.noConfusion] at cached'
              exact coherent.name other g cached'
          · rw [lookup_cons_eq, lookup_cons_eq, if_neg CacheKey.noConfusion] at kept'
            by_cases same : CacheKey.path file'.path = .path file.path
            · rw [if_pos same] at kept'
              cases kept'
              cases List.inj_on_of_nodup_map orderly.paths held' held (CacheKey.path.inj same)
              exact content
            · rw [if_neg same] at kept'
              exact coherent.path file' held' g kept'

/-- Why a formula is not resolved. -/
inductive Fault (lib : Library) (name : String) : ResolveError → Prop where
  | circular {err : ResolveError} (error : err.isCircular = true) {x : String}
      (reached : ReflTransGen (Extends lib) name x) (cycle : TransGen (Extends lib) x x) : Fault lib name err
  | missing {err : ResolveError} (error : err.isCircular = false) {x : String}
      (reached : ReflTransGen (Extends lib) name x) (absent : stored lib x = none) : Fault lib name err
  | invalid {err : ResolveError} (error : err.isCircular = false) {x : String} {f merged : Formula} {fuel : Nat}
      (reached : ReflTransGen (Extends lib) name x) (held : stored lib x = some f)
      (merges : mergeWithin lib fuel f = some merged) (bad : merged.validate ≠ .ok ()) : Fault lib name err

/-- The same through a parent. -/
theorem Fault.child {parent : String} {err err' : ResolveError}
    (same : err'.isCircular = err.isCircular)
    (edge : Extends lib name parent) (fault : Fault lib parent err) : Fault lib name err' := by
  cases fault with
  | circular error reached cycle => exact .circular (same.trans error) (.head edge reached) cycle
  | missing error reached absent => exact .missing (same.trans error) (.head edge reached) absent
  | invalid error reached held merges bad =>
    exact .invalid (same.trans error) (.head edge reached) held merges bad

/-- What a call comes to. -/
def Settles (lib : Library) (fuel : Nat) (f : Formula) : Except ResolveError Formula → Prop
  | .ok merged => mergeWithin lib fuel f = some merged
  | .error err => Fault lib f.formula err

/-- What resolves a parent, once all that is being resolved leads there. -/
def Sound (lib : Library) (fuel : Nat) (resolve : Parser → Formula → Option Resolution) : Prop :=
  ∀ ⦃p f outcome p'⦄, Coherent lib p → stored lib f.formula = some f →
    (∀ name ∈ p.resolvingSet, TransGen (Extends lib) name f.formula) → resolve p f = some (outcome, p') →
      Coherent lib p' ∧ Returned lib p p' ∧ Settles lib fuel f outcome

/-- The parents are merged one after the other. -/
def mergeNames (lib : Library) (fuel : Nat) (merged : Formula) (names : List String) :
    Option Formula :=
  names.foldlM (fun merged name => do
    let parent ← stored lib name
    let parent ← mergeWithin lib fuel parent
    return mergeParent merged parent) merged

private theorem mergeNames_cons {fuel : Nat} {parent parent' : Formula}
    (held : stored lib name = some parent) (merges : mergeWithin lib fuel parent = some parent') :
    mergeNames lib fuel merged (name :: names) = mergeNames lib fuel (mergeParent merged parent') names := by
  simp [mergeNames, held, merges]

/-- What going through the parents comes to. -/
def SettlesParents (lib : Library) (fuel : Nat) (child : String) (merged : Formula)
    (names : List String) :
    Except ResolveError Formula → Prop
  | .ok result => mergeNames lib fuel merged names = some result
  | .error err => Fault lib child err

private theorem stored_named (orderly : Orderly lib) (held : stored lib name = some f) :
    f.formula = name := by
  obtain ⟨file, found, content⟩ := Option.bind_eq_some_iff.mp held
  have same : file.name = name := by simpa using List.find?_some found
  refine (orderly.named file (List.mem_of_find?_eq_some found) f ?_).trans same
  cases outcome : file.content with
  | error err =>
    rw [outcome] at content
    cases content
  | ok g =>
    rw [outcome] at content
    cases content
    rfl

private theorem resolveParents_sound (orderly : Orderly lib) {fuel : Nat}
    (sound : Sound lib fuel resolve)
    {child : String} (coherent : Coherent lib p) (edges : ∀ name ∈ names, Extends lib child name)
    (leads : ∀ other ∈ p.resolvingSet, ReflTransGen (Extends lib) other child)
    (run : resolveParents lib resolve merged names p = some (outcome, p')) :
    Coherent lib p' ∧ SettlesParents lib fuel child merged names outcome := by
  induction names generalizing merged p with
  | nil =>
    cases run
    exact ⟨coherent, rfl⟩
  | cons name rest ih =>
    obtain ⟨edge, others⟩ := List.forall_mem_cons.mp edges
    obtain ⟨coherent', loads⟩ := loadFormula_spec name orderly coherent
    have returned : Returned lib p (p.loadFormula lib name).2 := returned_loadFormula
    unfold resolveParents at run
    cases loaded : p.loadFormula lib name with
    | mk found q =>
      rw [loaded] at run loads coherent' returned
      rcases loads with ⟨parent, held, same⟩ | ⟨absent, err, same⟩
      · cases same
        dsimp only at run coherent' returned
        have named := stored_named orderly held
        subst named
        have leads' (other : String) (held : other ∈ q.resolvingSet) :
            TransGen (Extends lib) other parent.formula := by
          rw [returned.resolvingSet] at held
          exact TransGen.tail' (leads other held) edge
        cases resolved : resolve q parent with
        | none =>
          rw [resolved] at run
          cases run
        | some result =>
          obtain ⟨inner, r⟩ := result
          obtain ⟨coherent'', returned', settles⟩ := sound coherent' held leads' resolved
          rw [resolved] at run
          cases inner with
          | error err =>
            cases run
            have fault : Fault lib parent.formula err := settles
            have same : (ResolveError.parent parent.formula err).isCircular = err.isCircular := rfl
            exact ⟨coherent'', fault.child same edge⟩
          | ok parent' =>
            have leads'' (other : String) (held : other ∈ r.resolvingSet) :
                ReflTransGen (Extends lib) other child := by
              rw [returned'.resolvingSet, returned.resolvingSet] at held
              exact leads other held
            obtain ⟨last, whole⟩ := ih coherent'' others leads'' run
            refine ⟨last, ?_⟩
            cases outcome with
            | error err => exact whole
            | ok result => exact (mergeNames_cons held settles).trans whole
      · cases same
        cases run
        exact ⟨coherent', .missing rfl (.single edge) absent⟩

private theorem validated_settles {fuel : Nat} (held : stored lib f.formula = some f)
    (merges : mergeWithin lib fuel f = some merged) :
    Settles lib fuel f (validated merged p).1 := by
  unfold validated
  cases valid : merged.validate with
  | ok => exact merges
  | error err => exact .invalid rfl .refl held merges (by rw [valid]; nofun)

private theorem resolveBody_sound (orderly : Orderly lib) {fuel : Nat}
    (sound : Sound lib fuel resolve)
    (coherent : Coherent lib p) (held : stored lib f.formula = some f)
    (leads : ∀ other ∈ p.resolvingSet, ReflTransGen (Extends lib) other f.formula)
    (run : resolveBody lib resolve p f = some (outcome, p')) :
    Coherent lib p' ∧ Settles lib (fuel + 1) f outcome := by
  unfold resolveBody at run
  by_cases alone : f.extended.isEmpty
  · rw [if_pos alone, Option.some.injEq] at run
    have merges : mergeWithin lib (fuel + 1) f = some f := by rw [mergeWithin, if_pos alone]
    have settles := validated_settles (p := p) held merges
    have same : p' = p := by
      rw [← validated_snd (f := f) (p := p), run]
    rw [run] at settles
    exact ⟨same ▸ coherent, settles⟩
  · rw [if_neg alone] at run
    have edges (name : String) (among : name ∈ f.extended) : Extends lib f.formula name :=
      ⟨f, held, among⟩
    cases parents : resolveParents lib resolve (startMerge f) f.extended p with
    | none =>
      rw [parents] at run
      cases run
    | some result =>
      obtain ⟨inner, q⟩ := result
      obtain ⟨coherent', settles⟩ := resolveParents_sound orderly sound coherent edges leads parents
      rw [parents] at run
      cases inner with
      | error err =>
        cases run
        exact ⟨coherent', settles⟩
      | ok merged =>
        have merges : mergeWithin lib (fuel + 1) f = some (mergeChild merged f) := by
          have whole : mergeNames lib fuel (startMerge f) f.extended = some merged := settles
          rw [mergeWithin, if_neg alone]
          exact congrArg (Option.map (mergeChild · f)) whole
        have settles' := validated_settles (p := q) held merges
        have run := Option.some.inj run
        have same : p' = q := by
          rw [← validated_snd (f := mergeChild merged f) (p := q), run]
        rw [run] at settles'
        exact ⟨same ▸ coherent', settles'⟩

theorem resolveWithin_sound (orderly : Orderly lib) (fuel : Nat) :
    Sound lib fuel (resolveWithin lib fuel) := by
  induction fuel with
  | zero =>
    intro p f outcome p' _ _ _ run
    cases run
  | succ fuel ih =>
    intro p f outcome p' coherent held leads run
    have returned := returned_resolveWithin _ run
    unfold resolveWithin at run
    by_cases again : f.formula ∈ p.resolvingSet
    · rw [if_pos again] at run
      cases run
      exact ⟨coherent, returned, .circular rfl .refl (leads _ again)⟩
    · rw [if_neg again, Option.map_eq_some_iff] at run
      obtain ⟨⟨inner, q⟩, done, same⟩ := run
      cases same
      have leads' (other : String) (among : other ∈ (p.enter f.formula).resolvingSet) :
          ReflTransGen (Extends lib) other f.formula := by
        rcases List.mem_cons.mp among with rfl | among
        · exact .refl
        · exact (leads other among).to_reflTransGen
      have coherent' : Coherent lib (p.enter f.formula) := ⟨coherent.name, coherent.path⟩
      obtain ⟨last, settles⟩ := resolveBody_sound orderly ih coherent' held leads' done
      exact ⟨⟨last.name, last.path⟩, returned, settles⟩

end Cycles

/-! ## Deep formulas -/

section Depth
variable {lib : Library} {f merged : Formula} {name x : String}

/-- Formulas that extend one another, so many times. -/
inductive Chain (lib : Library) : Nat → String → Prop where
  | zero {name : String} : Chain lib 0 name
  | succ {count : Nat} {name parent : String} (edge : Extends lib name parent) (rest : Chain lib count parent) :
      Chain lib (count + 1) name

private theorem mergeNames_mem {fuel : Nat} {names : List String} {start : Formula}
    (merges : mergeNames lib fuel start names = some merged) (held : name ∈ names) :
    ∃ parent parent', stored lib name = some parent ∧
      mergeWithin lib fuel parent = some parent' := by
  induction names generalizing start with
  | nil => cases held
  | cons other rest ih =>
    obtain ⟨next, first, others⟩ := Option.bind_eq_some_iff.mp merges
    rcases List.mem_cons.mp held with rfl | held
    · obtain ⟨parent, held', more⟩ := Option.bind_eq_some_iff.mp first
      obtain ⟨parent', merges', -⟩ := Option.bind_eq_some_iff.mp more
      exact ⟨parent, parent', held', merges'⟩
    · exact ih others held

/-- A formula that is merged has no longer chains than there was fuel. -/
theorem chain_lt {fuel count : Nat} (held : stored lib name = some f)
    (merges : mergeWithin lib fuel f = some merged)
    (chain : Chain lib count name) : count < fuel := by
  induction fuel generalizing f merged name count with
  | zero => cases merges
  | succ fuel ih =>
    cases chain with
    | zero => exact Nat.succ_pos _
    | @succ count _ parent edge rest =>
      obtain ⟨f', held', among⟩ := edge
      cases held.symm.trans held'
      have some : ¬f.extended.isEmpty := by
        rw [List.isEmpty_iff]
        exact List.ne_nil_of_mem among
      rw [mergeWithin, if_neg some] at merges
      obtain ⟨before, merges', -⟩ := Option.map_eq_some_iff.mp merges
      obtain ⟨g, g', held'', inner⟩ := mergeNames_mem merges' among
      exact Nat.succ_lt_succ (ih held'' inner rest)

private theorem chain_of_transGen {count : Nat} (path : TransGen (Extends lib) name x)
    (rest : Chain lib count x) :
    ∃ more, Chain lib (count + 1 + more) name := by
  induction path using TransGen.head_induction_on with
  | single edge => exact ⟨0, .succ edge rest⟩
  | head edge _ ih =>
    obtain ⟨more, chain⟩ := ih
    exact ⟨more + 1, .succ edge chain⟩

/-- From a cycle there are chains of any length. -/
theorem chain_of_cycle (reached : ReflTransGen (Extends lib) name x)
    (cycle : TransGen (Extends lib) x x) (count : Nat) :
    ∃ more, Chain lib (count + more) name := by
  have round : ∃ more, Chain lib (count + more) x := by
    induction count with
    | zero => exact ⟨0, .zero⟩
    | succ count ih =>
      obtain ⟨more, chain⟩ := ih
      obtain ⟨more', chain'⟩ := chain_of_transGen cycle chain
      exact ⟨more + more', by rwa [show count + 1 + (more + more') = count + more + 1 + more' by omega]⟩
  obtain ⟨more, chain⟩ := round
  rcases reflTransGen_iff_eq_or_transGen.mp reached with rfl | path
  · exact ⟨more, chain⟩
  · obtain ⟨more', chain'⟩ := chain_of_transGen path chain
    exact ⟨more + 1 + more',
      by rwa [show count + (more + 1 + more') = count + more + 1 + more' by omega]⟩

theorem not_cycle_of_merged {fuel : Nat} (held : stored lib name = some f)
    (merges : mergeWithin lib fuel f = some merged) (reached : ReflTransGen (Extends lib) name x) :
    ¬TransGen (Extends lib) x x := by
  intro cycle
  obtain ⟨more, chain⟩ := chain_of_cycle reached cycle fuel
  have := chain_lt held merges chain
  omega

end Depth

/-- A formula of a library and a parser that is not in the middle of resolving: all formulas that
the formula extends, directly or not, are found, and those that can be merged are valid. -/
structure Ready (lib : Library) (p : Parser) (f : Formula) : Prop where
  orderly : Orderly lib
  coherent : Coherent lib p
  idle : p.resolvingSet = []
  held : stored lib f.formula = some f
  found : ∀ name, TransGen (Extends lib) f.formula name → ∃ g, stored lib name = some g
  valid : ∀ name g fuel merged, TransGen (Extends lib) f.formula name → stored lib name = some g →
    mergeWithin lib fuel g = some merged → merged.validate = .ok ()

/-- Resolving a formula comes to an end for every library, with the set and the chain as they were
before. In a library with all parents found and valid, it fails with an error about a cycle exactly
if a cycle can be reached. -/
theorem resolve_circular_iff (lib : Library) (p : Parser) (f : Formula) :
    ∃ outcome p', resolve lib p f = some (outcome, p') ∧
      p'.resolvingSet = p.resolvingSet ∧ p'.resolvingChain = p.resolvingChain ∧
      (Ready lib p f → ((∃ err, outcome = .error err ∧ err.isCircular) ↔
        ∃ name, ReflTransGen (Extends lib) f.formula name ∧ TransGen (Extends lib) name name)) := by
  obtain ⟨⟨outcome, p'⟩, run⟩ := Option.isSome_iff_exists.mp (returns_resolve lib p f)
  have returned := returned_resolveWithin _ run
  refine ⟨outcome, p', run, returned.resolvingSet, returned.resolvingChain, fun ready => ?_⟩
  have leads (name : String) (held : name ∈ p.resolvingSet) :
      TransGen (Extends lib) name f.formula := by
    rw [ready.idle] at held
    cases held
  obtain ⟨-, -, settles⟩ := resolveWithin_sound ready.orderly _ ready.coherent ready.held leads run
  constructor
  · rintro ⟨err, rfl, circular⟩
    have fault : Fault lib f.formula err := settles
    cases fault with
    | circular _ reached cycle => exact ⟨_, reached, cycle⟩
    | missing error _ _ => cases circular.symm.trans error
    | invalid error _ _ _ _ => cases circular.symm.trans error
  · rintro ⟨name, reached, cycle⟩
    cases outcome with
    | ok merged => exact absurd cycle (not_cycle_of_merged ready.held settles reached)
    | error err =>
      have fault : Fault lib f.formula err := settles
      cases fault with
      | circular error _ _ => exact ⟨err, rfl, error⟩
      | missing _ reached' absent =>
        rcases reflTransGen_iff_eq_or_transGen.mp reached' with rfl | path
        · cases absent.symm.trans ready.held
        · obtain ⟨g, held⟩ := ready.found _ path
          cases absent.symm.trans held
      | invalid _ reached' held merges bad =>
        rcases reflTransGen_iff_eq_or_transGen.mp reached' with rfl | path
        · exact absurd cycle (not_cycle_of_merged held merges reached)
        · exact absurd (ready.valid _ _ _ _ path held merges) bad

def pingFormula : Formula := { formula := "ping", extended := ["pong"] }

/-- Two formulas that extend each other. -/
def pingPong : Library :=
  [{ name := "ping", path := "/ping.formula.toml", content := .ok pingFormula },
   { name := "pong", path := "/pong.formula.toml", content := .ok { formula := "pong", extended := ["ping"] } }]

private theorem extends_pingPong {name parent : String} (edge : Extends pingPong name parent) :
    name = "ping" ∧ parent = "pong" ∨ name = "pong" ∧ parent = "ping" := by
  obtain ⟨f, held, among⟩ := edge
  unfold stored pingPong at held
  by_cases ping : name = "ping"
  · subst ping
    cases held
    exact .inl ⟨rfl, List.mem_singleton.mp among⟩
  · by_cases pong : name = "pong"
    · subst pong
      cases held
      exact .inr ⟨rfl, List.mem_singleton.mp among⟩
    · simp [Ne.symm ping, Ne.symm pong] at held

private theorem ready_pingPong : Ready pingPong {} pingFormula := by
  have there : Extends pingPong "ping" "pong" := ⟨_, rfl, List.mem_singleton_self _⟩
  have back : Extends pingPong "pong" "ping" := ⟨_, rfl, List.mem_singleton_self _⟩
  have ends {name : String} (path : TransGen (Extends pingPong) "ping" name) :
      name = "ping" ∨ name = "pong" := by
    obtain ⟨before, -, edge⟩ := TransGen.tail'_iff.mp path
    rcases extends_pingPong edge with ⟨-, rfl⟩ | ⟨-, rfl⟩
    · exact .inr rfl
    · exact .inl rfl
  refine ⟨⟨by decide, ?_⟩, coherent_start _, rfl, rfl, fun name path => ?_,
    fun name g fuel merged path held merges => ?_⟩
  · intro file among f content
    rcases List.mem_pair.mp among with rfl | rfl <;> cases content <;> rfl
  · rcases ends path with rfl | rfl <;> exact ⟨_, rfl⟩
  · exfalso
    refine not_cycle_of_merged held merges .refl ?_
    rcases ends path with rfl | rfl
    · exact .tail (.single there) back
    · exact .tail (.single back) there

theorem resolve_circular_pingPong :
    ∃ outcome p', resolve pingPong {} pingFormula = some (outcome, p') ∧
      p'.resolvingSet = [] ∧ ∃ err, outcome = .error err ∧ err.isCircular := by
  obtain ⟨outcome, p', run, set, -, circular⟩ := resolve_circular_iff pingPong {} pingFormula
  have there : Extends pingPong "ping" "pong" := ⟨_, rfl, List.mem_singleton_self _⟩
  have back : Extends pingPong "pong" "ping" := ⟨_, rfl, List.mem_singleton_self _⟩
  exact ⟨outcome, p', run, set,
    (circular ready_pingPong).mpr ⟨"ping", .refl, .tail (.single there) back⟩⟩

end Beads.Formula
