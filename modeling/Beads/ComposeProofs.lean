import Mathlib.Data.List.Induction
import Beads.FormulaParserProofs

/-! The composition rules of a resolved formula. Bond points, hooks, expansions and maps come
together along the formulas that are extended; the rules for branches, gates and aspects are lost
as soon as two rule sets are merged. -/
namespace Beads.Formula

/-! ## Overriding by id -/

section Overriding
variable {α : Type} {key : α → String} {base base' extra merged overlay : List α} {item : α}

/-- The last item with a key. -/
def lastWith (key : α → String) (items : List α) (k : String) : Option α :=
  items.reverse.find? fun item => key item = k

theorem lastWith_append (items items' : List α) (k : String) :
    lastWith key (items ++ items') k = (lastWith key items' k).or (lastWith key items k) := by
  rw [lastWith, List.reverse_append, List.find?_append]
  rfl

theorem lastWith_singleton (item : α) (k : String) :
    lastWith key [item] k = if key item = k then some item else none := by
  by_cases same : key item = k
  · simp [lastWith, same]
  · simp [lastWith, same]

private theorem lastWith_none {k : String} (absent : ∀ item ∈ merged, key item ≠ k) :
    lastWith key merged k = none := by
  refine List.find?_eq_none.mpr fun item held => ?_
  simpa using absent item (List.mem_reverse.mp held)

private theorem overrideAt_cases (key : α → String) (base merged : List α) (item : α) :
    (∃ before a after, base = before ++ a :: after ∧ key a = key item ∧
      (∀ b ∈ after, key b ≠ key item) ∧
        overrideAt key base merged item = merged.set before.length item) ∨
      (∀ b ∈ base, key b ≠ key item) ∧ overrideAt key base merged item = merged ++ [item] := by
  unfold overrideAt
  induction base using List.reverseRecOn with
  | nil => exact .inr ⟨by simp, rfl⟩
  | append_singleton base a ih =>
    have shape : (base ++ [a]).zipIdx.reverse = (a, base.length) :: base.zipIdx.reverse := by
      simp [List.zipIdx_append]
    rw [shape]
    by_cases same : key a = key item
    · refine .inl ⟨base, a, [], rfl, same, by simp, ?_⟩
      rw [List.find?_cons_of_pos (by simpa using same)]
    · rw [List.find?_cons_of_neg (by simpa using same)]
      rcases ih with ⟨before, b, after, rfl, same', later, result⟩ | ⟨absent, result⟩
      · refine .inl ⟨before, b, after ++ [a], by simp, same', ?_, result⟩
        intro c held
        rcases List.mem_append.mp held with held | held
        · exact later c held
        · rwa [List.mem_singleton.mp held]
      · refine .inr ⟨fun c held => ?_, result⟩
        rcases List.mem_append.mp held with held | held
        · exact absent c held
        · rwa [List.mem_singleton.mp held]

/-- The base with some of its items replaced, and new items behind. -/
structure Framed (key : α → String) (base merged : List α) : Prop where
  parts : ∃ base' extra, merged = base' ++ extra ∧ base'.map key = base.map key ∧
    ∀ b ∈ extra, ∀ a ∈ base, key a ≠ key b

private theorem overrideAt_spec (framed : Framed key base merged) (item : α) :
    Framed key base (overrideAt key base merged item) ∧
      ∀ k, lastWith key (overrideAt key base merged item) k =
        if key item = k then some item else lastWith key merged k := by
  obtain ⟨base', extra, rfl, keys, new⟩ := framed
  rcases overrideAt_cases key base (base' ++ extra) item with
    ⟨before, a, after, rfl, same, later, result⟩ | ⟨absent, result⟩
  · rw [result]
    rw [List.map_append, List.map_cons] at keys
    obtain ⟨before', rest', rfl, keysBefore, keysRest⟩ := List.map_eq_append_iff.mp keys
    obtain ⟨a', after', rfl, keyHere, keysAfter⟩ := List.map_eq_cons_iff.mp keysRest
    have length : before'.length = before.length := by simpa using congrArg List.length keysBefore
    have set : (before' ++ a' :: after' ++ extra).set before.length item = before' ++ item ::
        (after' ++ extra) := by
      rw [← length, List.append_assoc, List.cons_append, List.set_append_right _ _ (Nat.le_refl _),
        Nat.sub_self, List.set_cons_zero]
    have behind : lastWith key (after' ++ extra) (key item) = none := by
      refine lastWith_none fun b held => ?_
      rcases List.mem_append.mp held with held | held
      · have among : key b ∈ after.map key := keysAfter ▸ List.mem_map_of_mem held
        obtain ⟨c, held', sameKey⟩ := List.mem_map.mp among
        exact sameKey ▸ later c held'
      · exact fun equal => new b held a (by simp) (same.trans equal.symm)
    rw [set]
    refine ⟨⟨before' ++ item :: after', extra, by simp, ?_, new⟩, fun k => ?_⟩
    · simp [keysBefore, keysAfter, same]
    · have split (b : α) : lastWith key (before' ++ b :: (after' ++ extra)) k =
          ((lastWith key (after' ++ extra) k).or (lastWith key [b] k)).or (lastWith key before' k) := by
        rw [lastWith_append, ← List.singleton_append, lastWith_append]
      rw [List.append_assoc, List.cons_append, split, split, lastWith_singleton, lastWith_singleton,
        keyHere, same]
      by_cases here : key item = k
      · subst here
        simp [behind]
      · simp [here]
  · rw [result]
    refine ⟨⟨base', extra ++ [item], by simp, keys, fun b held c held' => ?_⟩, fun k => ?_⟩
    · rcases List.mem_append.mp held with held | held
      · exact new b held c held'
      · rw [List.mem_singleton.mp held]
        exact absent c held'
    · rw [lastWith_append, lastWith_singleton]
      by_cases here : key item = k
      · simp [here]
      · simp [here]

/-- Items of the overlay replace those of the base with the same key. -/
theorem lastWith_override (key : α → String) (base overlay : List α) (k : String) :
    lastWith key (overlay.foldl (overrideAt key base) base) k = lastWith key (base ++ overlay) k := by
  have run (merged : List α) (framed : Framed key base merged) :
      lastWith key (overlay.foldl (overrideAt key base) merged) k = lastWith key (merged ++ overlay) k := by
    induction overlay generalizing merged with
    | nil => rw [List.append_nil, List.foldl_nil]
    | cons item overlay ih =>
      obtain ⟨framed', last⟩ := overrideAt_spec framed item
      rw [List.foldl_cons, ih _ framed', lastWith_append, last, lastWith_append,
        ← List.singleton_append, lastWith_append, lastWith_singleton, Option.or_assoc]
      by_cases here : key item = k
      · simp [here]
      · simp [here]
  exact run base ⟨base, [], by simp, rfl, by simp⟩

end Overriding

/-! ## Rule sets along the formulas -/

/-- The rule sets that a formula and the formulas which it extends declare, the parents first. A
formula that is extended twice declares its rules twice. -/
inductive Declares (lib : Library) : Formula → List ComposeRules → Prop where
  | intro {f : Formula} (parents : List (Formula × List ComposeRules))
      (loaded : f.extended.map (stored lib) = parents.map fun parent => some parent.1)
      (each : ∀ parent ∈ parents, Declares lib parent.1 parent.2) :
      Declares lib f (parents.flatMap (·.2) ++ f.compose.toList)

/-- What has become of declared rule sets. -/
structure Combined (declared : List ComposeRules) (rules : Option ComposeRules) : Prop where
  alone : declared.length ≤ 1 → rules = declared.head?
  bondPoints : ∀ id, lastWith (·.id) (rules.getD {}).bondPoints id =
    lastWith (·.id) (declared.flatMap (·.bondPoints)) id
  hooks : (rules.getD {}).hooks = declared.flatMap (·.hooks)
  expand : (rules.getD {}).expand = declared.flatMap (·.expand)
  map : (rules.getD {}).map = declared.flatMap (·.map)
  lost : 1 < declared.length → (rules.getD {}).branch = [] ∧ (rules.getD {}).gate = [] ∧ (rules.getD {}).aspects = []
  some : declared ≠ [] → rules.isSome

section Combining
variable {lib : Library} {declared declared' : List ComposeRules}
  {rules rules' : Option ComposeRules}
variable {f merged : Formula}

private theorem combined_toList (rules : Option ComposeRules) : Combined rules.toList rules := by
  cases rules with
  | none =>
    refine ⟨fun _ => rfl, fun _ => rfl, rfl, rfl, rfl, fun many => ?_, fun some => absurd rfl some⟩
    cases many
  | some rules =>
    refine ⟨fun _ => rfl, fun _ => ?_, ?_, ?_, ?_, fun many => ?_, fun _ => rfl⟩
    · simp
    · simp
    · simp
    · simp
    · simp at many

theorem Combined.merge (combined : Combined declared rules)
    (combined' : Combined declared' rules') :
    Combined (declared ++ declared') (mergeComposeRules rules rules') := by
  cases rules' with
  | none =>
    have none : declared' = [] := by
      by_contra some
      cases combined'.some some
    rw [none, List.append_nil]
    exact combined
  | some overlay =>
    cases rules with
    | none =>
      have none : declared = [] := by
        by_contra some
        cases combined.some some
      rw [none, List.nil_append]
      exact combined'
    | some base =>
      have one : 0 < declared.length := by
        refine List.length_pos_of_ne_nil fun none => ?_
        rw [none] at combined
        cases combined.alone (Nat.zero_le _)
      have one' : 0 < declared'.length := by
        refine List.length_pos_of_ne_nil fun none => ?_
        rw [none] at combined'
        cases combined'.alone (Nat.zero_le _)
      refine ⟨fun few => ?_, fun id => ?_, ?_, ?_, ?_, fun _ => ⟨rfl, rfl, rfl⟩, fun _ => rfl⟩
      · rw [List.length_append] at few
        omega
      · rw [List.flatMap_append, lastWith_append, ← combined.bondPoints, ← combined'.bondPoints,
          ← lastWith_append]
        exact lastWith_override _ _ _ _
      · rw [List.flatMap_append, ← combined.hooks, ← combined'.hooks]
        rfl
      · rw [List.flatMap_append, ← combined.expand, ← combined'.expand]
        rfl
      · rw [List.flatMap_append, ← combined.map, ← combined'.map]
        rfl

/-- The parents are combined in their order. -/
theorem combined_mergeNames {fuel : Nat} {names : List String}
    {parents : List (Formula × List ComposeRules)}
    (loaded : names.map (stored lib) = parents.map fun parent => some parent.1)
    (each : ∀ parent ∈ parents, ∀ fuel merged, mergeWithin lib fuel parent.1 = some merged →
      Combined parent.2 merged.compose)
    {start : Formula} (combined : Combined declared start.compose)
    (merges : mergeNames lib fuel start names = some merged) :
    Combined (declared ++ parents.flatMap (·.2)) merged.compose := by
  induction names generalizing parents start declared with
  | nil =>
    have none : parents = [] := by simpa using loaded.symm
    subst none
    cases merges
    simpa using combined
  | cons name names ih =>
    cases parents with
    | nil => cases loaded
    | cons parent parents =>
      obtain ⟨first, others⟩ := List.cons.inj loaded
      obtain ⟨here, later⟩ := List.forall_mem_cons.mp each
      obtain ⟨next, step, rest⟩ := Option.bind_eq_some_iff.mp merges
      obtain ⟨parent₀, found, more⟩ := Option.bind_eq_some_iff.mp step
      cases found.symm.trans first
      obtain ⟨parent', merges', same⟩ := Option.bind_eq_some_iff.mp more
      cases same
      have both : Combined (declared ++ parent.2) (mergeParent start parent').compose :=
        combined.merge (here _ _ merges')
      have whole := ih others later both rest
      rwa [List.flatMap_cons, ← List.append_assoc]

private theorem combined_of_merged (declares : Declares lib f declared) {fuel : Nat}
    (merges : mergeWithin lib fuel f = some merged) : Combined declared merged.compose := by
  induction declares generalizing fuel merged with
  | @intro f parents loaded each ih =>
    cases fuel with
    | zero => cases merges
    | succ fuel =>
      rw [mergeWithin] at merges
      by_cases alone : f.extended.isEmpty
      · rw [if_pos alone] at merges
        cases merges
        have none : parents = [] := by
          rw [List.isEmpty_iff.mp alone] at loaded
          simpa using loaded.symm
        subst none
        exact combined_toList _
      · rw [if_neg alone] at merges
        obtain ⟨before, merges', rfl⟩ := Option.map_eq_some_iff.mp merges
        have start : Combined [] (startMerge f).compose := combined_toList none
        have above :=
          combined_mergeNames loaded (fun parent held fuel merged => ih parent held) start merges'
        exact above.merge (combined_toList f.compose)

/-- What a merged formula and its parents declare is settled. -/
theorem declares_of_merged {fuel : Nat} (merges : mergeWithin lib fuel f = some merged) :
    ∃ declared, Declares lib f declared := by
  induction fuel generalizing f merged with
  | zero => cases merges
  | succ fuel ih =>
    have parents (names : List String) (start : Formula)
        (merges : (mergeNames lib fuel start names).isSome) :
        ∃ parents : List (Formula × List ComposeRules),
          names.map (stored lib) = parents.map (fun parent => some parent.1) ∧
            ∀ parent ∈ parents, Declares lib parent.1 parent.2 := by
      induction names generalizing start with
      | nil => exact ⟨[], rfl, by simp⟩
      | cons name names ih' =>
        obtain ⟨result, merges⟩ := Option.isSome_iff_exists.mp merges
        obtain ⟨next, step, rest⟩ := Option.bind_eq_some_iff.mp merges
        obtain ⟨parent, found, more⟩ := Option.bind_eq_some_iff.mp step
        obtain ⟨parent', merges', -⟩ := Option.bind_eq_some_iff.mp more
        obtain ⟨declared, declares⟩ := ih merges'
        obtain ⟨parents, loaded, each⟩ := ih' next (Option.isSome_iff_exists.mpr ⟨_, rest⟩)
        refine ⟨(parent, declared) :: parents, ?_, List.forall_mem_cons.mpr ⟨declares, each⟩⟩
        rw [List.map_cons, List.map_cons, found, loaded]
    rw [mergeWithin] at merges
    by_cases alone : f.extended.isEmpty
    · exact ⟨_, .intro [] (by simpa using alone) (by simp)⟩
    · rw [if_neg alone] at merges
      obtain ⟨before, merges', -⟩ := Option.map_eq_some_iff.mp merges
      obtain ⟨parents, loaded, each⟩ :=
        parents f.extended _ (Option.isSome_iff_exists.mpr ⟨_, merges'⟩)
      exact ⟨_, .intro parents loaded each⟩

end Combining

/-- The rules of a formula contain what was declared: of bond points with the same id the last
one, and all other rules. -/
structure Contains (declared : List ComposeRules) (rules : ComposeRules) : Prop where
  bondPoints : ∀ id, lastWith (·.id) rules.bondPoints id = lastWith (·.id) (declared.flatMap (·.bondPoints)) id
  hooks : ∀ one ∈ declared, one.hooks ⊆ rules.hooks
  expand : ∀ one ∈ declared, one.expand ⊆ rules.expand
  map : ∀ one ∈ declared, one.map ⊆ rules.map
  branch : ∀ one ∈ declared, one.branch ⊆ rules.branch
  gate : ∀ one ∈ declared, one.gate ⊆ rules.gate
  aspects : ∀ one ∈ declared, one.aspects ⊆ rules.aspects

/-- More than one rule set loses the rules for branches, gates and aspects. -/
theorem Combined.contains_iff {declared : List ComposeRules} {rules : Option ComposeRules}
    (combined : Combined declared rules) :
    Contains declared (rules.getD {}) ↔
      declared.length ≤ 1 ∨ ∀ one ∈ declared, one.branch = [] ∧ one.gate = [] ∧
        one.aspects = [] := by
  constructor
  · intro contains
    by_cases few : declared.length ≤ 1
    · exact .inl few
    · obtain ⟨branch, gate, aspects⟩ := combined.lost (Nat.lt_of_not_le few)
      refine .inr fun one among => ⟨?_, ?_, ?_⟩
      · exact List.subset_nil.mp (branch ▸ contains.branch one among)
      · exact List.subset_nil.mp (gate ▸ contains.gate one among)
      · exact List.subset_nil.mp (aspects ▸ contains.aspects one among)
  · intro few
    have part {α : Type} (field : ComposeRules → List α) {one : ComposeRules}
        (among : one ∈ declared)
        (same : field (rules.getD {}) = declared.flatMap field) : field one ⊆ field (rules.getD {}) := by
      rw [same]
      exact fun a inside => List.mem_flatMap.mpr ⟨one, among, inside⟩
    have rest {α : Type} (field : ComposeRules → List α) {one : ComposeRules}
        (among : one ∈ declared)
        (lost : ¬declared.length ≤ 1 → field one = []) : field one ⊆ field (rules.getD {}) := by
      by_cases few : declared.length ≤ 1
      · obtain ⟨other, rfl⟩ :=
          List.length_eq_one_iff.mp (Nat.le_antisymm few (List.length_pos_of_mem among))
        rw [combined.alone few, List.mem_singleton.mp among]
        exact List.Subset.refl _
      · rw [lost few]
        exact List.nil_subset _
    have none (one : ComposeRules) (among : one ∈ declared) (many : ¬declared.length ≤ 1) :=
      few.resolve_left many one among
    refine ⟨combined.bondPoints, fun one among => ?_, fun one among => ?_, fun one among => ?_,
      fun one among => ?_,
      fun one among => ?_, fun one among => ?_⟩
    · exact part (·.hooks) among combined.hooks
    · exact part (·.expand) among combined.expand
    · exact part (·.map) among combined.map
    · exact rest (·.branch) among fun many => (none one among many).1
    · exact rest (·.gate) among fun many => (none one among many).2.1
    · exact rest (·.aspects) among fun many => (none one among many).2.2

/-- A formula that is resolved has all rules that it and the formulas which it extends declare
exactly if these are no more than one rule set, or none of them has rules for branches, gates or
aspects. -/
theorem resolve_contains_iff {lib : Library} {p p' : Parser} {f resolved : Formula}
    (orderly : Orderly lib)
    (coherent : Coherent lib p) (idle : p.resolvingSet = []) (held : stored lib f.formula = some f)
    (run : resolve lib p f = some (.ok resolved, p')) :
    (∃ declared, Declares lib f declared) ∧ ∀ declared, Declares lib f declared →
      (Contains declared (resolved.compose.getD {}) ↔
        declared.length ≤ 1 ∨ ∀ one ∈ declared, one.branch = [] ∧ one.gate = [] ∧
          one.aspects = []) := by
  have leads (name : String) (among : name ∈ p.resolvingSet) :
      Relation.TransGen (Extends lib) name f.formula := by
    rw [idle] at among
    cases among
  obtain ⟨-, -, settles⟩ := resolveWithin_sound orderly _ coherent held leads run
  exact ⟨declares_of_merged settles,
    fun declared declares => (combined_of_merged declares settles).contains_iff⟩

def baseRules (branch : List BranchRule) : ComposeRules :=
  { bondPoints := [{ id := "after-build", afterStep := "build" }], branch }

def childRules : ComposeRules := { hooks := [{ trigger := "label:security", attach := "audit" }] }

def baseFormula (branch : List BranchRule) : Formula :=
  { formula := "base", steps := [{ id := "build", title := "Build" }], compose := some (baseRules branch) }

def childFormula : Formula :=
  { formula := "child", extended := ["base"], steps := [{ id := "test", title := "Test" }],
    compose := some childRules }

/-- A formula with rules of its own, and the one which it extends with these rules for branches. -/
def childAndBase (branch : List BranchRule) : Library :=
  [{ name := "child", path := "/child.formula.toml", content := .ok childFormula },
   { name := "base", path := "/base.formula.toml", content := .ok (baseFormula branch) }]

def buildBranch : BranchRule := { start := "build", steps := ["lint", "test"], join := "ship" }

private theorem orderly_childAndBase (branch : List BranchRule) :
    Orderly (childAndBase branch) := by
  refine ⟨by simp [childAndBase], fun file among f content => ?_⟩
  rcases List.mem_pair.mp among with rfl | rfl
  · cases content
    rfl
  · cases content
    rfl

theorem declares_childAndBase (branch : List BranchRule) :
    Declares (childAndBase branch) childFormula [baseRules branch, childRules] := by
  have base : Declares (childAndBase branch) (baseFormula branch) [baseRules branch] :=
    .intro [] rfl nofun
  refine .intro [(baseFormula branch, [baseRules branch])] rfl fun parent among => ?_
  rwa [List.mem_singleton.mp among]

def resolvedChild : Formula :=
  mergeChild (mergeParent (startMerge childFormula) (baseFormula [])) childFormula

theorem resolve_contains_childAndBase :
    ∃ resolved p', resolve (childAndBase []) {} childFormula = some (.ok resolved, p') ∧
      Contains [baseRules [], childRules] (resolved.compose.getD {}) := by
  have run : ∃ p', resolve (childAndBase []) {} childFormula = some (.ok resolvedChild, p') :=
    ⟨_, rfl⟩
  obtain ⟨p', run⟩ := run
  obtain ⟨-, contains⟩ :=
    resolve_contains_iff (orderly_childAndBase []) (coherent_start _) rfl rfl run
  refine ⟨_, p', run, (contains _ (declares_childAndBase [])).mpr (.inr ?_)⟩
  decide

/-- The branch of the parent is lost. -/
theorem resolve_loses_branch :
    ∃ resolved p', resolve (childAndBase [buildBranch]) {} childFormula = some (.ok resolved, p') ∧
      ∃ declared, Declares (childAndBase [buildBranch]) childFormula declared ∧
        ¬Contains declared (resolved.compose.getD {}) := by
  have run : ∃ p', resolve (childAndBase [buildBranch]) {} childFormula = some
      (.ok resolvedChild, p') := ⟨_, rfl⟩
  obtain ⟨p', run⟩ := run
  refine ⟨resolvedChild, p', run, _, declares_childAndBase _, fun contains => ?_⟩
  have held :=
    contains.branch (baseRules [buildBranch]) (List.mem_cons_self ..) (List.mem_singleton_self _)
  cases held

end Beads.Formula
