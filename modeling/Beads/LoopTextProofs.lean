import Beads.LoopIdProofs
import Beads.Lib.Placeholders

/-! The variables of range loops in the texts of steps. An iteration puts the value into the steps
of the body itself; the children of these steps and the bodies of loops in it are copied as they
are. -/
namespace Beads.Formula
open Lib

/-! ## Copies with their loops -/

mutual

def Step.inView (direct : Bool) : Step → List (Step × Bool)
  | ⟨fields, children, none⟩ => (⟨fields, children, none⟩, direct) :: inView false children
  | ⟨fields, children, some loop⟩ => [(⟨fields, children, some loop⟩, direct)]

/-- The steps in view, and which of them are no children of others. -/
def inView (direct : Bool) : List Step → List (Step × Bool)
  | [] => []
  | s :: rest => s.inView direct ++ inView direct rest

end

/-- A turn of a loop around a copy. -/
structure Turn where
  id : String
  loop : LoopSpec Step
  index : Nat

/-- A copy of a step: the loops around it from the outside to the inside, the step, and whether it
stands in the body itself or is a child. -/
structure Made where
  turns : List Turn
  step : Step
  direct : Bool

def Made.within (turn : Turn) (made : Made) : Made := { made with turns := turn :: made.turns }

mutual

def Step.made (reads : LoopSyntax) (direct : Bool) : Step → List Made
  | ⟨fields, children, none⟩ => ⟨[], ⟨fields, children, none⟩, direct⟩ :: made reads false children
  | ⟨fields, _, some ⟨count, untilCondition, max, range, var, body⟩⟩ =>
    let loop : LoopSpec Step := ⟨count, untilCondition, max, range, var, body⟩
    (List.range (rounds reads loop)).flatMap fun index =>
      (made reads true body).map (Made.within ⟨fields.id, loop, index⟩)

/-- All copies that an expansion makes, in order. -/
def made (reads : LoopSyntax) (direct : Bool) : List Step → List Made
  | [] => []
  | s :: rest => s.made reads direct ++ made reads direct rest

end

section Views
variable {reads : LoopSyntax} {direct : Bool} {s : Step} {rest steps : List Step}
  {loop : LoopSpec Step}

theorem inView_cons_plain (plain : s.loop = none) :
    inView direct (s :: rest) = (s, direct) :: (inView false s.children ++ inView direct rest) := by
  obtain ⟨fields, children, loop⟩ := s
  cases plain
  rfl

theorem inView_cons_loop (looping : s.loop = some loop) :
    inView direct (s :: rest) = (s, direct) :: inView direct rest := by
  obtain ⟨fields, children, _⟩ := s
  cases looping
  rfl

private theorem map_inView (direct : Bool) (steps : List Step) :
    (inView direct steps).map Prod.fst = visible steps := by
  induction steps using forest_induction generalizing direct with
  | nil => rfl
  | cons s rest children body ih =>
    cases looping : s.loop with
    | none =>
      rw [inView_cons_plain looping, visible_cons_plain looping, List.map_cons, List.map_append,
        children, ih]
    | some loop => rw [inView_cons_loop looping, visible_cons_loop looping, List.map_cons, ih]

/-- The copies that are made of a step in view. -/
def madeOf (reads : LoopSyntax) (seen : Step × Bool) : List Made :=
  match seen.1.loop with
  | none => [⟨[], seen.1, seen.2⟩]
  | some loop => (List.range (rounds reads loop)).flatMap fun index =>
      (made reads true loop.body).map (Made.within ⟨seen.1.id, loop, index⟩)

private theorem made_eq :
    made reads direct steps = (inView direct steps).flatMap (madeOf reads) := by
  induction steps using forest_induction generalizing direct with
  | nil => rfl
  | cons s rest children body ih =>
    rw [made, ih]
    obtain ⟨fields, inner, loop⟩ := s
    cases loop with
    | none =>
      rw [inView_cons_plain rfl, Step.made, children]
      simp [madeOf]
    | some loop =>
      rw [inView_cons_loop rfl, Step.made]
      rfl

end Views

/-! ## What becomes of the texts -/

/-- The variables of a turn. -/
def turnVars (reads : LoopSyntax) (loop : LoopSpec Step) (index : Nat) : List (String × String) :=
  if 0 < loop.count then []
  else if loop.range ≠ "" then
    match reads.parseRange loop.range with
    | .error _ => []
    | .ok (start, _) => iterVars loop (start + index)
  else []

/-- What the innermost of these loops makes of a text. -/
def turnText (reads : LoopSyntax) (turns : List Turn) (direct : Bool) (text : String) : String :=
  match turns.getLast? with
  | none => text
  | some turn =>
    if direct then substituteLoopVars text (turnVars reads turn.loop turn.index) else text

/-- The loops around a copy by their ids. -/
def Made.path (made : Made) : List (String × Nat) :=
  made.turns.map fun turn => (turn.id, turn.index + 1)

/-- The id and the texts of a step. -/
def shown (f : StepFields) : String × String × String := (f.id, f.title, f.description)

section Dressing
variable {reads : LoopSyntax} {p : String} {change : String → String}
  {steps copies rest rest' : List Step}
  {s t : Step} {direct : Bool}

/-- A step in view and its copy in an iteration. -/
structure Dressed (p : String) (change : String → String) (a b : Step × Bool) : Prop where
  direct : b.2 = a.2
  id : b.1.id = p ++ a.1.id
  title : b.1.title = if a.2 then change a.1.title else a.1.title
  description : b.1.description = if a.2 then change a.1.description else a.1.description
  loop : b.1.loop = a.1.loop

theorem inView_dressed (first : Dressed p change (s, direct) (t, direct))
    (children : List.Forall₂ (Dressed p change) (inView false s.children) (inView false t.children))
    (others : List.Forall₂ (Dressed p change) (inView direct rest) (inView direct rest')) :
    List.Forall₂ (Dressed p change) (inView direct (s :: rest)) (inView direct (t :: rest')) := by
  cases looping : s.loop with
  | none =>
    rw [inView_cons_plain looping, inView_cons_plain (first.loop.trans looping)]
    exact .cons first (List.rel_append children others)
  | some loop =>
    rw [inView_cons_loop looping, inView_cons_loop (first.loop.trans looping)]
    exact .cons first others

private theorem inView_expandLoopChildren {loopID : String} {iteration : Nat} {ids : List String}
    (steps : List Step) :
    List.Forall₂ (Dressed (iterationID loopID iteration "") change) (inView false steps)
      (inView false (expandLoopChildren loopID iteration ids steps)) := by
  induction steps using forest_induction with
  | nil => exact .nil
  | cons s rest children body ih =>
    obtain ⟨fields, inner, loop⟩ := s
    refine inView_dressed ⟨rfl, iterationID_append _ _ _, rfl, rfl, rfl⟩ ?_ ih
    exact children

private theorem inView_expandLoopIteration {loopID : String} {iteration : Nat}
    (loop : LoopSpec Step) (vars : List (String × String)) :
    List.Forall₂ (Dressed (iterationID loopID iteration "") (substituteLoopVars · vars)) (inView true loop.body)
      (inView true (expandLoopIteration loopID loop iteration vars)) := by
  unfold expandLoopIteration
  generalize collectBodyStepIDs loop.body = ids
  induction loop.body with
  | nil => exact .nil
  | cons s rest ih =>
    refine inView_dressed ⟨rfl, iterationID_append _ _ _, rfl, rfl, rfl⟩ ?_ ih
    exact inView_expandLoopChildren s.children

private theorem inView_labelFirst {label : String}
    (dressed : List.Forall₂ (Dressed p change) (inView true steps) (inView true copies)) :
    List.Forall₂ (Dressed p change) (inView true steps) (inView true (labelFirst label copies)) := by
  cases copies with
  | nil => exact dressed
  | cons t rest =>
    obtain ⟨fields, children, loop⟩ := t
    have first {a : Step × Bool} (dressed : Dressed p change a (⟨fields, children, loop⟩, true)) :
        Dressed p change a (⟨{ fields with labels := fields.labels ++ [label] }, children, loop⟩, true) :=
      ⟨dressed.direct, dressed.id, dressed.title, dressed.description, dressed.loop⟩
    cases loop with
    | none =>
      rw [inView_cons_plain rfl] at dressed
      rw [labelFirst, inView_cons_plain rfl]
      obtain ⟨a, others, mirror, related, same⟩ := List.forall₂_cons_right_iff.mp dressed
      rw [same]
      exact .cons (first mirror) related
    | some loop =>
      rw [inView_cons_loop rfl] at dressed
      rw [labelFirst, inView_cons_loop rfl]
      obtain ⟨a, others, mirror, related, same⟩ := List.forall₂_cons_right_iff.mp dressed
      rw [same]
      exact .cons (first mirror) related

private theorem inView_iterationSteps (loopID : String) {loop : LoopSpec Step} {index : Nat}
    (among : index < rounds reads loop) :
    List.Forall₂ (Dressed (iterationID loopID (index + 1) "") (substituteLoopVars · (turnVars reads loop index)))
      (inView true loop.body) (inView true (iterationSteps reads loopID loop index)) := by
  unfold iterationSteps turnVars
  by_cases counted : 0 < loop.count
  · rw [if_pos counted, if_pos counted]
    exact inView_expandLoopIteration loop []
  rw [if_neg counted, if_neg counted]
  by_cases ranged : loop.range ≠ ""
  · rw [if_pos ranged, if_pos ranged]
    rw [rounds, if_neg counted, if_pos ranged] at among
    cases parsed : reads.parseRange loop.range with
    | error err =>
      rw [parsed] at among
      cases among
    | ok bounds => exact inView_expandLoopIteration loop _
  · rw [if_neg ranged, if_neg ranged]
    exact inView_labelFirst (inView_expandLoopIteration loop [])

/-- What is seen of a copy, behind a prefix and with a change of the texts outside of all its
loops. -/
def Made.shown (reads : LoopSyntax) (p : String) (change : String → String) (made : Made) :
    String × String × String :=
  let text (text : String) : String :=
    if made.turns = [] then if made.direct then change text else text else turnText reads made.turns made.direct text
  (p ++ copyID made.path made.step.id, text made.step.title, text made.step.description)

private theorem shown_within (turn : Turn) (made : Made) :
    (made.within turn).shown reads p change =
      made.shown reads (iterationID (p ++ turn.id) (turn.index + 1) "")
        (substituteLoopVars · (turnVars reads turn.loop turn.index)) := by
  obtain ⟨turns, step, direct⟩ := made
  have id :=
    (copyID_cons p turn.id turn.index (turns.map fun turn => (turn.id, turn.index + 1)) step.id).symm
  have text (text : String) : turnText reads (turn :: turns) direct text =
      if turns = [] then if direct then substituteLoopVars text (turnVars reads turn.loop turn.index) else text
      else turnText reads turns direct text := by
    cases turns with
    | nil => rfl
    | cons inner turns =>
      rw [if_neg (List.cons_ne_nil _ _), turnText, turnText, List.getLast?_cons_cons]
  exact Prod.ext id (Prod.ext (text step.title) (text step.description))

private theorem flatMap_congr_forall₂ {α β γ : Type} {R : α → β → Prop} {l : List α} {l' : List β}
    {f : α → List γ}
    {g : β → List γ} (related : List.Forall₂ R l l') (same : ∀ a ∈ l, ∀ b ∈ l', R a b → g b = f a) :
    l'.flatMap g = l.flatMap f := by
  induction related with
  | nil => rfl
  | cons first _ ih =>
    rw [List.flatMap_cons, List.flatMap_cons, same _ List.mem_cons_self _ List.mem_cons_self first]
    rw [ih fun a held b held' => same a (List.mem_cons_of_mem _ held) b (List.mem_cons_of_mem _ held')]

/-- What an expansion makes of the texts. -/
theorem shown_applyLoopsWithin (fuel : Nat) {result : List Step}
    (dressed : List.Forall₂ (Dressed p change) (inView true steps) (inView true copies))
    (found : (applyLoopsWithin reads fuel copies).run = some (.ok result)) :
    (produced result).map Formula.shown = (made reads true steps).map (Made.shown reads p change) := by
  induction fuel generalizing steps copies p change result with
  | zero => cases found
  | succ fuel ih =>
    rw [applyLoopsWithin] at found
    rw [map_produced_applySteps _ found, ← map_inView true, List.flatMap_map, made_eq,
      List.map_flatMap]
    refine flatMap_congr_forall₂ dressed fun a held b held' dressed => ?_
    cases looping : a.1.loop with
    | none =>
      rw [walked_plain _ (dressed.loop.trans looping), madeOf, looping]
      simp [Formula.shown, Made.shown, Made.path, copyID, dressed.id, dressed.title,
        dressed.description]
    | some loop =>
      have looping' := dressed.loop.trans looping
      have seen : b.1 ∈ visible copies := by
        rw [← map_inView true]
        exact List.mem_map_of_mem held'
      obtain ⟨-, out, expanded⟩ := expanded_of_applySteps found seen looping'
      obtain ⟨each, same, outs⟩ := map_produced_expandLoop Formula.shown (fun _ _ => rfl) expanded
      rw [walked_loop _ looping' expanded, same, madeOf, looping]
      dsimp only
      rw [List.map_flatMap]
      refine List.flatMap_congr fun index round => ?_
      rw [ih (inView_iterationSteps b.1.id (List.mem_range.mp round)) (outs index round),
        dressed.id, List.map_map]
      exact List.map_congr_left fun made _ => (shown_within ⟨a.1.id, loop, index⟩ made).symm

end Dressing

/-! ## Placeholders -/

/-- The placeholder of a variable. -/
def placeholder (var : String) : List Char := bracketed '{' '}' var.toList

/-- Variables and their values as texts. -/
def slots (vars : List (String × String)) : List (List Char × List Char) :=
  vars.map fun slot => (slot.1.toList, slot.2.toList)

/-- The text with the placeholders of all variables replaced at once; the first value of a variable
counts. -/
def substituteAll (vars : List (String × String)) (text : String) : String :=
  String.ofList (filling '{' '}' id (slots vars) 0 text.toList)

section Placeholders
variable {reads : LoopSyntax} {loop : LoopSpec Step} {index : Nat} {var value text : String}

theorem replaceChars_eq (old new : List Char) (matched : Nat) (text : List Char) :
    replaceChars old new matched text = replacing old new matched text := by
  induction text generalizing matched with
  | nil => cases matched <;> rfl
  | cons c rest ih =>
    cases matched with
    | zero => rw [replaceChars, replacing, ih, ih]
    | succ matched => exact ih matched

private theorem substituteLoopVars_eq (text var value : String) :
    substituteLoopVars text [(var, value)] = substituteAll [(var, value)] text := by
  have shape : ("\x7b" ++ var ++ "\x7d").toList = placeholder var := by
    rw [String.toList_append, String.toList_append]
    rfl
  rw [substituteLoopVars, List.foldl_cons, List.foldl_nil, shape, replaceChars_eq, substituteAll,
    placeholder, slots, List.map_singleton, filling_singleton]

theorem turnVars_cases (reads : LoopSyntax) (loop : LoopSpec Step) (index : Nat) :
    turnVars reads loop index = [] ∨
      ∃ value : Int, turnVars reads loop index = [(loop.var, toString value)] := by
  unfold turnVars
  by_cases counted : 0 < loop.count
  · exact .inl (if_pos counted)
  rw [if_neg counted]
  by_cases ranged : loop.range ≠ ""
  · rw [if_pos ranged]
    cases parsed : reads.parseRange loop.range with
    | error err => exact .inl rfl
    | ok bounds =>
      dsimp only
      unfold iterVars
      by_cases named : loop.var ≠ ""
      · exact .inr ⟨bounds.1 + index, if_pos named⟩
      · exact .inl (if_neg named)
  · exact .inl (if_neg ranged)

private theorem bare_value (value : Int) : '{' ∉ (toString value).toList := by
  have digits (n : Nat) : '{' ∉ n.repr.toList := by
    rw [Nat.toList_repr]
    exact not_mem_toDigits rfl
  have shown : toString value = value.repr := rfl
  rw [shown, Int.repr_eq_if]
  split
  · exact digits _
  · rw [String.toList_append, List.mem_append, not_or]
    exact ⟨by decide, digits _⟩

end Placeholders

/-! ## Filled in texts -/

/-- The variables of all loops around a copy, from the inside to the outside, so that a loop
inside takes over a variable. -/
def Made.vars (reads : LoopSyntax) (made : Made) : List (String × String) :=
  made.turns.reverse.flatMap fun turn => turnVars reads turn.loop turn.index

/-- The variables of the loop whose body the copy stands in itself. -/
def Made.ownVars (reads : LoopSyntax) (made : Made) : List (String × String) :=
  match made.turns.getLast? with
  | none => []
  | some turn => if made.direct then turnVars reads turn.loop turn.index else []

/-- In what comes of a copy, the placeholders of the variables of all loops around it are replaced
by their values. -/
structure Filled (reads : LoopSyntax) (made : Made) (f : StepFields) : Prop where
  id : f.id = copyID made.path made.step.id
  title : f.title = substituteAll (made.vars reads) made.step.title
  description : f.description = substituteAll (made.vars reads) made.step.description

/-- The children of body steps and the steps of loops in a body have no placeholders for the
variables of the loops around them. -/
def OwnPlaceholders (reads : LoopSyntax) (steps : List Step) : Prop :=
  ∀ copy ∈ made reads true steps, ∀ var ∈ (copy.vars reads).map Prod.fst,
    var ∉ (copy.ownVars reads).map Prod.fst →
      ¬placeholder var <:+: copy.step.title.toList ∧ ¬placeholder var <:+: copy.step.description.toList

section Filling
variable {reads : LoopSyntax} {steps result : List Step} {copy : Made} {text : String}

theorem substituteAll_nil (text : String) : substituteAll [] text = text := by
  rw [substituteAll, slots, List.map_nil, filling_absent fun _ held => absurd held List.not_mem_nil,
    String.ofList_toList]

private theorem substituteLoopVars_turnVars (loop : LoopSpec Step) (index : Nat) (text : String) :
    substituteLoopVars text (turnVars reads loop index) = substituteAll (turnVars reads loop index) text := by
  rcases turnVars_cases reads loop index with none | ⟨number, one⟩
  · rw [none, substituteAll_nil]
    rfl
  · rw [one, substituteLoopVars_eq]

/-- The innermost loop alone puts in its variable, and only in the steps of its body. -/
theorem turnText_eq :
    turnText reads copy.turns copy.direct text = substituteAll (copy.ownVars reads) text := by
  rw [turnText, Made.ownVars]
  cases copy.turns.getLast? with
  | none => rw [substituteAll_nil]
  | some turn =>
    dsimp only
    split
    · exact substituteLoopVars_turnVars _ _ _
    · rw [substituteAll_nil]

/-- The own variables come first. -/
theorem Made.vars_eq (reads : LoopSyntax) (copy : Made) :
    ∃ others, copy.vars reads = copy.ownVars reads ++ others := by
  rw [Made.vars, Made.ownVars, List.getLast?_eq_head?_reverse]
  cases copy.turns.reverse with
  | nil => exact ⟨[], rfl⟩
  | cons turn outer =>
    rw [List.flatMap_cons, List.head?_cons]
    cases copy.direct with
    | true => exact ⟨_, rfl⟩
    | false => exact ⟨_, rfl⟩

private theorem bare_vars {slot : String × String} (held : slot ∈ copy.vars reads) :
    '{' ∉ slot.2.toList := by
  obtain ⟨turn, -, there⟩ := List.mem_flatMap.mp held
  rcases turnVars_cases reads turn.loop turn.index with none | ⟨number, one⟩
  · rw [none] at there
    cases there
  · rw [one, List.mem_singleton] at there
    rw [there]
    exact bare_value number

private theorem named_vars {slot : String × String} (held : slot ∈ copy.vars reads) :
    ∃ turn ∈ copy.turns, slot.1 = turn.loop.var := by
  obtain ⟨turn, listed, there⟩ := List.mem_flatMap.mp held
  refine ⟨turn, List.mem_reverse.mp listed, ?_⟩
  rcases turnVars_cases reads turn.loop turn.index with none | ⟨number, one⟩
  · rw [none] at there
    cases there
  · rw [one, List.mem_singleton] at there
    rw [there]

private theorem slots_fst {var : String} {vars : List (String × String)} :
    var.toList ∈ (slots vars).map Prod.fst ↔ var ∈ vars.map Prod.fst := by
  have names : (slots vars).map Prod.fst = (vars.map Prod.fst).map String.toList := by
    rw [slots, List.map_map, List.map_map]
    rfl
  rw [names, List.mem_map_of_injective fun _ _ => String.toList_injective]

/-- A text is filled in where only the own variables have something to put in; names without
braces are told apart, so that it is filled in only then. -/
theorem substituteAll_ownVars (copy : Made) (text : String) :
    ((∀ var ∈ (copy.vars reads).map Prod.fst, var ∉ (copy.ownVars reads).map Prod.fst →
        ¬placeholder var <:+: text.toList) →
      substituteAll (copy.ownVars reads) text = substituteAll (copy.vars reads) text) ∧
    ((∀ turn ∈ copy.turns, Unbracketed '{' '}' turn.loop.var.toList) →
      substituteAll (copy.ownVars reads) text = substituteAll (copy.vars reads) text →
        ∀ var ∈ (copy.vars reads).map Prod.fst, var ∉ (copy.ownVars reads).map Prod.fst →
          ¬placeholder var <:+: text.toList) := by
  obtain ⟨others, split⟩ := copy.vars_eq reads
  have table : slots (copy.vars reads) = slots (copy.ownVars reads) ++ slots others := by
    rw [split, slots, List.map_append]
    rfl
  constructor
  · intro absent
    rw [substituteAll, substituteAll, table, filling_more]
    intro slot held fresh
    obtain ⟨other, listed, rfl⟩ := List.mem_map.mp held
    refine absent other.1 ?_ fun own => fresh (slots_fst.mpr own)
    rw [split, List.map_append]
    exact List.mem_append_right _ (List.mem_map_of_mem listed)
  · intro plain same var held fresh inside
    have known {slot : List Char × List Char}
        (listed : slot ∈ slots (copy.ownVars reads) ++ slots others) :
        Unbracketed '{' '}' slot.1 ∧ '{' ∉ slot.2 := by
      rw [← table] at listed
      obtain ⟨other, there, rfl⟩ := List.mem_map.mp listed
      obtain ⟨turn, around, named⟩ := named_vars there
      exact ⟨named ▸ plain turn around, bare_vars there⟩
    have later : var ∈ others.map Prod.fst := by
      rw [split, List.map_append, List.mem_append] at held
      exact held.resolve_left fresh
    obtain ⟨other, listed, rfl⟩ := List.mem_map.mp later
    have fewer := (count_filling_more (by decide) (fun slot listed => (known listed).1)
      (fun slot listed => (known listed).2) text.toList).2 (other.1.toList, other.2.toList)
      (List.mem_map_of_mem listed) (fun own => fresh (slots_fst.mp own)) inside
    rw [substituteAll, substituteAll, String.ofList_inj, table] at same
    rw [same] at fewer
    exact Nat.lt_irrefl _ fewer

private theorem shown_applyLoops (expanded : (applyLoops reads steps).run = some (.ok result)) :
    (produced result).map shown = (made reads true steps).map (Made.shown reads "" id) := by
  refine shown_applyLoopsWithin _ ?_ expanded
  exact List.forall₂_same.mpr fun a _ => ⟨rfl, by simp, by simp, by simp, rfl⟩

private theorem filled_iff {f : StepFields} (same : shown f = copy.shown reads "" id) :
    Filled reads copy f ↔
      substituteAll (copy.ownVars reads) copy.step.title = substituteAll (copy.vars reads) copy.step.title ∧
        substituteAll (copy.ownVars reads) copy.step.description =
          substituteAll (copy.vars reads) copy.step.description := by
  have text (text : String) : (if copy.turns = [] then if copy.direct then id text else text
      else turnText reads copy.turns copy.direct text) = substituteAll (copy.ownVars reads) text := by
    rw [← turnText_eq]
    split
    · next outside => simp [turnText, outside]
    · rfl
  obtain ⟨sameID, texts⟩ := Prod.mk.inj same
  obtain ⟨sameTitle, sameDescription⟩ := Prod.mk.inj texts
  rw [← sameTitle.trans (text _), ← sameDescription.trans (text _)]
  exact ⟨fun filled => ⟨filled.title, filled.description⟩,
    fun texts => ⟨by simpa using sameID, texts.1, texts.2⟩⟩

theorem forall₂_filled_iff (expanded : (applyLoops reads steps).run = some (.ok result)) :
    List.Forall₂ (Filled reads) (made reads true steps) (produced result) ↔
      ∀ copy ∈ made reads true steps,
        substituteAll (copy.ownVars reads) copy.step.title = substituteAll (copy.vars reads) copy.step.title ∧
          substituteAll (copy.ownVars reads) copy.step.description =
            substituteAll (copy.vars reads) copy.step.description := by
  have views := shown_applyLoops expanded
  generalize made reads true steps = copies at views ⊢
  generalize produced result = fields at views ⊢
  induction copies generalizing fields with
  | nil =>
    rw [List.map_nil, List.map_eq_nil_iff] at views
    subst views
    simp
  | cons copy copies ih =>
    cases fields with
    | nil => cases views
    | cons f fields =>
      obtain ⟨first, others⟩ := List.cons.inj views
      have rest := ih fields others
      rw [List.forall₂_cons, List.forall_mem_cons]
      exact and_congr (filled_iff first) rest

/-- The steps that come out of an expansion have the values of the loop variables in the place of
the placeholders, if only the steps of the bodies themselves have placeholders. Where the names of
the variables have no braces, they have them only then. -/
theorem applyLoops_filled_iff (expanded : (applyLoops reads steps).run = some (.ok result)) :
    (OwnPlaceholders reads steps →
      List.Forall₂ (Filled reads) (made reads true steps) (produced result)) ∧
      ((∀ copy ∈ made reads true steps, ∀ turn ∈ copy.turns, Unbracketed '{' '}' turn.loop.var.toList) →
        (List.Forall₂ (Filled reads) (made reads true steps) (produced result) ↔
          OwnPlaceholders reads steps)) := by
  rw [forall₂_filled_iff expanded]
  have enough (settled : OwnPlaceholders reads steps) (copy : Made)
      (held : copy ∈ made reads true steps) :=
    And.intro
      ((substituteAll_ownVars copy copy.step.title).1 fun var bound fresh => (settled copy held var bound fresh).1)
      ((substituteAll_ownVars copy copy.step.description).1 fun var bound fresh =>
        (settled copy held var bound fresh).2)
  refine ⟨enough, fun plain => ⟨fun filled copy held var bound fresh => ?_, enough⟩⟩
  obtain ⟨title, description⟩ := filled copy held
  exact ⟨(substituteAll_ownVars copy copy.step.title).2 (plain copy held) title var bound fresh,
    (substituteAll_ownVars copy copy.step.description).2 (plain copy held) description var bound fresh⟩

end Filling

/-- A reader of one range. -/
def readsOneTwo : LoopSyntax where
  parseCondition := fun _ => .error "no conditions"
  validateRange := fun range => if range = "1..2" then .ok () else .error "no range"
  parseRange := fun range => if range = "1..2" then .ok (1, 2) else .error "no range"

/-- A loop over the numbers one and two. -/
def overOneTwo (body : List Step) : LoopSpec Step :=
  { count := 0, untilCondition := "", max := 0, range := "1..2", var := "n", body }

def numbered : List Step :=
  [{ id := "each", loop := some (overOneTwo [{ id := "work", title := "Do \x7bn\x7d" }]) }]

def numberedExpanded : List Step :=
  [{ id := "each.iter1.work", title := "Do 1", expandVars := [("n", "1")], sourceLocation := ".iter1" },
   { id := "each.iter2.work", title := "Do 2", needs := ["each.iter1.work"], expandVars := [("n", "2")],
     sourceLocation := ".iter2" }]

private theorem numbered_own : OwnPlaceholders readsOneTwo numbered := by
  unfold OwnPlaceholders
  decide

theorem applyLoops_filled_numbered :
    (applyLoops readsOneTwo numbered).run = some (.ok numberedExpanded) ∧
      List.Forall₂ (Filled readsOneTwo) (made readsOneTwo true numbered) (produced numberedExpanded) :=
  ⟨rfl, (applyLoops_filled_iff rfl).1 numbered_own⟩

def checkStep : Step := { id := "check", title := "Check \x7bn\x7d" }

/-- The step of the body has a child. -/
def numberedChild : List Step :=
  [{ id := "each", loop := some (overOneTwo [{ id := "work", title := "Do \x7bn\x7d", children := [checkStep] }]) }]

def numberedChildExpanded : List Step :=
  [{ id := "each.iter1.work", title := "Do 1", expandVars := [("n", "1")], sourceLocation := ".iter1",
     children := [{ id := "each.iter1.check", title := "Check \x7bn\x7d" }] },
   { id := "each.iter2.work", title := "Do 2", needs := ["each.iter1.work"], expandVars := [("n", "2")],
     sourceLocation := ".iter2", children := [{ id := "each.iter2.check", title := "Check \x7bn\x7d" }] }]

theorem applyLoops_leaves_child :
    (applyLoops readsOneTwo numberedChild).run = some (.ok numberedChildExpanded) ∧
      ¬List.Forall₂ (Filled readsOneTwo) (made readsOneTwo true numberedChild) (produced numberedChildExpanded) := by
  refine ⟨rfl, fun filled => ?_⟩
  have all :=
    (forall₂_filled_iff (show (applyLoops readsOneTwo numberedChild).run = _ from rfl)).mp filled
  revert all
  decide

end Beads.Formula
