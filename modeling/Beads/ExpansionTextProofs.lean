import Beads.Lib.Placeholders
import Beads.Expansions
import Beads.LoopTextProofs

/-! The placeholders of a template are replaced one after the other. A field of the target that,
beside other text, completes a later placeholder is replaced itself. -/
namespace Beads.Formula
open Beads.Lib

/-- Where a character comes from: the template, or the placeholder that it came in for. -/
inductive Origin where
  | template
  | target
  | id
  | title
  | description
  deriving DecidableEq

/-- The placeholders in the order in which they are replaced. -/
def placeholders (target : StepFields) : List (Origin × List Char × List Char) :=
  [(.target, "target".toList, target.id.toList), (.id, "target.id".toList, target.id.toList),
    (.title, "target.title".toList, target.title.toList),
    (.description, "target.description".toList, target.description.toList)]

/-- All placeholders of the text are replaced at once. -/
def substituteAtOnce (s : String) (target : StepFields) : String :=
  String.ofList (filling '{' '}' id ((placeholders target).map (·.2)) 0 s.toList)

/-- `substituteTargetPlaceholders`, with where each character comes from. -/
def traceSubstitution (s : String) (target : StepFields) : List (Char × Origin) :=
  fillingEach '{' '}' Prod.fst ((placeholders target).map traced) (s.toList.map fun c => (c, .template))

def traceAtOnce (s : String) (target : StepFields) : List (Char × Origin) :=
  filling '{' '}' Prod.fst ((placeholders target).map traced) 0 (s.toList.map fun c => (c, .template))

/-- The placeholders of the text are replaced as if at once, and no character of a field is. -/
structure Simultaneous (s : String) (target : StepFields) : Prop where
  text : substituteTargetPlaceholders s target = substituteAtOnce s target
  origins : traceSubstitution s target = traceAtOnce s target

/-- No field can complete a placeholder that is replaced after it. -/
structure Apart (target : StepFields) : Prop where
  id : ∀ name ∈ ["target.id", "target.title", "target.description"], ¬Clash '{' '}' target.id.toList name.toList
  title : ¬Clash '{' '}' target.title.toList "target.description".toList

section Tracing
variable {s : String} {target : StepFields}

theorem erase_traced (target : StepFields) :
    (((placeholders target).map traced).map fun slot => (slot.1, slot.2.map Prod.fst)) =
      (placeholders target).map (·.2) := by
  rw [List.map_map]
  refine List.map_congr_left fun slot _ => ?_
  simp [traced, Function.comp_def]

theorem erase_template (s : String) :
    (s.toList.map fun c => (c, Origin.template)).map Prod.fst = s.toList := by
  simp [Function.comp_def]

private theorem replaceAll_eq {old name : String}
    (shape : old.toList = bracketed '{' '}' name.toList) (s value : String) :
    (replaceAll s old value).toList = filling '{' '}' id [(name.toList, value.toList)] 0 s.toList := by
  rw [replaceAll, String.toList_ofList, shape, replaceChars_eq, filling_singleton]

/-- The trace is one of the code. -/
theorem erase_traceSubstitution (s : String) (target : StepFields) :
    (traceSubstitution s target).map Prod.fst = (substituteTargetPlaceholders s target).toList := by
  have first : "\x7btarget\x7d".toList = bracketed '{' '}' "target".toList := by decide
  have id : "\x7btarget.id\x7d".toList = bracketed '{' '}' "target.id".toList := by decide
  have title : "\x7btarget.title\x7d".toList = bracketed '{' '}' "target.title".toList := by decide
  have description :
      "\x7btarget.description\x7d".toList = bracketed '{' '}' "target.description".toList := by decide
  rw [traceSubstitution, map_fillingEach, erase_traced, erase_template]
  unfold substituteTargetPlaceholders
  by_cases none : s = ""
  · subst none
    rfl
  · rw [if_neg none, replaceAll_eq description, replaceAll_eq title, replaceAll_eq id,
      replaceAll_eq first]
    rfl

private theorem erase_traceAtOnce (s : String) (target : StepFields) :
    (traceAtOnce s target).map Prod.fst = (substituteAtOnce s target).toList := by
  rw [traceAtOnce, map_filling, erase_traced, erase_template, substituteAtOnce,
    String.toList_ofList]

private theorem distinct_placeholders (target : StepFields) :
    Distinct '{' '}' ((placeholders target).map traced) := by
  refine ⟨by decide, ?_, ?_⟩
  · intro slot held
    have named : slot.1 ∈ ["target".toList, "target.id".toList, "target.title".toList, "target.description".toList] :=
      List.mem_map_of_mem held
    have all : ∀ name ∈ ["target".toList, "target.id".toList, "target.title".toList, "target.description".toList],
        '{' ∉ name ∧ '}' ∉ name := by decide
    exact ⟨(all _ named).1, (all _ named).2⟩
  · show ["target".toList, "target.id".toList, "target.title".toList, "target.description".toList].Nodup
    decide

private theorem pairwise_placeholders :
    ((placeholders target).Pairwise fun slot later => ¬Clash '{' '}' slot.2.2 later.2.1) ↔
      Apart target := by
  simp only [placeholders, List.pairwise_cons, List.forall_mem_cons, List.Pairwise.nil,
    List.not_mem_nil]
  constructor
  · rintro ⟨⟨id, title, description, -⟩, -, ⟨last, -⟩, -⟩
    refine ⟨?_, last⟩
    rw [List.forall_mem_cons, List.forall_mem_cons, List.forall_mem_singleton]
    exact ⟨id, title, description⟩
  · rintro ⟨id, title⟩
    simp only [List.forall_mem_cons] at id
    exact ⟨⟨id.1, id.2.1, id.2.2.1, nofun⟩, ⟨id.2.1, id.2.2.1, nofun⟩, ⟨title, nofun⟩, nofun,
      trivial⟩

end Tracing

/-- The placeholders of every text are replaced as if at once exactly if no field of the target can
complete a placeholder that is replaced after it. -/
theorem substituteTargetPlaceholders_simultaneous_iff (target : StepFields) :
    (∀ s, Simultaneous s target) ↔ Apart target := by
  have marks : ((placeholders target).map (·.1)).Nodup := by simp [placeholders]
  have unused : Origin.template ∉ (placeholders target).map (·.1) := by simp [placeholders]
  rw [← pairwise_placeholders, ← fillingEach_eq_iff (distinct_placeholders target) marks unused]
  constructor
  · intro all text
    have traces := (all (String.ofList text)).origins
    rwa [traceSubstitution, traceAtOnce, String.toList_ofList] at traces
  · intro same s
    have traces : traceSubstitution s target = traceAtOnce s target := same s.toList
    refine ⟨String.toList_injective ?_, traces⟩
    rw [← erase_traceSubstitution, ← erase_traceAtOnce, traces]

/-- The title goes in for the id. -/
theorem substituteTargetPlaceholders_not_simultaneous :
    ¬Simultaneous "\x7btarget\x7d" { id := "\x7btarget.title\x7d", title := "Design" } := by
  intro same
  have text := same.text
  revert text
  decide

end Beads.Formula
