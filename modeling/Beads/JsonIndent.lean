import Beads.Lib.JsonSpacing

/-! `JsonValue.renderIndented` (`store/JsonValue.hx`), a scanner over the code units of a text that
has already been validated. It keeps the tokens of the text. -/
namespace Beads.JsonValue
open Lib.JsonGrammar

/-! ## The renderer -/

/-- The variables of the loop. -/
structure IndentState where
  output : List CodeUnit
  depth : Int
  inString : Bool
  escaped : Bool

def isSignificant (c : CodeUnit) : Bool :=
  c ≠ unit ' ' && c ≠ unit '\t' && c ≠ unit '\r' && c ≠ unit '\n'

/-- `nextSignificant`, given the text from the index on. -/
def nextSignificant (after : List CodeUnit) : Option CodeUnit := after.find? isSignificant

/-- `previousSignificant`, given the text up to the index. -/
def previousSignificant (before : List CodeUnit) : Option CodeUnit :=
  before.reverse.find? isSignificant

section Render
variable (baseIndent indentUnit : List CodeUnit)

/-- `addLineIndent`. -/
def addLineIndent (output : List CodeUnit) (depth : Int) : List CodeUnit :=
  output ++ unit '\n' :: (baseIndent ++ (List.replicate depth.toNat indentUnit).flatten)

/-- The body of the loop, with the text before the character and behind it. -/
def renderCharacter (before after : List CodeUnit) (character : CodeUnit) (s : IndentState) :
    IndentState :=
  let output := s.output ++ [character]
  if s.inString then
    if s.escaped then { s with output, escaped := false }
    else if character = unit '\\' then { s with output, escaped := true }
    else if character = unit '"' then { s with output, inString := false }
    else { s with output }
  else if character = unit '"' then { s with output, inString := true }
  else if character = unit '{' ∨ character = unit '[' then
    let close := if character = unit '{' then unit '}' else unit ']'
    if nextSignificant after ≠ some close then
      { s with output := addLineIndent baseIndent indentUnit output (s.depth + 1), depth := s.depth + 1 }
    else { s with output }
  else if character = unit '}' ∨ character = unit ']' then
    let opening := if character = unit '}' then unit '{' else unit '['
    if previousSignificant before ≠ some opening then
      let output := addLineIndent baseIndent indentUnit s.output (s.depth - 1)
      { s with output := output ++ [character], depth := s.depth - 1 }
    else { s with output }
  else if character = unit ',' then { s with output := addLineIndent baseIndent indentUnit output s.depth }
  else if character = unit ':' then { s with output := s.output ++ [unit ':', unit ' '] }
  else if isSignificant character then { s with output }
  else s

/-- The loop. -/
def renderLoop (before : List CodeUnit) (s : IndentState) : List CodeUnit → IndentState
  | [] => s
  | character :: after =>
    renderLoop (before ++ [character]) (renderCharacter baseIndent indentUnit before after character s) after

/-- `renderIndented`. -/
def renderIndented (text : List CodeUnit) : List CodeUnit :=
  (renderLoop baseIndent indentUnit [] ⟨[], 0, false, false⟩ text).output

end Render

/-! ## What it writes -/

section Writes
variable {baseIndent indentUnit : List CodeUnit} {P Q : List CodeUnit → Prop}
  {text text' gap : List CodeUnit}
  {c : CodeUnit}

/-- The scanner stands outside of strings. -/
def IndentState.Outside (s : IndentState) : Prop := s.inString = false ∧ s.escaped = false

variable (baseIndent indentUnit) in
/-- From outside of strings, the text makes the scanner write such an output, whatever is around
it. -/
def Writes (text : List CodeUnit) (P : List CodeUnit → Prop) : Prop :=
  ∀ ⦃before s rest⦄, s.Outside → ∃ t output, P output ∧ t.Outside ∧ t.output = s.output ++ output ∧
    renderLoop baseIndent indentUnit before s (text ++ rest) = renderLoop baseIndent indentUnit (before ++ text) t rest

theorem Writes.mono (writes : Writes baseIndent indentUnit text P)
    (weaker : ∀ output, P output → Q output) :
    Writes baseIndent indentUnit text Q := by
  intro before s rest outside
  obtain ⟨t, output, held, facts⟩ := writes outside
  exact ⟨t, output, weaker output held, facts⟩

theorem Writes.append (writes : Writes baseIndent indentUnit text P)
    (writes' : Writes baseIndent indentUnit text' Q) :
    Writes baseIndent indentUnit (text ++ text') fun output =>
      ∃ first second, P first ∧ Q second ∧ output = first ++ second := by
  intro before s rest outside
  obtain ⟨t, first, held, outside', written, run⟩ := @writes before s (text' ++ rest) outside
  obtain ⟨u, second, held', outside'', written', run'⟩ := @writes' (before ++ text) t rest outside'
  refine ⟨u, first ++ second, ⟨first, second, held, held', rfl⟩, outside'', ?_, ?_⟩
  · rw [written', written, List.append_assoc]
  · rw [List.append_assoc, run, run', List.append_assoc]

/-- One character, from what the body of the loop does. -/
theorem writes_one (step : ∀ before after s, s.Outside →
    ∃ output, P output ∧ (renderCharacter baseIndent indentUnit before after c s).Outside ∧
      (renderCharacter baseIndent indentUnit before after c s).output = s.output ++ output) :
    Writes baseIndent indentUnit [c] P := by
  intro before s rest outside
  obtain ⟨output, held, outside', written⟩ := step before rest s outside
  exact ⟨_, output, held, outside', written, rfl⟩

theorem writes_nil : Writes baseIndent indentUnit [] (· = []) := by
  intro before s rest outside
  exact ⟨s, [], rfl, outside, by simp, by simp⟩

private theorem render_blank {before after : List CodeUnit} {s : IndentState}
    (blank : isBlank c = true) (outside : s.Outside) :
    renderCharacter baseIndent indentUnit before after c s = s := by
  simp only [isBlank, Bool.or_eq_true, decide_eq_true_eq] at blank
  unfold renderCharacter
  simp only [outside.1, Bool.false_eq_true, if_false]
  rcases blank with ((rfl | rfl) | rfl) | rfl
  · simp +decide
  · simp +decide
  · simp +decide
  · simp +decide

private theorem writes_blank (blank : Gap gap) : Writes baseIndent indentUnit gap (· = []) := by
  induction gap with
  | nil => exact writes_nil
  | cons c gap ih =>
    obtain ⟨first, others⟩ := List.forall_mem_cons.mp blank
    have one : Writes baseIndent indentUnit [c] (· = []) := by
      refine writes_one fun before after s outside => ⟨[], rfl, ?_⟩
      rw [render_blank first outside]
      exact ⟨outside, by simp⟩
    refine (one.append (ih others)).mono ?_
    rintro _ ⟨_, _, rfl, rfl, rfl⟩
    rfl

private theorem isSignificant_iff : isSignificant c = !isBlank c := by
  simp only [isSignificant, isBlank, Bool.not_or, decide_not]
  rw [Bool.and_right_comm]

private theorem render_plain {before after : List CodeUnit} {s : IndentState}
    (plain : isPlain c = true) (outside : s.Outside) :
    renderCharacter baseIndent indentUnit before after c s = { s with output := s.output ++ [c] } := by
  obtain ⟨blank, comma, bracket, brace, quote, brace', bracket', colon⟩ := isPlain_parts plain
  unfold renderCharacter
  simp [outside.1, comma, bracket, brace, quote, brace', bracket', colon, isSignificant_iff, blank]

private theorem writes_plain (plain : ∀ c ∈ text, isPlain c = true) :
    Writes baseIndent indentUnit text (· = text) := by
  induction text with
  | nil => exact writes_nil
  | cons c text ih =>
    obtain ⟨first, others⟩ := List.forall_mem_cons.mp plain
    have one : Writes baseIndent indentUnit [c] (· = [c]) := by
      refine writes_one fun before after s outside => ⟨[c], rfl, ?_⟩
      rw [render_plain first outside]
      exact ⟨outside, rfl⟩
    refine (one.append (ih others)).mono ?_
    rintro _ ⟨_, _, rfl, rfl, rfl⟩
    rfl

end Writes

/-! ### Strings -/

section Strings
variable {baseIndent indentUnit before after rest output body : List CodeUnit} {depth : Int}
  {c : CodeUnit}

private theorem render_inside (slash : c ≠ unit '\\') (quote : c ≠ unit '"') :
    renderCharacter baseIndent indentUnit before after c ⟨output, depth, true, false⟩ =
      ⟨output ++ [c], depth, true, false⟩ := by
  simp [renderCharacter, slash, quote]

private theorem renderLoop_inside (slash : c ≠ unit '\\') (quote : c ≠ unit '"') :
    renderLoop baseIndent indentUnit before ⟨output, depth, true, false⟩ (c :: rest) =
      renderLoop baseIndent indentUnit (before ++ [c]) ⟨output ++ [c], depth, true, false⟩ rest := by
  rw [renderLoop, render_inside slash quote]

/-- A backslash takes the next character with it. -/
theorem renderLoop_escape :
    renderLoop baseIndent indentUnit before ⟨output, depth, true, false⟩ (unit '\\' :: c :: rest) =
      renderLoop baseIndent indentUnit (before ++ [unit '\\', c]) ⟨output ++ [unit '\\', c], depth, true, false⟩
        rest := by
  simp [renderLoop, renderCharacter]

private theorem renderLoop_body {low : CodeUnit} (written : Body low body) :
    renderLoop baseIndent indentUnit before ⟨output, depth, true, false⟩ (body ++ rest) =
      renderLoop baseIndent indentUnit (before ++ body) ⟨output ++ body, depth, true, false⟩ rest := by
  induction written generalizing before output with
  | nil => simp
  | plain c quote slash _ _ ih =>
    rw [List.cons_append, renderLoop_inside slash quote, ih]
    simp
  | escape e known _ ih =>
    rw [List.cons_append, List.cons_append, renderLoop_escape, ih]
    simp
  | unicode a b c d hex _ ih =>
    simp only [List.mem_cons, List.not_mem_nil, or_false, forall_eq_or_imp, forall_eq] at hex
    obtain ⟨first, second, third, fourth⟩ := hex
    simp only [List.cons_append]
    rw [renderLoop_escape, renderLoop_inside (isHex_plain first).1 (isHex_plain first).2,
      renderLoop_inside (isHex_plain second).1 (isHex_plain second).2,
      renderLoop_inside (isHex_plain third).1 (isHex_plain third).2,
      renderLoop_inside (isHex_plain fourth).1 (isHex_plain fourth).2, ih]
    simp

private theorem writes_quoted {low : CodeUnit} (written : Body low body) :
    Writes baseIndent indentUnit (quoted body) (· = quoted body) := by
  rintro before ⟨output, depth, inString, escaped⟩ rest ⟨rfl, rfl⟩
  refine ⟨⟨output ++ quoted body, depth, false, false⟩, quoted body, rfl, ⟨rfl, rfl⟩, rfl, ?_⟩
  have shape : quoted body ++ rest = unit '"' :: (body ++ unit '"' :: rest) := by simp [quoted]
  have enter : renderCharacter baseIndent indentUnit before (body ++ unit '"' :: rest) (unit '"')
      ⟨output, depth, false, false⟩ = ⟨output ++ [unit '"'], depth, true, false⟩ := by simp [renderCharacter]
  have leave (before output : List CodeUnit) :
      renderCharacter baseIndent indentUnit before rest (unit '"')
      ⟨output, depth, true, false⟩ = ⟨output ++ [unit '"'], depth, false, false⟩ := by
    simp +decide [renderCharacter]
  rw [shape, renderLoop, enter, renderLoop_body written, renderLoop, leave]
  simp [quoted]

end Strings

/-! ### Structural characters -/

section Marks
variable {baseIndent indentUnit : List CodeUnit} (blankBase : Gap baseIndent)
  (blankUnit : Gap indentUnit)
include blankBase blankUnit

theorem addLineIndent_gap (output : List CodeUnit) (depth : Int) :
    ∃ gap, Gap gap ∧ addLineIndent baseIndent indentUnit output depth = output ++ gap := by
  refine ⟨_, List.forall_mem_cons.mpr ⟨by decide, Gap.append blankBase fun c held => ?_⟩, rfl⟩
  obtain ⟨line, among, held⟩ := List.mem_flatten.mp held
  rw [List.eq_of_mem_replicate among] at held
  exact blankUnit c held

private theorem writes_opening (container : Container) :
    Writes baseIndent indentUnit [container.opening] fun output =>
    ∃ gap, Gap gap ∧ output = container.opening :: gap := by
  refine writes_one fun before after s outside => ?_
  have opening : container.opening ≠ unit '"' ∧
      (container.opening = unit '{' ∨ container.opening = unit '[') := by
    cases container <;> decide
  obtain ⟨gap, blank, line⟩ :=
    addLineIndent_gap blankBase blankUnit (s.output ++ [container.opening]) (s.depth + 1)
  unfold renderCharacter
  simp only [outside.1, Bool.false_eq_true, if_false, if_neg opening.1, if_pos opening.2]
  -- the layout does not matter here, so neither does which character is looked for
  generalize (if container.opening = unit '{' then unit '}' else unit ']') = close
  split
  · exact ⟨container.opening :: gap, ⟨gap, blank, rfl⟩, ⟨rfl, outside.2⟩, by simp [line]⟩
  · exact ⟨[container.opening], ⟨[], nofun, rfl⟩, ⟨rfl, outside.2⟩, rfl⟩

private theorem writes_closing (container : Container) :
    Writes baseIndent indentUnit [container.closing] fun output =>
    ∃ gap, Gap gap ∧ output = gap ++ [container.closing] := by
  refine writes_one fun before after s outside => ?_
  have closing : container.closing ≠ unit '"' ∧ ¬(container.closing = unit '{' ∨ container.closing = unit '[') ∧
      (container.closing = unit '}' ∨ container.closing = unit ']') := by
    cases container <;> decide
  obtain ⟨gap, blank, line⟩ := addLineIndent_gap blankBase blankUnit s.output (s.depth - 1)
  unfold renderCharacter
  simp only [outside.1, Bool.false_eq_true, if_false, if_neg closing.1, if_neg closing.2.1,
    if_pos closing.2.2]
  generalize (if container.closing = unit '}' then unit '{' else unit '[') = opening
  split
  · exact ⟨gap ++ [container.closing], ⟨gap, blank, rfl⟩, ⟨rfl, outside.2⟩, by simp [line]⟩
  · exact ⟨[container.closing], ⟨[], nofun, rfl⟩, ⟨rfl, outside.2⟩, rfl⟩

private theorem writes_comma : Writes baseIndent indentUnit [unit ','] fun output =>
    ∃ gap, Gap gap ∧ output = unit ',' :: gap := by
  refine writes_one fun before after s outside => ?_
  obtain ⟨gap, blank, line⟩ :=
    addLineIndent_gap blankBase blankUnit (s.output ++ [unit ',']) s.depth
  have same : renderCharacter baseIndent indentUnit before after (unit ',') s =
      { s with output := addLineIndent baseIndent indentUnit (s.output ++ [unit ',']) s.depth } := by
    simp +decide [renderCharacter, outside.1]
  rw [same]
  exact ⟨unit ',' :: gap, ⟨gap, blank, rfl⟩, outside, by simp [line]⟩

omit blankBase blankUnit in
private theorem writes_colon :
    Writes baseIndent indentUnit [unit ':'] (· = [unit ':', unit ' ']) := by
  refine writes_one fun before after s outside => ?_
  have same : renderCharacter baseIndent indentUnit before after (unit ':') s =
      { s with output := s.output ++ [unit ':', unit ' '] } := by
    simp +decide [renderCharacter, outside.1]
  rw [same]
  exact ⟨_, rfl, outside, rfl⟩

end Marks

/-! ## Tokens are kept -/

private theorem each_free (container : Container) : container.each.Free := by
  cases container <;> trivial

/-- Lists are of items with free whitespace. -/
def Spaced : Category → Prop
  | .value => True
  | .item => True
  | .pair => True
  | .listOf each => each.Free

private theorem spaced_of_free {category : Category} (free : category.Free) : Spaced category := by
  cases category with
  | listOf each => exact free
  | value => exact free.elim
  | item => trivial
  | pair => trivial

section Tokens
variable {baseIndent indentUnit : List CodeUnit} (blankBase : Gap baseIndent)
  (blankUnit : Gap indentUnit)
include blankBase blankUnit

/-- A text of the grammar is rendered as one with the same tokens. -/
theorem writes_grammar {category : Category} {text : List CodeUnit} {tokens : List Token}
    (derived : Grammar rfc8259 category text tokens) (spaced : Spaced category) :
    Writes baseIndent indentUnit text fun output => Grammar rfc8259 category output tokens := by
  have nothing : Gap [] := nofun
  induction derived with
  | literal word known =>
    refine (writes_plain (isPlain_of_literal known)).mono ?_
    rintro _ rfl
    exact .literal word known
  | number number =>
    refine (writes_plain fun c held => isPlain_of_numberPart (Number.parts number |>.2 c held)).mono ?_
    rintro _ rfl
    exact .number number
  | string written =>
    refine (writes_quoted written).mono ?_
    rintro _ rfl
    exact .string written
  | empty container blank =>
    have inner := (writes_blank blank).append (writes_closing blankBase blankUnit container)
    refine ((writes_opening blankBase blankUnit container).append inner).mono ?_
    rintro _ ⟨_, _, ⟨gap, solid, rfl⟩, ⟨_, _, rfl, ⟨gap', solid', rfl⟩, rfl⟩, rfl⟩
    simpa using Grammar.empty container (solid.append solid')
  | container container inside ih =>
    have inner := (ih (each_free container)).append (writes_closing blankBase blankUnit container)
    refine ((writes_opening blankBase blankUnit container).append inner).mono ?_
    rintro _ ⟨_, _, ⟨gap, solid, rfl⟩, ⟨output, _, written, ⟨gap', solid', rfl⟩, rfl⟩, rfl⟩
    simpa using Grammar.container container (written.pad (each_free container) solid solid')
  | item blank blank' value ih =>
    refine ((writes_blank blank).append ((ih trivial).append (writes_blank blank'))).mono ?_
    rintro _ ⟨_, _, rfl, ⟨output, _, written, rfl, rfl⟩, rfl⟩
    exact .item nothing nothing written
  | @pair before key after text tokens blank blank' written value ih =>
    have colon := (writes_blank blank').append (writes_colon.append (ih trivial))
    refine ((writes_blank blank).append ((writes_quoted written).append colon)).mono ?_
    rintro _ ⟨_, _, rfl, ⟨_, _, rfl, ⟨_, _, rfl, ⟨_, output, rfl, item, rfl⟩, rfl⟩, rfl⟩, rfl⟩
    have space : Gap [unit ' '] := List.all_iff_forall_prop.mp (by decide)
    simpa using Grammar.pair nothing nothing written (item.pad trivial space nothing)
  | one last ih => exact (ih (spaced_of_free spaced)).mono fun _ written => .one written
  | more first others ih ih' =>
    have behind := (writes_comma blankBase blankUnit).append (ih' spaced)
    refine ((ih (spaced_of_free spaced)).append behind).mono ?_
    rintro _ ⟨output, _, written, ⟨_, output', ⟨gap, solid, rfl⟩, written', rfl⟩, rfl⟩
    simpa using Grammar.more written (written'.pad spaced solid nothing)

/-- Indenting a JSON text with whitespace keeps its tokens: the result is a text with the same
tokens, and without the whitespace outside of strings the two are the same. -/
theorem renderIndented_tokens {text : List CodeUnit} {tokens : List Token}
    (valid : Grammar rfc8259 .item text tokens) :
    Grammar rfc8259 .item (renderIndented baseIndent indentUnit text) tokens ∧
      squeeze .outside (renderIndented baseIndent indentUnit text) = squeeze .outside text := by
  obtain ⟨t, output, written, -, same, run⟩ :=
    @writes_grammar _ _ blankBase blankUnit _ _ _ valid trivial [] ⟨[], 0, false, false⟩ [] ⟨rfl, rfl⟩
  have rendered : renderIndented baseIndent indentUnit text = output := by
    rw [List.append_nil] at run
    rw [renderIndented, run]
    exact same
  have squeezed := (written.squeezed []).trans (valid.squeezed []).symm
  rw [List.append_nil, List.append_nil] at squeezed
  rw [rendered]
  exact ⟨written, squeezed⟩

end Tokens

example : renderIndented (units "  ") (units "  ") (units "\x7b\"a\":[1,\x7b \x7d]\x7d") =
    units "\x7b\n    \"a\": [\n      1,\n      \x7b\x7d\n    ]\n  \x7d" := by decide

/-- The bracket and the escaped quote in the string are no structure. -/
theorem renderIndented_tokens_array :
    Grammar rfc8259 .item (renderIndented (units "    ") (units "  ") (units "[\"]\\\"\" , 1]"))
        [.mark (unit '['), .string (units "]\\\""), .mark (unit ','), .number (units "1"), .mark (unit ']')] ∧
      squeeze .outside (renderIndented (units "    ") (units "  ") (units "[\"]\\\"\" , 1]")) =
        squeeze .outside (units "[\"]\\\"\" , 1]") := by
  have nothing : Gap [] := nofun
  have space : Gap [unit ' '] := List.all_iff_forall_prop.mp (by decide)
  have written : Body 0x20 (units "]\\\"") :=
    .plain (unit ']') (by decide) (by decide) (by decide) (.escape (unit '"') (by decide) .nil)
  have one : Digits [unit '1'] := ⟨by decide, List.all_iff_forall_prop.mp (by decide)⟩
  have number : Number (units "1") :=
    ⟨[], [unit '1'], [], [], .inl rfl, ⟨one, .inr (by decide)⟩, .inl rfl, .inl rfl, rfl⟩
  have first : Grammar rfc8259 .item _ _ := .item nothing space (.string written)
  have second : Grammar rfc8259 .item _ _ := .item space nothing (.number number)
  have valid := Grammar.item nothing nothing (.container .array (.more first (.one second)))
  have base : Gap (units "    ") := List.all_iff_forall_prop.mp (by decide)
  have step : Gap (units "  ") := List.all_iff_forall_prop.mp (by decide)
  exact renderIndented_tokens base step valid

end Beads.JsonValue
