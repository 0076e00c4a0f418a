import Mathlib.Data.List.DropRight
import Beads.JsonValidator
import Beads.Lib.JsonReader

/-! The validator takes the loose grammar of JSON: the parser, once it has returned, has not failed
exactly if the reader of that grammar reads the same. The two differ from the standard in the runs
that stand for numbers and in raw control characters. -/
namespace Beads.JsonValue
open Lib.JsonGrammar TypedJsonParser

/-! ## Leaves -/

/-- What the parser does where the reader reads so: it comes to the same rest, or it fails. A
failure stays. -/
def Outcome {β : Type} (failed : Bool) (read : Option (β × List CodeUnit)) (t : ParserState) :
    Prop :=
  match failed, read with
  | false, some (_, rest) => t = ⟨rest, false⟩
  | _, _ => t.failed = true

section Leaves
variable {s : ParserState} {rest : List CodeUnit} {c : CodeUnit}

theorem isWhitespace_eq (c : CodeUnit) : isWhitespace c = isBlank c := by
  simp only [isWhitespace, isBlank, Bool.or_assoc]
  rw [Bool.or_comm (decide (c = unit '\r'))]

theorem skipWhitespace_rest (s : ParserState) : (skipWhitespace s).rest = skip s.rest := by
  have same : isWhitespace = isBlank := funext isWhitespace_eq
  simp [skipWhitespace, skip, same]

private theorem isHex_iff (c : CodeUnit) : isHex c = (hexDigit c).isSome := by
  have range (low high : CodeUnit) :
      (decide (low ≤ c) && decide (c ≤ high)) = decide (low ≤ c ∧ c ≤ high) := by simp
  simp only [isHex, isDigit, range, hexDigit]
  change (decide (48 ≤ c ∧ c ≤ 57) || decide (65 ≤ c ∧ c ≤ 70) || decide (97 ≤ c ∧ c ≤ 102)) = _
  by_cases digit : 48 ≤ c ∧ c ≤ 57
  · simp [digit]
  by_cases upper : 65 ≤ c ∧ c ≤ 70
  · simp [digit, upper]
  by_cases lower : 97 ≤ c ∧ c ≤ 102
  · simp [digit, upper, lower]
  · simp [digit, upper, lower]

private theorem isEscape_iff (c : CodeUnit) : isEscape c = (unescape c).isSome := by
  have listed : units "\"\\/bfnrt" =
      [unit '"', unit '\\', unit '/', unit 'b', unit 'f', unit 'n', unit 'r', unit 't'] := by decide
  unfold isEscape unescape
  rw [listed]
  simp only [List.mem_cons, List.not_mem_nil, or_false]
  by_cases same : c = unit '"' ∨ c = unit '\\' ∨ c = unit '/'
  · rcases same with rfl | rfl | rfl <;> decide
  rw [if_neg same]
  rw [not_or, not_or] at same
  by_cases b : c = unit 'b'
  · simp [b]
  by_cases f : c = unit 'f'
  · subst f; decide
  by_cases n : c = unit 'n'
  · subst n; decide
  by_cases r : c = unit 'r'
  · subst r; decide
  by_cases t : c = unit 't'
  · subst t; decide
  · simp [same, b, f, n, r, t]

/-- Four hexadecimal digits, or a failure. -/
theorem parseHexCodeUnit_cases (rest : List CodeUnit) :
    (∃ x y z w after code, rest = x :: y :: z :: w :: after ∧
      (isHex x && isHex y && isHex z && isHex w) = true ∧
      parseHexCodeUnit rest = (some code, after)) ∨
    ((parseHexCodeUnit rest).1 = none ∧
      ∀ x y z w after, rest = x :: y :: z :: w :: after →
        (isHex x && isHex y && isHex z && isHex w) = false) := by
  rcases rest with _ | ⟨x, _ | ⟨y, _ | ⟨z, _ | ⟨w, after⟩⟩⟩⟩
  · exact .inr ⟨rfl, by simp⟩
  · exact .inr ⟨rfl, by simp⟩
  · exact .inr ⟨rfl, by simp⟩
  · exact .inr ⟨rfl, by simp⟩
  · have loop : parseHexCodeUnit (x :: y :: z :: w :: after) = hexLoop 4 0
        (x :: y :: z :: w :: after) :=
      if_neg (by simp)
    rw [loop]
    simp only [List.cons.injEq, isHex_iff]
    cases first : hexDigit x with
    | none => exact .inr ⟨by simp [hexLoop, first], by rintro _ _ _ _ _ ⟨rfl, -⟩; simp [first]⟩
    | some n =>
      cases second : hexDigit y with
      | none =>
        exact .inr ⟨by simp [hexLoop, first, second],
          by rintro _ _ _ _ _ ⟨-, rfl, -⟩; simp [second]⟩
      | some m =>
        cases third : hexDigit z with
        | none =>
          exact .inr ⟨by simp [hexLoop, first, second, third],
            by rintro _ _ _ _ _ ⟨-, -, rfl, -⟩; simp [third]⟩
        | some l =>
          cases fourth : hexDigit w with
          | none =>
            refine .inr ⟨by simp [hexLoop, first, second, third, fourth], ?_⟩
            rintro _ _ _ _ _ ⟨-, -, -, rfl, -⟩
            simp [fourth]
          | some k =>
            have read : hexLoop 4 0 (x :: y :: z :: w :: after) =
                (some ((((0 * 16 + n) * 16 + m) * 16 + l) * 16 + k), after) := by
              simp only [hexLoop, first, second, third, fourth]
            have digits : ((hexDigit x).isSome && (hexDigit y).isSome && (hexDigit z).isSome && (hexDigit w).isSome) =
                true := by simp [first, second, third, fourth]
            exact .inl ⟨x, y, z, w, after, _, ⟨rfl, rfl, rfl, rfl, rfl⟩, digits, read⟩

theorem Outcome.of_failed {β : Type} {failed : Bool} {read : Option (β × List CodeUnit)}
    {t : ParserState}
    (held : t.failed = true) (stopped : failed = true ∨ read = none) : Outcome failed read t := by
  unfold Outcome
  rcases stopped with rfl | rfl
  · exact held
  · split
    · next same => cases same
    · exact held

theorem Outcome.map {β γ : Type} {failed : Bool} {read : Option (β × List CodeUnit)}
    {t : ParserState} (f : β → γ)
    (outcome : Outcome failed read t) : Outcome failed (read.map fun r => (f r.1, r.2)) t := by
  cases failed with
  | true => exact outcome
  | false =>
    cases read with
    | none => exact outcome
    | some r => exact outcome

/-- What is read behind, where nothing has failed. -/
theorem Outcome.bind {β γ : Type} {failed : Bool} {read : Option (β × List CodeUnit)}
    {t r : ParserState}
    {next : β × List CodeUnit → Option (γ × List CodeUnit)} (first : Outcome failed read t)
    (onward : ∀ b rest, t = ⟨rest, false⟩ → Outcome false (next (b, rest)) r)
    (stays : t.failed = true → r.failed = true) : Outcome failed (read >>= next) r := by
  cases failed with
  | true => exact stays first
  | false =>
    cases read with
    | none => exact stays first
    | some result => exact onward result.1 result.2 first

section Bodies
variable {cs : List CodeUnit}

private theorem readBody_unicode_none {cs : List CodeUnit}
    (other : ∀ x y z w after, cs = x :: y :: z :: w :: after →
      (isHex x && isHex y && isHex z && isHex w) = false) :
    readBody (unit '\\' :: unit 'u' :: cs) = none := by
  have slash : unit '\\' ≠ unit '"' := by decide
  have plain : isEscape (unit 'u') = false := by decide
  rw [readBody.eq_def]
  simp only [if_neg slash, ne_eq, not_true_eq_false, if_false, plain, Bool.false_eq_true]
  split
  · next x y z w after =>
    rw [other x y z w after rfl]
    rfl
  · rfl

theorem stringLoop_outcome (output : List CodeUnit) (failed : Bool) (cs : List CodeUnit) :
    Outcome failed (readBody cs) (stringLoop output failed cs).2 := by
  have slash : unit '\\' ≠ unit '"' := by decide
  fun_induction stringLoop output failed cs with
  | case1 => exact .of_failed rfl (.inr rfl)
  | case2 output failed rest =>
    rw [readBody.eq_def]
    cases failed <;> simp [Outcome]
  | case3 output failed c rest quote other ih =>
    rw [readBody.eq_def]
    simp only [if_neg quote, if_pos other]
    exact ih.map (c :: ·)
  | case4 output failed c quote other =>
    refine .of_failed rfl (.inr ?_)
    rw [readBody.eq_def]
    simp only [if_neg quote, if_neg other]
  | case5 output failed c quote other rest hex none ih =>
    rw [ne_eq, not_not] at other
    subst other
    rcases parseHexCodeUnit_cases rest with ⟨x, y, z, w, after, code, -, -, found⟩ | ⟨-, short⟩
    · have impossible : (parseHexCodeUnit rest).1 = .none := none
      rw [found] at impossible
      cases impossible
    · rw [readBody_unicode_none short]
      exact .of_failed ih (.inr rfl)
  | case6 output failed c quote other rest hex code some ih =>
    rw [ne_eq, not_not] at other
    subst other
    rcases parseHexCodeUnit_cases rest with
      ⟨x, y, z, w, after, code', rfl, digits, found⟩ | ⟨none, -⟩
    · have plain : isEscape (unit 'u') = false := by decide
      have moved : hex.2 = after := congrArg Prod.snd found
      rw [moved] at ih ⊢
      rw [readBody.eq_def]
      simp only [if_neg slash, ne_eq, not_true_eq_false, if_false, plain, Bool.false_eq_true,
        if_pos digits]
      exact ih.map fun body => unit '\\' :: unit 'u' :: x :: y :: z :: w :: body
    · have impossible : (parseHexCodeUnit rest).1 = .some code := some
      rw [none] at impossible
      cases impossible
  | case7 output failed c quote other escape rest notU character stands ih =>
    rw [readBody.eq_def]
    have known : isEscape escape = true := by rw [isEscape_iff, stands]; rfl
    simp only [if_neg quote, if_neg other, if_pos known]
    exact ih.map fun body => c :: escape :: body
  | case8 output failed c quote other escape rest notU stands =>
    refine .of_failed rfl (.inr ?_)
    rw [readBody.eq_def]
    have known : isEscape escape = false := by rw [isEscape_iff, stands]; rfl
    simp only [if_neg quote, if_neg other, known, Bool.false_eq_true, if_false, ne_eq, notU,
      not_false_eq_true, if_true]

end Bodies

private theorem parseNumber_outcome (s : ParserState) :
    Outcome s.failed (readRun s.rest) (parseNumber s).2 := by
  have inside : (fun c => !(c = unit ',' || c = unit ']' || c = unit '}' || isWhitespace c)) =
      (!isEnd ·) := by
    funext c
    simp only [isEnd, isWhitespace_eq]
  unfold readRun parseNumber
  rw [inside]
  dsimp only
  by_cases empty : s.rest.takeWhile (!isEnd ·) = []
  · rw [if_pos empty, if_pos empty]
    exact .of_failed rfl (.inr rfl)
  · rw [if_neg empty, if_neg empty]
    cases s.failed with
    | true => exact .of_failed rfl (.inl rfl)
    | false => rfl

private theorem consumeLiteral_outcome (token : String) (value : ParsedJsonValue)
    (s : ParserState) :
    Outcome s.failed (readLiteral token s.rest) (consumeLiteral token value s).2 := by
  have starts : (units token).isPrefixOf s.rest = true ↔ s.rest.take
      (units token).length = units token := by
    rw [List.isPrefixOf_iff_prefix, List.prefix_iff_eq_take]
    exact eq_comm
  unfold readLiteral consumeLiteral
  by_cases same : s.rest.take (units token).length = units token
  · rw [if_pos (starts.mpr same), if_neg (not_not.mpr same)]
    cases s.failed with
    | true => exact .of_failed rfl (.inl rfl)
    | false => rfl
  · rw [if_neg (mt starts.mp same), if_pos same]
    exact .of_failed rfl (.inr rfl)

end Leaves

/-! ## Containers -/

/-- The parser does what the reader does, or fails. -/
def Follows (parser : ParserState → Option (ParsedJsonValue × ParserState))
    (reader : List CodeUnit → Option (List Token × List CodeUnit)) : Prop :=
  ∀ ⦃s r⦄, parser s = some r → Outcome s.failed (reader s.rest) r.2

section Containers
variable {parser again : ParserState → Option (ParsedJsonValue × ParserState)}
  {reader each : List CodeUnit → Option (List Token × List CodeUnit)} {closing : CodeUnit} {fuel : Nat}
  {s t : ParserState} {r : ParsedJsonValue × ParserState}

theorem Follows.failed (follows : Follows parser reader) (failed : s.failed = true)
    (found : parser s = some r) :
    r.2.failed = true := by
  have outcome := follows found
  rw [failed] at outcome
  exact outcome

/-- Behind an item, the container is closed, goes on behind a comma, or is broken. -/
def afterItem (closing : CodeUnit) (value : ParsedJsonValue)
    (again : ParserState → Option (ParsedJsonValue × ParserState)) (s : ParserState) :
    Option (ParsedJsonValue × ParserState) :=
  match consumeIf closing s with
  | some s => some (value, s)
  | none =>
    match consumeIf (unit ',') s with
    | none => some (value, fail s)
    | some s => again s

private theorem consumeIf_failed {c : CodeUnit} (found : consumeIf c s = some t) :
    t.failed = s.failed := by
  unfold consumeIf at found
  split at found
  · cases found
  · split at found
    · cases found
      rfl
    · cases found

theorem consumeIf_skip {c : CodeUnit} (found : consumeIf c (skipWhitespace s) = some t) :
    ∃ behind, skip s.rest = c :: behind ∧ t = ⟨behind, s.failed⟩ := by
  rw [consumeIf, skipWhitespace_rest] at found
  split at found
  · cases found
  · next d rest start =>
    split at found
    · next same =>
      cases found
      exact ⟨rest, by rw [start, same], rfl⟩
    · cases found

private theorem afterItem_failed {value : ParsedJsonValue} (follows : Follows again reader)
    (failed : s.failed = true)
    (found : afterItem closing value again (skipWhitespace s) = some r) : r.2.failed = true := by
  have failed' : (skipWhitespace s).failed = true := failed
  unfold afterItem at found
  split at found
  · next t closed =>
    cases found
    exact (consumeIf_failed closed).trans failed'
  · split at found
    · cases found
      rfl
    · next t comma => exact follows.failed ((consumeIf_failed comma).trans failed') found

theorem afterItem_outcome {value : ParsedJsonValue}
    (follows : Follows again (readList each closing fuel))
    (item : Outcome s.failed (each s.rest) t)
    (found : afterItem closing value again (skipWhitespace t) = some r) :
    Outcome s.failed (readList each closing (fuel + 1) s.rest) r.2 := by
  rw [readList]
  refine item.bind (fun tokens rest same => ?_) fun failed => afterItem_failed follows failed found
  subst same
  unfold afterItem consumeIf at found
  rw [skipWhitespace_rest] at found
  dsimp only at found ⊢
  cases next : skip rest with
  | nil =>
    simp only [next] at found
    cases found
    exact .of_failed rfl (.inr rfl)
  | cons c more =>
    simp only [next] at found
    dsimp only
    by_cases closed : c = closing
    · rw [if_pos closed] at found ⊢
      cases found
      rfl
    · rw [if_neg closed] at found ⊢
      dsimp only at found
      by_cases comma : c = unit ','
      · rw [if_pos comma] at found ⊢
        exact (follows found).bind (fun _ _ same => same) id
      · rw [if_neg comma] at found ⊢
        cases found
        exact .of_failed rfl (.inr rfl)

private theorem elements_follows (follows : Follows parser reader) (fuel : Nat)
    (values : List ParsedJsonValue) :
    Follows (elements parser fuel values) (readList reader (unit ']') fuel) := by
  induction fuel generalizing values with
  | zero => exact fun s r found => by cases found
  | succ fuel ih =>
    intro s r found
    unfold elements at found
    by_cases failed : s.failed = true
    · rw [if_pos failed] at found
      cases found
      exact .of_failed failed (.inl failed)
    · rw [if_neg failed] at found
      obtain ⟨value, parsed, found⟩ := Option.bind_eq_some_iff.mp found
      exact afterItem_outcome (ih _) (follows parsed) found

/-- A reader that passes over whitespace at the start. -/
def Skips (reader : List CodeUnit → Option (List Token × List CodeUnit)) : Prop :=
  ∀ cs, reader (skip cs) = reader cs

theorem skip_skip (cs : List CodeUnit) : skip (skip cs) = skip cs := List.dropWhile_idempotent _ _

private theorem skips_readPair : Skips (readPair reader) := by
  intro cs
  rw [readPair, readPair, skip_skip]

private theorem skips_readList (skips : Skips each) : Skips (readList each closing fuel) := by
  intro cs
  cases fuel with
  | zero => rfl
  | succ fuel => rw [readList, readList, skips cs]

/-- The item of an object, up to its value. -/
theorem member_outcome (follows : Follows parser reader) (skips : Skips reader)
    {more behind : List CodeUnit}
    {value : ParsedJsonValue × ParserState} (start : skip s.rest = unit '"' :: more)
    (colon : skip (stringLoop [] s.failed more).2.rest = unit ':' :: behind)
    (parsed : parser (skipWhitespace ⟨behind, (stringLoop [] s.failed more).2.failed⟩) = some value) :
    Outcome s.failed (readPair reader s.rest) value.2 := by
  rw [readPair, start]
  dsimp only
  rw [if_neg (not_not.mpr rfl)]
  have stays (failed : (stringLoop [] s.failed more).2.failed = true) : value.2.failed = true :=
    follows.failed (show (skipWhitespace ⟨behind, _⟩).failed = true from failed) parsed
  refine (stringLoop_outcome [] s.failed more).bind (fun key rest same => ?_) stays
  rw [same] at colon parsed
  have outcome := follows parsed
  rw [skipWhitespace_rest, skips] at outcome
  dsimp only
  rw [colon]
  dsimp only
  rw [if_neg (not_not.mpr rfl)]
  exact outcome.bind (fun _ _ same => same) id

theorem consumeIf_none {c : CodeUnit} {behind : List CodeUnit}
    (missing : consumeIf c (skipWhitespace s) = none) :
    skip s.rest ≠ c :: behind := by
  intro start
  rw [consumeIf, skipWhitespace_rest, start] at missing
  dsimp only at missing
  rw [if_pos rfl] at missing
  cases missing

private theorem readPair_no_colon {more : List CodeUnit} (start : skip s.rest = unit '"' :: more)
    (fresh : s.failed = false)
    (missing : consumeIf (unit ':') (skipWhitespace (stringLoop [] s.failed more).2) = none) :
    readPair reader s.rest = none := by
  have outcome := stringLoop_outcome [] s.failed more
  rw [readPair, start]
  dsimp only
  rw [if_neg (not_not.mpr rfl)]
  cases key : readBody more with
  | none => rfl
  | some result =>
    rw [key, fresh] at outcome
    rw [fresh, show (stringLoop [] false more).2 = ⟨result.2, false⟩ from outcome] at missing
    rw [Option.bind_eq_bind, Option.bind_some]
    cases written : skip result.2 with
    | nil => rfl
    | cons c rest =>
      have other : c ≠ unit ':' := by
        rintro rfl
        exact consumeIf_none missing written
      exact if_pos other

private theorem members_follows (follows : Follows parser reader) (skips : Skips reader)
    (fuel : Nat) (fields : List (JsonField ParsedJsonValue)) :
    Follows (members parser fuel fields) (readList (readPair reader) (unit '}') fuel) := by
  induction fuel generalizing fields with
  | zero => exact fun s r found => by cases found
  | succ fuel ih =>
    intro s r found
    unfold members at found
    by_cases failed : s.failed = true
    · rw [if_pos failed] at found
      cases found
      exact .of_failed failed (.inl failed)
    rw [if_neg failed] at found
    dsimp only at found
    have none_of_pair (none : readPair reader s.rest = none) (broken : r.2.failed = true) :
        Outcome s.failed (readList (readPair reader) (unit '}') (fuel + 1) s.rest) r.2 := by
      rw [readList, none]
      exact .of_failed broken (.inr rfl)
    cases start : skip s.rest with
    | nil =>
      have missing : consumeIf (unit '"') (skipWhitespace s) = none := by
        rw [consumeIf, skipWhitespace_rest, start]
      rw [missing] at found
      cases found
      exact none_of_pair (by rw [readPair, start]) rfl
    | cons c more =>
      by_cases quote : c = unit '"'
      · subst quote
        have string : parseString (skipWhitespace s) = stringLoop [] s.failed more := by
          rw [parseString, consumeIf, skipWhitespace_rest, start]
          rfl
        have present : consumeIf (unit '"') (skipWhitespace s) = some ⟨more, s.failed⟩ := by
          rw [consumeIf, skipWhitespace_rest, start]
          rfl
        rw [present, string] at found
        dsimp only [Option.isNone, Bool.false_eq_true, if_false] at found
        rw [if_neg Bool.false_ne_true] at found
        split at found
        · next missing =>
          cases found
          exact none_of_pair (readPair_no_colon start (Bool.eq_false_iff.mpr failed) missing) rfl
        · next behind colon =>
          obtain ⟨value, parsed, found⟩ := Option.bind_eq_some_iff.mp found
          obtain ⟨after, written, rfl⟩ := consumeIf_skip colon
          exact afterItem_outcome (ih _) (member_outcome follows skips start written parsed) found
      · have missing : consumeIf (unit '"') (skipWhitespace s) = none := by
          rw [consumeIf, skipWhitespace_rest, start]
          exact if_neg quote
        rw [missing] at found
        cases found
        refine none_of_pair ?_ rfl
        rw [readPair, start]
        exact if_pos quote

/-- A container behind its opening character. -/
theorem container_outcome (container : Container) {value : ParsedJsonValue}
    (follows : Follows again (readList each container.closing fuel)) (skips : Skips each)
    (empty : each [] = none) (found : (match consumeIf container.closing (skipWhitespace s) with
      | some s => some (value, s)
      | none => again (skipWhitespace s)) = some r) :
    Outcome s.failed (readContainer container each fuel s.rest) r.2 := by
  unfold readContainer
  split at found
  · next t closed =>
    cases found
    obtain ⟨behind, start, rfl⟩ := consumeIf_skip closed
    rw [start]
    dsimp only
    rw [if_pos rfl]
    cases s.failed with
    | true => exact .of_failed rfl (.inl rfl)
    | false => rfl
  · next missing =>
    have outcome := follows found
    rw [skipWhitespace_rest] at outcome
    cases start : skip s.rest with
    | nil =>
      rw [start] at outcome
      have none : readList each container.closing fuel [] = none := by
        cases fuel with
        | zero => rfl
        | succ fuel => rw [readList, empty]; rfl
      rw [none] at outcome
      exact outcome.map id
    | cons c behind =>
      have other : c ≠ container.closing := by
        rintro rfl
        exact consumeIf_none missing start
      dsimp only
      rw [if_neg other]
      rw [skips_readList skips] at outcome
      exact outcome.bind (fun _ _ same => same) id

private theorem parseArray_follows (follows : Follows parser reader) (skips : Skips reader)
    (empty : reader [] = none) :
    Follows (parseArray parser fuel) (readContainer .array reader fuel) :=
  fun _ _ found => container_outcome .array (elements_follows follows fuel []) skips empty found

private theorem parseObject_follows (follows : Follows parser reader) (skips : Skips reader) :
    Follows (parseObject parser fuel) (readContainer .object (readPair reader) fuel) :=
  fun _ _ found => container_outcome .object (members_follows follows skips fuel []) skips_readPair rfl found

private theorem skips_readValue : Skips (readValue fuel) := by
  intro cs
  cases fuel with
  | zero => rfl
  | succ fuel => rw [readValue, readValue, skip_skip]

private theorem readValue_nil : readValue fuel [] = none := by
  cases fuel with
  | zero => rfl
  | succ fuel => rfl

private theorem parseValue_follows (fuel : Nat) : Follows (parseValue fuel) (readValue fuel) := by
  induction fuel with
  | zero => exact fun s r found => by cases found
  | succ fuel ih =>
    intro s r found
    rw [parseValue] at found
    dsimp only at found
    rw [skipWhitespace_rest] at found
    rw [readValue]
    cases start : skip s.rest with
    | nil =>
      rw [start] at found
      cases found
      exact .of_failed rfl (.inr rfl)
    | cons c rest =>
      have here : (skipWhitespace s).rest = c :: rest := (skipWhitespace_rest s).trans start
      rw [start] at found
      dsimp only at found ⊢
      by_cases object : c = unit '{'
      · rw [if_pos object] at found ⊢
        exact parseObject_follows ih skips_readValue found
      rw [if_neg object] at found ⊢
      by_cases array : c = unit '['
      · rw [if_pos array] at found ⊢
        exact parseArray_follows ih skips_readValue readValue_nil found
      rw [if_neg array] at found ⊢
      by_cases quote : c = unit '"'
      · rw [if_pos quote] at found ⊢
        have string : parseString (skipWhitespace s) = stringLoop [] s.failed rest := by
          rw [parseString, consumeIf, here, quote]
          rfl
        rw [string] at found
        cases found
        exact (stringLoop_outcome [] s.failed rest).map fun body => [Token.string body]
      rw [if_neg quote] at found ⊢
      rw [← here]
      by_cases t : c = unit 't'
      · rw [if_pos t] at found ⊢
        cases found
        exact consumeLiteral_outcome "true" _ (skipWhitespace s)
      rw [if_neg t] at found ⊢
      by_cases f : c = unit 'f'
      · rw [if_pos f] at found ⊢
        cases found
        exact consumeLiteral_outcome "false" _ (skipWhitespace s)
      rw [if_neg f] at found ⊢
      by_cases n : c = unit 'n'
      · rw [if_pos n] at found ⊢
        cases found
        exact consumeLiteral_outcome "null" _ (skipWhitespace s)
      rw [if_neg n] at found ⊢
      cases found
      exact parseNumber_outcome (skipWhitespace s)

end Containers

/-! ## The parser returns -/

/-- The parser returns, and its index does not go back. -/
def Returns (result : Option (ParsedJsonValue × ParserState)) (s : ParserState) : Prop :=
  ∃ r, result = some r ∧ r.2.rest.length ≤ s.rest.length

section Returning
variable {parser again : ParserState → Option (ParsedJsonValue × ParserState)} {s t : ParserState}
  {fuel bound : Nat}

theorem Returns.mono {result : Option (ParsedJsonValue × ParserState)} (returns : Returns result t)
    (shorter : t.rest.length ≤ s.rest.length) : Returns result s := by
  obtain ⟨r, found, le⟩ := returns
  exact ⟨r, found, le.trans shorter⟩

theorem skipWhitespace_length (s : ParserState) : (skipWhitespace s).rest.length ≤ s.rest.length :=
  (List.dropWhile_suffix _).length_le

theorem consumeIf_length {c : CodeUnit} (found : consumeIf c s = some t) :
    t.rest.length < s.rest.length := by
  unfold consumeIf at found
  split at found
  · cases found
  · next d rest start =>
    split at found
    · cases found
      rw [start]
      exact Nat.lt_succ_self _
    · cases found

private theorem stringLoop_length (output : List CodeUnit) (failed : Bool) (cs : List CodeUnit) :
    (stringLoop output failed cs).2.rest.length ≤ cs.length := by
  fun_induction stringLoop output failed cs with
  | case1 => exact Nat.le_refl _
  | case2 => exact Nat.le_succ _
  | case3 output failed c rest quote other ih => exact Nat.le_succ_of_le ih
  | case4 => exact Nat.zero_le _
  | case5 output failed c quote other rest hex none ih =>
    have shorter : hex.2.length ≤ rest.length := length_parseHexCodeUnit rest
    simp only [List.length_cons]
    omega
  | case6 output failed c quote other rest hex code some ih =>
    have shorter : hex.2.length ≤ rest.length := length_parseHexCodeUnit rest
    simp only [List.length_cons]
    omega
  | case7 output failed c quote other escape rest notU character stands ih =>
    exact Nat.le_succ_of_le (Nat.le_succ_of_le ih)
  | case8 output failed c quote other escape rest notU stands =>
    exact Nat.le_succ_of_le (Nat.le_succ _)

theorem parseString_length (s : ParserState) : (parseString s).2.rest.length ≤ s.rest.length := by
  unfold parseString
  split
  · exact Nat.le_refl _
  · next t found => exact (stringLoop_length _ _ _).trans (consumeIf_length found).le

private theorem consumeLiteral_length (token : String) (value : ParsedJsonValue) (s : ParserState) :
    (consumeLiteral token value s).2.rest.length ≤ s.rest.length := by
  unfold consumeLiteral
  split
  · exact Nat.le_refl _
  · exact (List.drop_sublist _ _).length_le

private theorem parseNumber_length (s : ParserState) :
    (parseNumber s).2.rest.length ≤ s.rest.length :=
  (List.drop_sublist _ _).length_le

theorem afterItem_returns {closing : CodeUnit} {value : ParsedJsonValue}
    (onward : ∀ t, t.rest.length < s.rest.length → Returns (again t) t) :
    Returns (afterItem closing value again (skipWhitespace s)) s := by
  have skipped := skipWhitespace_length s
  unfold afterItem
  split
  · next t closed => exact ⟨_, rfl, (consumeIf_length closed).le.trans skipped⟩
  · split
    · exact ⟨_, rfl, skipped⟩
    · next t comma =>
      have shorter := (consumeIf_length comma).trans_le skipped
      exact (onward t shorter).mono shorter.le

private theorem container_returns (closing : CodeUnit) {value : ParsedJsonValue}
    (onward : Returns (again (skipWhitespace s)) (skipWhitespace s)) :
    Returns (match consumeIf closing (skipWhitespace s) with
      | some s => some (value, s)
      | none => again (skipWhitespace s)) s := by
  have skipped := skipWhitespace_length s
  split
  · next t closed => exact ⟨_, rfl, (consumeIf_length closed).le.trans skipped⟩
  · exact onward.mono skipped

private theorem elements_returns (returns : ∀ s, s.rest.length ≤ bound → Returns (parser s) s)
    (fuel : Nat) (values : List ParsedJsonValue) (s : ParserState) (small : s.rest.length ≤ bound)
    (enough : s.rest.length < fuel) :
    Returns (elements parser fuel values s) s := by
  induction fuel generalizing values s with
  | zero => omega
  | succ fuel ih =>
    unfold elements
    split
    · exact ⟨_, rfl, Nat.le_refl _⟩
    · obtain ⟨value, parsed, le⟩ := returns s small
      rw [parsed]
      refine Returns.mono (t := value.2) (afterItem_returns fun t shorter => ?_) le
      exact ih _ t (by omega) (by omega)

private theorem members_returns (returns : ∀ s, s.rest.length ≤ bound → Returns (parser s) s)
    (fuel : Nat)
    (fields : List (JsonField ParsedJsonValue)) (s : ParserState) (small : s.rest.length ≤ bound)
    (enough : s.rest.length < fuel) : Returns (members parser fuel fields s) s := by
  induction fuel generalizing fields s with
  | zero => omega
  | succ fuel ih =>
    have start := skipWhitespace_length s
    have key := parseString_length (skipWhitespace s)
    have gap := skipWhitespace_length (parseString (skipWhitespace s)).2
    unfold members
    split
    · exact ⟨_, rfl, Nat.le_refl _⟩
    dsimp only
    split
    · exact ⟨_, rfl, start⟩
    split
    · exact ⟨_, rfl, gap.trans (key.trans start)⟩
    · next behind colon =>
      have shorter := consumeIf_length colon
      have inner := skipWhitespace_length behind
      obtain ⟨value, parsed, le⟩ := returns (skipWhitespace behind) (by omega)
      rw [parsed]
      refine Returns.mono (t := value.2) (afterItem_returns fun t less => ?_) (by omega)
      exact ih _ t (by omega) (by omega)

private theorem parseValue_returns (fuel : Nat) (s : ParserState) (enough : s.rest.length < fuel) :
    Returns (parseValue fuel s) s := by
  induction fuel generalizing s with
  | zero => omega
  | succ fuel ih =>
    have start := skipWhitespace_length s
    rw [parseValue]
    dsimp only
    split
    · exact ⟨_, rfl, start⟩
    · next c rest here =>
      have inside : rest.length < (skipWhitespace s).rest.length := by
        rw [here]
        exact Nat.lt_succ_self _
      have inner : (skipWhitespace ⟨rest, s.failed⟩).rest.length ≤ rest.length :=
        skipWhitespace_length ⟨rest, s.failed⟩
      have small : ∀ s : ParserState, s.rest.length ≤ rest.length → Returns (parseValue fuel s) s :=
        fun s le => ih s (by omega)
      refine Returns.mono (t := skipWhitespace s) ?_ start
      split
      · exact (container_returns (unit '}') (members_returns small _ _ _ inner (by omega))).mono
          inside.le
      split
      · exact (container_returns (unit ']') (elements_returns small _ _ _ inner (by omega))).mono
          inside.le
      split
      · exact ⟨_, rfl, parseString_length _⟩
      split
      · exact ⟨_, rfl, consumeLiteral_length _ _ _⟩
      split
      · exact ⟨_, rfl, consumeLiteral_length _ _ _⟩
      split
      · exact ⟨_, rfl, consumeLiteral_length _ _ _⟩
      · exact ⟨_, rfl, parseNumber_length _⟩

end Returning

/-! ## The validator -/

section Validator
variable {source raw : List CodeUnit} {context : String} {tokens : List Token}

/-- The parser and the reader run with the same fuel. -/
theorem typedParse_returns (source : List CodeUnit) :
    ∃ result, TypedJsonParser.parse source = some result ∧
      (result.isSome = true ↔ ∃ tokens, Grammar loose .item source tokens) := by
  obtain ⟨value, parsed, -⟩ :=
    parseValue_returns (source.length + 1) ⟨source, false⟩ (Nat.lt_succ_self _)
  have outcome := parseValue_follows _ parsed
  refine ⟨if (skipWhitespace value.2).failed || (skipWhitespace value.2).rest ≠ [] then none else some value.1, ?_, ?_⟩
  · rw [TypedJsonParser.parse, parsed]
    rfl
  · simp only [← read_iff, Lib.JsonGrammar.read]
    change Outcome false (readValue (source.length + 1) source) value.2 at outcome
    cases read : readValue (source.length + 1) source with
    | none =>
      rw [read] at outcome
      have failed : (skipWhitespace value.2).failed = true := outcome
      simp [failed]
    | some result =>
      rw [read] at outcome
      have same : value.2 = ⟨result.2, false⟩ := outcome
      have fresh : (skipWhitespace value.2).failed = false := by rw [same]; rfl
      rw [fresh, skipWhitespace_rest, same]
      by_cases ended : skip result.2 = []
      · simp [ended]
      · simp [ended]

private theorem parse_returns (raw : List CodeUnit) (context : String) :
    ∃ result, parse raw context = some result ∧
      (result.isOk = true ↔ ∃ tokens, Grammar loose .item (trim raw) tokens) := by
  obtain ⟨result, returned, accepted⟩ := typedParse_returns (trim raw)
  rw [parse, returned]
  refine ⟨_, rfl, ?_⟩
  rw [← accepted]
  cases result with
  | none => simp [Except.isOk, Except.toBool]
  | some value => simp [Except.isOk, Except.toBool]

/-- A token that only the loose grammar takes: a run that is no number, or a string with a raw
control character. -/
def Slack : Token → Prop
  | .mark _ => False
  | .literal _ => False
  | .number run => ¬Number run
  | .string body => ∃ c ∈ body, c < 0x20

private theorem slack_iff {token : Token} (fits : token.Fits loose) :
    Slack token ↔ ¬token.Fits rfc8259 := by
  cases token with
  | mark c => simp [Slack, Token.Fits]
  | literal text => simp [Slack, Token.Fits]
  | number run => exact Iff.rfl
  | string body =>
    have standard : Body 0x20 body ↔ ∀ c ∈ body, 0x20 ≤ c := ⟨Body.shown, Body.raise fits⟩
    change (∃ c ∈ body, c < 0x20) ↔ ¬Body 0x20 body
    simp [standard]

/-- The validator is exact on a text unless the loose grammar reads something in it that the
standard does not have: a run in the place of a number, or a raw control character in a string. -/
theorem parse_exact_iff (raw : List CodeUnit) (context : String) :
    (∃ result, parse raw context = some result ∧
        (result.isOk = true ↔ ∃ tokens, Grammar rfc8259 .item (trim raw) tokens)) ↔
      ¬∃ tokens, Grammar loose .item (trim raw) tokens ∧ ∃ token ∈ tokens, Slack token := by
  obtain ⟨result, returned, accepted⟩ := parse_returns raw context
  constructor
  · rintro ⟨result', returned', exact⟩ ⟨tokens, derived, token, held, slack⟩
    cases returned.symm.trans returned'
    obtain ⟨tokens', standard⟩ := exact.mp (accepted.mpr ⟨tokens, derived⟩)
    cases derived.unique standard.toLoose
    exact (slack_iff (derived.fits token held)).mp slack (standard.fits token held)
  · intro tight
    refine ⟨result, returned,
      accepted.trans ⟨?_, fun ⟨tokens, standard⟩ => ⟨tokens, standard.toLoose⟩⟩⟩
    rintro ⟨tokens, derived⟩
    refine ⟨tokens, derived.refine fun token held => ?_⟩
    by_contra unfit
    exact tight ⟨tokens, derived, token, held, (slack_iff (derived.fits token held)).mpr unfit⟩

/-- `undefined` is taken for a number. -/
theorem undefined_accepted :
    parse (units "undefined") "metadata" = some (.ok (units "undefined")) ∧
      ¬∃ tokens, Grammar rfc8259 .item (trim (units "undefined")) tokens := by
  have same : trim (units "undefined") = units "undefined" := by decide
  have run : Run (units "undefined") := by
    refine ⟨by decide, List.all_iff_forall_prop.mp (by decide), ?_⟩
    rintro c ⟨⟩
    decide
  refine ⟨rfl, ?_⟩
  rintro ⟨tokens, standard⟩
  rw [same] at standard
  have derived : Grammar loose .item (units "undefined") [.number (units "undefined")] := by
    have item : Grammar loose .item ([] ++ (units "undefined" ++ [])) _ :=
      .item nofun nofun (.number run)
    simpa using item
  cases derived.unique standard.toLoose
  have number : Number (units "undefined") := standard.fits _ List.mem_cons_self
  have part := number.parts.2 (unit 'u') (by decide)
  revert part
  decide

end Validator

end Beads.JsonValue
