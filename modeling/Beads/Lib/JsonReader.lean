import Mathlib.Data.List.Infix
import Mathlib.Data.List.TakeWhile
import Beads.Lib.JsonGrammar

/-! A reader for the loose grammar of JSON. It returns the tokens of exactly the texts of the
grammar, so the tokens of a text are unique. -/
namespace Beads.Lib.JsonGrammar

/-! ## The reader -/

def skip (cs : List CodeUnit) : List CodeUnit := cs.dropWhile isBlank

/-- The inside of a string, and what is behind its closing quote. -/
def readBody : List CodeUnit → Option (List CodeUnit × List CodeUnit)
  | [] => none
  | c :: rest =>
    if c = unit '"' then some ([], rest)
    else if c ≠ unit '\\' then (readBody rest).map fun (body, rest) => (c :: body, rest)
    else
      match rest with
      | [] => none
      | e :: rest =>
        if isEscape e then (readBody rest).map fun (body, rest) => (c :: e :: body, rest)
        else if e ≠ unit 'u' then none
        else
          match rest with
          | x :: y :: z :: w :: rest =>
            if isHex x && isHex y && isHex z && isHex w then
              (readBody rest).map fun (body, rest) => (c :: e :: x :: y :: z :: w :: body, rest)
            else none
          | _ => none

def readLiteral (word : String) (cs : List CodeUnit) : Option (List Token × List CodeUnit) :=
  if (units word).isPrefixOf cs then some ([.literal (units word)], cs.drop (units word).length) else none

def readRun (cs : List CodeUnit) : Option (List Token × List CodeUnit) :=
  let run := cs.takeWhile (!isEnd ·)
  if run = [] then none else some ([.number run], cs.drop run.length)

/-- Items up to the closing character. -/
def readList (each : List CodeUnit → Option (List Token × List CodeUnit)) (closing : CodeUnit) :
    Nat → List CodeUnit → Option (List Token × List CodeUnit)
  | 0, _ => none
  | fuel + 1, cs => do
    let (tokens, rest) ← each cs
    match skip rest with
    | [] => none
    | c :: rest =>
      if c = closing then some (tokens ++ [.mark closing], rest)
      else if c = unit ',' then do
        let (more, rest) ← readList each closing fuel rest
        some (tokens ++ .mark (unit ',') :: more, rest)
      else none

def readPair (readValue : List CodeUnit → Option (List Token × List CodeUnit))
    (cs : List CodeUnit) :
    Option (List Token × List CodeUnit) :=
  match skip cs with
  | [] => none
  | c :: rest =>
    if c ≠ unit '"' then none
    else do
      let (key, rest) ← readBody rest
      match skip rest with
      | [] => none
      | c :: rest =>
        if c ≠ unit ':' then none
        else do
          let (tokens, rest) ← readValue rest
          some (.string key :: .mark (unit ':') :: tokens, rest)

/-- A container behind its opening character. -/
def readContainer (container : Container)
    (each : List CodeUnit → Option (List Token × List CodeUnit)) (fuel : Nat)
    (cs : List CodeUnit) : Option (List Token × List CodeUnit) :=
  match skip cs with
  | [] => none
  | c :: rest =>
    if c = container.closing then some ([.mark container.opening, .mark container.closing], rest)
    else do
      let (tokens, rest) ← readList each container.closing fuel cs
      some (.mark container.opening :: tokens, rest)

def readValue : Nat → List CodeUnit → Option (List Token × List CodeUnit)
  | 0, _ => none
  | fuel + 1, cs =>
    match skip cs with
    | [] => none
    | c :: rest =>
      if c = unit '{' then readContainer .object (readPair (readValue fuel)) (fuel + 1) rest
      else if c = unit '[' then readContainer .array (readValue fuel) (fuel + 1) rest
      else if c = unit '"' then (readBody rest).map fun (body, rest) => ([.string body], rest)
      else if c = unit 't' then readLiteral "true" (c :: rest)
      else if c = unit 'f' then readLiteral "false" (c :: rest)
      else if c = unit 'n' then readLiteral "null" (c :: rest)
      else readRun (c :: rest)

/-- The tokens of a whole text. -/
def read (cs : List CodeUnit) : Option (List Token) :=
  match readValue (cs.length + 1) cs with
  | none => none
  | some (tokens, rest) => if skip rest = [] then some tokens else none

/-! ## Soundness -/

section Soundness
variable {cs rest body : List CodeUnit} {tokens : List Token} {c : CodeUnit}

theorem skip_split (cs : List CodeUnit) : ∃ gap, Gap gap ∧ cs = gap ++ skip cs :=
  ⟨cs.takeWhile isBlank, fun _ held => List.mem_takeWhile_imp held, List.takeWhile_append_dropWhile.symm⟩

theorem readBody_sound (found : readBody cs = some (body, rest)) :
    Body 0 body ∧ cs = body ++ unit '"' :: rest := by
  fun_induction readBody cs generalizing body rest with
  | case1 => cases found
  | case2 rest =>
    cases found
    exact ⟨.nil, rfl⟩
  | case3 c more quote slash ih =>
    obtain ⟨⟨inner, after⟩, read, same⟩ := Option.map_eq_some_iff.mp found
    cases same
    obtain ⟨written, split⟩ := ih read
    exact ⟨.plain c quote slash (UInt16.le_iff_toNat_le.mpr (Nat.zero_le _)) written,
      by rw [split]; rfl⟩
  | case4 => cases found
  | case5 c quote slash e more known ih =>
    obtain ⟨⟨inner, after⟩, read, same⟩ := Option.map_eq_some_iff.mp found
    cases same
    obtain ⟨written, split⟩ := ih read
    rw [ne_eq, not_not] at slash
    exact ⟨slash ▸ .escape e known written, by rw [split]; rfl⟩
  | case6 => cases found
  | case7 c quote slash e other known x y z w more hex ih =>
    obtain ⟨⟨inner, after⟩, read, same⟩ := Option.map_eq_some_iff.mp found
    cases same
    obtain ⟨written, split⟩ := ih read
    rw [ne_eq, not_not] at slash known
    simp only [Bool.and_eq_true] at hex
    refine ⟨slash ▸ known ▸ .unicode x y z w ?_ written, by rw [split]; rfl⟩
    simp [hex]
  | case8 => cases found
  | case9 => cases found

private theorem readLiteral_sound {word : String} (known : word ∈ ["true", "false", "null"])
    (found : readLiteral word cs = some (tokens, rest)) :
    ∃ text, cs = text ++ rest ∧ Grammar loose .value text tokens := by
  unfold readLiteral at found
  split at found
  · next starts =>
    cases found
    exact ⟨units word, List.prefix_append_drop (List.isPrefixOf_iff_prefix.mp starts),
      .literal word known⟩
  · cases found

private theorem readRun_sound (plain : isOpening c = false)
    (found : readRun (c :: cs) = some (tokens, rest)) :
    ∃ text, c :: cs = text ++ rest ∧ Grammar loose .value text tokens := by
  unfold readRun at found
  dsimp only at found
  split at found
  · cases found
  · next some =>
    cases found
    have starts : (c :: cs).takeWhile (!isEnd ·) <+: c :: cs := List.takeWhile_prefix _
    refine ⟨_, List.prefix_append_drop starts, .number ⟨some, fun d held => ?_, fun d head => ?_⟩⟩
    · simpa using List.mem_takeWhile_imp held
    · have first : d = c := by
        cases solid : isEnd c with
        | true => simp [solid] at some
        | false =>
          simp only [List.takeWhile_cons, solid, Bool.not_false, if_true, List.head?_cons,
            Option.some.injEq] at head
          exact head.symm
      rw [first]
      exact plain

/-- What a reader takes is a text of the category, with whitespace behind it too. -/
def Sound (each : List CodeUnit → Option (List Token × List CodeUnit)) (category : Category) :
    Prop :=
  ∀ ⦃cs tokens rest⦄, each cs = some (tokens, rest) →
    ∃ text, cs = text ++ rest ∧ ∀ after, Gap after → Grammar loose category (text ++ after) tokens

variable {each readValue : List CodeUnit → Option (List Token × List CodeUnit)}
  {category : Category}

private theorem readList_sound (sound : Sound each category) {closing : CodeUnit} {fuel : Nat}
    (found : readList each closing fuel cs = some (tokens, rest)) :
    ∃ text inner, tokens = inner ++ [.mark closing] ∧ cs = text ++ closing :: rest ∧
      Grammar loose (.listOf category) text inner := by
  induction fuel generalizing cs tokens rest with
  | zero => cases found
  | succ fuel ih =>
    obtain ⟨⟨first, after⟩, read, found⟩ := Option.bind_eq_some_iff.mp found
    obtain ⟨text, split, derived⟩ := sound read
    obtain ⟨gap, blank, skipped⟩ := skip_split after
    dsimp only at found
    split at found
    · cases found
    · next d more next =>
      rw [next] at skipped
      split at found
      · next close =>
        cases found
        exact ⟨text ++ gap, first, rfl, by rw [split, skipped, close, List.append_assoc],
          .one (derived gap blank)⟩
      · split at found
        · next comma =>
          obtain ⟨⟨later, behind⟩, read', found⟩ := Option.bind_eq_some_iff.mp found
          cases found
          obtain ⟨text', inner, rfl, split', derived'⟩ := ih read'
          refine ⟨text ++ gap ++ unit ',' :: text', first ++ .mark (unit ',') :: inner, by simp, ?_,
            ?_⟩
          · rw [split, skipped, comma, split']
            simp
          · exact .more (derived gap blank) derived'
        · cases found

private theorem readPair_sound (sound : Sound readValue .item) :
    Sound (readPair readValue) .pair := by
  intro cs tokens rest found
  unfold readPair at found
  obtain ⟨before, blank, skipped⟩ := skip_split cs
  split at found
  · cases found
  · next c more next =>
    rw [next] at skipped
    split at found
    · cases found
    · next quote =>
      rw [ne_eq, not_not] at quote
      obtain ⟨⟨key, behind⟩, read, found⟩ := Option.bind_eq_some_iff.mp found
      obtain ⟨written, split⟩ := readBody_sound read
      obtain ⟨gap, blank', skipped'⟩ := skip_split behind
      dsimp only at found
      split at found
      · cases found
      · next d more' next' =>
        rw [next'] at skipped'
        split at found
        · cases found
        · next colon =>
          rw [ne_eq, not_not] at colon
          obtain ⟨⟨value, last⟩, read', found⟩ := Option.bind_eq_some_iff.mp found
          cases found
          obtain ⟨text, split', derived⟩ := sound read'
          refine ⟨before ++ (quoted key ++ (gap ++ unit ':' :: text)), ?_, fun after blank'' => ?_⟩
          · rw [skipped, quote, split, skipped', colon, split', quoted]
            simp
          · have pair := Grammar.pair blank blank' written (derived after blank'')
            simpa using pair

private theorem readContainer_sound {container : Container} (sound : Sound each container.each)
    {fuel : Nat} (found : readContainer container each fuel cs = some (tokens, rest)) :
    ∃ text, container.opening :: cs = text ++ rest ∧ Grammar loose .value text tokens := by
  unfold readContainer at found
  obtain ⟨gap, blank, skipped⟩ := skip_split cs
  split at found
  · cases found
  · next c more next =>
    rw [next] at skipped
    split at found
    · next close =>
      cases found
      exact ⟨container.opening :: (gap ++ [container.closing]), by simp [skipped, close],
        .empty container blank⟩
    · obtain ⟨⟨later, behind⟩, read, found⟩ := Option.bind_eq_some_iff.mp found
      cases found
      obtain ⟨text, inner, rfl, split, derived⟩ := readList_sound sound read
      exact ⟨container.opening :: (text ++ [container.closing]), by simp [split],
        .container container derived⟩

private theorem isOpening_eq_false (object : c ≠ unit '{') (array : c ≠ unit '[')
    (quote : c ≠ unit '"')
    (t : c ≠ unit 't') (f : c ≠ unit 'f') (n : c ≠ unit 'n') : isOpening c = false := by
  simp [isOpening, units, object, array, quote, t, f, n]

private theorem readValue_sound (fuel : Nat) : Sound (JsonGrammar.readValue fuel) .item := by
  induction fuel with
  | zero => exact fun cs tokens rest found => by cases found
  | succ fuel ih =>
    intro cs tokens rest found
    obtain ⟨gap, blank, skipped⟩ := skip_split cs
    suffices value : ∃ text, skip cs = text ++ rest ∧ Grammar loose .value text tokens by
      obtain ⟨text, split, derived⟩ := value
      refine ⟨gap ++ text, by rw [skipped, split, List.append_assoc], fun after blank' => ?_⟩
      rw [List.append_assoc]
      exact .item blank blank' derived
    rw [JsonGrammar.readValue] at found
    split at found
    · cases found
    · next c more next =>
      rw [next]
      by_cases object : c = unit '{'
      · rw [if_pos object] at found
        subst object
        exact readContainer_sound (readPair_sound ih) found
      rw [if_neg object] at found
      by_cases array : c = unit '['
      · rw [if_pos array] at found
        subst array
        exact readContainer_sound ih found
      rw [if_neg array] at found
      by_cases quote : c = unit '"'
      · rw [if_pos quote] at found
        obtain ⟨⟨body, behind⟩, read, same⟩ := Option.map_eq_some_iff.mp found
        cases same
        obtain ⟨written, split⟩ := readBody_sound read
        exact ⟨quoted body, by simp [quoted, split, quote], .string written⟩
      rw [if_neg quote] at found
      by_cases t : c = unit 't'
      · rw [if_pos t] at found
        exact readLiteral_sound (by simp) found
      rw [if_neg t] at found
      by_cases f : c = unit 'f'
      · rw [if_pos f] at found
        exact readLiteral_sound (by simp) found
      rw [if_neg f] at found
      by_cases n : c = unit 'n'
      · rw [if_pos n] at found
        exact readLiteral_sound (by simp) found
      rw [if_neg n] at found
      exact readRun_sound (isOpening_eq_false object array quote t f n) found

end Soundness

/-! ## Completeness -/

section Completeness
variable {gap text rest body : List CodeUnit} {tokens : List Token} {c : CodeUnit}

theorem skip_gap (blank : Gap gap) (solid : isBlank c = false) :
    skip (gap ++ c :: rest) = c :: rest := by
  rw [skip, List.dropWhile_append_of_pos blank, List.dropWhile_cons_of_neg (by simp [solid])]

private theorem skip_blank (blank : Gap gap) : skip gap = [] := List.dropWhile_eq_nil_iff.mpr blank

theorem readBody_complete (written : Body 0 body) (rest : List CodeUnit) :
    readBody (body ++ unit '"' :: rest) = some (body, rest) := by
  have slash : unit '\\' ≠ unit '"' := by decide
  induction written with
  | nil =>
    rw [List.nil_append, readBody.eq_def]
    simp
  | plain c quote slash _ _ ih =>
    rw [List.cons_append, readBody.eq_def]
    simp [quote, slash, ih]
  | escape e known _ ih =>
    rw [List.cons_append, List.cons_append, readBody.eq_def]
    simp [slash, known, ih]
  | unicode x y z w hex _ ih =>
    have other : isEscape (unit 'u') = false := by decide
    simp only [List.mem_cons, List.not_mem_nil, or_false, forall_eq_or_imp, forall_eq] at hex
    simp only [List.cons_append]
    rw [readBody.eq_def]
    simp [slash, other, hex, ih]

/-- What may follow a number. -/
def Stops (rest : List CodeUnit) : Prop := ∀ c, rest.head? = some c → isEnd c = true

/-- What may follow a value and the whitespace behind it. -/
def Ends (rest : List CodeUnit) : Prop :=
  ∀ c, rest.head? = some c → isEnd c = true ∧ isBlank c = false

private theorem Ends.stops (ends : Ends rest) (blank : Gap gap) : Stops (gap ++ rest) := by
  intro c head
  cases gap with
  | nil => exact (ends c head).1
  | cons d gap =>
    cases head
    simp [isEnd, blank c List.mem_cons_self]

private theorem readRun_complete (run : Run text) (stops : Stops rest) :
    readRun (text ++ rest) = some ([.number text], rest) := by
  have taken : (text ++ rest).takeWhile (!isEnd ·) = text := by
    rw [List.takeWhile_append_of_pos (fun c held => by simp [run.2.1 c held])]
    cases rest with
    | nil => simp
    | cons c rest => simp [stops c rfl]
  simp [readRun, taken, run.1]

private theorem readLiteral_complete (word : String) (rest : List CodeUnit) :
    readLiteral word (units word ++ rest) = some ([.literal (units word)], rest) := by
  have starts : (units word).isPrefixOf (units word ++ rest) = true :=
    List.isPrefixOf_iff_prefix.mpr (List.prefix_append _ _)
  rw [readLiteral, if_pos starts, List.drop_left]

/-- A text of any category has a first character behind its whitespace, and it ends nothing. -/
theorem Grammar.head {category : Category} (derived : Grammar loose category text tokens) :
    ∃ gap c tail, Gap gap ∧ isEnd c = false ∧ text = gap ++ c :: tail := by
  have none : Gap [] := fun _ held => absurd held List.not_mem_nil
  induction derived with
  | literal word known =>
    simp only [List.mem_cons, List.not_mem_nil, or_false] at known
    rcases known with rfl | rfl | rfl
    · exact ⟨[], unit 't', units "rue", none, by decide, by decide⟩
    · exact ⟨[], unit 'f', units "alse", none, by decide, by decide⟩
    · exact ⟨[], unit 'n', units "ull", none, by decide, by decide⟩
  | @number text run =>
    cases text with
    | nil => exact absurd rfl run.1
    | cons c tail => exact ⟨[], c, tail, none, run.2.1 c List.mem_cons_self, rfl⟩
  | string written => exact ⟨[], unit '"', _, none, by decide, rfl⟩
  | empty container blank =>
    exact ⟨[], container.opening, _, none, by cases container <;> decide, rfl⟩
  | container container inside ih =>
    exact ⟨[], container.opening, _, none, by cases container <;> decide, rfl⟩
  | @item before text after tokens blank blank' value ih =>
    obtain ⟨gap, c, tail, blank'', solid, rfl⟩ := ih
    exact ⟨before ++ gap, c, tail ++ after, List.forall_mem_append.mpr ⟨blank, blank''⟩, solid,
      by simp⟩
  | pair blank blank' written value ih => exact ⟨_, unit '"', _, blank, by decide, rfl⟩
  | one last ih => exact ih
  | @more each text text' tokens tokens' first rest ih =>
    obtain ⟨gap, c, tail, blank, solid, rfl⟩ := ih
    exact ⟨gap, c, tail ++ unit ',' :: text', blank, solid, by simp⟩

theorem isBlank_of_isEnd (solid : isEnd c = false) : isBlank c = false := by
  simp only [isEnd, Bool.or_eq_false_iff] at solid
  exact solid.2

/-- The reader of a category of items. -/
def reader (fuel : Nat) : Category → List CodeUnit → Option (List Token × List CodeUnit)
  | .item => readValue fuel
  | .pair => readPair (readValue fuel)
  | _ => fun _ => none

/-- A list of the category is read by its items. -/
def Category.Listed (category : Category) : Prop := category = .item ∨ category = .pair

/-- The reader takes a text off the front, whatever comes behind it. -/
def Completes : Category → List CodeUnit → List Token → Prop
  | .value, text, tokens => ∀ ⦃fuel gap rest⦄, text.length < fuel → Gap gap → Stops rest →
      readValue fuel (gap ++ (text ++ rest)) = some (tokens, rest)
  | .listOf each, text, tokens =>
    each.Listed → ∀ ⦃fuel count⦄ (container : Container) (rest : List CodeUnit),
      text.length < fuel → text.length < count →
      readList (reader fuel each) container.closing count (text ++ container.closing :: rest) =
        some (tokens ++ [.mark container.closing], rest)
  | category, text, tokens => ∀ ⦃fuel rest⦄, text.length < fuel → Ends rest →
      ∃ gap, Gap gap ∧ reader fuel category (text ++ rest) = some (tokens, gap ++ rest)

theorem Completes.item_of {each : Category} (completes : Completes each text tokens)
    (listed : each.Listed) {fuel : Nat} (enough : text.length < fuel) (ends : Ends rest) :
    ∃ gap, Gap gap ∧ reader fuel each (text ++ rest) = some (tokens, gap ++ rest) := by
  rcases listed with rfl | rfl
  · exact completes enough ends
  · exact completes enough ends

private theorem ends_closing (container : Container) (rest : List CodeUnit) :
    Ends (container.closing :: rest) := by
  intro c head
  cases head
  cases container <;> decide

private theorem ends_comma (rest : List CodeUnit) : Ends (unit ',' :: rest) := by
  intro c head
  cases head
  decide

theorem closing_solid (container : Container) : isBlank container.closing = false := by
  cases container <;> decide

private theorem completes_one {each : Category} (last : Completes each text tokens) :
    Completes (.listOf each) text tokens := by
  intro listed fuel count container rest enough counted
  obtain ⟨count, rfl⟩ := Nat.exists_eq_add_of_lt counted
  obtain ⟨gap, blank, read⟩ := last.item_of listed enough (ends_closing container rest)
  rw [readList, read]
  simp [skip_gap blank (closing_solid container)]

private theorem completes_more {each : Category} {text' : List CodeUnit} {tokens' : List Token}
    (first : Completes each text tokens) (others : Completes (.listOf each) text' tokens') :
    Completes (.listOf each) (text ++ unit ',' :: text') (tokens ++ .mark (unit ',') :: tokens') := by
  intro listed fuel count container rest enough counted
  simp only [List.length_append, List.length_cons] at enough counted
  obtain ⟨count, rfl⟩ : ∃ k, count = k + 1 := Nat.exists_eq_add_of_le' (by omega)
  obtain ⟨gap, blank, read⟩ :=
    first.item_of listed (show text.length < fuel by omega) (ends_comma (text' ++ container.closing :: rest))
  have read' :=
    others listed container rest (show text'.length < fuel by omega) (show text'.length < count by omega)
  have comma : unit ',' ≠ container.closing := by cases container <;> decide
  rw [List.append_assoc, List.cons_append, readList, read]
  simp [skip_gap blank (show isBlank (unit ',') = false by decide), comma, read']

private theorem readContainer_complete {container : Container}
    (derived : Grammar loose (.listOf container.each) text tokens)
    (inside : Completes (.listOf container.each) text tokens) {fuel count : Nat}
    (rest : List CodeUnit) (enough : text.length < fuel) (counted : text.length < count) :
    readContainer container (reader fuel container.each) count (text ++ container.closing :: rest) =
      some (.mark container.opening :: (tokens ++ [.mark container.closing]), rest) := by
  have listed : container.each.Listed := by cases container <;> simp [Container.each, Category.Listed]
  have read := inside listed container rest enough counted
  obtain ⟨gap, c, tail, blank, solid, split⟩ := derived.head
  have other : c ≠ container.closing := by
    rintro rfl
    revert solid
    cases container <;> decide
  have skipped : skip (text ++ container.closing :: rest) = c ::
      (tail ++ container.closing :: rest) := by
    rw [split, List.append_assoc, List.cons_append, skip_gap blank (isBlank_of_isEnd solid)]
  rw [readContainer, skipped]
  simp [other, read]

section Values
variable {fuel : Nat} (blank : Gap gap)
include blank

theorem readValue_solid (solid : isBlank c = false) : readValue (fuel + 1) (gap ++ c :: rest) =
    if c = unit '{' then readContainer .object (readPair (readValue fuel)) (fuel + 1) rest
    else if c = unit '[' then readContainer .array (readValue fuel) (fuel + 1) rest
    else if c = unit '"' then (readBody rest).map fun (body, rest) => ([.string body], rest)
    else if c = unit 't' then readLiteral "true" (c :: rest)
    else if c = unit 'f' then readLiteral "false" (c :: rest)
    else if c = unit 'n' then readLiteral "null" (c :: rest)
    else readRun (c :: rest) := by
  rw [readValue, skip_gap blank solid]

private theorem readValue_literal {word : String} (known : word ∈ ["true", "false", "null"])
    (rest : List CodeUnit) :
    readValue (fuel + 1) (gap ++ (units word ++ rest)) = some ([.literal (units word)], rest) := by
  have read := readLiteral_complete word rest
  simp only [List.mem_cons, List.not_mem_nil, or_false] at known
  rcases known with rfl | rfl | rfl
  · rw [show units "true" = unit 't' :: units "rue" by decide, List.cons_append] at *
    rw [readValue_solid blank (by decide), if_neg (by decide), if_neg (by decide),
      if_neg (by decide), if_pos rfl, read]
  · rw [show units "false" = unit 'f' :: units "alse" by decide, List.cons_append] at *
    rw [readValue_solid blank (by decide), if_neg (by decide), if_neg (by decide),
      if_neg (by decide), if_neg (by decide), if_pos rfl, read]
  · rw [show units "null" = unit 'n' :: units "ull" by decide, List.cons_append] at *
    rw [readValue_solid blank (by decide), if_neg (by decide), if_neg (by decide),
      if_neg (by decide), if_neg (by decide), if_neg (by decide), if_pos rfl, read]

private theorem readValue_run (run : Run text) (stops : Stops rest) :
    readValue (fuel + 1) (gap ++ (text ++ rest)) = some ([.number text], rest) := by
  have read := readRun_complete run stops
  cases text with
  | nil => exact absurd rfl run.1
  | cons c tail =>
    have plain : c ∉ units "\x7b[\"tfn" := of_decide_eq_false (run.2.2 c rfl)
    rw [show units "\x7b[\"tfn" = [unit '{', unit '[', unit '"', unit 't', unit 'f', unit 'n'] by decide] at plain
    simp only [List.mem_cons, List.not_mem_nil, or_false, not_or] at plain
    obtain ⟨object, array, quote, t, f, n⟩ := plain
    rw [List.cons_append] at read ⊢
    rw [readValue_solid blank (isBlank_of_isEnd (run.2.1 c List.mem_cons_self)), if_neg object,
      if_neg array, if_neg quote, if_neg t, if_neg f, if_neg n, read]

private theorem readValue_string (written : Body 0 body) (rest : List CodeUnit) :
    readValue (fuel + 1) (gap ++ (quoted body ++ rest)) = some ([.string body], rest) := by
  have read := readBody_complete written rest
  have text : quoted body ++ rest = unit '"' :: (body ++ unit '"' :: rest) := by simp [quoted]
  rw [text, readValue_solid blank (by decide), if_neg (by decide), if_neg (by decide), if_pos rfl,
    read]
  rfl

private theorem readValue_container (container : Container) (text : List CodeUnit) :
    readValue (fuel + 1) (gap ++ container.opening :: text) =
      readContainer container (reader fuel container.each) (fuel + 1) text := by
  cases container with
  | array =>
    rw [readValue_solid blank (by decide), Container.opening, if_neg (by decide), if_pos rfl]
    rfl
  | object =>
    rw [readValue_solid blank (by decide), Container.opening, if_pos rfl]
    rfl

end Values

theorem Grammar.completes {category : Category} (derived : Grammar loose category text tokens) :
    Completes category text tokens := by
  induction derived with
  | literal word known =>
    intro fuel gap rest enough blank _
    obtain ⟨fuel, rfl⟩ := Nat.exists_eq_add_of_lt enough
    exact readValue_literal blank known rest
  | number run =>
    intro fuel gap rest enough blank stops
    obtain ⟨fuel, rfl⟩ := Nat.exists_eq_add_of_lt enough
    exact readValue_run blank run stops
  | string written =>
    intro fuel gap rest enough blank _
    obtain ⟨fuel, rfl⟩ := Nat.exists_eq_add_of_lt enough
    exact readValue_string blank written rest
  | @empty container inner blank' =>
    intro fuel gap rest enough blank _
    obtain ⟨fuel, rfl⟩ := Nat.exists_eq_add_of_lt enough
    rw [List.cons_append, readValue_container blank, List.append_assoc, List.singleton_append,
      readContainer, skip_gap blank' (closing_solid container)]
    simp
  | @container container text tokens inside ih =>
    intro fuel gap rest enough blank _
    simp only [List.length_cons, List.length_append, List.length_nil] at enough
    obtain ⟨fuel, rfl⟩ : ∃ k, fuel = k + 1 := Nat.exists_eq_add_of_le' (by omega)
    rw [List.cons_append, readValue_container blank, List.append_assoc, List.singleton_append]
    exact readContainer_complete inside ih rest (by omega) (by omega)
  | @item before text after tokens blank blank' value ih =>
    intro fuel rest enough ends
    simp only [List.length_append] at enough
    refine ⟨after, blank', ?_⟩
    rw [List.append_assoc, List.append_assoc]
    exact ih (by omega) blank (ends.stops blank')
  | @pair before key after text tokens blank blank' written value ih =>
    intro fuel rest enough ends
    simp only [List.length_append, List.length_cons, quoted] at enough
    obtain ⟨gap, blank'', read⟩ := ih (show text.length < fuel by omega) ends
    refine ⟨gap, blank'', ?_⟩
    have shape : before ++ (quoted key ++ (after ++ unit ':' :: text)) ++ rest =
        before ++ unit '"' :: (key ++ unit '"' :: (after ++ unit ':' :: (text ++ rest))) := by simp [quoted]
    change readPair (readValue fuel) _ = _
    change readValue fuel (text ++ rest) = _ at read
    rw [shape, readPair, skip_gap blank (by decide)]
    simp [readBody_complete written, skip_gap blank' (show isBlank (unit ':') = false by decide),
      read]
  | one last ih => exact completes_one ih
  | more first rest ih ih' => exact completes_more ih ih'

/-- The reader returns the tokens of exactly the texts of the loose grammar. -/
theorem read_iff {cs : List CodeUnit} : read cs = some tokens ↔ Grammar loose .item cs tokens := by
  unfold read
  constructor
  · intro found
    split at found
    · cases found
    · next tokens' rest read =>
      split at found
      · next ended =>
        cases found
        obtain ⟨text, rfl, derived⟩ := readValue_sound _ read
        obtain ⟨gap, blank, split⟩ := skip_split rest
        rw [ended, List.append_nil] at split
        exact derived rest (split ▸ blank)
      · cases found
  · intro derived
    have ends : Ends [] := fun c head => by cases head
    obtain ⟨gap, blank, read⟩ := derived.completes (Nat.lt_succ_self cs.length) ends
    rw [List.append_nil, List.append_nil] at read
    change readValue (cs.length + 1) cs = _ at read
    simp [read, skip_blank blank]

/-- A text has its tokens once. -/
theorem Grammar.unique {cs : List CodeUnit} {tokens' : List Token}
    (first : Grammar loose .item cs tokens)
    (second : Grammar loose .item cs tokens') : tokens = tokens' := by
  have same := (read_iff.mpr first).symm.trans (read_iff.mpr second)
  exact Option.some.inj same

end Completeness

end Beads.Lib.JsonGrammar
