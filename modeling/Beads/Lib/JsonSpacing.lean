import Beads.Lib.JsonGrammar

/-! Whitespace in JSON texts: a text without the whitespace outside its strings is its tokens one
behind the other, and whitespace around the items of a text is free. -/
namespace Beads.Lib.JsonGrammar

/-- Where a scan stands: outside of strings, in a string, or there behind a backslash. -/
inductive Mode where
  | outside
  | inside
  | escaped
  deriving DecidableEq

def Mode.next : Mode → CodeUnit → Mode
  | .outside, c => if c = unit '"' then .inside else .outside
  | .inside, c => if c = unit '\\' then .escaped else if c = unit '"' then .outside else .inside
  | .escaped, _ => .inside

/-- The text without the whitespace outside its strings. -/
def squeeze : Mode → List CodeUnit → List CodeUnit
  | _, [] => []
  | mode, c :: rest =>
    if mode = .outside && isBlank c then squeeze mode rest else c :: squeeze (mode.next c) rest

/-- Neither whitespace, nor a quote, nor a structural character. -/
def isPlain (c : CodeUnit) : Bool := !isEnd c && c ∉ units "\"\x7b[:"

section Squeeze
variable {gap text rest body : List CodeUnit} {tokens : List Token} {c : CodeUnit}

theorem isPlain_parts (plain : isPlain c = true) :
    isBlank c = false ∧ c ≠ unit ',' ∧ c ≠ unit ']' ∧ c ≠ unit '}' ∧ c ≠ unit '"' ∧ c ≠ unit '{' ∧
      c ≠ unit '[' ∧
      c ≠ unit ':' := by
  simp only [isPlain, Bool.and_eq_true, Bool.not_eq_true', decide_eq_true_eq] at plain
  obtain ⟨inner, other⟩ := plain
  simp only [isEnd, Bool.or_eq_false_iff, decide_eq_false_iff_not] at inner
  obtain ⟨⟨⟨comma, bracket⟩, brace⟩, blank⟩ := inner
  rw [show units "\"\x7b[:" = [unit '"', unit '{', unit '[', unit ':'] by decide] at other
  simp only [List.mem_cons, List.not_mem_nil, or_false, not_or] at other
  exact ⟨blank, comma, bracket, brace, other.1, other.2.1, other.2.2.1, other.2.2.2⟩

theorem isPlain_of_numberPart (part : isNumberPart c = true) : isPlain c = true := by
  obtain ⟨inner, plain⟩ := isNumberPart_plain part
  have other : c ∉ units "\"\x7b[:" := by
    intro held
    rw [show units "\"\x7b[:" = [unit '"', unit '{', unit '[', unit ':'] by decide] at held
    simp only [List.mem_cons, List.not_mem_nil, or_false] at held
    rcases held with rfl | rfl | rfl | rfl
    · exact absurd plain (by decide)
    · exact absurd plain (by decide)
    · exact absurd plain (by decide)
    · exact absurd part (by decide)
  simp [isPlain, inner, other]

theorem isPlain_of_literal {word : String} (known : word ∈ ["true", "false", "null"]) :
    ∀ c ∈ units word, isPlain c = true := by
  simp only [List.mem_cons, List.not_mem_nil, or_false] at known
  rcases known with rfl | rfl | rfl <;> exact List.all_iff_forall_prop.mp (by decide)

private theorem squeeze_blank (blank : Gap gap) :
    squeeze .outside (gap ++ rest) = squeeze .outside rest := by
  induction gap with
  | nil => rfl
  | cons c gap ih =>
    obtain ⟨first, others⟩ := List.forall_mem_cons.mp blank
    rw [List.cons_append, squeeze, if_pos (by simp [first])]
    exact ih others

theorem squeeze_solid (solid : isBlank c = false) (quote : c ≠ unit '"') :
    squeeze .outside (c :: rest) = c :: squeeze .outside rest := by
  rw [squeeze, if_neg (by simp [solid]), Mode.next, if_neg quote]

private theorem squeeze_plain (plain : ∀ c ∈ text, isPlain c = true) :
    squeeze .outside (text ++ rest) = text ++ squeeze .outside rest := by
  induction text with
  | nil => rfl
  | cons c text ih =>
    obtain ⟨first, others⟩ := List.forall_mem_cons.mp plain
    obtain ⟨solid, -, -, -, quote, -⟩ := isPlain_parts first
    rw [List.cons_append, squeeze_solid solid quote, ih others]
    rfl

theorem squeeze_inside : squeeze .inside (c :: rest) = c :: squeeze (Mode.next .inside c) rest :=
  rfl

private theorem squeeze_escaped : squeeze .escaped (c :: rest) = c :: squeeze .inside rest := rfl

theorem isHex_plain (hex : isHex c = true) : c ≠ unit '\\' ∧ c ≠ unit '"' := by
  constructor
  · rintro rfl
    exact absurd hex (by decide)
  · rintro rfl
    exact absurd hex (by decide)

/-- The four digits of an escape leave a scan in its string. -/
theorem next_hex (hex : isHex c = true) : Mode.next .inside c = .inside := by
  obtain ⟨slash, quote⟩ := isHex_plain hex
  rw [Mode.next, if_neg slash, if_neg quote]

private theorem squeeze_body {low : CodeUnit} (written : Body low body) :
    squeeze .inside (body ++ rest) = body ++ squeeze .inside rest := by
  have enter : Mode.next .inside (unit '\\') = .escaped := rfl
  induction written with
  | nil => rfl
  | plain c quote slash _ _ ih =>
    have stays : Mode.next .inside c = .inside := by rw [Mode.next, if_neg slash, if_neg quote]
    rw [List.cons_append, squeeze_inside, stays, ih, List.cons_append]
  | escape e known _ ih =>
    rw [List.cons_append, List.cons_append, squeeze_inside, enter, squeeze_escaped, ih]
    rfl
  | unicode a b c d hex _ ih =>
    simp only [List.mem_cons, List.not_mem_nil, or_false, forall_eq_or_imp, forall_eq] at hex
    obtain ⟨first, second, third, fourth⟩ := hex
    simp only [List.cons_append]
    rw [squeeze_inside, enter, squeeze_escaped, squeeze_inside, next_hex first, squeeze_inside,
      next_hex second, squeeze_inside, next_hex third, squeeze_inside, next_hex fourth, ih]

private theorem squeeze_quoted {low : CodeUnit} (written : Body low body) :
    squeeze .outside (quoted body ++ rest) = quoted body ++ squeeze .outside rest := by
  have enter : Mode.next .outside (unit '"') = .inside := rfl
  have leave : Mode.next .inside (unit '"') = .outside := by decide
  have shape (tail : List CodeUnit) :
      quoted body ++ tail = unit '"' :: (body ++ unit '"' :: tail) := by
    simp [quoted]
  rw [shape, shape, squeeze, if_neg (by decide), enter, squeeze_body written, squeeze_inside, leave]

private theorem opening_mark (container : Container) :
    isBlank container.opening = false ∧ container.opening ≠ unit '"' := by
  cases container <;> decide

private theorem closing_mark (container : Container) :
    isBlank container.closing = false ∧ container.closing ≠ unit '"' := by
  cases container <;> decide

/-- A text is its tokens, once the whitespace outside its strings is gone. -/
theorem Grammar.squeezed {category : Category} (derived : Grammar rfc8259 category text tokens)
    (rest : List CodeUnit) :
    squeeze .outside (text ++ rest) = tokens.flatMap Token.text ++ squeeze .outside rest := by
  induction derived generalizing rest with
  | literal word known =>
    rw [squeeze_plain (isPlain_of_literal known)]
    simp [Token.text]
  | number number =>
    rw [squeeze_plain fun c held => isPlain_of_numberPart (Number.parts number |>.2 c held)]
    simp [Token.text]
  | string written =>
    rw [squeeze_quoted written]
    simp [Token.text]
  | empty container blank =>
    obtain ⟨solid, quote⟩ := opening_mark container
    obtain ⟨solid', quote'⟩ := closing_mark container
    rw [List.cons_append, squeeze_solid solid quote, List.append_assoc, squeeze_blank blank,
      List.singleton_append, squeeze_solid solid' quote']
    rfl
  | container container inside ih =>
    obtain ⟨solid, quote⟩ := opening_mark container
    obtain ⟨solid', quote'⟩ := closing_mark container
    rw [List.cons_append, squeeze_solid solid quote, List.append_assoc, ih, List.singleton_append,
      squeeze_solid solid' quote']
    simp [Token.text]
  | item blank blank' value ih =>
    rw [List.append_assoc, squeeze_blank blank, List.append_assoc, ih, squeeze_blank blank']
  | @pair before key after text tokens blank blank' written value ih =>
    have shape : before ++ (quoted key ++ (after ++ unit ':' :: text)) ++ rest =
        before ++ (quoted key ++ (after ++ unit ':' :: (text ++ rest))) := by simp
    rw [shape, squeeze_blank blank, squeeze_quoted written, squeeze_blank blank',
      squeeze_solid (by decide) (by decide), ih]
    simp [Token.text]
  | one last ih => exact ih rest
  | more first others ih ih' =>
    rw [List.append_assoc, List.cons_append, ih, squeeze_solid (by decide) (by decide), ih']
    simp [Token.text]

end Squeeze

/-! ## Padding -/

/-- The categories with free whitespace on both sides. -/
def Category.Free : Category → Prop
  | .value => False
  | .item => True
  | .pair => True
  | .listOf each => each.Free

theorem Gap.append {gap gap' : List CodeUnit} (blank : Gap gap) (blank' : Gap gap') :
    Gap (gap ++ gap') :=
  List.forall_mem_append.mpr ⟨blank, blank'⟩

theorem Grammar.pad {lexis : Lexis} {category : Category} {text before after : List CodeUnit}
    {tokens : List Token}
    (derived : Grammar lexis category text tokens) (free : category.Free) (blank : Gap before)
    (blank' : Gap after) :
    Grammar lexis category (before ++ (text ++ after)) tokens := by
  have nothing : Gap [] := nofun
  induction derived generalizing before after with
  | literal => exact free.elim
  | number => exact free.elim
  | string => exact free.elim
  | empty => exact free.elim
  | container => exact free.elim
  | @item gap text gap' tokens inner inner' value ih =>
    have padded := Grammar.item (blank.append inner) (inner'.append blank') value
    simpa using padded
  | @pair gap key gap' text tokens inner inner' written value ih =>
    have padded := Grammar.pair (blank.append inner) inner' written (ih trivial nothing blank')
    simpa using padded
  | one last ih => exact .one (ih free blank blank')
  | @more each text text' tokens tokens' first others ih ih' =>
    have padded := Grammar.more (ih free blank nothing) (ih' free nothing blank')
    simpa using padded

end Beads.Lib.JsonGrammar
