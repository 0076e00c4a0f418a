import Beads.Conditions

/-! Conditions on the number of steps. The comparison with the number takes the place of the inner
comparison, so that the steps are counted by the number. -/
namespace Beads.Formula

/-! ## Scanning -/

section Scanning
variable {p : Char → Bool} {l rest front chars : List Char} {a : Char}

/-- The list does not begin with such a character. -/
def Stops (p : Char → Bool) (rest : List Char) : Prop := ∀ c ∈ rest.head?, p c = false

theorem takeWhile_stop (all : ∀ c ∈ l, p c = true) (stops : Stops p rest) :
    (l ++ rest).takeWhile p = l := by
  rw [List.takeWhile_append_of_pos all]
  cases rest with
  | nil => exact List.append_nil l
  | cons c rest => rw [List.takeWhile_cons_of_neg (by simpa using stops c rfl), List.append_nil]

theorem dropWhile_stop (all : ∀ c ∈ l, p c = true) (stops : Stops p rest) :
    (l ++ rest).dropWhile p = rest := by
  rw [List.dropWhile_append_of_pos all]
  cases rest with
  | nil => rfl
  | cons c rest => exact List.dropWhile_cons_of_neg (by simpa using stops c rfl)

theorem Stops.append (all : ∀ c ∈ l, p c = false) (stops : Stops p rest) : Stops p (l ++ rest) := by
  cases l with
  | nil => exact stops
  | cons c l =>
    rintro d ⟨⟩
    exact all c List.mem_cons_self

theorem stops_cons (not : p a = false) : Stops p (a :: rest) := by
  rintro c ⟨⟩
  exact not

/-- Spaces stand at neither end. -/
theorem trimSpace_eq (before : Stops isSpace chars) (behind : Stops isSpace chars.reverse) :
    trimSpace (String.ofList chars) = String.ofList chars := by
  have none : chars.dropWhile isSpace = chars := dropWhile_stop (l := []) (by simp) before
  have none' : chars.reverse.dropWhile isSpace = chars.reverse :=
    dropWhile_stop (l := []) (by simp) behind
  rw [trimSpace, String.toList_ofList, none, none', List.reverse_reverse]

private theorem skip_literal (literal : String) (rest : List Char) :
    skip literal (literal.toList ++ rest) = some rest := by
  have starts : literal.toList.isPrefixOf (literal.toList ++ rest) = true :=
    List.isPrefixOf_iff_prefix.mpr (List.prefix_append _ _)
  rw [skip, if_pos starts, ← String.length_toList, List.drop_left]

/-- A literal is skipped only where a run of characters ends as in the literal. -/
theorem skip_run {literal : String} {after r : List Char} (all : ∀ c ∈ front, p c = true)
    (stop : p a = false)
    (shape : literal.toList = front ++ a :: after) (all' : ∀ c ∈ l, p c = true)
    (stops : Stops p rest)
    (found : skip literal (l ++ rest) = some r) : l = front ∧ rest = a :: (after ++ r) := by
  unfold skip at found
  by_cases starts : literal.toList.isPrefixOf (l ++ rest) = true
  · rw [if_pos starts] at found
    obtain ⟨more, same⟩ := List.isPrefixOf_iff_prefix.mp starts
    have left : more = r := by
      rw [← same, ← String.length_toList, List.drop_left] at found
      exact Option.some.inj found
    subst left
    rw [shape, List.append_assoc, List.cons_append] at same
    have stops' : Stops p (a :: (after ++ more)) := stops_cons stop
    have takes := congrArg (List.takeWhile p) same
    have drops := congrArg (List.dropWhile p) same
    rw [takeWhile_stop all stops', takeWhile_stop all' stops] at takes
    rw [dropWhile_stop all stops', dropWhile_stop all' stops] at drops
    exact ⟨takes.symm, drops.symm⟩
  · rw [if_neg starts] at found
    cases found

private theorem skip_none {literal : String} {after : List Char} (all : ∀ c ∈ front, p c = true)
    (stop : p a = false)
    (shape : literal.toList = front ++ a :: after) (all' : ∀ c ∈ l, p c = true)
    (stops : Stops p rest) (other : a ∉ rest.head?) : skip literal (l ++ rest) = none := by
  cases found : skip literal (l ++ rest) with
  | none => rfl
  | some r =>
    obtain ⟨-, same⟩ := skip_run all stop shape all' stops found
    exact absurd (by rw [same]; rfl) other

theorem word_eq (some' : l ≠ []) (all : ∀ c ∈ l, isWordChar c = true)
    (stops : Stops isWordChar rest) :
    word (l ++ rest) = some (l, rest) := by
  rw [word, takeWhile_stop all stops, dropWhile_stop all stops, if_neg some']

private theorem splitLast_eq (apart : a ∉ rest) :
    splitLast a (front ++ a :: rest) = some (front, rest) := by
  have shape : (front ++ a :: rest).reverse = rest.reverse ++ a :: front.reverse := by simp
  have all : ∀ c ∈ rest.reverse, decide (c ≠ a) = true := by
    intro c held
    refine decide_eq_true fun same => apart ?_
    rw [← same]
    exact List.mem_reverse.mp held
  have stops : Stops (fun c => decide (c ≠ a)) (a :: front.reverse) := stops_cons (by simp)
  rw [splitLast, shape, takeWhile_stop all stops, dropWhile_stop all stops]
  simp

end Scanning

/-! ## Conditions on a number -/

def Operator.known : Operator → Bool
  | .other _ => false
  | _ => true

/-- A word. -/
structure Word (chars : List Char) : Prop where
  some : chars ≠ []
  all : ∀ c ∈ chars, isWordChar c = true

/-- Spaces on one line. -/
def Gap (chars : List Char) : Prop := ∀ c ∈ chars, isRegexSpace c = true ∧ c ≠ '\n'

/-- A condition `X(s).count(F op V) cmp N`, by its parts and the spaces around the operators. -/
structure CountCondition where
  among : AggregateOver
  step : List Char
  path : List (List Char)
  operator : Operator
  value : List Char
  cmp : Operator
  number : List Char
  beforeOperator : List Char := []
  afterOperator : List Char := []
  beforeCmp : List Char := []
  afterCmp : List Char := []

/-- The parts are such as the regular expressions take: `F` is a path of words to a field of a
step, and not a variable of the environment. -/
structure CountCondition.Valid (c : CountCondition) : Prop where
  step : Word c.step
  path : c.path ≠ [] ∧ ∀ part ∈ c.path, Word part
  field : ∀ name, c.path ≠ ["env".toList, name]
  operator : c.operator.known = true
  value : c.value ≠ [] ∧ '\n' ∉ c.value
  valueStart : Stops isRegexSpace c.value ∧ (c.afterOperator = [] → Stops isOperatorChar c.value)
  valueEnd : Stops isSpace c.value.reverse
  cmp : c.cmp.known = true
  number : c.number ≠ [] ∧ ∀ d ∈ c.number, d.isDigit = true
  gaps : Gap c.beforeOperator ∧ Gap c.afterOperator ∧ Gap c.beforeCmp ∧ Gap c.afterCmp

namespace CountCondition

/-- `F`. -/
def pathChars (c : CountCondition) : List Char := ['.'].intercalate c.path

/-- What follows `F` in the inner comparison. -/
def innerTail (c : CountCondition) : List Char :=
  c.beforeOperator ++ (c.operator.text.toList ++ (c.afterOperator ++ c.value))

/-- The inner comparison. -/
def inner (c : CountCondition) : List Char := c.pathChars ++ c.innerTail

/-- The comparison with the number. -/
def tail (c : CountCondition) : List Char :=
  c.beforeCmp ++ (c.cmp.text.toList ++ (c.afterCmp ++ c.number))

def chars (c : CountCondition) : List Char :=
  (c.among.text ++ "(").toList ++ (c.step ++ (").".toList ++ ("count(".toList ++ (c.inner ++ ')' :: c.tail))))

/-- The condition as it is written. -/
def text (c : CountCondition) : String := String.ofList c.chars

/-- The field that `F` names. -/
def field (c : CountCondition) : String := (fieldRef c.pathChars).2

end CountCondition

section Texts
variable {c : CountCondition} {op : Operator}

theorem operator_chars (known : op.known = true) :
    op.text.toList ≠ [] ∧ ∀ d ∈ op.text.toList, isOperatorChar d = true := by
  cases op with
  | other text => cases known
  | _ => exact ⟨by decide, List.all_eq_true.mp (by decide)⟩

private theorem ofText_text (known : op.known = true) : Operator.ofText op.text = op := by
  cases op with
  | other text => cases known
  | _ => rfl

theorem operatorChar_plain {d : Char} (held : isOperatorChar d = true) :
    isRegexSpace d = false ∧ isWordChar d = false ∧ d ≠ '.' ∧ d ≠ '(' ∧ d ≠ '\n' ∧ d ≠ ')' ∧
      d.isDigit = false := by
  have cases' : d ∈ ['=', '!', '<', '>'] := by simpa [isOperatorChar] using held
  simp only [List.mem_cons, List.not_mem_nil, or_false] at cases'
  rcases cases' with rfl | rfl | rfl | rfl <;> decide

theorem space_plain {d : Char} (held : isRegexSpace d = true) :
    isOperatorChar d = false ∧ isWordChar d = false ∧ d ≠ '.' ∧ d ≠ '(' ∧ d ≠ ')' ∧
      d.isDigit = false := by
  have cases' : d ∈ [' ', '\t', '\n', '\x0c', '\r'] := by simpa [isRegexSpace] using held
  simp only [List.mem_cons, List.not_mem_nil, or_false] at cases'
  rcases cases' with rfl | rfl | rfl | rfl | rfl <;> decide

/-- The parts of a path behind its first. -/
def dotted (parts : List (List Char)) : List Char := parts.flatMap ('.' :: ·)

theorem intercalate_eq (first : List Char) (others : List (List Char)) :
    ['.'].intercalate (first :: others) = first ++ dotted others := by
  induction others generalizing first with
  | nil => simp [dotted]
  | cons second others ih =>
    rw [List.intercalate_cons_cons, ih, List.append_assoc]
    rfl

private theorem innerTail_head (valid : c.Valid) :
    ∀ d ∈ c.innerTail.head?, isRegexSpace d = true ∨ isOperatorChar d = true := by
  intro d held
  obtain ⟨some, all⟩ := operator_chars valid.operator
  unfold CountCondition.innerTail at held
  cases gap : c.beforeOperator with
  | cons space spaces =>
    rw [gap] at held
    obtain rfl : space = d := Option.some.inj held
    exact .inl (valid.gaps.1 space (gap ▸ List.mem_cons_self)).1
  | nil =>
    rw [gap] at held
    cases shape : c.operator.text.toList with
    | nil => exact absurd shape some
    | cons o os =>
      rw [shape] at held
      obtain rfl : o = d := Option.some.inj held
      exact .inr (all o (shape ▸ List.mem_cons_self))

/-- Characters of a path. -/
def isPathChar (d : Char) : Bool := isWordChar d || d = '.'

theorem innerTail_stops (valid : c.Valid) :
    Stops isPathChar c.innerTail ∧ Stops isWordChar c.innerTail ∧ '(' ∉ c.innerTail.head? ∧
      '.' ∉ c.innerTail.head? := by
  have plain : ∀ d ∈ c.innerTail.head?, isWordChar d = false ∧ d ≠ '.' ∧ d ≠ '(' := by
    intro d held
    rcases innerTail_head valid d held with space | op
    · obtain ⟨-, word, dot, paren, -⟩ := space_plain space
      exact ⟨word, dot, paren⟩
    · obtain ⟨-, word, dot, paren, -⟩ := operatorChar_plain op
      exact ⟨word, dot, paren⟩
  refine ⟨fun d held => ?_, fun d held => (plain d held).1, fun held => (plain _ held).2.2 rfl,
    fun held => (plain _ held).2.1 rfl⟩
  obtain ⟨word, dot, -⟩ := plain d held
  simp [isPathChar, word, dot]

private theorem comparison_innerTail (valid : c.Valid) :
    comparison c.innerTail = some (c.operator.text.toList, c.value) := by
  obtain ⟨some, all⟩ := operator_chars valid.operator
  obtain ⟨start, start'⟩ := valid.valueStart
  have head : Stops isRegexSpace (c.operator.text.toList ++ (c.afterOperator ++ c.value)) := by
    cases shape : c.operator.text.toList with
    | nil => exact absurd shape some
    | cons o os => exact stops_cons (operatorChar_plain (all o (shape ▸ List.mem_cons_self))).1
  have behind : Stops isOperatorChar (c.afterOperator ++ c.value) := by
    cases gap : c.afterOperator with
    | nil => exact start' gap
    | cons space spaces =>
      exact stops_cons (space_plain (valid.gaps.2.1 space (gap ▸ List.mem_cons_self)).1).1
  have spaces : ∀ d ∈ c.beforeOperator, isRegexSpace d = true :=
    fun d held => (valid.gaps.1 d held).1
  have spaces' : ∀ d ∈ c.afterOperator, isRegexSpace d = true :=
    fun d held => (valid.gaps.2.1 d held).1
  have none : ¬(c.operator.text.toList = [] ∨ '\n' ∈ c.value) := by
    rintro (none | held)
    · exact some none
    · exact valid.value.2 held
  unfold comparison CountCondition.innerTail
  simp only [dropWhile_stop spaces head, takeWhile_stop all behind, dropWhile_stop all behind,
    dropWhile_stop spaces' start]
  rw [if_neg none, if_pos valid.value.1]

private theorem comparison_dotted {others : List (List Char)} {tail : List Char}
    (some : others ≠ []) :
    comparison (dotted others ++ tail) = none := by
  cases others with
  | nil => exact absurd rfl some
  | cons part others =>
    have here : (dotted (part :: others) ++ tail).dropWhile isRegexSpace = '.' ::
        (part ++ dotted others ++ tail) := by
      rfl
    unfold comparison
    rw [here]
    rfl

theorem wordChar_plain {d : Char} (held : isWordChar d = true) :
    isSpace d = false ∧ d ≠ '\n' ∧ d ≠ '.' ∧ d ≠ '(' ∧ isPathChar d = true := by
  have range : 48 ≤ d.toNat ∧ d.toNat ≤ 122 := by
    have spelled : (decide ('A'.val ≤ d.val ∧ d.val ≤ 'Z'.val) || ('a'.val ≤ d.val && d.val ≤ 'z'.val) ||
        ('0'.val ≤ d.val && d.val ≤ '9'.val) || d = '_') = true := held
    simp only [Bool.or_eq_true, Bool.and_eq_true, decide_eq_true_eq,
      UInt32.le_iff_toNat_le] at spelled
    rcases spelled with ((⟨low, high⟩ | ⟨low, high⟩) | ⟨low, high⟩) | rfl
    · exact ⟨Nat.le_trans (by decide) low, Nat.le_trans high (by decide)⟩
    · exact ⟨Nat.le_trans (by decide) low, Nat.le_trans high (by decide)⟩
    · exact ⟨Nat.le_trans (by decide) low, Nat.le_trans high (by decide)⟩
    · decide
  have other {e : Char} (out : ¬(48 ≤ e.toNat ∧ e.toNat ≤ 122)) : d ≠ e :=
    fun same => out (same ▸ range)
  refine ⟨?_, other (by decide), other (by decide), other (by decide), by simp [isPathChar, held]⟩
  simp only [isSpace, Bool.or_eq_false_iff, decide_eq_false_iff_not, Bool.and_eq_false_iff,
    List.mem_cons, List.not_mem_nil, or_false, not_or]
  omega

/-- The path is a word and what follows it. -/
theorem path_cases (valid : c.Valid) :
    ∃ first others, c.path = first :: others ∧ Word first ∧ (∀ part ∈ others, Word part) ∧
      c.pathChars = first ++ dotted others := by
  obtain ⟨some, words⟩ := valid.path
  cases shape : c.path with
  | nil => exact absurd shape some
  | cons first others =>
    rw [shape, List.forall_mem_cons] at words
    exact ⟨first, others, rfl, words.1, words.2,
      by rw [CountCondition.pathChars, shape, intercalate_eq]⟩

private theorem dotted_chars {others : List (List Char)} (words : ∀ part ∈ others, Word part) :
    ∀ d ∈ dotted others, isPathChar d = true := by
  intro d held
  obtain ⟨part, among, inside⟩ := List.mem_flatMap.mp held
  rcases List.mem_cons.mp inside with rfl | inside
  · rfl
  · exact (wordChar_plain ((words part among).all d inside)).2.2.2.2

theorem pathChars_all (valid : c.Valid) : ∀ d ∈ c.pathChars, isPathChar d = true := by
  obtain ⟨first, others, -, word, words, shape⟩ := path_cases valid
  rw [shape]
  intro d held
  rcases List.mem_append.mp held with held | held
  · exact (wordChar_plain (word.all d held)).2.2.2.2
  · exact dotted_chars words d held

/-- A literal that goes on with a parenthesis is not there. -/
theorem skip_inner {literal : String} (front : List Char) (valid : c.Valid)
    (all : front.all isPathChar = true)
    (shape : literal.toList = front ++ ['(']) : skip literal c.inner = none :=
  skip_none (List.all_eq_true.mp all) (by decide) shape (pathChars_all valid) (innerTail_stops valid).1
    (innerTail_stops valid).2.2.1

private theorem word_dotted {first tail : List Char} {others : List (List Char)}
    (word' : Word first) (stops : Stops isWordChar tail) :
    word (first ++ (dotted others ++ tail)) = some (first, dotted others ++ tail) := by
  refine word_eq word'.some word'.all ?_
  cases others with
  | nil => exact stops
  | cons part others => exact stops_cons (by decide)

/-- The first part of a path is skipped only if it is that word and another part follows. -/
theorem skip_first {literal : String} {r : List Char} (front : List Char) (valid : c.Valid)
    (all : front.all isWordChar = true) (shape : literal.toList = front ++ ['.'])
    (found : skip literal c.inner = some r) :
    ∃ second others, c.path = front :: second :: others ∧
      word r = some (second, dotted others ++ c.innerTail) := by
  obtain ⟨first, others, path, word', words, chars⟩ := path_cases valid
  obtain ⟨-, stops, -, dot⟩ := innerTail_stops valid
  have stops' : Stops isWordChar (dotted others ++ c.innerTail) := by
    cases others with
    | nil => exact stops
    | cons part others => exact stops_cons (by decide)
  rw [CountCondition.inner, chars, List.append_assoc] at found
  obtain ⟨rfl, rest⟩ := skip_run (List.all_eq_true.mp all) (by decide) shape word'.all stops' found
  cases others with
  | nil =>
    refine absurd ?_ dot
    have rest : c.innerTail = '.' :: r := rest
    rw [rest]
    rfl
  | cons second others =>
    have rest : second ++ dotted others ++ c.innerTail = r := (List.cons.inj rest).2
    refine ⟨second, others, path, ?_⟩
    rw [← rest, List.append_assoc]
    exact word_dotted (words second List.mem_cons_self) stops

private theorem fileExistsPattern_inner (valid : c.Valid) : fileExistsPattern c.inner = none := by
  have absent : skip "file.exists(" c.inner = none :=
    skip_inner "file.exists".toList valid (by decide) (by decide)
  rw [fileExistsPattern, absent]

private theorem envPattern_inner (valid : c.Valid) : envPattern c.inner = none := by
  unfold envPattern
  cases found : skip "env." c.inner with
  | none => rfl
  | some r =>
    obtain ⟨second, others, path, after⟩ :=
      skip_first "env".toList valid (by decide) (by decide) found
    have more : others ≠ [] := fun none => valid.field second (none ▸ path)
    simp [after, comparison_dotted more]

private theorem aggregatePattern_inner (valid : c.Valid) : aggregatePattern c.inner = none := by
  have children : skip "children(" c.inner = none :=
    skip_inner "children".toList valid (by decide) (by decide)
  have descendants : skip "descendants(" c.inner = none :=
    skip_inner "descendants".toList valid (by decide) (by decide)
  have steps : skip "steps(" c.inner = none :=
    skip_inner "steps".toList valid (by decide) (by decide)
  simp [aggregatePattern, skipOne, children, descendants, steps]

theorem splitOn_pathChars (valid : c.Valid) : c.pathChars.splitOn '.' = c.path := by
  obtain ⟨some, words⟩ := valid.path
  refine List.splitOn_intercalate '.' (fun part held dot => ?_) some
  exact (wordChar_plain ((words part held).all _ dot)).2.2.1 rfl

/-- A status of the steps is the field of the path. -/
theorem stepsStatPattern_inner (valid : c.Valid) {name operator digits : List Char}
    (found : stepsStatPattern c.inner = some (name, operator, digits)) :
    String.ofList name = c.field := by
  unfold stepsStatPattern at found
  cases skipped : skip "steps." c.inner with
  | none =>
    rw [skipped] at found
    cases found
  | some r =>
    obtain ⟨second, others, path, after⟩ :=
      skip_first "steps".toList valid (by decide) (by decide) skipped
    simp only [skipped, after, Option.bind_eq_bind, Option.bind_some] at found
    cases others with
    | cons third others =>
      have none : ((dotted (third :: others) ++ c.innerTail).dropWhile isRegexSpace).takeWhile isOperatorChar = [] :=
        rfl
      rw [none, if_pos (.inl rfl)] at found
      cases found
    | nil =>
      have name' : second = name := by
        obtain ⟨-, same⟩ := Option.ite_none_left_eq_some.mp found
        exact congrArg Prod.fst (Option.some.inj same)
      have chars : c.pathChars = "steps".toList ++ '.' :: second := by
        rw [CountCondition.pathChars, path, intercalate_eq]
        simp [dotted]
      have field : fieldRef c.pathChars = ("steps", String.ofList second) := by
        unfold fieldRef
        rw [splitOn_pathChars valid, path, chars]
        rfl
      rw [CountCondition.field, field, name']

private theorem fieldPattern_inner (valid : c.Valid) :
    fieldPattern c.inner = some (c.pathChars, c.operator.text.toList, c.value) := by
  have run : (c.inner.takeWhile fun d => isWordChar d || d = '.') = c.pathChars :=
    takeWhile_stop (pathChars_all valid) (innerTail_stops valid).1
  have parts : ¬(c.pathChars.splitOn '.').any List.isEmpty = true := by
    rw [splitOn_pathChars valid, List.any_eq_true]
    rintro ⟨part, held, none⟩
    exact (valid.path.2 part held).some (List.isEmpty_iff.mp none)
  unfold fieldPattern
  simp only [run]
  rw [if_neg parts, CountCondition.inner, List.drop_left, comparison_innerTail valid]
  rfl

private theorem trimSpace_inner (valid : c.Valid) :
    trimSpace (String.ofList c.inner) = String.ofList c.inner := by
  obtain ⟨first, others, -, word', -, chars⟩ := path_cases valid
  refine trimSpace_eq ?_ ?_
  · rw [CountCondition.inner, chars]
    cases first with
    | nil => exact absurd rfl word'.some
    | cons d first => exact stops_cons (wordChar_plain (word'.all d List.mem_cons_self)).1
  · have shape : c.inner.reverse = c.value.reverse ++
        (c.pathChars ++ (c.beforeOperator ++ (c.operator.text.toList ++ c.afterOperator))).reverse := by
      simp [CountCondition.inner, CountCondition.innerTail]
    rw [shape]
    cases last : c.value.reverse with
    | nil => exact absurd (List.reverse_eq_nil_iff.mp last) valid.value.1
    | cons d rest =>
      have solid := valid.valueEnd
      rw [last] at solid
      exact stops_cons (solid d rfl)

theorem inner_ne_nil (valid : c.Valid) : c.inner ≠ [] := by
  intro none
  obtain ⟨first, others, -, word', -, chars⟩ := path_cases valid
  rw [CountCondition.inner, chars, List.append_assoc, List.append_eq_nil_iff] at none
  exact word'.some none.1

/-- The inner comparison is read, with the field that its path names. -/
theorem parse_inner (valid : c.Valid) (fuel : Nat) :
    ∃ cond, parseConditionWithin (fuel + 1) c.inner = .ok cond ∧ cond.field = c.field := by
  have some : String.ofList c.inner ≠ "" := by
    intro none
    refine inner_ne_nil valid ?_
    rw [← String.toList_ofList (l := c.inner), none]
    rfl
  unfold parseConditionWithin
  rw [trimSpace_inner valid]
  unfold parseConditionWith
  simp only [String.toList_ofList, if_neg some, fileExistsPattern_inner valid,
    envPattern_inner valid, aggregatePattern_inner valid]
  cases found : stepsStatPattern c.inner with
  | some stat => exact ⟨_, rfl, stepsStatPattern_inner valid found⟩
  | none =>
    rw [fieldPattern_inner valid]
    exact ⟨_, rfl, rfl⟩

theorem digit_plain {d : Char} (held : d.isDigit = true) : isWordChar d = true ∧ d ≠ ')' := by
  have word : isWordChar d = true := by simp [isWordChar, Char.isAlphanum, held]
  refine ⟨word, fun same => ?_⟩
  rw [same] at held
  cases held

private theorem countComparePattern_tail (valid : c.Valid) :
    countComparePattern c.tail = some (c.cmp.text.toList, c.number) := by
  obtain ⟨some, all⟩ := operator_chars valid.cmp
  have shape : c.tail.reverse =
      c.number.reverse ++ (c.afterCmp.reverse ++ (c.cmp.text.toList.reverse ++ c.beforeCmp.reverse)) := by
    simp [CountCondition.tail]
  have digits : ∀ d ∈ c.number.reverse, d.isDigit = true :=
    fun d held => valid.number.2 d (List.mem_reverse.mp held)
  have spaces : ∀ d ∈ c.afterCmp.reverse, isRegexSpace d = true := fun d held =>
    (valid.gaps.2.2.2 d (List.mem_reverse.mp held)).1
  have ops : ∀ d ∈ c.cmp.text.toList.reverse, isOperatorChar d = true :=
    fun d held => all d (List.mem_reverse.mp held)
  have behind : Stops isOperatorChar c.beforeCmp.reverse := by
    intro d held
    exact (space_plain (valid.gaps.2.2.1 d (List.mem_reverse.mp (List.mem_of_mem_head? held))).1).1
  have middle {p : Char → Bool} (plain : ∀ d, isOperatorChar d = true → p d = false) :
      Stops p (c.cmp.text.toList.reverse ++ c.beforeCmp.reverse) := by
    cases last : c.cmp.text.toList.reverse with
    | nil => exact absurd (List.reverse_eq_nil_iff.mp last) some
    | cons o os => exact stops_cons (plain o (ops o (last ▸ List.mem_cons_self)))
  have front : Stops Char.isDigit
      (c.afterCmp.reverse ++ (c.cmp.text.toList.reverse ++ c.beforeCmp.reverse)) := by
    refine Stops.append (fun d held => (space_plain (spaces d held)).2.2.2.2.2)
      (middle fun d op => ?_)
    exact (operatorChar_plain op).2.2.2.2.2.2
  have none : ¬(c.number.reverse = [] ∨ c.cmp.text.toList.reverse = []) := by
    rintro (none | none)
    · exact valid.number.1 (List.reverse_eq_nil_iff.mp none)
    · exact some (List.reverse_eq_nil_iff.mp none)
  unfold countComparePattern
  simp only [shape, takeWhile_stop digits front, dropWhile_stop digits front,
    dropWhile_stop spaces (middle fun d op => (operatorChar_plain op).1), takeWhile_stop ops behind]
  rw [if_neg none, List.reverse_reverse, List.reverse_reverse]

/-- The texts of the condition are on one line, and no parenthesis comes behind the inner
comparison. -/
theorem line_inner (valid : c.Valid) : '\n' ∉ c.inner ++ ')' :: c.tail ∧ ')' ∉ c.tail := by
  have gap {spaces : List Char} (gap : Gap spaces) : '\n' ∉ spaces ∧ ')' ∉ spaces :=
    ⟨fun held => (gap _ held).2 rfl, fun held => (space_plain (gap _ held).1).2.2.2.2.1 rfl⟩
  have op {op : Operator} (known : op.known = true) :
      '\n' ∉ op.text.toList ∧ ')' ∉ op.text.toList :=
    ⟨fun held => (operatorChar_plain ((operator_chars known).2 _ held)).2.2.2.2.1 rfl,
      fun held => (operatorChar_plain ((operator_chars known).2 _ held)).2.2.2.2.2.1 rfl⟩
  have digits : '\n' ∉ c.number ∧ ')' ∉ c.number :=
    ⟨fun held => (wordChar_plain (digit_plain (valid.number.2 _ held)).1).2.1 rfl,
      fun held => (digit_plain (valid.number.2 _ held)).2 rfl⟩
  have path : '\n' ∉ c.pathChars := fun held => by
    have char := pathChars_all valid _ held
    cases char
  obtain ⟨before, after, before', after'⟩ := valid.gaps
  simp only [CountCondition.inner, CountCondition.innerTail, CountCondition.tail, List.mem_append,
    List.mem_cons, not_or]
  exact ⟨⟨⟨path, (gap before).1, (op valid.operator).1, (gap after).1, valid.value.2⟩, by decide, (gap before').1,
    (op valid.cmp).1, (gap after').1, digits.1⟩, (gap before').2, (op valid.cmp).2, (gap after').2, digits.2⟩

private theorem skipOne_over (among : AggregateOver) (rest : List Char) :
    skipOne [("children(", AggregateOver.children), ("descendants(", .descendants), ("steps(", .steps)]
      ((among.text ++ "(").toList ++ rest) = some (among, rest) := by
  cases among <;> rfl

theorem skipOne_count (rest : List Char) :
    skipOne [("all(", AggregateFunc.all), ("any(", .any), ("count(", .count)] ("count(".toList ++ rest) =
      some (.count, rest) := rfl

private theorem aggregatePattern_chars (valid : c.Valid) :
    aggregatePattern c.chars =
      some { among := c.among, step := c.step, func := .count, inner := c.inner, tail := c.tail } := by
  obtain ⟨line, paren⟩ := line_inner valid
  have step : word (c.step ++ (").".toList ++ ("count(".toList ++ (c.inner ++ ')' :: c.tail)))) =
      some (c.step, ").".toList ++ ("count(".toList ++ (c.inner ++ ')' :: c.tail))) :=
    word_eq valid.step.some valid.step.all (stops_cons (by decide))
  unfold aggregatePattern CountCondition.chars
  simp only [skipOne_over, step, skip_literal, skipOne_count, splitLast_eq paren,
    Option.bind_eq_bind, Option.bind_some, if_neg line, if_neg (inner_ne_nil valid)]

private theorem trimSpace_text (valid : c.Valid) :
    trimSpace (String.ofList c.chars) = String.ofList c.chars := by
  refine trimSpace_eq ?_ ?_
  · unfold CountCondition.chars
    cases c.among with
    | children => exact stops_cons (by decide)
    | descendants => exact stops_cons (by decide)
    | steps => exact stops_cons (by decide)
  · have shape : ∃ rest, c.chars.reverse = c.number.reverse ++ rest := by
      unfold CountCondition.chars CountCondition.tail
      simp only [List.reverse_append, List.reverse_cons, List.append_assoc]
      exact ⟨_, rfl⟩
    obtain ⟨rest, shape⟩ := shape
    rw [shape]
    cases last : c.number.reverse with
    | nil => exact absurd (List.reverse_eq_nil_iff.mp last) valid.number.1
    | cons d digits =>
      have held : d ∈ c.number := List.mem_reverse.mp (last ▸ List.mem_cons_self)
      exact stops_cons (wordChar_plain (digit_plain (valid.number.2 d held)).1).1

/-- The condition as it is parsed. The operator and the value of the inner comparison are gone. -/
def CountCondition.parsed (c : CountCondition) : Condition where
  raw := c.text
  type := .aggregate
  aggregateOver := some c.among
  stepRef := String.ofList c.step
  aggregateFunc := some .count
  field := c.field
  operator := c.cmp
  value := String.ofList c.number

private theorem parseCondition_text (valid : c.Valid) : parseCondition c.text = .ok c.parsed := by
  have absent : skip "file.exists(" c.chars = none ∧ skip "env." c.chars = none := by
    unfold CountCondition.chars
    cases c.among with
    | children => exact ⟨rfl, rfl⟩
    | descendants => exact ⟨rfl, rfl⟩
    | steps => exact ⟨rfl, rfl⟩
  have fileExists : fileExistsPattern c.chars = none := by rw [fileExistsPattern, absent.1]
  have env : envPattern c.chars = none := by
    unfold envPattern
    rw [absent.2]
    rfl
  have some : String.ofList c.chars ≠ "" := by
    intro none
    have none : c.chars = [] := by
      rw [← String.toList_ofList (l := c.chars), none]
      rfl
    have held : ')' ∈ c.chars := by simp [CountCondition.chars]
    rw [none] at held
    cases held
  have length : ∃ fuel, c.text.length = fuel + 1 := by
    refine Nat.exists_eq_add_one.mpr (Nat.pos_of_ne_zero fun none => some ?_)
    rw [← String.length_toList, List.length_eq_zero_iff] at none
    exact String.toList_injective none
  obtain ⟨fuel, length⟩ := length
  obtain ⟨inner, parsed, field⟩ := parse_inner valid fuel
  unfold parseCondition parseConditionWithin
  rw [length, String.ofList_toList]
  have trimmed : trimSpace c.text = c.text := trimSpace_text valid
  rw [trimmed]
  unfold parseConditionWith
  have chars : c.text.toList = c.chars := String.toList_ofList
  have nonempty : c.text ≠ "" := some
  simp only [chars, if_neg nonempty, fileExists, env, aggregatePattern_chars valid, parsed,
    countComparePattern_tail valid]
  rw [String.ofList_toList, ofText_text valid.cmp, field]
  rfl

end Texts

/-! ## Counting -/

/-- The value of the inner comparison. -/
def CountCondition.expected (c : CountCondition) : String := unquote (String.ofList c.value)

/-- The inner comparison holds for a step. -/
def CountCondition.holds (floats : Floats) (c : CountCondition) (s : StepState) : Bool :=
  (matchStep floats s c.field c.operator c.expected).satisfied

/-- The number that is compared with. -/
def CountCondition.amount (c : CountCondition) : Nat :=
  c.number.foldl (fun n d => n * 10 + (d.toNat - '0'.toNat)) 0

section Counting
variable {floats : Floats} {system : System} {c : CountCondition} {ctx : ConditionContext}
  {steps : List StepState}

private theorem atoi_number (valid : c.Valid) :
    Query.atoi (String.ofList c.number) = if c.amount ≤ 9223372036854775807 then some (c.amount : Int) else none :=
  Query.atoi_digits valid.number.1 valid.number.2 (Query.foldl_digits c.number 0)

theorem evaluate_text (valid : c.Valid) (found : ctx.aggregated c.among (String.ofList c.step) = some steps) :
    evaluateCondition floats system c.text ctx =
      if c.amount ≤ 9223372036854775807 then
        .ok (compareInt (steps.countP (c.parsed.counts floats c.among)) c.cmp c.amount)
      else
        .error ("count comparison requires integer value, got " ++ (String.ofList c.number).quote ++ ": " ++
          atoiError (String.ofList c.number)) := by
  have evaluated : evaluateCondition floats system c.text ctx = c.parsed.evaluateAggregate floats ctx := by
    rw [evaluateCondition, parseCondition_text valid]
    rfl
  have among : c.parsed.aggregateOver = some c.among := rfl
  have found : ctx.aggregated c.among c.parsed.stepRef = some steps := found
  have count : c.parsed.aggregateFunc = some .count := rfl
  have number : Query.atoi c.parsed.value = if c.amount ≤ 9223372036854775807 then some
      (c.amount : Int) else none :=
    atoi_number valid
  rw [evaluated, Condition.evaluateAggregate, among]
  dsimp only
  rw [found]
  dsimp only
  rw [count]
  dsimp only
  rw [number]
  by_cases fits : c.amount ≤ 9223372036854775807
  · rw [if_pos fits, if_pos fits]
    rfl
  · rw [if_neg fits, if_neg fits]
    rfl

/-! ## Texts that are compared -/

private theorem lt_brace (text : String) : text < text ++ "\x7b" := by
  rw [String.lt_iff_toList_lt, String.toList_append]
  have longer : text.toList ++ [] < text.toList ++ "\x7b".toList :=
    List.append_left_lt (List.nil_lt_cons _ _)
  rwa [List.append_nil] at longer

private theorem empty_lt {text : String} (some : text ≠ "") : "" < text := by
  rw [String.lt_iff_toList_lt]
  cases shape : text.toList with
  | nil => exact absurd (String.toList_injective shape) some
  | cons a rest => exact List.nil_lt_cons a rest

/-- A comparison with a text that is not a number is one of texts. -/
theorem compare_text {op : Operator} {t expected : String} (known : op.known = true)
    (plain : floats.parseFloat t = none ∨ floats.parseFloat expected = none) :
    (compare' floats (.text t) op expected).satisfied = op.holds t expected := by
  have text : (OutputValue.text t).format = t := rfl
  cases op with
  | other text => cases known
  | equal => rfl
  | notEqual => rfl
  | _ =>
    rcases plain with none | none
    · simp only [compare', text, none, compareString]
    · cases parsed : floats.parseFloat t <;> simp only [compare', text, none, parsed, compareString]

/-- Only equality with a text singles it out. -/
theorem compare_eq_iff (floats : Floats) {op : Operator} {expected key : String}
    (known : op.known = true) (some : key ≠ "") (plain : '{' ∉ key.toList) :
    (∀ t, (compare' floats (.text t) op expected).satisfied = decide (t = key)) ↔
      op = .equal ∧ expected = key := by
  constructor
  · intro all
    have longer : expected ++ "\x7b" ≠ key := by
      intro same
      exact plain (same ▸ by simp)
    have braced : floats.parseFloat (expected ++ "\x7b") = none := floats.brace _ (by simp)
    have there := all (expected ++ "\x7b")
    have empty := all ""
    rw [compare_text known (.inl braced), decide_eq_false longer] at there
    rw [compare_text known (.inl floats.empty), decide_eq_false some.symm] at empty
    cases op with
    | other text => cases known
    | equal =>
      have own := all expected
      exact ⟨rfl, by simpa [compare', compareString, Operator.holds, OutputValue.format] using own⟩
    | notEqual =>
      have different : expected ++ "\x7b" ≠ expected := (lt_brace expected).ne'
      simp [Operator.holds, different] at there
    | greater => simp [Operator.holds, lt_brace expected] at there
    | greaterEqual => simp [Operator.holds, (lt_brace expected).le] at there
    | less =>
      have none : expected = "" := by
        by_contra more
        simp [Operator.holds, empty_lt more] at empty
      have own := all key
      rw [compare_text known (.inr (none ▸ floats.empty)), none, decide_eq_true rfl] at own
      simp [Operator.holds, (empty_lt some).not_gt] at own
    | lessEqual =>
      have least : "" ≤ expected := by
        by_cases none : expected = ""
        · exact none.ge
        · exact (empty_lt none).le
      simp [Operator.holds, least] at empty
  · rintro ⟨rfl, rfl⟩ t
    rfl

/-! ## Steps with a given value -/

/-- A value below the parts of a path. -/
def nest (parts : List (List Char)) (value : OutputValue) : OutputValue :=
  parts.foldr (fun part value => .map [(String.ofList part, value)]) value

/-- A step whose status is a text, and whose output has it at the path of the field. -/
def stepWith (field t : String) : StepState where
  id := ""
  status := t
  output :=
    match (outputPath field).map fun path => nest (path.splitOn '.') (.text t) with
    | some (.map entries) => entries
    | _ => []

private theorem getNestedValue_stepWith {field : String} {path : List Char}
    (found : outputPath field = some path) (t : String) :
    getNestedValue (stepWith field t).output path = .text t := by
  have walk (parts : List (List Char)) :
      parts.foldl OutputValue.get (nest parts (.text t)) = .text t := by
    induction parts with
    | nil => rfl
    | cons part parts ih =>
      have step : (nest (part :: parts) (.text t)).get part = nest parts (.text t) := by
        simp [nest, OutputValue.get]
      rw [List.foldl_cons, step, ih]
  have output : OutputValue.map (stepWith field t).output = nest (path.splitOn '.') (.text t) := by
    unfold stepWith
    rw [found, Option.map_some]
    cases parts : path.splitOn '.' with
    | nil => exact absurd parts (List.splitOn_ne_nil _ _)
    | cons part parts => rfl
  unfold getNestedValue
  rw [output]
  exact walk _

theorem matchStep_stepWith (field t : String) (op : Operator) (expected : String) :
    matchStep floats (stepWith field t) field op expected = compare' floats (.text t) op expected := by
  unfold matchStep
  by_cases status : field = "status"
  · rw [if_pos status]
    rfl
  · rw [if_neg status]
    cases found : outputPath field with
    | none => rfl
    | some path =>
      dsimp only
      rw [getNestedValue_stepWith found]

/-- The text that a step is counted by. -/
def CountCondition.key (c : CountCondition) : String :=
  if c.among = .steps ∧ c.field ∈ countedStatuses then c.field else String.ofList c.number

private theorem key_plain (valid : c.Valid) : c.key ≠ "" ∧ '{' ∉ c.key.toList := by
  unfold CountCondition.key
  by_cases status : c.among = .steps ∧ c.field ∈ countedStatuses
  · rw [if_pos status]
    have all : ∀ text ∈ countedStatuses, text ≠ "" ∧ '{' ∉ text.toList := by decide
    exact all _ status.2
  · rw [if_neg status]
    obtain ⟨some, digits⟩ := valid.number
    refine ⟨fun none => some ?_, fun held => ?_⟩
    · rw [← String.toList_ofList (l := c.number), none]
      rfl
    · rw [String.toList_ofList] at held
      cases digits _ held

private theorem counts_stepWith (t : String) :
    c.parsed.counts floats c.among (stepWith c.field t) = decide (t = c.key) := by
  have field : c.parsed.field = c.field := rfl
  unfold Condition.counts CountCondition.key
  rw [field]
  by_cases status : c.among = .steps ∧ c.field ∈ countedStatuses
  · rw [if_pos status, if_pos status]
    rfl
  · rw [if_neg status, if_neg status]
    exact congrArg ConditionResult.satisfied (matchStep_stepWith c.field t .equal _)

private theorem holds_stepWith (t : String) :
    c.holds floats (stepWith c.field t) = (compare' floats (.text t) c.operator c.expected).satisfied :=
  congrArg ConditionResult.satisfied (matchStep_stepWith c.field t _ _)

/-- Steps are counted as they should be exactly if the inner comparison is one of equality with the
text that they are counted by. -/
theorem counts_eq_holds_iff (floats : Floats) (valid : c.Valid) :
    (∀ t, c.parsed.counts floats c.among (stepWith c.field t) = c.holds floats (stepWith c.field t)) ↔
      c.operator = .equal ∧ c.expected = c.key := by
  obtain ⟨some, plain⟩ := key_plain valid
  refine Iff.trans (forall_congr' fun t => ?_) (compare_eq_iff floats valid.operator some plain)
  rw [counts_stepWith, holds_stepWith]
  exact eq_comm

private theorem counts_eq_holds (equal : c.operator = .equal) (same : c.expected = c.key)
    (s : StepState) :
    c.parsed.counts floats c.among s = c.holds floats s := by
  have field : c.parsed.field = c.field := rfl
  unfold Condition.counts CountCondition.holds
  rw [equal, same, CountCondition.key, field]
  by_cases status : c.among = .steps ∧ c.field ∈ countedStatuses
  · rw [if_pos status, if_pos status]
    have other : ∀ text ∈ countedStatuses, text ≠ "status" ∧ outputPath text = none := by decide
    obtain ⟨plain, none⟩ := other _ status.2
    unfold matchStep
    rw [if_neg plain, none]
    rfl
  · rw [if_neg status, if_neg status]
    rfl

/-- There are as many such steps in some context. -/
theorem exists_context (c : CountCondition) (s : StepState) (leaf : s.children = []) (n : Nat) :
    ∃ ctx : ConditionContext, ctx.aggregated c.among (String.ofList c.step) = some (List.replicate n s) := by
  have none : s.descendants = [] := by
    obtain ⟨id, status, output, children⟩ := s
    cases leaf
    rfl
  have below (n : Nat) : collectDescendants (List.replicate n s) = List.replicate n s := by
    induction n with
    | zero => rfl
    | succ n ih => rw [List.replicate_succ, collectDescendants, none, List.nil_append, ih]
  let parent : StepState :=
    { id := String.ofList c.step, status := "", children := List.replicate n s }
  have resolved (ctx : ConditionContext) (current : ctx.currentStep = String.ofList c.step) :
      ctx.resolve (String.ofList c.step) = String.ofList c.step := by
    unfold ConditionContext.resolve
    rw [current, ite_self]
  cases among : c.among with
  | children =>
    refine ⟨{ steps := [(String.ofList c.step, parent)], currentStep := String.ofList c.step, unique := by simp }, ?_⟩
    rw [ConditionContext.aggregated, resolved _ rfl]
    simp [parent]
  | descendants =>
    refine ⟨{ steps := [(String.ofList c.step, parent)], currentStep := String.ofList c.step, unique := by simp }, ?_⟩
    rw [ConditionContext.aggregated, resolved _ rfl]
    simp [parent, StepState.descendants, below]
  | steps =>
    have unique : (((List.range n).map fun i => (String.ofList (List.replicate i 'a'), s)).map Prod.fst).Nodup := by
      rw [List.map_map]
      refine List.nodup_range.map fun i j same => ?_
      have lists := congrArg String.toList same
      simpa using congrArg List.length lists
    refine ⟨{ steps := _, currentStep := "", unique }, ?_⟩
    simp [ConditionContext.aggregated, Function.comp_def, List.map_const']

/-! ## Exact conditions -/

/-- The comparison comes out the same for every number of steps. -/
def CountCondition.constant (c : CountCondition) : Prop :=
  c.amount = 0 ∧ (c.cmp = .greaterEqual ∨ c.cmp = .less)

private theorem exists_differs (known : c.cmp.known = true) (varies : ¬c.constant) :
    ∃ n : Nat, c.cmp.holds (n : Int) (c.amount : Int) ≠ c.cmp.holds (0 : Int) (c.amount : Int) := by
  have more : c.cmp = .greaterEqual ∨ c.cmp = .less → 0 < c.amount := fun either =>
    Nat.pos_of_ne_zero fun none => varies ⟨none, either⟩
  cases cmp : c.cmp with
  | other text =>
    rw [cmp] at known
    cases known
  | equal =>
    by_cases none : c.amount = 0
    · exact ⟨1, by simp [Operator.holds, none]⟩
    · refine ⟨c.amount, ?_⟩
      simp only [Operator.holds]
      grind
  | notEqual =>
    by_cases none : c.amount = 0
    · exact ⟨1, by simp [Operator.holds, none]⟩
    · refine ⟨c.amount, ?_⟩
      simp only [Operator.holds]
      grind
  | greater => exact ⟨c.amount + 1, by simp [Operator.holds]⟩
  | lessEqual => exact ⟨c.amount + 1, by simp [Operator.holds]⟩
  | greaterEqual =>
    have := more (.inl cmp)
    refine ⟨c.amount, ?_⟩
    simp [Operator.holds]
    omega
  | less =>
    have := more (.inr cmp)
    refine ⟨c.amount, ?_⟩
    simp [Operator.holds]
    omega

private theorem constant_holds (constant : c.constant) (n m : Nat) :
    c.cmp.holds (n : Int) (c.amount : Int) = c.cmp.holds (m : Int) (c.amount : Int) := by
  obtain ⟨none, cmp | cmp⟩ := constant
  · simp [cmp, none, Operator.holds]
  · have below (k : Nat) : ¬(k : Int) < 0 := by omega
    simp [cmp, none, Operator.holds, below]

/-- A condition on a number of steps is evaluated right: for all steps that it aggregates over, it
is satisfied as the number of those for which the inner comparison holds stands to the number. -/
def CountCondition.Right (floats : Floats) (system : System) (c : CountCondition) : Prop :=
  ∀ ctx steps, ctx.aggregated c.among (String.ofList c.step) = some steps →
    ∃ reason, evaluateCondition floats system c.text ctx =
      .ok { satisfied := c.cmp.holds (steps.countP (c.holds floats) : Int) (c.amount : Int), reason }

private theorem right_of_counts (valid : c.Valid) (fits : c.amount ≤ 9223372036854775807)
    (same : ∀ steps : List StepState,
      c.cmp.holds (steps.countP (c.parsed.counts floats c.among) : Int) (c.amount : Int) =
      c.cmp.holds (steps.countP (c.holds floats) : Int) (c.amount : Int)) : c.Right floats system := by
  intro ctx steps found
  rw [evaluate_text valid found, if_pos fits]
  refine ⟨(compareInt (steps.countP (c.parsed.counts floats c.among)) c.cmp c.amount).reason, ?_⟩
  rw [← same steps]
  rfl

end Counting

/-- Conditions on a number of steps are evaluated right exactly if the number fits, and it does not
matter how many steps are counted, or the inner comparison is one of equality with the number itself
(among all steps and with a status as the field, with that status). -/
theorem evaluate_count_iff (floats : Floats) (system : System) (c : CountCondition)
    (valid : c.Valid) :
    c.Right floats system ↔
      c.amount ≤ 9223372036854775807 ∧ (c.constant ∨ c.operator = .equal ∧ c.expected = c.key) := by
  constructor
  · intro right
    have outcome {steps : List StepState} {ctx : ConditionContext}
        (found : ctx.aggregated c.among (String.ofList c.step) = some steps) :
        c.amount ≤ 9223372036854775807 ∧
          c.cmp.holds (steps.countP (c.parsed.counts floats c.among) : Int) (c.amount : Int) =
            c.cmp.holds (steps.countP (c.holds floats) : Int) (c.amount : Int) := by
      obtain ⟨reason, result⟩ := right ctx steps found
      rw [evaluate_text valid found] at result
      by_cases fits : c.amount ≤ 9223372036854775807
      · rw [if_pos fits] at result
        exact ⟨fits, congrArg ConditionResult.satisfied (Except.ok.inj result)⟩
      · rw [if_neg fits] at result
        cases result
    obtain ⟨ctx, found⟩ := exists_context c (stepWith c.field "") rfl 0
    refine ⟨(outcome found).1, ?_⟩
    by_cases constant : c.constant
    · exact .inl constant
    · refine .inr ((counts_eq_holds_iff floats valid).mp fun t => ?_)
      by_contra different
      obtain ⟨n, differs⟩ := exists_differs valid.cmp constant
      obtain ⟨ctx, found⟩ := exists_context c (stepWith c.field t) rfl n
      obtain ⟨-, same⟩ := outcome found
      rw [List.countP_replicate, List.countP_replicate] at same
      cases counted : c.parsed.counts floats c.among (stepWith c.field t) with
      | true =>
        have not : c.holds floats (stepWith c.field t) = false := by
          rw [counted] at different
          exact Bool.eq_false_of_not_eq_true fun yes => different yes.symm
        rw [counted, not] at same
        exact differs same
      | false =>
        have yes : c.holds floats (stepWith c.field t) = true := by
          rw [counted] at different
          exact Bool.eq_true_of_not_eq_false fun not => different not.symm
        rw [counted, yes] at same
        exact differs same.symm
  · rintro ⟨fits, constant | ⟨equal, same⟩⟩
    · exact right_of_counts valid fits fun steps => constant_holds constant _ _
    · refine right_of_counts valid fits fun steps => ?_
      rw [List.countP_congr fun s _ => by rw [counts_eq_holds equal same]]

/-- Numerals as numbers. -/
def numerals : Floats where
  Number := Nat
  parseFloat s :=
    if s.toList ≠ [] ∧ s.toList.all Char.isDigit then
      some (s.toList.foldl (fun n d => n * 10 + (d.toNat - '0'.toNat)) 0)
    else none
  holds actual op expected := op.holds actual expected
  format := toString
  empty := rfl
  brace := by
    intro s held
    have other : ¬(s.toList ≠ [] ∧ s.toList.all Char.isDigit = true) := by
      rintro ⟨-, all⟩
      cases List.all_eq_true.mp all _ held
    exact if_neg other

def emptySystem : System where
  exists' := fun _ => false
  getenv := fun _ => ""

/-- `among(x).count(field == 'complete') >= number`. -/
def countComplete (among : AggregateOver) (field : String) (number : Char) : CountCondition where
  among := among
  step := "x".toList
  path := [field.toList]
  operator := .equal
  value := "'complete'".toList
  cmp := .greaterEqual
  number := [number]
  beforeOperator := [' ']
  afterOperator := [' ']
  beforeCmp := [' ']
  afterCmp := [' ']

theorem countComplete_valid {among : AggregateOver} {field : String} {number : Char}
    (word : Word field.toList)
    (digit : number.isDigit = true) : (countComplete among field number).Valid := by
  have space : Gap [' '] := by
    intro d held
    rw [List.mem_singleton.mp held]
    decide
  have step : Word "x".toList := ⟨by decide, List.all_eq_true.mp (by decide)⟩
  have value : "'complete'".toList ≠ [] ∧ '\n' ∉ "'complete'".toList := ⟨by decide, by decide⟩
  exact
    { step := step
      path := ⟨by simp [countComplete], fun part held => List.mem_singleton.mp held ▸ word⟩
      field := fun name same => by simp [countComplete] at same
      operator := rfl
      value := value
      valueStart := ⟨stops_cons (by decide), fun _ => stops_cons (by decide)⟩
      valueEnd := stops_cons (by decide)
      cmp := rfl
      number := ⟨by simp [countComplete], by simpa [countComplete] using digit⟩
      gaps := ⟨space, space, space, space⟩ }

theorem evaluate_count_twoComplete :
    (countComplete .steps "complete" '2').Right numerals emptySystem := by
  have valid : (countComplete .steps "complete" '2').Valid :=
    countComplete_valid ⟨by decide, List.all_eq_true.mp (by decide)⟩ (by decide)
  have two : (countComplete .steps "complete" '2').amount = 2 := by rfl
  exact (evaluate_count_iff numerals emptySystem _ valid).mpr ⟨by omega, .inr ⟨rfl, by rfl⟩⟩

/-- A step with a child that is complete. -/
def oneChild : ConditionContext where
  steps := [("x", { id := "x", status := "in_progress", children := [{ id := "x.1", status := "complete" }] })]
  currentStep := "gate"
  unique := by decide

/-- No child has the status `1`. -/
theorem evaluate_count_misses :
    ¬(countComplete .children "status" '1').Right numerals emptySystem := by
  intro right
  have valid : (countComplete .children "status" '1').Valid :=
    countComplete_valid ⟨by decide, List.all_eq_true.mp (by decide)⟩ (by decide)
  have one : (countComplete .children "status" '1').amount = 1 := by rfl
  let child : StepState := { id := "x.1", status := "complete" }
  obtain ⟨reason, result⟩ := right oneChild [child] rfl
  rw [evaluate_text valid rfl, if_pos (by omega)] at result
  have satisfied := congrArg ConditionResult.satisfied (Except.ok.inj result)
  have counted : [child].countP ((countComplete .children "status" '1').parsed.counts numerals .children) = 0 := by
    decide
  have held : [child].countP ((countComplete .children "status" '1').holds numerals) = 1 := by
    decide
  have not : (compareInt ([child].countP
      ((countComplete .children "status" '1').parsed.counts numerals .children)) .greaterEqual 1).satisfied =
        false := by
    rw [counted]
    rfl
  rw [one] at satisfied
  have holds := not.symm.trans satisfied
  rw [held] at holds
  cases holds

end Beads.Formula
