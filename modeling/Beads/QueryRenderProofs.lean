import Beads.QueryLiteralProofs
import Beads.QuerySyntaxProofs

/-! The rendering of an expression is parsed back to the expression. Words, numbers and durations
are read the same before a character that cannot go on a word, so a token that is read alone is
read in a rendering too; the parentheses then fix the tree. -/
namespace Beads.Query
open Lib

/-! ## Tokens before a stop -/

namespace Lexer
variable {c : Cursor} {l after : List Char} {pos : Nat}

/-- What follows does not go on a word. -/
def Stop (after : List Char) : Prop :=
  ∀ d, after.head? = some d → isIdentChar d = false ∧ d ≠ '\x00'

/-- A class of characters that go on a word. -/
def InWord (p : Char → Bool) : Prop := ∀ d, isIdentChar d = false → p d = false

private theorem inWord_isDigit : InWord isDigit := by
  intro d other
  simp only [isIdentChar, Bool.or_eq_false_iff] at other
  exact other.1.2

theorem inWord_suffix : InWord isDurationSuffix := by
  intro d other
  by_contra suffix
  rw [Bool.not_eq_false] at suffix
  simp only [isDurationSuffix, List.mem_cons, List.not_mem_nil, or_false,
    decide_eq_true_eq] at suffix
  rcases suffix with rfl | rfl | rfl | rfl | rfl | rfl | rfl | rfl | rfl | rfl <;> revert other <;> decide

theorem inWord_isIdentChar : InWord isIdentChar := fun _ other => other

theorem takeWhile_stop {p : Char → Bool} (inWord : InWord p) (stop : Stop after) :
    (l ++ after).takeWhile p = l.takeWhile p := by
  induction l with
  | nil =>
    cases after with
    | nil => rfl
    | cons d after => simp [inWord d (stop d rfl).1]
  | cons d l ih => rw [List.cons_append, List.takeWhile_cons, List.takeWhile_cons, ih]

/-- Looking at the next character tells the same with and without what follows. -/
theorem peek_stop {p : Char → Bool} (inWord : InWord p) (stop : Stop after) (l : List Char)
    (pos pos' : Nat) :
    p (peek ⟨pos, l ++ after⟩) = p (peek ⟨pos', l⟩) := by
  cases l with
  | cons d l => rfl
  | nil =>
    have nul : p '\x00' = false := inWord _ (by decide)
    cases after with
    | nil => rfl
    | cons d after => simp [peek, inWord d (stop d rfl).1, nul]

/-- The result of a lexer in a longer text. -/
def frame (pos : Nat) (after : List Char) (r : Token × Cursor) : Token × Cursor :=
  ({ r.1 with pos := pos }, ⟨pos + r.2.pos, r.2.rest ++ after⟩)

theorem readIdent_stop (stop : Stop after) (l : List Char) (pos : Nat) :
    readIdent ⟨pos, l ++ after⟩ = frame pos after (readIdent ⟨0, l⟩) := by
  have word := takeWhile_stop (l := l) inWord_isIdentChar stop
  have short : (l.takeWhile isIdentChar).length ≤ l.length := (List.takeWhile_prefix _).length_le
  simp [readIdent, frame, Cursor.skip, word, List.drop_append_of_le_length short]

/-- `readNumberOrDuration` behind the digits. -/
def afterDigits (c : Cursor) (hadSign : Bool) (value : List Char) (after : Cursor) :
    Except LexError (Token × Cursor) :=
  let r := peek after
  if r ≠ '\x00' && isDurationSuffix r && !isIdentChar (peek (after.skip 1)) then
    .ok (⟨.duration, String.ofList (value ++ [r]), c.pos⟩, after.skip 1)
  else if !hadSign && r ≠ '\x00' && isIdentChar r then .ok (readIdent c)
  else .ok (⟨.number, String.ofList value, c.pos⟩, if after.rest.head? = some '\x00' then after.skip 1 else after)

theorem readDigits_eq (c : Cursor) (hadSign : Bool) (unsigned : Cursor) :
    readDigits c hadSign unsigned =
    if !isDigit (peek unsigned) then .error (.expectedDigit unsigned.pos)
    else afterDigits c hadSign (c.rest.take (unsigned.pos - c.pos) ++ unsigned.rest.takeWhile isDigit)
      (unsigned.skip (unsigned.rest.takeWhile isDigit).length) := rfl

theorem afterDigits_cons (c : Cursor) (hadSign : Bool) (value : List Char) (k : Nat) (d : Char)
    (rest : List Char) :
    afterDigits c hadSign value ⟨k, d :: rest⟩ =
      if (d ≠ '\x00' && isDurationSuffix d && !isIdentChar (peek ⟨k + 1, rest⟩)) = true then
        .ok (⟨.duration, String.ofList (value ++ [d]), c.pos⟩, ⟨k + 1, rest⟩)
      else if (!hadSign && d ≠ '\x00' && isIdentChar d) = true then .ok (readIdent c)
      else
        .ok (⟨.number, String.ofList value, c.pos⟩, if some d = some '\x00' then ⟨k + 1, rest⟩ else ⟨k, d :: rest⟩) :=
  rfl

/-- Behind the digits there is a character of the text, or what follows it. -/
theorem afterDigits_stop (stop : Stop after) (hadSign : Bool) (value : List Char) (k : Nat)
    (rest : List Char)
    {r : Token × Cursor} (ok : afterDigits ⟨0, l⟩ hadSign value ⟨k, rest⟩ = .ok r) :
    afterDigits ⟨pos, l ++ after⟩ hadSign value ⟨pos + k, rest ++ after⟩ = .ok (frame pos after r) := by
  cases rest with
  | nil =>
    have suffix := peek_stop inWord_suffix stop [] (pos + k) k
    have word := peek_stop inWord_isIdentChar stop [] (pos + k) k
    have kept : ([] ++ after).head? ≠ some '\x00' := fun nul => (stop _ nul).2 rfl
    have none : peek ⟨k, []⟩ = '\x00' := rfl
    rw [none, nul_foreign.1] at suffix
    rw [none, nul_foreign.2] at word
    have number : afterDigits ⟨0, l⟩ hadSign value ⟨k, []⟩ = .ok
        (⟨.number, String.ofList value, 0⟩, ⟨k, []⟩) := by
      simp [afterDigits, none, nul_foreign]
    rw [number] at ok
    cases ok
    simp only [afterDigits, suffix, word, if_neg kept]
    simp [frame]
  | cons d rest =>
    have beyond := peek_stop inWord_isIdentChar stop rest (pos + k + 1) (k + 1)
    have ident := readIdent_stop stop l pos
    rw [afterDigits_cons] at ok
    rw [List.cons_append, afterDigits_cons, beyond]
    split at ok
    · next duration =>
      rw [if_pos duration]
      cases ok
      simp [frame, Nat.add_assoc]
    · next other =>
      rw [if_neg other]
      split at ok
      · next word =>
        rw [if_pos word, ident]
        cases ok
        rfl
      · next number =>
        rw [if_neg number]
        cases ok
        by_cases nul : d = '\x00'
        · simp [frame, nul, Nat.add_assoc]
        · simp [frame, nul]

private theorem readDigits_stop (stop : Stop after) {hadSign : Bool} {k : Nat} (sign : k ≤ l.length)
    {r : Token × Cursor} (ok : readDigits ⟨0, l⟩ hadSign ⟨k, l.drop k⟩ = .ok r) :
    readDigits ⟨pos, l ++ after⟩ hadSign ⟨pos + k, l.drop k ++ after⟩ = .ok (frame pos after r) := by
  have digits := takeWhile_stop (l := l.drop k) inWord_isDigit stop
  have short : ((l.drop k).takeWhile isDigit).length ≤ (l.drop k).length :=
    (List.takeWhile_prefix _).length_le
  have taken : (l ++ after).take k = l.take k := List.take_append_of_le_length sign
  rw [readDigits_eq] at ok ⊢
  rw [peek_stop inWord_isDigit stop _ _ k]
  by_cases digit : (!isDigit (peek ⟨k, l.drop k⟩)) = true
  · rw [if_pos digit] at ok
    cases ok
  · rw [if_neg digit] at ok ⊢
    simp only [Cursor.skip, digits, List.drop_append_of_le_length short, Nat.add_sub_cancel_left,
      Nat.sub_zero, taken, Nat.add_assoc] at ok ⊢
    exact afterDigits_stop stop hadSign _ _ _ ok

private theorem readNumberOrDuration_stop (stop : Stop after) {d : Char} {r : Token × Cursor}
    (ok : readNumberOrDuration ⟨0, d :: l⟩ = .ok r) :
    readNumberOrDuration ⟨pos, d :: l ++ after⟩ = .ok (frame pos after r) := by
  unfold readNumberOrDuration at ok ⊢
  have first : peek ⟨pos, d :: l ++ after⟩ = peek ⟨0, d :: l⟩ := rfl
  rw [first]
  split at ok
  · next signed =>
    rw [if_pos signed]
    exact readDigits_stop (l := d :: l) (k := 1) stop (by simp) ok
  · next unsigned =>
    rw [if_neg unsigned]
    exact readDigits_stop (l := d :: l) (k := 0) stop (by simp) ok

/-! ## Tokens of words -/

/-- What a number starts with. -/
def numberStart (d : Char) : Bool := isDigit d || d = '-' || d = '+'

/-- The characters that start other tokens. -/
def symbols : List Char := ['\x00', '(', ')', ',', '=', '!', '<', '>', '"', '\'']

theorem not_mem_symbols {p : Char → Bool} {d : Char} (held : p d = true)
    (none : symbols.all (! p ·) = true) :
    d ∉ symbols := by
  intro listed
  have := List.all_eq_true.mp none d listed
  rw [held] at this
  cases this

theorem tokenAt_plain {d : Char} {rest : List Char} (plain : d ∉ symbols) :
    tokenAt ⟨pos, d :: rest⟩ = if numberStart d then readNumberOrDuration ⟨pos, d :: rest⟩
      else if isIdentStart d then .ok (readIdent ⟨pos, d :: rest⟩) else .error (.unexpectedCharacter d pos) := by
  simp only [symbols, List.mem_cons, List.not_mem_nil, or_false, not_or] at plain
  obtain ⟨h0, h1, h2, h3, h4, h5, h6, h7, h8, h9⟩ := plain
  simp only [tokenAt, numberStart]
  rw [if_neg h0, if_neg h1, if_neg h2, if_neg h3, if_neg h4, if_neg h5, if_neg h6, if_neg h7,
    if_neg (not_or.mpr ⟨h8, h9⟩)]
  rfl

theorem tokenAt_number {d : Char} {rest : List Char} (start : numberStart d = true) :
    tokenAt ⟨pos, d :: rest⟩ = readNumberOrDuration ⟨pos, d :: rest⟩ := by
  rw [tokenAt_plain (not_mem_symbols start (by decide)), if_pos start]

theorem tokenAt_ident {d : Char} {rest : List Char} (start : isIdentStart d = true)
    (other : numberStart d = false) :
    tokenAt ⟨pos, d :: rest⟩ = .ok (readIdent ⟨pos, d :: rest⟩) := by
  rw [tokenAt_plain (not_mem_symbols start (by decide)), other, if_neg Bool.false_ne_true,
    if_pos start]

/-- The types of the tokens that values are written with unquoted. -/
def Wordy (type : TokenType) : Prop := type = .ident ∨ type = .number ∨ type = .duration

private theorem operator_not_wordy {plain withEquals : TokenType} {text : String} {start : Nat}
    (first : ¬ Wordy plain)
    (second : ¬ Wordy withEquals) : ¬ Wordy (operator plain withEquals text start c).1.type := by
  unfold operator
  split
  · exact second
  · exact first

section Symbols
variable {rest : List Char}

private theorem tokenAt_less :
    tokenAt ⟨pos, '<' :: rest⟩ = .ok (operator .less .lessEq "<" pos ⟨pos + 1, rest⟩) := rfl

private theorem tokenAt_greater :
    tokenAt ⟨pos, '>' :: rest⟩ = .ok (operator .greater .greaterEq ">" pos ⟨pos + 1, rest⟩) := rfl

private theorem tokenAt_symbol_not_wordy {d : Char} (symbol : d ∈ symbols) {r : Token × Cursor}
    (ok : tokenAt ⟨pos, d :: rest⟩ = .ok r) : ¬ Wordy r.1.type := by
  simp only [symbols, List.mem_cons, List.not_mem_nil, or_false] at symbol
  rcases symbol with rfl | rfl | rfl | rfl | rfl | rfl | rfl | rfl | quote
  · cases ok
    simp [Wordy]
  · cases ok
    simp [Wordy]
  · cases ok
    simp [Wordy]
  · cases ok
    simp [Wordy]
  · cases ok
    simp [Wordy]
  · change (if peek ⟨pos + 1, rest⟩ = '=' then Except.ok _ else .error _) = .ok r at ok
    split at ok
    · cases ok
      simp [Wordy]
    · cases ok
  · cases ok
    exact operator_not_wordy (by simp [Wordy]) (by simp [Wordy])
  · cases ok
    exact operator_not_wordy (by simp [Wordy]) (by simp [Wordy])
  · have read : ∃ quote start value pos, readString quote start value pos rest = .ok r := by
      rcases quote with rfl | rfl
      · exact ⟨_, _, _, _, ok⟩
      · exact ⟨_, _, _, _, ok⟩
    obtain ⟨_, _, _, _, read⟩ := read
    rw [(readString_passes read).1]
    simp [Wordy]

end Symbols

/-- A word or a number is what its first character says. -/
theorem tokenAt_wordy {r : Token × Cursor} (ok : tokenAt c = .ok r) (wordy : Wordy r.1.type) :
    ∃ d rest, c.rest = d :: rest ∧ ((numberStart d = true ∧ readNumberOrDuration c = .ok r) ∨
      (numberStart d = false ∧ isIdentStart d = true ∧ readIdent c = r)) := by
  obtain ⟨pos, rest⟩ := c
  cases rest with
  | nil =>
    cases ok
    simp [Wordy] at wordy
  | cons d rest =>
    refine ⟨d, rest, rfl, ?_⟩
    by_cases number : numberStart d = true
    · rw [tokenAt_number number] at ok
      exact .inl ⟨number, ok⟩
    · rw [Bool.not_eq_true] at number
      by_cases word : isIdentStart d = true
      · rw [tokenAt_ident word number] at ok
        exact .inr ⟨number, word, Except.ok.inj ok⟩
      · exfalso
        by_cases plain : d ∉ symbols
        · rw [tokenAt_plain plain, number, if_neg Bool.false_ne_true, if_neg word] at ok
          cases ok
        · exact tokenAt_symbol_not_wordy (not_not.mp plain) ok wordy

/-- A word or a number is read the same in a longer text. -/
theorem tokenAt_stop (stop : Stop after) (pos : Nat) {r : Token × Cursor}
    (ok : tokenAt ⟨0, l⟩ = .ok r) (wordy : Wordy r.1.type) :
    tokenAt ⟨pos, l ++ after⟩ = .ok (frame pos after r) := by
  obtain ⟨d, rest, shape, ⟨number, read⟩ | ⟨other, word, read⟩⟩ := tokenAt_wordy ok wordy
  · cases shape
    rw [List.cons_append, tokenAt_number number]
    exact readNumberOrDuration_stop stop read
  · cases shape
    rw [List.cons_append, tokenAt_ident word other, ← List.cons_append, readIdent_stop stop, read]

/-! ## What a token takes -/

/-- The characters of words and numbers. -/
def wordChar (d : Char) : Bool := isIdentChar d || d = '+'

/-- The token stands at the position of the lexer, its value comes off the front of the text, and
a NUL behind a number goes with it. -/
structure Takes (c : Cursor) (r : Token × Cursor) : Prop where
  pos : r.1.pos = c.pos
  split : c.rest = r.1.value.toList ++ r.2.rest ∨ c.rest = r.1.value.toList ++ '\x00' :: r.2.rest
  chars : ∀ d ∈ r.1.value.toList, wordChar d = true

theorem takeWhile_append_drop (p : Char → Bool) (l : List Char) :
    l.takeWhile p ++ l.drop (l.takeWhile p).length = l := by
  conv_lhs => rw [List.prefix_iff_eq_take.mp (List.takeWhile_prefix p (l := l))]
  rw [List.length_take, Nat.min_eq_left (List.takeWhile_prefix p).length_le, List.take_append_drop]

theorem takes_readIdent : Takes c (readIdent c) where
  pos := rfl
  split := .inl (by
    simp only [readIdent, String.toList_ofList, Cursor.skip]
    exact (takeWhile_append_drop isIdentChar c.rest).symm)
  chars := by
    intro d held
    rw [readIdent, String.toList_ofList] at held
    simp [wordChar, (List.mem_takeWhile_imp held)]

private theorem takes_afterDigits {hadSign : Bool} {value : List Char} {rest : Cursor}
    {r : Token × Cursor}
    (split : c.rest = value ++ rest.rest) (chars : ∀ d ∈ value, wordChar d = true)
    (ok : afterDigits c hadSign value rest = .ok r) : Takes c r := by
  obtain ⟨k, rest⟩ := rest
  cases rest with
  | nil =>
    have number : afterDigits c hadSign value ⟨k, []⟩ = .ok
        (⟨.number, String.ofList value, c.pos⟩, ⟨k, []⟩) := by
      simp [afterDigits, peek, nul_foreign]
    rw [number] at ok
    cases ok
    exact ⟨rfl, .inl (by simpa using split), by simpa using chars⟩
  | cons d rest =>
    rw [afterDigits_cons] at ok
    split at ok
    · next duration =>
      cases ok
      simp only [Bool.and_eq_true] at duration
      have word : isIdentChar d = true := by
        by_contra other
        rw [inWord_suffix d (Bool.not_eq_true _ ▸ other)] at duration
        simp at duration
      refine ⟨rfl, .inl (by simpa using split), ?_⟩
      rw [String.toList_ofList]
      exact List.forall_mem_append.mpr ⟨chars, by simp [wordChar, word]⟩
    · split at ok
      · cases ok
        exact takes_readIdent
      · cases ok
        refine ⟨rfl, ?_, by simpa using chars⟩
        by_cases nul : d = '\x00'
        · exact .inr (by simpa [nul] using split)
        · exact .inl (by simpa [nul] using split)

private theorem takes_readDigits {hadSign : Bool} {k : Nat} {r : Token × Cursor}
    (sign : ∀ d ∈ c.rest.take k, wordChar d = true)
    (ok : readDigits c hadSign (c.skip k) = .ok r) : Takes c r := by
  rw [readDigits_eq] at ok
  split at ok
  · cases ok
  · refine takes_afterDigits ?_ ?_ ok
    · simp only [Cursor.skip, Nat.add_sub_cancel_left]
      rw [List.append_assoc, takeWhile_append_drop, List.take_append_drop]
    · simp only [Cursor.skip, Nat.add_sub_cancel_left]
      refine List.forall_mem_append.mpr ⟨sign, ?_⟩
      intro d held
      have digit := List.mem_takeWhile_imp held
      simp [wordChar, isIdentChar, digit]

private theorem takes_tokenAt {r : Token × Cursor} (ok : tokenAt c = .ok r)
    (wordy : Wordy r.1.type) :
    Takes c r := by
  obtain ⟨d, rest, shape, ⟨number, read⟩ | ⟨-, -, read⟩⟩ := tokenAt_wordy ok wordy
  · unfold readNumberOrDuration at read
    split at read
    · next signed =>
      apply takes_readDigits _ read
      rw [peek, shape] at signed
      rw [shape]
      rcases signed with rfl | rfl <;> simp [wordChar, isIdentChar]
    · exact takes_readDigits (k := 0) (by simp) read
  · exact read ▸ takes_readIdent

theorem nextToken_of_head {d : Char} {rest : List Char} (other : isSpace d = false) :
    nextToken ⟨pos, d :: rest⟩ = tokenAt ⟨pos, d :: rest⟩ := by
  simp [nextToken, skipWhitespace, Cursor.skip, other]

theorem nextToken_space {rest : List Char} :
    nextToken ⟨pos, ' ' :: rest⟩ = nextToken ⟨pos + 1, rest⟩ := by
  have space : isSpace ' ' = true := by decide
  simp only [nextToken, skipWhitespace, Cursor.skip, List.takeWhile_cons, space, if_true,
    List.length_cons, List.drop_succ_cons]
  rw [Nat.add_right_comm, Nat.add_assoc]

/-- The bytes of a token text are the characters of a word or a number, and are read from the
start. -/
theorem tokenText_chars {type : TokenType} {text : String} (token : TokenText type text)
    (wordy : Wordy type) :
    tokenAt ⟨0, byteChars text.toList⟩ =
        .ok (⟨type, String.ofList (byteChars text.toList), 0⟩, ⟨(byteChars text.toList).length, []⟩) ∧
      ∀ d ∈ byteChars text.toList, wordChar d = true := by
  have read : tokenAt (skipWhitespace ⟨0, byteChars text.toList⟩) = _ := token
  have takes := takes_tokenAt read wordy
  have start : skipWhitespace ⟨0, byteChars text.toList⟩ = ⟨0, byteChars text.toList⟩ := by
    have spaces := takes.pos
    simp only [skipWhitespace, Cursor.skip, Nat.zero_add] at spaces ⊢
    rw [← spaces]
    rfl
  have chars := takes.chars
  rw [start, length_utf8] at read
  rw [String.toList_ofList] at chars
  exact ⟨read, chars⟩

/-- In a rendering, the token is read up to what follows it. -/
theorem nextToken_tokenText {type : TokenType} {text : String} (token : TokenText type text)
    (wordy : Wordy type) (stop : Stop after) (pos : Nat) :
    nextToken ⟨pos, byteChars text.toList ++ after⟩ =
      .ok (⟨type, String.ofList (byteChars text.toList), pos⟩, ⟨pos + (byteChars text.toList).length, after⟩) := by
  obtain ⟨read, chars⟩ := tokenText_chars token wordy
  have framed := tokenAt_stop stop pos read wordy
  obtain ⟨d, rest, shape, -⟩ := tokenAt_wordy read wordy
  simp only at shape
  have space : isSpace d = false := by
    by_contra spaced
    rw [Bool.not_eq_false] at spaced
    have word := chars d (shape ▸ List.mem_cons_self)
    simp only [isSpace, List.mem_cons, List.not_mem_nil, or_false, decide_eq_true_eq] at spaced
    rcases spaced with rfl | rfl | rfl | rfl | rfl | rfl | rfl | rfl <;> revert word <;> decide
  rw [shape] at framed ⊢
  rw [List.cons_append] at framed ⊢
  rw [nextToken_of_head space, framed]
  rfl

end Lexer

/-! ## Operators and keywords -/

section Symbols
open Lexer
variable {pos : Nat} {rest : List Char}

/-- The token of an operator. -/
def ComparisonOp.token : ComparisonOp → TokenType
  | .equals => .equals
  | .notEquals => .notEquals
  | .less => .less
  | .lessEq => .lessEq
  | .greater => .greater
  | .greaterEq => .greaterEq

private theorem comparison_token (op : ComparisonOp) : op.token.comparison? = some op := by
  cases op <;> rfl

private theorem nextToken_op (op : ComparisonOp) (other : rest.head? ≠ some '=') (pos : Nat) :
    nextToken ⟨pos, op.text.toList ++ rest⟩ = .ok (⟨op.token, op.text, pos⟩, ⟨pos + op.text.toList.length, rest⟩) := by
  have plain : peek ⟨pos + 1, rest⟩ ≠ '=' := fun same => other ((peek_eq_some (by decide)).mp same)
  have equals : peek ⟨pos + 1, '=' :: rest⟩ = '=' := rfl
  cases op with
  | equals => exact nextToken_of_head (by decide)
  | notEquals => exact nextToken_of_head (by decide)
  | less =>
    rw [show ComparisonOp.less.text.toList = ['<'] from rfl, List.singleton_append,
      nextToken_of_head (by decide), tokenAt_less, operator, if_neg plain]
    rfl
  | lessEq =>
    rw [show ComparisonOp.lessEq.text.toList = ['<', '='] from rfl, List.cons_append,
      List.singleton_append, nextToken_of_head (by decide), tokenAt_less, operator, if_pos equals]
    rfl
  | greater =>
    rw [show ComparisonOp.greater.text.toList = ['>'] from rfl, List.singleton_append,
      nextToken_of_head (by decide), tokenAt_greater, operator, if_neg plain]
    rfl
  | greaterEq =>
    rw [show ComparisonOp.greaterEq.text.toList = ['>', '='] from rfl, List.cons_append,
      List.singleton_append,
      nextToken_of_head (by decide), tokenAt_greater, operator, if_pos equals]
    rfl

private theorem nextToken_lParen :
    nextToken ⟨pos, '(' :: rest⟩ = .ok (⟨.lParen, "(", pos⟩, ⟨pos + 1, rest⟩) :=
  nextToken_of_head (by decide)

private theorem nextToken_rParen :
    nextToken ⟨pos, ')' :: rest⟩ = .ok (⟨.rParen, ")", pos⟩, ⟨pos + 1, rest⟩) :=
  nextToken_of_head (by decide)

theorem stop_space : Stop (' ' :: rest) := by
  intro d same
  cases same
  decide

private theorem stop_rParen : Stop (')' :: rest) := by
  intro d same
  cases same
  decide

private theorem stop_op (op : ComparisonOp) : Stop (op.text.toList ++ rest) := by
  intro d same
  cases op <;> cases same <;> decide

/-- A keyword before a space. -/
theorem nextToken_keyword {d : Char} {word : List Char} (start : isIdentStart d = true)
    (other : numberStart d = false)
    (space : isSpace d = false) (chars : (d :: word).all isIdentChar = true) :
    nextToken ⟨pos, d :: word ++ ' ' :: rest⟩ =
      .ok (⟨wordType (d :: word), String.ofList (d :: word), pos⟩, ⟨pos + (d :: word).length, ' ' :: rest⟩) := by
  have whole : (d :: word).takeWhile isIdentChar = d :: word :=
    List.takeWhile_eq_self_iff.mpr (List.all_eq_true.mp chars)
  rw [List.cons_append, nextToken_of_head space, tokenAt_ident start other, ← List.cons_append,
    readIdent_stop stop_space]
  simp only [readIdent, whole, frame, Cursor.skip, List.drop_length, List.nil_append, Nat.zero_add]

private theorem nextToken_and : nextToken ⟨pos, " AND ".toList ++ rest⟩ =
    .ok (⟨.and, "AND", pos + 1⟩, ⟨pos + 4, ' ' :: rest⟩) := by
  change nextToken ⟨pos, ' ' :: (['A', 'N', 'D'] ++ ' ' :: rest)⟩ = _
  rw [nextToken_space, nextToken_keyword (by decide) (by decide) (by decide) (by decide)]
  rfl

private theorem nextToken_or : nextToken ⟨pos, " OR ".toList ++ rest⟩ =
    .ok (⟨.or, "OR", pos + 1⟩, ⟨pos + 3, ' ' :: rest⟩) := by
  change nextToken ⟨pos, ' ' :: (['O', 'R'] ++ ' ' :: rest)⟩ = _
  rw [nextToken_space, nextToken_keyword (by decide) (by decide) (by decide) (by decide)]
  rfl

private theorem nextToken_not : nextToken ⟨pos, "NOT ".toList ++ rest⟩ =
    .ok (⟨.not, "NOT", pos⟩, ⟨pos + 3, ' ' :: rest⟩) := by
  change nextToken ⟨pos, ['N', 'O', 'T'] ++ ' ' :: rest⟩ = _
  rw [nextToken_keyword (by decide) (by decide) (by decide) (by decide)]
  rfl

end Symbols

/-! ## Renderings -/

namespace Node

/-- The characters that the lexer sees of a rendering. -/
def seenText : Node → List Char
  | .comparison c => byteChars c.field.toList ++ (c.op.text.toList ++ byteChars c.value.toList)
  | .and left right => '(' :: (left.seenText ++ (" AND ".toList ++ (right.seenText ++ [')'])))
  | .or left right => '(' :: (left.seenText ++ (" OR ".toList ++ (right.seenText ++ [')'])))
  | .not operand => "NOT ".toList ++ operand.seenText

private theorem byteChars_op (op : ComparisonOp) : byteChars op.text.toList = op.text.toList := by
  cases op <;> rfl

theorem byteChars_string (node : Node) : byteChars node.string.toList = node.seenText := by
  unfold string
  induction node with
  | comparison c =>
    simp only [render, seenText, String.toList_append, byteChars_append, byteChars_op,
      List.append_assoc]
  | and left right leftSeen rightSeen =>
    simp only [render, seenText, String.toList_append, byteChars_append, leftSeen, rightSeen,
      List.append_assoc]
    rfl
  | or left right leftSeen rightSeen =>
    simp only [render, seenText, String.toList_append, byteChars_append, leftSeen, rightSeen,
      List.append_assoc]
    rfl
  | not operand seen =>
    simp only [render, seenText, String.toList_append, byteChars_append, seen]
    rfl

/-- The expression with its texts as the lexer sees them. -/
def seen : Node → Node
  | .comparison c =>
    .comparison ⟨fieldName (String.ofList (byteChars c.field.toList)), c.op, String.ofList (byteChars c.value.toList),
      c.valueType⟩
  | .and left right => .and left.seen right.seen
  | .or left right => .or left.seen right.seen
  | .not operand => .not operand.seen

/-- The fuel that `parseNot` needs for the rendering. -/
def depth : Node → Nat
  | .comparison _ => 1
  | .and left right => max left.depth right.depth + 2
  | .or left right => max left.depth right.depth + 2
  | .not operand => operand.depth + 1

private theorem depth_pos (node : Node) : 0 < node.depth := by cases node <;> simp [depth]

private theorem depth_le (node : Node) : node.depth ≤ node.seenText.length + 1 := by
  induction node with
  | comparison c => simp [depth]
  | and left right leftLe rightLe =>
    simp only [depth, seenText, List.length_cons, List.length_append, List.length_nil]
    omega
  | or left right leftLe rightLe =>
    simp only [depth, seenText, List.length_cons, List.length_append, List.length_nil]
    omega
  | not operand le =>
    have word : "NOT ".toList.length = 4 := rfl
    simp only [depth, seenText, List.length_append, word]
    omega

end Node

/-! ## Parsing renderings -/

section Parsing
open Lexer
variable {pos fuel : Nat} {rest : List Char} {token first : Token} {cursor : Cursor} {node : Node}

theorem advance_ok {p : ParserState} (read : nextToken p.cursor = .ok (token, cursor)) :
    Parser.advance nextToken p = .ok ⟨token, cursor⟩ := by
  rw [Parser.advance, read]

theorem wordy_value {type : ValueType} (unquoted : type ≠ .string) : Wordy type.token := by
  cases type with
  | ident => exact .inl rfl
  | string => exact absurd rfl unquoted
  | number => exact .inr (.inl rfl)
  | duration => exact .inr (.inr rfl)

private theorem value_token (type : ValueType) : type.token.value? = some type := by
  cases type <;> rfl

/-- A value starts with a character of a word, so it does not go on an operator. -/
theorem value_head {c : Comparison} (canonical : c.Canonical) (rest : List Char) :
    (byteChars c.value.toList ++ rest).head? ≠ some '=' := by
  obtain ⟨read, chars⟩ := tokenText_chars canonical.value (wordy_value canonical.unquoted)
  obtain ⟨d, more, shape, -⟩ := tokenAt_wordy read (wordy_value canonical.unquoted)
  simp only at shape
  rw [shape] at chars ⊢
  rintro same
  cases same
  exact absurd (chars '=' List.mem_cons_self) (by decide)

/-- A text that `parseNot` reads as the expression, whatever token comes behind it. -/
def Parses (fuel : Nat) (text : List Char) (node : Node) : Prop :=
  ∀ ⦃pos rest token cursor⦄, Stop rest → nextToken ⟨pos + text.length, rest⟩ = .ok (token, cursor) →
    ∃ first next, nextToken ⟨pos, text ++ rest⟩ = .ok (first, next) ∧ first.type ≠ .eof ∧
      Parser.parseNot nextToken fuel ⟨first, next⟩ = .ok (node, ⟨token, cursor⟩)

/-- A field, an operator and a value, with a token behind them. -/
theorem parseNot_tokens (comparison : ComparisonOp) (valueType : ValueType) {field op value : Token}
    {c c' c'' : Cursor}
    (isField : field.type = .ident) (second : nextToken c = .ok (op, c'))
    (isOp : op.type = comparison.token)
    (third : nextToken c' = .ok (value, c'')) (isValue : value.type = valueType.token)
    (fourth : nextToken c'' = .ok (token, cursor)) :
    Parser.parseNot nextToken (fuel + 1) ⟨field, c⟩ =
      .ok (.comparison ⟨fieldName field.value, comparison, value.value, valueType⟩, ⟨token, cursor⟩) := by
  have atOp : Parser.advance nextToken ⟨field, c⟩ = .ok ⟨op, c'⟩ := advance_ok second
  have atValue : Parser.advance nextToken ⟨op, c'⟩ = .ok ⟨value, c''⟩ := advance_ok third
  have behind : Parser.advance nextToken ⟨value, c''⟩ = .ok ⟨token, cursor⟩ := advance_ok fourth
  simp only [Parser.parseNot, Parser.parsePrimary, Parser.parseComparison, ParserState.at, isField,
    atOp]
  simp only [reduceCtorEq, decide_false, Bool.false_eq_true, if_false, ne_eq, not_true_eq_false,
    bind, Except.bind,
    Parser.parseOperator, isOp, comparison_token, atValue, Parser.parseValue, isValue, value_token, behind]
  rfl

private theorem parses_comparison {c : Comparison} (canonical : c.Canonical) :
    Parses (fuel + 1) (Node.comparison c).seenText (Node.comparison c).seen := by
  intro pos rest token cursor stop behind
  have field : nextToken
      ⟨pos, byteChars c.field.toList ++ (c.op.text.toList ++ (byteChars c.value.toList ++ rest))⟩ = _ :=
    nextToken_tokenText canonical.word (.inl rfl) (stop_op c.op) pos
  have op := nextToken_op c.op (value_head canonical rest) (pos + (byteChars c.field.toList).length)
  have value := nextToken_tokenText canonical.value (wordy_value canonical.unquoted) stop
    (pos + (byteChars c.field.toList).length + c.op.text.toList.length)
  simp only [Node.seenText, List.length_append, ← Nat.add_assoc] at behind
  simp only [Node.seenText, List.append_assoc]
  refine ⟨_, _, field, by simp, ?_⟩
  exact parseNot_tokens c.op c.valueType rfl op rfl value rfl behind

section Loop
variable {type : TokenType} {join : Node → Node → Node}
  {operand : EarlyExit ParserState SyntaxError Node}
  {p q r : ParserState} {right : Node}

/-- An operand of a chain whose operator does not follow. -/
theorem loop_ends (other : p.at type = false) :
    EarlyExit.loop (·.at type) join .outOfFuel (Parser.advance nextToken) operand (fuel + 1) node p =
      .ok (node, p) := by
  simp [EarlyExit.loop, other]

/-- One more operand of a chain, and no other. -/
theorem loop_once (held : p.at type = true) (next : Parser.advance nextToken p = .ok q)
    (parsed : operand q = .ok (right, r)) (other : r.at type = false) :
    EarlyExit.loop (·.at type) join .outOfFuel (Parser.advance nextToken) operand (fuel + 2) node p =
      .ok (join node right, r) := by
  rw [EarlyExit.loop, if_pos held, next]
  simp only [bind, Except.bind, parsed]
  exact loop_ends other

end Loop

section Binary
variable {operand : EarlyExit ParserState SyntaxError Node} {p q r : ParserState}
  {left right : Node}

/-- An operand that no operator follows. -/
theorem parseOr_single (parsed : operand p = .ok (node, q)) (noAnd : q.at .and = false)
    (noOr : q.at .or = false) :
    Parser.parseOr nextToken operand (fuel + 1) p = .ok (node, q) := by
  simp only [Parser.parseOr, Parser.parseAnd, EarlyExit.chain, bind, Except.bind, parsed]
  rw [loop_ends noAnd]
  exact loop_ends noOr

/-- Two operands of a conjunction. -/
theorem parseOr_and (first : operand p = .ok (left, q)) (isAnd : q.at .and = true)
    {q' : ParserState} (next : Parser.advance nextToken q = .ok q')
    (second : operand q' = .ok (right, r)) (noAnd : r.at .and = false) (noOr : r.at .or = false) :
    Parser.parseOr nextToken operand (fuel + 2) p = .ok (.and left right, r) := by
  simp only [Parser.parseOr, Parser.parseAnd, EarlyExit.chain, bind, Except.bind, first]
  rw [loop_once isAnd next second noAnd]
  exact loop_ends noOr

/-- Two operands of a disjunction. -/
theorem parseOr_or (first : operand p = .ok (left, q)) (isOr : q.at .or = true)
    (noAnd : q.at .and = false)
    {q' : ParserState} (next : Parser.advance nextToken q = .ok q')
    (second : operand q' = .ok (right, r)) (noAnd' : r.at .and = false) (noOr : r.at .or = false) :
    Parser.parseOr nextToken operand (fuel + 2) p = .ok (.or left right, r) := by
  have single : ∀ {node s t}, operand s = .ok (node, t) → t.at .and = false →
      Parser.parseAnd nextToken operand (fuel + 2) s = .ok (node, t) := by
    intro node s t parsed other
    simp only [Parser.parseAnd, EarlyExit.chain, bind, Except.bind, parsed]
    exact loop_ends other
  rw [Parser.parseOr, EarlyExit.chain, single first noAnd]
  exact loop_once isOr next (single second noAnd') noOr

end Binary

/-- What stands in parentheses. -/
theorem parseNot_parens {p q r s : ParserState} (isOpen : p.at .lParen = true)
    (next : Parser.advance nextToken p = .ok q)
    (inner : Parser.parseOr nextToken (Parser.parseNot nextToken fuel) fuel q = .ok (node, r))
    (closed : r.at .rParen = true) (last : Parser.advance nextToken r = .ok s) :
    Parser.parseNot nextToken (fuel + 1) p = .ok (node, s) := by
  have noNot : p.at .not = false := by
    simp only [ParserState.at, decide_eq_true_eq] at isOpen
    simp [ParserState.at, isOpen]
  have isClosed : r.current.type = .rParen := of_decide_eq_true closed
  rw [Parser.parseNot, noNot, if_neg Bool.false_ne_true, Parser.parsePrimary, if_pos isOpen, next]
  simp only [bind, Except.bind, inner, Parser.closeParen, isClosed, ne_eq, not_true_eq_false,
    if_false, last]
  rfl

/-- Two expressions in parentheses, around a keyword that `parseOr` joins them by. -/
theorem parses_binary (type : TokenType) {join : Node → Node → Node}
    {keyword left right : List Char}
    {leftNode rightNode : Node} (leftParses : Parses fuel left leftNode)
    (rightParses : Parses fuel right rightNode) (spaced : ∀ rest, Stop (keyword ++ rest))
    (reads : ∀ pos rest, ∃ op after, nextToken ⟨pos, keyword ++ rest⟩ = .ok (op, ⟨after, ' ' :: rest⟩) ∧
      op.type = type ∧ after + 1 = pos + keyword.length)
    (joins : ∀ {p q q' r : ParserState}, Parser.parseNot nextToken fuel p = .ok (leftNode, q) →
      q.current.type = type →
      Parser.advance nextToken q = .ok q' → Parser.parseNot nextToken fuel q' = .ok (rightNode, r) →
      r.current.type = .rParen →
      Parser.parseOr nextToken (Parser.parseNot nextToken fuel) fuel p = .ok (join leftNode rightNode, r)) :
    Parses (fuel + 1) ('(' :: (left ++ (keyword ++ (right ++ [')'])))) (join leftNode rightNode) := by
  intro pos rest token cursor stop behind
  have parens : nextToken ⟨pos + 1 + left.length + keyword.length + right.length, ')' :: rest⟩ = _ := nextToken_rParen
  obtain ⟨first', next', rightRead, -, rightParsed⟩ := rightParses stop_rParen parens
  obtain ⟨op, after, opRead, isOp, passed⟩ := reads (pos + 1 + left.length) (right ++ ')' :: rest)
  obtain ⟨first, next, leftRead, -, leftParsed⟩ := leftParses (spaced _) opRead
  have opened : nextToken ⟨pos, '(' :: (left ++ (keyword ++ (right ++ ')' :: rest)))⟩ = _ :=
    nextToken_lParen
  have text : '(' :: (left ++ (keyword ++ (right ++ [')']))) ++ rest =
      '(' :: (left ++ (keyword ++ (right ++ ')' :: rest))) := by simp
  have position : pos + ('(' :: (left ++ (keyword ++ (right ++ [')'])))).length =
      pos + 1 + left.length + keyword.length + right.length + 1 := by
    simp only [List.length_cons, List.length_append, List.length_nil]
    omega
  have onward : Parser.advance nextToken ⟨op, ⟨after, ' ' :: (right ++ ')' :: rest)⟩⟩ = .ok ⟨first', next'⟩ := by
    apply advance_ok
    rw [nextToken_space, passed]
    exact rightRead
  rw [text]
  rw [position] at behind
  refine ⟨_, _, opened, by simp, ?_⟩
  have inner := joins leftParsed isOp onward rightParsed rfl
  exact parseNot_parens rfl (advance_ok leftRead) inner rfl (advance_ok behind)

private theorem parses_and {left right : List Char} {leftNode rightNode : Node}
    (leftParses : Parses (fuel + 2) left leftNode)
    (rightParses : Parses (fuel + 2) right rightNode) :
    Parses (fuel + 3) ('(' :: (left ++ (" AND ".toList ++ (right ++ [')'])))) (.and leftNode rightNode) := by
  refine parses_binary .and leftParses rightParses (fun _ => stop_space)
    (fun pos rest => ⟨_, _, nextToken_and, rfl, rfl⟩) ?_
  intro p q q' r first isAnd next second closed
  exact parseOr_and first (by simp [ParserState.at, isAnd]) next second
    (by simp [ParserState.at, closed])
    (by simp [ParserState.at, closed])

private theorem parses_or {left right : List Char} {leftNode rightNode : Node}
    (leftParses : Parses (fuel + 2) left leftNode)
    (rightParses : Parses (fuel + 2) right rightNode) :
    Parses (fuel + 3) ('(' :: (left ++ (" OR ".toList ++ (right ++ [')'])))) (.or leftNode rightNode) := by
  refine parses_binary .or leftParses rightParses (fun _ => stop_space)
    (fun pos rest => ⟨_, _, nextToken_or, rfl, rfl⟩) ?_
  intro p q q' r first isOr next second closed
  exact parseOr_or first (by simp [ParserState.at, isOr]) (by simp [ParserState.at, isOr]) next
    second
    (by simp [ParserState.at, closed]) (by simp [ParserState.at, closed])

private theorem parses_not {text : List Char} (parses : Parses fuel text node) :
    Parses (fuel + 1) ("NOT ".toList ++ text) (.not node) := by
  intro pos rest token cursor stop behind
  have position : pos + ("NOT ".toList ++ text).length = pos + 4 + text.length := by
    rw [List.length_append, ← Nat.add_assoc]
    rfl
  rw [position] at behind
  obtain ⟨first, next, read, -, parsed⟩ := parses stop behind
  have word : nextToken ⟨pos, "NOT ".toList ++ (text ++ rest)⟩ = _ := nextToken_not
  have onward : Parser.advance nextToken ⟨⟨.not, "NOT", pos⟩, ⟨pos + 3, ' ' :: (text ++ rest)⟩⟩ =
      .ok ⟨first, next⟩ := by
    apply advance_ok
    rw [nextToken_space]
    exact read
  rw [List.append_assoc]
  refine ⟨_, _, word, by simp, ?_⟩
  have isNot : ParserState.at ⟨⟨.not, "NOT", pos⟩, ⟨pos + 3, ' ' :: (text ++ rest)⟩⟩ .not = true :=
    rfl
  rw [Parser.parseNot, if_pos isNot, onward]
  simp only [bind, Except.bind, parsed]
  rfl

/-- The rendering of an expression is parsed to the expression that the lexer sees. -/
theorem parses_seenText (canonical : node.Each Comparison.Canonical) (enough : node.depth ≤ fuel) :
    Parses fuel node.seenText node.seen := by
  induction node generalizing fuel with
  | comparison c =>
    obtain ⟨fuel, rfl⟩ := Nat.exists_eq_add_of_le' enough
    exact parses_comparison canonical
  | and left right leftParses rightParses =>
    have pos := left.depth_pos
    obtain ⟨fuel, rfl⟩ : ∃ k, fuel = k + 3 :=
      Nat.exists_eq_add_of_le' (by simp only [Node.depth] at enough; omega)
    simp only [Node.depth] at enough
    have first : Parses (fuel + 2) left.seenText left.seen := leftParses canonical.1 (by omega)
    have second : Parses (fuel + 2) right.seenText right.seen := rightParses canonical.2 (by omega)
    exact parses_and first second
  | or left right leftParses rightParses =>
    have pos := left.depth_pos
    obtain ⟨fuel, rfl⟩ : ∃ k, fuel = k + 3 :=
      Nat.exists_eq_add_of_le' (by simp only [Node.depth] at enough; omega)
    simp only [Node.depth] at enough
    have first : Parses (fuel + 2) left.seenText left.seen := leftParses canonical.1 (by omega)
    have second : Parses (fuel + 2) right.seenText right.seen := rightParses canonical.2 (by omega)
    exact parses_or first second
  | not operand parses =>
    simp only [Node.depth] at enough
    obtain ⟨fuel, rfl⟩ : ∃ k, fuel = k + 1 := Nat.exists_eq_add_of_le' (by omega)
    exact parses_not (parses canonical (by omega))

private theorem stop_nil : Stop [] := by
  intro d same
  cases same

theorem parse_string (canonical : node.Each Comparison.Canonical) :
    parse (utf8 node.string) = .ok node.seen := by
  have ending : nextToken ⟨0 + node.seenText.length, []⟩ = .ok
      (⟨.eof, "", 0 + node.seenText.length⟩, _) := rfl
  have bytes : (utf8 node.string).length = node.seenText.length := by
    rw [length_utf8, Node.byteChars_string]
  have enough : node.depth ≤ node.seenText.length + 2 := node.depth_le.trans (Nat.le_succ _)
  obtain ⟨first, next, read, started, parsed⟩ := parses_seenText canonical enough stop_nil ending
  have whole : Parser.parseOr nextToken _ (node.seenText.length + 2) ⟨first, next⟩ = _ :=
    parseOr_single parsed rfl rfl
  rw [List.append_nil] at read
  rw [parse, bytes, ofBytes_utf8, Node.byteChars_string, Parser.parseFrom, advance_ok read]
  simp only [bind, Except.bind, Parser.parseQuery, ParserState.at, started, decide_false,
    Bool.false_eq_true, if_false, whole]
  rfl

end Parsing

/-! ## Round trips -/

section RoundTrip
variable {c : Comparison} {node : Node}

private theorem length_fieldName (value : String) :
    (fieldName value).toList.length = value.toList.length := by
  unfold fieldName
  dsimp only
  split
  · next key =>
    simp only [Bool.and_eq_true, List.length_map, decide_eq_true_eq] at key
    rw [String.toList_ofList, List.length_append, List.length_drop]
    omega
  · rw [String.toList_ofList, List.length_map]

/-- A field in lower case is a name. -/
theorem fieldName_lower {value : String} (lower : value.toList.map lowerChar = value.toList) :
    fieldName value = value := by
  unfold fieldName
  dsimp only
  rw [lower]
  split
  · next key =>
    rw [Bool.and_eq_true, List.isPrefixOf_iff_prefix] at key
    rw [← List.prefix_append_drop key.1, String.ofList_toList]
  · exact String.ofList_toList

private theorem comparison_seen_iff (canonical : c.Canonical) :
    (Node.comparison c).seen = .comparison c ↔ c.Ascii := by
  have same : c.Ascii ↔ byteChars c.field.toList = c.field.toList ∧ byteChars c.value.toList = c.value.toList := by
    rw [byteChars_eq_iff, byteChars_eq_iff]
    exact List.forall_mem_append
  rw [same, Node.seen, Node.comparison.injEq]
  constructor
  · intro equal
    have field := congrArg (·.field.toList.length) equal
    have value := congrArg (·.value.toList) equal
    simp only [length_fieldName, String.toList_ofList] at field value
    exact ⟨byteChars_eq_iff.mpr (ascii_of_length field), value⟩
  · rintro ⟨field, value⟩
    rw [field, value, String.ofList_toList, String.ofList_toList, fieldName_lower canonical.lower]

/-- The lexer sees the texts as they are if they are in ASCII. -/
theorem seen_eq_iff (canonical : node.Each Comparison.Canonical) :
    node.seen = node ↔ node.Each Comparison.Ascii := by
  induction node with
  | comparison c => exact comparison_seen_iff canonical
  | and left right leftSeen rightSeen =>
    rw [Node.seen, Node.and.injEq, leftSeen canonical.1, rightSeen canonical.2]
    rfl
  | or left right leftSeen rightSeen =>
    rw [Node.seen, Node.or.injEq, leftSeen canonical.1, rightSeen canonical.2]
    rfl
  | not operand seen =>
    rw [Node.seen, Node.not.injEq, seen canonical]
    rfl

private theorem renderOperator_eq (op : ComparisonOp) :
    QuerySyntax.renderOperator op = op.text := by
  cases op <;> rfl

private theorem render_eq (node : Node) : QuerySyntax.render node = node.string := by
  have operators : QuerySyntax.renderOperator = ComparisonOp.text := funext renderOperator_eq
  rw [QuerySyntax.render, operators, Node.string]

/-- A character that is read the same by both lexers, outside quoted texts. -/
def Shared (d : Char) : Prop := ¬ IsQuote d ∧ isOtherNumber d = false ∧ d ≠ '\x00'

instance (d : Char) : Decidable (Shared d) := inferInstanceAs (Decidable (_ ∧ _ ∧ _))

private theorem shared_wordChar {d : Char} (word : Lexer.wordChar d = true) : Shared d := by
  refine ⟨fun quote => ?_, ?_, ?_⟩
  · have other := (quote_foreign quote).2.2.1
    rcases quote with rfl | rfl <;> simp [Lexer.wordChar, other] at word
  · by_contra number
    rw [Bool.not_eq_false] at number
    have other := (otherNumber_foreign number).2.2.1
    simp only [Lexer.wordChar, other, Bool.false_or, decide_eq_true_eq] at word
    rw [word] at number
    revert number
    decide
  · rintro rfl
    exact absurd word (by decide)

private theorem plainFrom_shared {l : List Char} (shared : ∀ d ∈ l, Shared d) :
    plainFrom none l = true := by
  induction l with
  | nil => rfl
  | cons d l ih =>
    rw [List.forall_mem_cons] at shared
    rw [plainFrom_cons shared.1.1 shared.1.2.1, ih shared.2]

private theorem shared_op (op : ComparisonOp) : ∀ d ∈ op.text.toList, Shared d := by
  cases op <;> exact List.all_iff_forall_prop.mp (by decide)

private theorem shared_seenText (canonical : node.Each Comparison.Canonical) :
    ∀ d ∈ node.seenText, Shared d := by
  induction node with
  | comparison c =>
    have field := (Lexer.tokenText_chars canonical.word (.inl rfl)).2
    have value := (Lexer.tokenText_chars canonical.value (wordy_value canonical.unquoted)).2
    rw [Node.seenText, List.forall_mem_append, List.forall_mem_append]
    exact ⟨fun d held => shared_wordChar (field d held), shared_op c.op,
      fun d held => shared_wordChar (value d held)⟩
  | and left right leftShared rightShared =>
    simp only [Node.seenText, List.forall_mem_cons, List.forall_mem_append]
    have word : ∀ d ∈ " AND ".toList, Shared d := List.all_iff_forall_prop.mp (by decide)
    exact ⟨by decide, leftShared canonical.1, word, rightShared canonical.2, by decide, by simp⟩
  | or left right leftShared rightShared =>
    simp only [Node.seenText, List.forall_mem_cons, List.forall_mem_append]
    have word : ∀ d ∈ " OR ".toList, Shared d := List.all_iff_forall_prop.mp (by decide)
    exact ⟨by decide, leftShared canonical.1, word, rightShared canonical.2, by decide, by simp⟩
  | not operand shared =>
    rw [Node.seenText, List.forall_mem_append]
    exact ⟨List.all_iff_forall_prop.mp (by decide), shared canonical⟩

/-- The port parses the rendering as the Go parser does. -/
theorem querySyntax_parse_render (canonical : node.Each Comparison.Canonical) :
    QuerySyntax.parse (utf8 (QuerySyntax.render node)) = some (.ok node.seen) := by
  rw [render_eq]
  have shared := shared_seenText canonical
  rw [← Node.byteChars_string] at shared
  have text : (0 : UInt8) ∉ utf8 node.string := by
    intro nul
    have held : Char.ofNat (0 : UInt8).toNat ∈ byteChars node.string.toList :=
      List.mem_map.mpr ⟨0, nul, rfl⟩
    exact (shared _ held).2.2 rfl
  have plain : Plain (utf8 node.string) := plainFrom_shared shared
  rcases agree_of_plain text plain with ⟨parsed, ok, ok'⟩ | ⟨err, -, -, refused, -⟩
  · rw [parse_string canonical, Except.ok.injEq] at ok
    rw [ok', ok]
  · rw [parse_string canonical] at refused
    cases refused

/-- Renderings of expressions with unquoted texts are parsed to the expressions exactly if the
texts are in ASCII: both lexers take the bytes of a character for characters. -/
theorem parse_render_iff (node : Node) (canonical : node.Each Comparison.Canonical) :
    (parse (utf8 node.string) = .ok node ↔ node.Each Comparison.Ascii) ∧
      (QuerySyntax.parse (utf8 (QuerySyntax.render node)) = some (.ok node) ↔
        node.Each Comparison.Ascii) := by
  rw [parse_string canonical, querySyntax_parse_render canonical, Option.some.injEq,
    Except.ok.injEq, seen_eq_iff canonical]
  exact ⟨Iff.rfl, Iff.rfl⟩

/-- `NOT (priority<=2 OR updated>7d)` -/
def notEither : Node :=
  .not (.or (.comparison ⟨"priority", .lessEq, "2", .number⟩) (.comparison ⟨"updated", .greater, "7d", .duration⟩))

theorem parse_render_not :
    notEither.Each Comparison.Canonical ∧ parse (utf8 notEither.string) = .ok notEither ∧
    QuerySyntax.parse (utf8 (QuerySyntax.render notEither)) = some (.ok notEither) := by
  have canonical : notEither.Each Comparison.Canonical :=
    ⟨⟨by decide, by decide, by decide, by decide⟩, ⟨by decide, by decide, by decide, by decide⟩⟩
  have first : Comparison.Ascii ⟨"priority", .lessEq, "2", .number⟩ := by decide
  have second : Comparison.Ascii ⟨"updated", .greater, "7d", .duration⟩ := by decide
  have ascii : notEither.Each Comparison.Ascii := ⟨first, second⟩
  have both := parse_render_iff notEither canonical
  exact ⟨canonical, both.1.mpr ascii, both.2.mpr ascii⟩

/-- The word of one accented letter, whose two bytes are letters too. -/
def accented : Comparison := ⟨"title", .equals, "ú", .ident⟩

/-- Its bytes are read as two letters. -/
theorem accented_not_parsed_back : (Node.comparison accented).Each Comparison.Canonical ∧
    parse (utf8 (Node.comparison accented).string) ≠ .ok (.comparison accented) ∧
    QuerySyntax.parse (utf8 (QuerySyntax.render (.comparison accented))) ≠ some (.ok (.comparison accented)) := by
  have other : Node.comparison ⟨"title", .equals, "Ãº", .ident⟩ ≠ .comparison accented := by decide
  have read : parse (utf8 (Node.comparison accented).string) =
      .ok (.comparison ⟨"title", .equals, "Ãº", .ident⟩) := by decide +kernel
  have read' : QuerySyntax.parse (utf8 (QuerySyntax.render (.comparison accented))) =
      some (.ok (.comparison ⟨"title", .equals, "Ãº", .ident⟩)) := by decide +kernel
  refine ⟨⟨by decide, by decide, by decide, by decide⟩, ?_, ?_⟩
  · rw [read]
    exact fun same => other (Except.ok.inj same)
  · rw [read']
    exact fun same => other (Except.ok.inj (Option.some.inj same))

end RoundTrip

end Beads.Query
