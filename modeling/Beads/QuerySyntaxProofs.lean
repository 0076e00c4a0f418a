import Beads.QuerySyntax
import Beads.Lib.Call

/-! The two parsers of the query language against each other.

The classes of characters differ in one place: the port takes superscripts and
fractions as digits. Where none stands outside a quoted text the lexers return
the same tokens, and the parsers, which differ in how they handle errors, accept
the same queries with the same trees. Where one does, the Go parser refuses the
query (`QuerySyntax.agree_iff`). -/
namespace Beads.Query
open Lib

/-! ## Characters -/

private theorem isWhitespace_eq (c : Char) : QueryLexer.isWhitespace c = Lexer.isSpace c := by
  have range : ('\t' ≤ c ∧ c ≤ '\r') ↔ c = '\t' ∨ c = '\n' ∨ c = '\x0b' ∨ c = '\x0c' ∨ c = '\r' := by
    simp only [Char.le_def, UInt32.le_iff_toNat_le, Char.ext_iff, ← UInt32.toNat_inj]
    change 9 ≤ c.val.toNat ∧ c.val.toNat ≤ 13 ↔ c.val.toNat = 9 ∨ c.val.toNat = 10 ∨ c.val.toNat = 11 ∨
      c.val.toNat = 12 ∨ c.val.toNat = 13
    omega
  rw [Bool.eq_iff_iff]
  simp only [QueryLexer.isWhitespace, Lexer.isSpace, Bool.or_eq_true, Bool.and_eq_true,
    decide_eq_true_eq, range, List.mem_cons, List.not_mem_nil, or_false, or_assoc]
  simp only [or_left_comm]

/-- The decimal digits are those that both lexers know. -/
theorem isDigit_eq {c : Char} (plain : isOtherNumber c = false) :
    QueryLexer.isDigit c = Lexer.isDigit c := by
  unfold QueryLexer.isDigit
  rw [plain, Bool.or_false]
  rfl

private theorem isIdentifierStart_eq (c : Char) :
    QueryLexer.isIdentifierStart c = Lexer.isIdentStart c :=
  Bool.or_comm _ _

theorem isIdentifierCharacter_eq {c : Char} (plain : isOtherNumber c = false) :
    QueryLexer.isIdentifierCharacter c = Lexer.isIdentChar c := by
  rw [Bool.eq_iff_iff]
  simp only [QueryLexer.isIdentifierCharacter, Lexer.isIdentChar, isDigit_eq plain,
    QueryLexer.isIdentifierStart,
    Bool.or_eq_true, decide_eq_true_eq, List.mem_cons, List.not_mem_nil, or_false, or_assoc]
  exact or_left_comm.trans (or_congr_right or_left_comm)

/-- A superscript or a fraction starts no token of the Go lexer and is part of none. -/
theorem otherNumber_foreign {c : Char} (other : isOtherNumber c = true) :
    Lexer.isSpace c = false ∧ Lexer.isDigit c = false ∧ Lexer.isIdentChar c = false ∧
      Lexer.isIdentStart c = false := by
  simp only [isOtherNumber, List.mem_cons, List.not_mem_nil, or_false, decide_eq_true_eq] at other
  rcases other with rfl | rfl | rfl | rfl | rfl | rfl <;> decide

/-- What is no character of a word. -/
theorem nul_foreign : isDurationSuffix '\x00' = false ∧ Lexer.isIdentChar '\x00' = false := by
  decide

/-- A quote ends every run of characters. -/
def IsQuote (c : Char) : Prop := c = '"' ∨ c = '\''

instance (c : Char) : Decidable (IsQuote c) := inferInstanceAs (Decidable (_ ∨ _))

theorem quote_foreign {c : Char} (quote : IsQuote c) :
    Lexer.isSpace c = false ∧ Lexer.isDigit c = false ∧ Lexer.isIdentChar c = false ∧
      QueryLexer.isDigit c = false ∧ QueryLexer.isIdentifierCharacter c = false := by
  rcases quote with rfl | rfl <;> decide

private theorem suffix_known {c : Char} (suffix : isDurationSuffix c = true) :
    ¬ IsQuote c ∧ isOtherNumber c = false := by
  simp only [isDurationSuffix, List.mem_cons, List.not_mem_nil, or_false,
    decide_eq_true_eq] at suffix
  rcases suffix with rfl | rfl | rfl | rfl | rfl | rfl | rfl | rfl | rfl | rfl <;> decide

/-! ## Texts without foreign digits -/

/-- Outside quoted texts there is no superscript and no fraction. The state of the
scan is the quote that is open. -/
def plainFrom : Option Char → List Char → Bool
  | _, [] => true
  | none, c :: rest =>
    if IsQuote c then plainFrom (some c) rest else !isOtherNumber c && plainFrom none rest
  | some quote, c :: rest =>
    if c = quote then plainFrom none rest
    else if c = '\\' then
      match rest with
      | [] => true
      | _ :: rest => plainFrom (some quote) rest
    else plainFrom (some quote) rest

/-- No superscript and no fraction stands outside quoted texts. -/
def Plain (input : List UInt8) : Prop := plainFrom none (Cursor.ofBytes input).rest = true

instance (input : List UInt8) : Decidable (Plain input) := inferInstanceAs (Decidable (_ = true))

section Runs
variable {p q : Char → Bool} {rest : List Char}

theorem plainFrom_cons {c : Char} (quote : ¬ IsQuote c) (plain : isOtherNumber c = false) :
    plainFrom none (c :: rest) = plainFrom none rest := by
  simp [plainFrom, quote, plain]

/-- Classes that differ in foreign digits only take the same run from a plain text. -/
theorem takeWhile_of_plain (agree : ∀ c, isOtherNumber c = false → p c = q c)
    (quotes : ∀ c, IsQuote c → p c = false ∧ q c = false) (plain : plainFrom none rest = true) :
    rest.takeWhile p = rest.takeWhile q := by
  induction rest with
  | nil => rfl
  | cons c rest ih =>
    by_cases quote : IsQuote c
    · simp [quotes c quote]
    · simp only [plainFrom, quote, if_false, Bool.and_eq_true, Bool.not_eq_true'] at plain
      rw [List.takeWhile_cons, List.takeWhile_cons, agree c plain.1, ih plain.2]

/-- A run of a class without foreign digits is passed over. -/
theorem plainFrom_drop (foreign : ∀ c, isOtherNumber c = true → p c = false)
    (quotes : ∀ c, IsQuote c → p c = false) :
    plainFrom none (rest.drop (rest.takeWhile p).length) = plainFrom none rest := by
  induction rest with
  | nil => rfl
  | cons c rest ih =>
    cases taken : p c with
    | false => simp [taken]
    | true =>
      have quote : ¬ IsQuote c := fun quote => by simp [quotes c quote] at taken
      have plain : isOtherNumber c = false := by
        rw [Bool.eq_false_iff]
        exact fun other => by simp [foreign c other] at taken
      rw [List.takeWhile_cons, if_pos taken, List.length_cons, List.drop_succ_cons, ih,
        plainFrom_cons quote plain]

end Runs

/-- What the Go lexer has passed over is plain, and comes off the front. -/
structure Passes (c c' : Cursor) : Prop where
  suffix : c'.rest <:+ c.rest
  plain : plainFrom none c'.rest = plainFrom none c.rest

namespace Passes
variable {c c' c'' : Cursor}

theorem refl : Passes c c := ⟨List.suffix_refl _, rfl⟩

theorem trans (first : Passes c c') (second : Passes c' c'') : Passes c c'' :=
  ⟨second.suffix.trans first.suffix, second.plain.trans first.plain⟩

theorem run {p : Char → Bool} (foreign : ∀ c, isOtherNumber c = true → p c = false)
    (quotes : ∀ c, IsQuote c → p c = false) : Passes c (c.skip (c.rest.takeWhile p).length) :=
  ⟨List.drop_suffix _ _, plainFrom_drop foreign quotes⟩

theorem one {r : Char} (next : c.rest.head? = some r) (quote : ¬ IsQuote r)
    (plain : isOtherNumber r = false) :
    Passes c (c.skip 1) := by
  obtain ⟨pos, rest⟩ := c
  cases rest with
  | nil => cases next
  | cons r' rest =>
    cases next
    exact ⟨List.suffix_cons _ _, (plainFrom_cons quote plain).symm⟩

end Passes

/-! ## Quoted texts -/

/-- The outcome of the port's lexer without the position after a failure. -/
def strictly (result : QueryLexer.QueryLexResult) : Except LexError (Token × Cursor) :=
  result.1.map fun token => (token, result.2)

private theorem strictly_ite {p : Prop} [Decidable p] {a b : QueryLexer.QueryLexResult}
    {a' b' : Except LexError (Token × Cursor)} (left : p → strictly a = a')
    (right : ¬ p → strictly b = b') :
    strictly (if p then a else b) = if p then a' else b' := by
  split
  · next held => exact left held
  · next other => exact right other

section Quoted
variable {quote : Char} {start pos : Nat} {value rest : List Char}

private theorem readQuoted_eq (text : '\x00' ∉ rest) :
    strictly (QueryLexer.readQuoted quote start value pos rest) = Lexer.readString quote start value pos rest := by
  fun_induction QueryLexer.readQuoted quote start value pos rest with
  | case1 => rfl
  | case2 value pos rest =>
    have kept : quote ≠ '\x00' := fun same => text (same ▸ List.mem_cons_self)
    rw [Lexer.readString.eq_def]
    simp only [if_neg kept, if_true]
    rfl
  | case3 value pos r rest other plain ih =>
    have kept : r ≠ '\x00' := fun same => text (same ▸ List.mem_cons_self)
    rw [Lexer.readString.eq_def]
    simp only [if_neg kept, if_neg other, if_neg plain]
    exact ih fun nul => text (List.mem_cons_of_mem _ nul)
  | case4 value pos r other escape =>
    have kept : r ≠ '\x00' := fun same => text (same ▸ List.mem_cons_self)
    rw [Lexer.readString, if_neg kept, if_neg other, if_pos (not_not.mp escape)]
    rfl
  | case5 value pos r other escape escaped rest ih =>
    have kept : r ≠ '\x00' := fun same => text (same ▸ List.mem_cons_self)
    have kept' : escaped ≠ '\x00' := fun same => text (same ▸ by simp)
    rw [Lexer.readString, if_neg kept, if_neg other, if_pos (not_not.mp escape)]
    simp only [if_neg kept']
    exact ih fun nul => text (by simp [nul])

theorem readString_passes {r : Token × Cursor}
    (ok : Lexer.readString quote start value pos rest = .ok r) :
    r.1.type = .string ∧ r.2.rest <:+ rest ∧ r.2.rest.length < rest.length ∧
      plainFrom none r.2.rest = plainFrom (some quote) rest := by
  fun_induction Lexer.readString quote start value pos rest with
  | case1 => cases ok
  | case2 => cases ok
  | case3 value pos rest =>
    cases ok
    exact ⟨rfl, List.suffix_cons _ _, by simp, by rw [plainFrom.eq_def (some quote)]; simp⟩
  | case4 => cases ok
  | case5 => cases ok
  | case6 value pos escaped rest nul nul' other ih =>
    obtain ⟨string, suffix, shorter, plain⟩ := ih ok
    refine ⟨string, suffix.trans (List.suffix_append [_, _] _),
      by simp only [List.length_cons]; omega, ?_⟩
    rw [plain, plainFrom.eq_def (some quote) ('\\' :: escaped :: rest)]
    simp [other]
  | case7 value pos r rest nul other plain' ih =>
    obtain ⟨string, suffix, shorter, plain⟩ := ih ok
    refine ⟨string, suffix.trans (List.suffix_cons _ _), by simp only [List.length_cons]; omega, ?_⟩
    rw [plain, plainFrom.eq_def (some quote) (r :: rest)]
    simp [other, plain']

end Quoted

/-! ## Numbers and words -/

namespace Cursor
variable (c : Cursor)

theorem skip_le (n : Nat) : (c.skip n).rest.length ≤ c.rest.length := by simp [skip]

variable {c}

/-- A run that takes something makes the rest shorter. -/
theorem skip_run {p : Char → Bool} (taken : c.rest.head?.any p = true) :
    (c.skip (c.rest.takeWhile p).length).rest.length < c.rest.length := by
  obtain ⟨pos, rest⟩ := c
  cases rest with
  | nil => simp at taken
  | cons r rest =>
    have held : p r = true := by simpa using taken
    simp only [skip, List.takeWhile_cons, held, if_true, List.length_cons, List.drop_succ_cons,
      List.length_drop]
    omega

end Cursor

namespace Lexer
variable {c : Cursor}

theorem peek_eq_some {r : Char} (kept : r ≠ '\x00') : peek c = r ↔ c.rest.head? = some r := by
  cases next : c.rest with
  | nil => simp [peek, next, Ne.symm kept]
  | cons r' rest => simp [peek, next]

private theorem any_of_peek {p : Char → Bool} (held : p (peek c) = true) (nul : p '\x00' = false) :
    c.rest.head?.any p = true := by
  cases next : c.rest with
  | nil => simp [peek, next, nul] at held
  | cons r rest => simpa [peek, next] using held

private theorem wordType_not_eof {word : List Char} : wordType word ≠ .eof := by
  unfold wordType
  simp only
  split
  · simp
  · split
    · simp
    · split <;> simp

theorem readIdent_not_eof : (readIdent c).1.type ≠ .eof := wordType_not_eof

theorem passes_readIdent : Passes c (readIdent c).2 :=
  .run (fun _ other => (otherNumber_foreign other).2.2.1) fun _ quote => (quote_foreign quote).2.2.1

theorem passes_sign (signed : peek c = '-' ∨ peek c = '+') : Passes c (c.skip 1) := by
  rw [peek_eq_some (by decide), peek_eq_some (by decide)] at signed
  rcases signed with minus | plus
  · exact .one minus (by decide) (by decide)
  · exact .one plus (by decide) (by decide)

theorem passes_suffix (suffix : isDurationSuffix (peek c) = true) : Passes c (c.skip 1) := by
  have next : c.rest.head? = some (peek c) := by
    cases rest : c.rest with
    | nil =>
      rw [peek, rest, List.headD_nil, nul_foreign.1] at suffix
      cases suffix
    | cons r rest' => simp [peek, rest]
  exact .one next (suffix_known suffix).1 (suffix_known suffix).2

section Digits
variable {hadSign : Bool} {unsigned : Cursor} {r : Token × Cursor}

private theorem passes_readDigits (sign : Passes c unsigned)
    (ok : readDigits c hadSign unsigned = .ok r) : Passes c r.2 := by
  have digits : Passes c (unsigned.skip (unsigned.rest.takeWhile isDigit).length) :=
    sign.trans (.run (fun _ other => (otherNumber_foreign other).2.1) fun _ quote => (quote_foreign quote).2.1)
  unfold readDigits at ok
  split at ok
  · cases ok
  · simp only at ok
    split at ok
    · next suffix =>
      cases ok
      simp only [Bool.and_eq_true] at suffix
      exact digits.trans (passes_suffix suffix.1.2)
    · split at ok
      · cases ok
        exact passes_readIdent
      · cases ok
        split
        · next nul => exact digits.trans (.one nul (by decide) (by decide))
        · exact digits

private theorem readDigits_shorter (sign : unsigned.rest.length ≤ c.rest.length)
    (unsign : hadSign = false → unsigned = c)
    (ok : readDigits c hadSign unsigned = .ok r) :
    r.1.type ≠ .eof ∧ r.2.rest.length < c.rest.length := by
  unfold readDigits at ok
  split at ok
  · cases ok
  · next digit =>
    rw [Bool.not_eq_true, Bool.not_eq_false'] at digit
    have run := Cursor.skip_run (any_of_peek digit (by decide))
    simp only at ok
    split at ok
    · cases ok
      have less := Cursor.skip_le (unsigned.skip (unsigned.rest.takeWhile isDigit).length) 1
      exact ⟨by simp, by simp only; omega⟩
    · split at ok
      · next word =>
        cases ok
        simp only [Bool.and_eq_true, Bool.not_eq_true'] at word
        cases unsign word.1.1
        have start : isIdentChar (peek c) = true := by simp [isIdentChar, digit]
        exact ⟨readIdent_not_eof, Cursor.skip_run (any_of_peek start (by decide))⟩
      · cases ok
        refine ⟨by simp, ?_⟩
        simp only
        split
        · have less := Cursor.skip_le (unsigned.skip (unsigned.rest.takeWhile isDigit).length) 1
          omega
        · omega

end Digits

private theorem passes_readNumberOrDuration {r : Token × Cursor}
    (ok : readNumberOrDuration c = .ok r) :
    Passes c r.2 ∧ r.1.type ≠ .eof ∧ r.2.rest.length < c.rest.length := by
  unfold readNumberOrDuration at ok
  split at ok
  · next signed =>
    exact ⟨passes_readDigits (passes_sign signed) ok, readDigits_shorter (c.skip_le 1) (by simp) ok⟩
  · exact ⟨passes_readDigits .refl ok, readDigits_shorter (Nat.le_refl _) (fun _ => rfl) ok⟩

/-- What the Go lexer does with the text behind the whitespace. -/
structure Lexes (c : Cursor) (r : Token × Cursor) : Prop where
  passes : Passes c r.2
  ends : r.1.type = .eof → '\x00' ∉ c.rest → c.rest = []
  shorter : r.1.type ≠ .eof → r.2.rest.length < c.rest.length

section Symbols
variable {r : Char} {rest : List Char}

/-- A token of one character. -/
theorem Lexes.one {token : Token} (next : c.rest = r :: rest) (quote : ¬ IsQuote r)
    (plain : isOtherNumber r = false) (type : token.type ≠ .eof) : Lexes c (token, c.skip 1) where
  passes := .one (by rw [next]; rfl) quote plain
  ends same _ := absurd same type
  shorter _ := by simp [Cursor.skip, next]

/-- A token of two characters, the second of which is `=`. -/
theorem Lexes.two {token : Token} (next : c.rest = r :: rest) (quote : ¬ IsQuote r)
    (plain : isOtherNumber r = false)
    (type : token.type ≠ .eof) (equals : peek (c.skip 1) = '=') :
    Lexes c (token, (c.skip 1).skip 1) where
  passes := .trans (.one (by rw [next]; rfl) quote plain)
    (.one ((peek_eq_some (by decide)).mp equals) (by decide) (by decide))
  ends same _ := absurd same type
  shorter _ := by
    simp only [Cursor.skip, next, List.drop_succ_cons, List.drop_zero, List.length_drop,
      List.length_cons]
    omega

theorem Lexes.operator {plain withEquals : TokenType} {text : String} {start : Nat}
    (next : c.rest = r :: rest)
    (quote : ¬ IsQuote r) (known : isOtherNumber r = false)
    (types : plain ≠ .eof ∧ withEquals ≠ .eof) :
    Lexes c (operator plain withEquals text start (c.skip 1)) := by
  unfold Lexer.operator
  split
  · next equals => exact .two next quote known types.2 equals
  · exact .one next quote known types.1

theorem Lexes.string {start pos : Nat} {value : List Char} {result : Token × Cursor}
    (next : c.rest = r :: rest)
    (quote : IsQuote r) (ok : readString r start value pos rest = .ok result) : Lexes c result := by
  obtain ⟨string, suffix, shorter, plain⟩ := readString_passes ok
  refine ⟨⟨?_, ?_⟩, fun same _ => ?_, fun _ => ?_⟩
  · rw [next]
    exact suffix.trans (List.suffix_cons _ _)
  · rw [plain, next]
    simp [plainFrom, quote]
  · rw [string] at same
    cases same
  · rw [next, List.length_cons]
    omega

end Symbols

private theorem tokenAt_lexes {result : Token × Cursor} (ok : tokenAt c = .ok result) :
    Lexes c result := by
  unfold tokenAt at ok
  simp only at ok
  split at ok
  · next done =>
    cases ok
    exact ⟨.refl, fun _ _ => done, fun other => absurd rfl other⟩
  · next r rest next =>
    rw [ite_eq_iff] at ok
    rcases ok with ⟨rfl, ok⟩ | ⟨-, ok⟩
    · cases ok
      refine ⟨.one (by rw [next]; rfl) (by decide) (by decide), fun _ text => ?_,
        fun other => absurd rfl other⟩
      exact absurd (by rw [next]; exact List.mem_cons_self) text
    rw [ite_eq_iff] at ok
    rcases ok with ⟨rfl, ok⟩ | ⟨-, ok⟩
    · cases ok; exact .one next (by decide) (by decide) (by simp)
    rw [ite_eq_iff] at ok
    rcases ok with ⟨rfl, ok⟩ | ⟨-, ok⟩
    · cases ok; exact .one next (by decide) (by decide) (by simp)
    rw [ite_eq_iff] at ok
    rcases ok with ⟨rfl, ok⟩ | ⟨-, ok⟩
    · cases ok; exact .one next (by decide) (by decide) (by simp)
    rw [ite_eq_iff] at ok
    rcases ok with ⟨rfl, ok⟩ | ⟨-, ok⟩
    · cases ok; exact .one next (by decide) (by decide) (by simp)
    rw [ite_eq_iff] at ok
    rcases ok with ⟨rfl, ok⟩ | ⟨-, ok⟩
    · rw [ite_eq_iff] at ok
      rcases ok with ⟨follows, ok⟩ | ⟨-, ok⟩
      · cases ok; exact .two next (by decide) (by decide) (by simp) follows
      · cases ok
    rw [ite_eq_iff] at ok
    rcases ok with ⟨rfl, ok⟩ | ⟨-, ok⟩
    · cases ok; exact .operator next (by decide) (by decide) (by simp)
    rw [ite_eq_iff] at ok
    rcases ok with ⟨rfl, ok⟩ | ⟨-, ok⟩
    · cases ok; exact .operator next (by decide) (by decide) (by simp)
    rw [ite_eq_iff] at ok
    rcases ok with ⟨quote, ok⟩ | ⟨-, ok⟩
    · exact .string next quote ok
    rw [ite_eq_iff] at ok
    rcases ok with ⟨-, ok⟩ | ⟨-, ok⟩
    · obtain ⟨passes, type, shorter⟩ := passes_readNumberOrDuration ok
      exact ⟨passes, fun same => absurd same type, fun _ => shorter⟩
    rw [ite_eq_iff] at ok
    rcases ok with ⟨word, ok⟩ | ⟨-, ok⟩
    · cases ok
      refine ⟨passes_readIdent, fun same => absurd same readIdent_not_eof,
        fun _ => Cursor.skip_run ?_⟩
      rw [next]
      simp only [isIdentStart, Bool.or_eq_true, decide_eq_true_eq] at word
      rcases word with letter | rfl
      · simp [isIdentChar, letter]
      · simp [isIdentChar]
    · cases ok

/-- A token, or the end of the input. -/
theorem nextToken_lexes {result : Token × Cursor} (ok : nextToken c = .ok result) :
    Passes c result.2 ∧ (result.1.type = .eof → '\x00' ∉ c.rest → plainFrom none c.rest = true) ∧
      (result.1.type ≠ .eof → result.2.rest.length < c.rest.length) := by
  have spaces : Passes c (skipWhitespace c) :=
    .run (fun _ other => (otherNumber_foreign other).1) fun _ quote => (quote_foreign quote).1
  have lexes := tokenAt_lexes ok
  refine ⟨spaces.trans lexes.passes, fun same text => ?_, fun other => ?_⟩
  · rw [← spaces.plain, lexes.ends same fun nul => text (spaces.suffix.subset nul)]
    rfl
  · exact Nat.lt_of_lt_of_le (lexes.shorter other) (c.skip_le _)

end Lexer

/-! ## The port's lexer -/

namespace QueryLexer
variable {c : Cursor}

theorem plain_head {r : Char} (plain : plainFrom none c.rest = true)
    (next : c.rest.head? = some r) :
    isOtherNumber r = false := by
  obtain ⟨pos, rest⟩ := c
  cases rest with
  | nil => cases next
  | cons r' rest =>
    cases next
    by_cases quote : IsQuote r
    · rcases quote with rfl | rfl <;> decide
    · simp only [plainFrom, quote, if_false, Bool.and_eq_true, Bool.not_eq_true'] at plain
      exact plain.1

private theorem any_peek {p q : Char → Bool} (agree : ∀ r, isOtherNumber r = false → p r = q r)
    (nul : q '\x00' = false)
    (plain : plainFrom none c.rest = true) : (peek c).any p = q (Lexer.peek c) := by
  cases rest : c.rest with
  | nil => simp [peek, Lexer.peek, rest, nul]
  | cons r rest' =>
    have known := plain_head plain (by rw [rest]; rfl)
    simp [peek, Lexer.peek, rest, agree r known]

theorem isSome_peek {r : Char} (kept : r ≠ '\x00') : peek c = some r ↔ Lexer.peek c = r :=
  (Lexer.peek_eq_some kept).symm

theorem readIdentifier_eq (plain : plainFrom none c.rest = true) :
    strictly (readIdentifier c) = .ok (Lexer.readIdent c) := by
  have word : c.rest.takeWhile isIdentifierCharacter = c.rest.takeWhile Lexer.isIdentChar :=
    takeWhile_of_plain (fun _ => isIdentifierCharacter_eq)
      (fun _ quote => ⟨(quote_foreign quote).2.2.2.2, (quote_foreign quote).2.2.1⟩) plain
  unfold readIdentifier Lexer.readIdent
  rw [word]
  rfl

private theorem readDigits_eq {hadSign : Bool} {unsigned : Cursor} (text : '\x00' ∉ c.rest)
    (plain : plainFrom none c.rest = true) (sign : Passes c unsigned) :
    strictly (readDigits c hadSign unsigned) = Lexer.readDigits c hadSign unsigned := by
  have plainUnsigned := sign.plain.trans plain
  have digits : unsigned.rest.takeWhile isDigit = unsigned.rest.takeWhile Lexer.isDigit :=
    takeWhile_of_plain (fun _ => isDigit_eq)
      (fun _ quote => ⟨(quote_foreign quote).2.2.2.1, (quote_foreign quote).2.1⟩) plainUnsigned
  unfold readDigits Lexer.readDigits
  rw [any_peek (fun _ => isDigit_eq) (by decide) plainUnsigned, digits]
  split
  · rfl
  · have passed : Passes c (unsigned.skip (unsigned.rest.takeWhile Lexer.isDigit).length) :=
      sign.trans (.run (fun _ other => (otherNumber_foreign other).2.1) fun _ quote => (quote_foreign quote).2.1)
    dsimp only
    generalize unsigned.skip (unsigned.rest.takeWhile Lexer.isDigit).length = after at passed ⊢
    have plainAfter := passed.plain.trans plain
    have ended : after.rest.head? ≠ some '\x00' := fun nul =>
      text (passed.suffix.subset (List.mem_of_mem_head? (Option.mem_def.mpr nul)))
    simp only [if_neg ended,
      any_peek (fun _ _ => rfl) (by decide) plainAfter (p := isDurationSuffix),
      any_peek (fun _ => isIdentifierCharacter_eq) (by decide) plainAfter]
    cases rest : after.rest with
    | nil =>
      have ends : Lexer.peek after = '\x00' := by simp [Lexer.peek, rest]
      simp only [ends, nul_foreign, Bool.false_and, Bool.and_false, Bool.false_eq_true, if_false]
      rfl
    | cons r rest' =>
      have next : Lexer.peek after = r ∧ peek after = some r := by simp [Lexer.peek, peek, rest]
      have kept : r ≠ '\x00' := fun same => ended (by simp [rest, same])
      simp only [next, decide_eq_true kept, Bool.true_and, Bool.and_true, Option.toList_some]
      by_cases suffix : isDurationSuffix r = true
      · have plainLast := (Lexer.passes_suffix (next.1.symm ▸ suffix)).plain.trans plainAfter
        simp only [suffix, Bool.true_and,
          any_peek (fun _ => isIdentifierCharacter_eq) (by decide) plainLast]
        split
        · rfl
        · split
          · exact readIdentifier_eq plain
          · rfl
      · simp only [Bool.eq_false_iff.mpr suffix, Bool.false_and, Bool.false_eq_true, if_false]
        split
        · exact readIdentifier_eq plain
        · rfl

private theorem readNumberOrDuration_eq (text : '\x00' ∉ c.rest)
    (plain : plainFrom none c.rest = true) :
    strictly (readNumberOrDuration c) = Lexer.readNumberOrDuration c := by
  unfold readNumberOrDuration Lexer.readNumberOrDuration
  simp only [isSome_peek (c := c) (r := '-') (by decide),
    isSome_peek (c := c) (r := '+') (by decide)]
  split
  · next signed => exact readDigits_eq text plain (Lexer.passes_sign signed)
  · exact readDigits_eq text plain .refl

private theorem operator_eq {plain withEquals : TokenType} {text : String} {start : Nat} :
    strictly (operator plain withEquals text start c) = .ok (Lexer.operator plain withEquals text start c) := by
  unfold operator Lexer.operator
  simp only [isSome_peek (c := c) (r := '=') (by decide)]
  split <;> rfl

private theorem bang_eq {start : Nat} :
    strictly (if peek c = some '=' then (.ok ⟨.notEquals, "!=", start⟩, c.skip 1) else (.error (.loneBang start), c)) =
      if Lexer.peek c = '=' then .ok (⟨.notEquals, "!=", start⟩, c.skip 1) else .error (.loneBang start) := by
  simp only [isSome_peek (c := c) (r := '=') (by decide)]
  split <;> rfl

private theorem tokenAt_eq (text : '\x00' ∉ c.rest) (plain : plainFrom none c.rest = true) :
    strictly (tokenAt c) = Lexer.tokenAt c := by
  unfold tokenAt Lexer.tokenAt
  simp only
  cases next : c.rest with
  | nil => rfl
  | cons r rest =>
    have kept : r ≠ '\x00' := fun same => text (by rw [next, same]; exact List.mem_cons_self)
    have known := plain_head plain (by rw [next]; rfl)
    dsimp only
    rw [if_neg kept, isDigit_eq known, isIdentifierStart_eq]
    refine strictly_ite (fun _ => rfl) fun _ => ?_
    refine strictly_ite (fun _ => rfl) fun _ => ?_
    refine strictly_ite (fun _ => rfl) fun _ => ?_
    refine strictly_ite (fun _ => rfl) fun _ => ?_
    refine strictly_ite (fun _ => bang_eq) fun _ => ?_
    refine strictly_ite (fun _ => operator_eq) fun _ => ?_
    refine strictly_ite (fun _ => operator_eq) fun _ => ?_
    refine strictly_ite (fun _ => readQuoted_eq fun nul => text ?_) fun _ => ?_
    · rw [next]
      exact List.mem_cons_of_mem _ nul
    refine strictly_ite (fun _ => readNumberOrDuration_eq text plain) fun _ => ?_
    exact strictly_ite (fun _ => readIdentifier_eq plain) fun _ => rfl

theorem nextToken_eq (text : '\x00' ∉ c.rest) (plain : plainFrom none c.rest = true) :
    strictly (nextToken c) = Lexer.nextToken c := by
  have class_ : isWhitespace = Lexer.isSpace := funext isWhitespace_eq
  have spaces : Passes c (Lexer.skipWhitespace c) :=
    .run (fun _ other => (otherNumber_foreign other).1) fun _ quote => (quote_foreign quote).1
  unfold nextToken Lexer.nextToken
  rw [show skipWhitespace c = Lexer.skipWhitespace c by rw [skipWhitespace, Lexer.skipWhitespace, class_]]
  exact tokenAt_eq (fun nul => text (spaces.suffix.subset nul)) (spaces.plain.trans plain)

/-! Every token but the end, and every failure, takes something from the text. -/

private theorem readQuoted_le {quote : Char} {start pos : Nat} {value rest : List Char} :
    (readQuoted quote start value pos rest).2.rest.length ≤ rest.length := by
  fun_induction readQuoted quote start value pos rest with
  | case1 => exact Nat.le_refl _
  | case2 => simp
  | case3 => simp only [List.length_cons]; omega
  | case4 => simp
  | case5 => simp only [List.length_cons]; omega

private theorem readDigits_shorter {hadSign : Bool} {unsigned : Cursor}
    (sign : unsigned.rest.length ≤ c.rest.length)
    (unsign : hadSign = false → unsigned = c ∧ (peek c).any isDigit = true)
    (signed : hadSign = true → unsigned.rest.length < c.rest.length) :
    (readDigits c hadSign unsigned).2.rest.length < c.rest.length := by
  unfold readDigits
  split
  · next digit =>
    cases hadSign with
    | true => exact signed rfl
    | false =>
      obtain ⟨rfl, first⟩ := unsign rfl
      simp [first] at digit
  · next digit =>
    rw [Bool.not_eq_true, Bool.not_eq_false'] at digit
    have run := Cursor.skip_run digit
    have less := Cursor.skip_le (unsigned.skip (unsigned.rest.takeWhile isDigit).length) 1
    dsimp only
    split
    · simp only; omega
    · split
      · next word =>
        simp only [Bool.and_eq_true, Bool.not_eq_true'] at word
        obtain ⟨rfl, first⟩ := unsign word.1
        refine Cursor.skip_run ?_
        rw [Option.any_eq_true] at first ⊢
        obtain ⟨r, next, held⟩ := first
        exact ⟨r, next, by simp [isIdentifierCharacter, held]⟩
      · simp only; omega

private theorem readNumberOrDuration_shorter
    (start : (peek c).any (fun r => isDigit r || decide (r = '-') || decide (r = '+')) = true) :
    (readNumberOrDuration c).2.rest.length < c.rest.length := by
  have one : (c.skip 1).rest.length < c.rest.length := by
    cases next : c.rest with
    | nil => simp [peek, next] at start
    | cons r rest => simp [Cursor.skip, next]
  unfold readNumberOrDuration
  split
  · exact readDigits_shorter one.le (by simp) fun _ => one
  · next unsigned =>
    refine readDigits_shorter (Nat.le_refl _) (fun _ => ⟨rfl, ?_⟩) (by simp)
    rw [Option.any_eq_true] at start ⊢
    obtain ⟨r, next, held⟩ := start
    simp only [next, Option.some.injEq, not_or] at unsigned
    exact ⟨r, next, by simpa [unsigned] using held⟩

private theorem ite_shorter {p : Prop} [Decidable p] {a b : QueryLexResult} {n : Nat}
    (left : a.2.rest.length < n)
    (right : ¬ p → b.2.rest.length < n) : (if p then a else b).2.rest.length < n := by
  split
  · exact left
  · next other => exact right other

private theorem tokenAt_shorter :
    (∃ token, (tokenAt c).1 = .ok token ∧ token.type = .eof ∧ (tokenAt c).2 = c) ∨
      (tokenAt c).2.rest.length < c.rest.length := by
  unfold tokenAt
  dsimp only
  cases next : c.rest with
  | nil => exact .inl ⟨_, rfl, rfl, rfl⟩
  | cons r rest =>
    have one : (c.skip 1).rest.length < (r :: rest).length := by simp [Cursor.skip, next]
    have two : ((c.skip 1).skip 1).rest.length < (r :: rest).length :=
      Nat.lt_of_le_of_lt (Cursor.skip_le _ 1) one
    refine .inr ?_
    refine ite_shorter one fun _ => ite_shorter one fun _ => ite_shorter one fun _ => ite_shorter
      one fun _ => ?_
    refine ite_shorter (ite_shorter two fun _ => one) fun _ => ?_
    refine ite_shorter (ite_shorter two fun _ => one) fun _ => ?_
    refine ite_shorter (ite_shorter two fun _ => one) fun _ => ?_
    refine ite_shorter (Nat.lt_succ_of_le readQuoted_le) fun _ => ?_
    by_cases number : (isDigit r || decide (r = '-') || decide (r = '+')) = true
    · rw [if_pos number, ← next]
      exact readNumberOrDuration_shorter (by rw [peek, next]; simpa using number)
    · rw [if_neg number]
      by_cases word : isIdentifierStart r = true
      · rw [if_pos word, ← next]
        refine Cursor.skip_run ?_
        rw [next]
        simp [isIdentifierCharacter, word]
      · rw [if_neg word]
        exact one

end QueryLexer

/-! ## Progress -/

/-- A lexer takes something from the text unless it is at the end. -/
def Progress (lexer : Cursor → QueryLexer.QueryLexResult) : Prop :=
  ∀ c, (lexer c).2.rest.length < c.rest.length ∨
    ∃ token, (lexer c).1 = .ok token ∧ token.type = .eof ∧ (lexer c).2.rest.length ≤ c.rest.length

theorem progress_queryLexer : Progress QueryLexer.nextToken := by
  intro c
  have spaces := c.skip_le (c.rest.takeWhile QueryLexer.isWhitespace).length
  rcases QueryLexer.tokenAt_shorter (c := QueryLexer.skipWhitespace c) with
    ⟨token, lexed, type, same⟩ | shorter
  · refine .inr ⟨token, lexed, type, ?_⟩
    rw [QueryLexer.nextToken, same]
    exact spaces
  · exact .inl (Nat.lt_of_lt_of_le shorter spaces)

/-- The Go lexer as one that could go on after a failure. -/
def resume (lexer : Cursor → Except LexError (Token × Cursor)) (c : Cursor) :
    QueryLexer.QueryLexResult :=
  match lexer c with
  | .ok result => (.ok result.1, result.2)
  | .error err => (.error err, ⟨0, []⟩)

private theorem strictly_resume (lexer : Cursor → Except LexError (Token × Cursor)) :
    (fun c => strictly (resume lexer c)) = lexer := by
  funext c
  unfold resume
  cases lexer c <;> rfl

private theorem progress_lexer : Progress (resume Lexer.nextToken) := by
  intro c
  unfold resume
  cases lexed : Lexer.nextToken c with
  | ok result =>
    obtain ⟨passes, -, shorter⟩ := Lexer.nextToken_lexes lexed
    by_cases done : result.1.type = .eof
    · exact .inr ⟨result.1, rfl, done, passes.suffix.length_le⟩
    · exact .inl (shorter done)
  | error err =>
    refine .inl (List.length_pos_of_ne_nil fun empty => ?_)
    obtain ⟨pos, rest⟩ := c
    cases empty
    cases lexed

/-! ## Parsers -/

/-- The text left and, before its end, the current token. -/
def ParserState.size (p : ParserState) : Nat := p.cursor.rest.length + if p.at .eof then 0 else 1

section Parsers
variable {lexer : Cursor → QueryLexer.QueryLexResult}

theorem advance_size (progress : Progress lexer) {s : QueryParser.State}
    (more : s.1.at .eof = false) : (QueryParser.advance lexer s).1.size < s.1.size := by
  have size : s.1.size = s.1.cursor.rest.length + 1 := by simp [ParserState.size, more]
  unfold QueryParser.advance
  have step := progress s.1.cursor
  split
  · next token cursor lexed =>
    rw [lexed] at step
    dsimp only at step
    rcases step with shorter | ⟨token', same, type, le⟩
    · simp only [ParserState.size] at size ⊢
      split <;> omega
    · cases same
      simp only [ParserState.size, ParserState.at, type, decide_true, if_true] at size ⊢
      omega
  · next err cursor lexed =>
    rw [lexed] at step
    rcases step with shorter | ⟨token', same, -⟩
    · simp only [ParserState.size, ParserState.at] at size more ⊢
      simp only [more] at size ⊢
      simpa using shorter
    · cases same

theorem advance_follows :
    StepFollows .outOfFuel (Parser.advance fun c => strictly (lexer c)) (QueryParser.advance lexer) where
  accepted {t t'} ok := by
    rcases lexed : lexer t.cursor with ⟨err | token, cursor⟩
    · simp [Parser.advance, strictly, lexed, Except.map] at ok
    · simp only [Parser.advance, strictly, lexed, Except.map, Except.ok.injEq] at ok
      simp only [QueryParser.advance, lexed, ok]
  refused {t err} error := by
    rcases lexed : lexer t.cursor with ⟨err | token, cursor⟩
    · simp only [Parser.advance, strictly, lexed, Except.map, Except.error.injEq] at error
      subst error
      simp [QueryParser.advance, lexed]
    · simp [Parser.advance, strictly, lexed, Except.map] at error
  sticky {s} failed := by
    unfold QueryParser.advance
    split
    · exact failed
    · simp

private theorem value_follows (field : String) (op : ComparisonOp) :
    Follows .outOfFuel (Parser.parseValue (fun c => strictly (lexer c)) field op)
      (QueryParser.parseValue lexer field op) where
  run t := by
    unfold Parser.parseValue QueryParser.parseValue
    cases t.current.type.value? with
    | none => exact .refused (by simp) _ _ _
    | some type =>
      dsimp only
      cases step : Parser.advance (fun c => strictly (lexer c)) t with
      | ok t' =>
        rw [advance_follows.accepted step]
        exact .accepted _ _
      | error err =>
        obtain ⟨other, failed⟩ := advance_follows.refused step
        exact .of_failed other fun r result => by cases result; exact failed
  sticky {s r} failed result := by
    unfold QueryParser.parseValue at result
    split at result
    · cases result
      simp
    · cases result
      exact advance_follows.sticky failed

/-- The port looks at the failure right after a step. -/
theorem checked_step {strict : EarlyExit ParserState SyntaxError Node}
    {lenient : Lenient ParserState SyntaxError Node} (follows : Follows .outOfFuel strict lenient) :
    Follows .outOfFuel (fun t => Parser.advance (fun c => strictly (lexer c)) t >>= strict) fun s =>
      if (QueryParser.advance lexer s).2 ≠ none then some (QueryParser.placeholder, QueryParser.advance lexer s)
      else lenient (QueryParser.advance lexer s) where
  run t := by
    cases step : Parser.advance (fun c => strictly (lexer c)) t with
    | ok t' =>
      rw [advance_follows.accepted step]
      exact follows.run t'
    | error err =>
      obtain ⟨other, failed⟩ := advance_follows.refused step
      rw [if_pos failed]
      exact .of_failed other fun r result => by cases result; exact failed
  sticky {s r} failed result := by
    dsimp only at result
    rw [if_pos (advance_follows.sticky failed)] at result
    cases result
    exact advance_follows.sticky failed

private theorem operator_follows (field : String) :
    Follows .outOfFuel (Parser.parseOperator (fun c => strictly (lexer c)) field)
      (QueryParser.parseOperator lexer field) where
  run t := by
    unfold Parser.parseOperator QueryParser.parseOperator
    cases t.current.type.comparison? with
    | none => exact .refused (by simp) _ _ _
    | some op => exact (checked_step (value_follows field op)).run t
  sticky {s r} failed result := by
    unfold QueryParser.parseOperator at result
    split at result
    · cases result
      simp
    · next op _ => exact (checked_step (value_follows field op)).sticky failed result

private theorem comparison_follows :
    Follows .outOfFuel (Parser.parseComparison fun c => strictly (lexer c)) (QueryParser.parseComparison lexer) where
  run t := by
    unfold Parser.parseComparison QueryParser.parseComparison
    by_cases field : t.current.type ≠ .ident
    · rw [if_pos field, if_pos field]
      exact .refused (by simp) _ _ _
    · rw [if_neg field, if_neg field]
      exact (checked_step (operator_follows _)).run t
  sticky {s r} failed result := by
    unfold QueryParser.parseComparison at result
    split at result
    · cases result
      simp
    · exact (checked_step (operator_follows _)).sticky failed result

private theorem closeParen_follows (node : Node) :
    Follows .outOfFuel (Parser.closeParen (fun c => strictly (lexer c)) node) (QueryParser.closeParen lexer node) where
  run t := by
    unfold Parser.closeParen QueryParser.closeParen
    have clear : ¬ (t, (none : Option SyntaxError)).2 ≠ none := by simp
    by_cases closed : t.current.type ≠ .rParen
    · rw [if_pos closed, if_neg clear, if_pos closed]
      exact .refused (by simp) _ _ _
    · rw [if_neg closed, if_neg clear, if_neg closed]
      cases step : Parser.advance (fun c => strictly (lexer c)) t with
      | ok t' =>
        rw [advance_follows.accepted step]
        exact .accepted _ _
      | error err =>
        obtain ⟨other, failed⟩ := advance_follows.refused step
        exact .of_failed other fun r result => by cases result; exact failed
  sticky {s r} failed result := by
    unfold QueryParser.closeParen at result
    rw [if_pos failed] at result
    cases result
    exact failed

private theorem primary_follows {parseOr : EarlyExit ParserState SyntaxError Node}
    {parseOr' : Lenient ParserState SyntaxError Node}
    (follows : Follows .outOfFuel parseOr parseOr') :
    Follows .outOfFuel (Parser.parsePrimary (fun c => strictly (lexer c)) parseOr)
      (QueryParser.parsePrimary lexer parseOr') where
  run t := by
    unfold Parser.parsePrimary QueryParser.parsePrimary
    by_cases paren : t.at .lParen = true
    · rw [if_pos paren, if_pos paren, ← bind_assoc]
      exact ((follows.after_step advance_follows).run t).bind
        (fun node t => (closeParen_follows node).run t)
        fun node => (closeParen_follows node).sticky
    · rw [if_neg paren, if_neg paren]
      exact comparison_follows.run t
  sticky {s r} failed result := by
    unfold QueryParser.parsePrimary at result
    split at result
    · have stepped : Sticky fun s => parseOr' (QueryParser.advance lexer s) :=
        (follows.after_step advance_follows).sticky
      exact Sticky.bind stepped (fun node => (closeParen_follows node).sticky) failed result
    · exact comparison_follows.sticky failed result

theorem or_follows {parseNot : EarlyExit ParserState SyntaxError Node}
    {parseNot' : Lenient ParserState SyntaxError Node}
    (follows : Follows .outOfFuel parseNot parseNot') {fuel : Nat} :
    Follows .outOfFuel (Parser.parseOr (fun c => strictly (lexer c)) parseNot fuel)
      (QueryParser.parseOr lexer parseNot' fuel) :=
  (follows.chain advance_follows).chain advance_follows

/-- The Haxe parser follows the Go parser that reads the same tokens. -/
theorem not_follows {fuel : Nat} :
    Follows .outOfFuel (Parser.parseNot (fun c => strictly (lexer c)) fuel) (QueryParser.parseNot lexer fuel) := by
  induction fuel with
  | zero => exact ⟨fun t => .spent _, fun _ result => by cases result⟩
  | succ fuel ih =>
    refine ⟨fun t => ?_, fun {s r} failed result => ?_⟩
    · unfold Parser.parseNot QueryParser.parseNot
      by_cases negated : t.at .not = true
      · rw [if_pos negated, if_pos negated, ← bind_assoc]
        refine ((ih.after_step advance_follows).run t).bind (fun node t => .accepted _ _) fun
          node => ?_
        intro s r failed result
        cases result
        exact failed
      · rw [if_neg negated, if_neg negated]
        exact (primary_follows (or_follows ih)).run t
    · unfold QueryParser.parseNot at result
      split at result
      · obtain ⟨operand, found, result⟩ := Option.bind_eq_some_iff.mp result
        cases result
        exact ih.sticky (r := operand) (advance_follows.sticky failed) found
      · exact (primary_follows (or_follows ih)).sticky failed result

/-! Enough fuel. -/

theorem advance_ends (progress : Progress lexer) {s : QueryParser.State} {type : TokenType}
    (other : type ≠ .eof)
    (current : s.1.at type = true) : (QueryParser.advance lexer s).1.size < s.1.size := by
  refine advance_size progress ?_
  simp only [ParserState.at, decide_eq_true_eq] at current
  simp [ParserState.at, current, other]

private theorem value_ends (progress : Progress lexer) {bound : Nat} {field : String}
    {op : ComparisonOp} :
    Lenient.Ends ParserState.size bound (QueryParser.parseValue lexer field op) := by
  intro s small
  unfold QueryParser.parseValue
  split
  · exact ⟨_, rfl, Nat.le_refl _⟩
  · next type known =>
    refine ⟨_, rfl, (advance_size progress ?_).le⟩
    simp only [ParserState.at, decide_eq_false_iff_not]
    intro same
    simp [same, TokenType.value?] at known

/-- A step whose failure is looked at before the parser goes on. -/
theorem checked_ends {bound : Nat} {s : QueryParser.State}
    {next : Lenient ParserState SyntaxError Node}
    (shrinks : (QueryParser.advance lexer s).1.size < s.1.size)
    (ends : Lenient.Ends ParserState.size bound next) (small : s.1.size < bound) :
    ∃ r, (if (QueryParser.advance lexer s).2 ≠ none then some (QueryParser.placeholder, QueryParser.advance lexer s)
      else next (QueryParser.advance lexer s)) = some r ∧ r.2.1.size ≤ s.1.size := by
  split
  · exact ⟨_, rfl, shrinks.le⟩
  · obtain ⟨r, found, less⟩ := ends (QueryParser.advance lexer s) (by omega)
    exact ⟨r, found, by omega⟩

private theorem comparison_ends (progress : Progress lexer) {bound : Nat} :
    Lenient.Ends ParserState.size bound (QueryParser.parseComparison lexer) := by
  intro s small
  unfold QueryParser.parseComparison
  split
  · exact ⟨_, rfl, Nat.le_refl _⟩
  · next field =>
    have shrinks := advance_size progress (s := s) (by simp [ParserState.at, not_not.mp field])
    refine checked_ends shrinks ?_ small
    intro s small
    unfold QueryParser.parseOperator
    split
    · exact ⟨_, rfl, Nat.le_refl _⟩
    · next op known =>
      refine checked_ends (advance_size progress ?_) (value_ends progress) small
      simp only [ParserState.at, decide_eq_false_iff_not]
      intro same
      simp [same, TokenType.comparison?] at known

private theorem closeParen_ends (progress : Progress lexer) (bound : Nat) (node : Node) :
    Lenient.Ends ParserState.size bound (QueryParser.closeParen lexer node) := by
  intro s small
  unfold QueryParser.closeParen
  split
  · exact ⟨_, rfl, Nat.le_refl _⟩
  · split
    · exact ⟨_, rfl, Nat.le_refl _⟩
    · next closed =>
      exact ⟨_, rfl, (advance_size progress (by simp [ParserState.at, not_not.mp closed])).le⟩

private theorem primary_ends (progress : Progress lexer) {bound : Nat}
    {parseOr : Lenient ParserState SyntaxError Node}
    (ends : Lenient.Ends ParserState.size bound parseOr) :
    Lenient.Ends ParserState.size (bound + 1) (QueryParser.parsePrimary lexer parseOr) := by
  intro s small
  unfold QueryParser.parsePrimary
  split
  · next paren =>
    have shrinks := advance_ends progress (by simp) paren
    obtain ⟨r, found, less⟩ := ends (QueryParser.advance lexer s) (by omega)
    obtain ⟨r', found', less'⟩ := closeParen_ends progress bound r.1 r.2 (by omega)
    exact ⟨r', by rw [found]; exact found', by omega⟩
  · exact comparison_ends progress s small

private theorem not_ends (progress : Progress lexer) {fuel : Nat} :
    Lenient.Ends ParserState.size fuel (QueryParser.parseNot lexer fuel) := by
  induction fuel with
  | zero => exact fun s impossible => absurd impossible (Nat.not_lt_zero _)
  | succ fuel ih =>
    intro s small
    unfold QueryParser.parseNot
    split
    · next negated =>
      have shrinks := advance_ends progress (by simp) negated
      obtain ⟨r, found, less⟩ := ih (QueryParser.advance lexer s) (by omega)
      exact ⟨(.not r.1, r.2), by rw [found]; rfl, by dsimp only; omega⟩
    · refine primary_ends progress ?_ s small
      exact (ih.chain fun _ => advance_ends progress (by simp)).chain fun _ => advance_ends
        progress (by simp)

/-- From the start of the input, with fuel for all of it. -/
theorem parseFrom_follows (progress : Progress lexer) {start : Cursor} {fuel : Nat}
    (enough : start.rest.length + 1 < fuel) :
    (∃ node, Parser.parseFrom (fun c => strictly (lexer c)) fuel start = .ok node ∧
      QueryParser.parseFrom lexer fuel start = some (.ok node)) ∨
    ∃ err err', err ≠ .outOfFuel ∧
      Parser.parseFrom (fun c => strictly (lexer c)) fuel start = .error err ∧
      QueryParser.parseFrom lexer fuel start = some (.error err') := by
  have small : (QueryParser.advance lexer (⟨⟨.eof, "", 0⟩, start⟩, none)).1.size < fuel := by
    have step := progress start
    have rest : (lexer start).2.rest.length ≤ start.rest.length := by
      rcases step with shorter | ⟨-, -, -, le⟩
      · exact shorter.le
      · exact le
    rcases lexed : lexer start with ⟨err | token, cursor⟩
    · rw [lexed] at rest
      simp only [QueryParser.advance, lexed, ParserState.size] at rest ⊢
      split <;> omega
    · rw [lexed] at rest
      simp only [QueryParser.advance, lexed, ParserState.size] at rest ⊢
      split <;> omega
  unfold Parser.parseFrom Parser.parseQuery QueryParser.parseFrom
  cases step : Parser.advance (fun c => strictly (lexer c)) ⟨⟨.eof, "", 0⟩, start⟩ with
  | error err =>
    obtain ⟨other, failed⟩ := advance_follows.refused step
    obtain ⟨failure, noted⟩ := Option.ne_none_iff_exists'.mp failed
    exact .inr ⟨err, failure, other, rfl, by simp only [noted]⟩
  | ok p =>
    have same := advance_follows.accepted step
    rw [same] at small ⊢
    dsimp only
    by_cases empty : p.at .eof = true
    · exact .inr ⟨_, _, by simp, if_pos empty, if_pos empty⟩
    · have ends : Lenient.Ends ParserState.size fuel
          (QueryParser.parseOr lexer (QueryParser.parseNot lexer fuel) fuel) :=
        ((not_ends progress).chain fun _ => advance_ends progress (by simp)).chain fun _ =>
          advance_ends progress (by simp)
      obtain ⟨r, found, -⟩ := ends (p, none) small
      have run : Matches .outOfFuel (Parser.parseOr (fun c => strictly (lexer c)) _ fuel p)
          (QueryParser.parseOr lexer (QueryParser.parseNot lexer fuel) fuel (p, none)) := (or_follows not_follows).run p
      rw [found] at run
      dsimp only [bind, Except.bind]
      rw [if_neg empty, if_neg empty, found]
      generalize Parser.parseOr _ _ fuel p = outcome at run ⊢
      cases run with
      | refused other a t failure => exact .inr ⟨_, failure, other, rfl, rfl⟩
      | accepted a t =>
        by_cases last : (!t.at .eof) = true
        · exact .inr ⟨_, _, by simp, if_pos last, congrArg some (if_pos last)⟩
        · exact .inl ⟨a, if_neg last, congrArg some (if_neg last)⟩

end Parsers

/-! ## Two lexers -/

section Same
variable {lexer lexer' : Cursor → Except LexError (Token × Cursor)} {I : ParserState → Prop}
  (step : StepSame I (Parser.advance lexer) (Parser.advance lexer'))

omit step in
theorem error_same {err : SyntaxError} :
    EarlyExit.Same (α := Node) I (fun _ => .error err) fun _ => .error err :=
  fun _ _ => ⟨rfl, fun _ impossible => by cases impossible⟩

include step

theorem last_same (node : Node) :
    EarlyExit.Same I (fun p => Parser.advance lexer p >>= fun p => pure (node, p))
    fun p => Parser.advance lexer' p >>= fun p => pure (node, p) :=
  EarlyExit.Same.after_step step fun t held => ⟨rfl, fun r found => by cases found; exact held⟩

private theorem value_same (field : String) (op : ComparisonOp) :
    EarlyExit.Same I (Parser.parseValue lexer field op) (Parser.parseValue lexer' field op) := by
  intro p held
  unfold Parser.parseValue
  cases p.current.type.value? with
  | none => exact error_same p held
  | some type => exact last_same step _ p held

private theorem operator_same (field : String) :
    EarlyExit.Same I (Parser.parseOperator lexer field) (Parser.parseOperator lexer' field) := by
  intro p held
  unfold Parser.parseOperator
  cases p.current.type.comparison? with
  | none => exact error_same p held
  | some op => exact EarlyExit.Same.after_step step (value_same step field op) p held

private theorem comparison_same :
    EarlyExit.Same I (Parser.parseComparison lexer) (Parser.parseComparison lexer') := by
  intro p held
  unfold Parser.parseComparison
  split
  · exact error_same p held
  · exact EarlyExit.Same.after_step step (operator_same step _) p held

private theorem closeParen_same (node : Node) :
    EarlyExit.Same I (Parser.closeParen lexer node) (Parser.closeParen lexer' node) := by
  intro p held
  unfold Parser.closeParen
  split
  · exact error_same p held
  · exact last_same step node p held

private theorem primary_same {parseOr parseOr' : EarlyExit ParserState SyntaxError Node}
    (same : EarlyExit.Same I parseOr parseOr') :
    EarlyExit.Same I (Parser.parsePrimary lexer parseOr) (Parser.parsePrimary lexer' parseOr') := by
  intro p held
  unfold Parser.parsePrimary
  split
  · exact EarlyExit.Same.after_step step (same.bind fun node => closeParen_same step node) p held
  · exact comparison_same step p held

theorem or_same {parseNot parseNot' : EarlyExit ParserState SyntaxError Node}
    (same : EarlyExit.Same I parseNot parseNot')
    {fuel : Nat} : EarlyExit.Same I (Parser.parseOr lexer parseNot fuel)
    (Parser.parseOr lexer' parseNot' fuel) :=
  (same.chain step).chain step

theorem not_same {fuel : Nat} :
    EarlyExit.Same I (Parser.parseNot lexer fuel) (Parser.parseNot lexer' fuel) := by
  induction fuel with
  | zero => exact error_same
  | succ fuel ih =>
    intro p held
    unfold Parser.parseNot
    split
    · refine EarlyExit.Same.after_step step (ih.bind fun node => ?_) p held
      exact fun t held => ⟨rfl, fun r found => by cases found; exact held⟩
    · exact primary_same step (or_same step ih) p held

private theorem query_same {fuel : Nat} {p : ParserState} (held : I p) :
    Parser.parseQuery lexer fuel p = Parser.parseQuery lexer' fuel p := by
  unfold Parser.parseQuery
  rw [(or_same step (not_same step) p held).1]

private theorem parseFrom_same {fuel : Nat} {start : Cursor} (held : I ⟨⟨.eof, "", 0⟩, start⟩) :
    Parser.parseFrom lexer fuel start = Parser.parseFrom lexer' fuel start := by
  obtain ⟨equal, keeps⟩ := step _ held
  unfold Parser.parseFrom
  rw [← equal]
  exact bind_congr_ok fun p first => query_same step (keeps p first)

end Same

/-! ## Queries -/

/-- A text without NUL that is plain. -/
def Readable (p : ParserState) : Prop :=
  '\x00' ∉ p.cursor.rest ∧ plainFrom none p.cursor.rest = true

theorem readable_same :
    StepSame Readable (Parser.advance fun c => strictly (QueryLexer.nextToken c)) (Parser.advance Lexer.nextToken) := by
  intro p held
  have equal : strictly (QueryLexer.nextToken p.cursor) = Lexer.nextToken p.cursor :=
    QueryLexer.nextToken_eq held.1 held.2
  unfold Parser.advance
  dsimp only
  rw [equal]
  refine ⟨rfl, fun t found => ?_⟩
  cases lexed : Lexer.nextToken p.cursor with
  | error err =>
    rw [lexed] at found
    cases found
  | ok result =>
    rw [lexed] at found
    cases found
    obtain ⟨passes, -⟩ := Lexer.nextToken_lexes lexed
    exact ⟨fun nul => held.1 (passes.suffix.subset nul), passes.plain.trans held.2⟩

/-- A text without NUL that is not plain, before its end. -/
def Foreign (p : ParserState) : Prop :=
  '\x00' ∉ p.cursor.rest ∧ plainFrom none p.cursor.rest = false

/-- The Go lexer never comes past a foreign digit. -/
theorem foreign_advance {p t : ParserState} (foreign : Foreign p)
    (ok : Parser.advance Lexer.nextToken p = .ok t) :
    Foreign t ∧ t.at .eof = false := by
  unfold Parser.advance at ok
  cases lexed : Lexer.nextToken p.cursor with
  | error err =>
    rw [lexed] at ok
    cases ok
  | ok result =>
    rw [lexed] at ok
    cases ok
    obtain ⟨passes, ends, -⟩ := Lexer.nextToken_lexes lexed
    refine ⟨⟨fun nul => foreign.1 (passes.suffix.subset nul), passes.plain.trans foreign.2⟩, ?_⟩
    simp only [ParserState.at, decide_eq_false_iff_not]
    intro done
    simp [foreign.2] at ends
    exact foreign.1 (ends done)

private theorem foreign_same :
    StepSame (fun p => Foreign p ∧ p.at .eof = false) (Parser.advance Lexer.nextToken)
    (Parser.advance Lexer.nextToken) :=
  fun _ held => ⟨rfl, fun _ found => foreign_advance held.1 found⟩

section Queries
variable {input : List UInt8}

theorem ofBytes_text (text : (0 : UInt8) ∉ input) : '\x00' ∉ (Cursor.ofBytes input).rest := by
  intro nul
  obtain ⟨b, member, same⟩ := List.mem_map.mp nul
  have small := b.toNat_lt
  have valid : b.toNat.isValidChar := .inl (by omega)
  have zero : (Char.ofNat b.toNat).toNat = 0 := by rw [same]; rfl
  rw [Char.ofNat, dif_pos valid] at zero
  have byte : b = 0 := UInt8.toNat_inj.mp zero
  exact text (byte ▸ member)

private theorem parse_plain (text : (0 : UInt8) ∉ input) (plain : Plain input) :
    parse input =
      Parser.parseFrom (fun c => strictly (QueryLexer.nextToken c)) (input.length + 2) (Cursor.ofBytes input) :=
  (parseFrom_same readable_same ⟨ofBytes_text text, plain⟩).symm

private theorem parse_foreign (text : (0 : UInt8) ∉ input) (foreign : ¬ Plain input) (node : Node) :
    parse input ≠ .ok node := by
  intro ok
  have start : Foreign ⟨⟨.eof, "", 0⟩, Cursor.ofBytes input⟩ :=
    ⟨ofBytes_text text, Bool.eq_false_iff.mpr foreign⟩
  unfold parse Parser.parseFrom at ok
  obtain ⟨p, step, ok⟩ := bind_eq_ok.mp ok
  unfold Parser.parseQuery at ok
  obtain ⟨-, ok⟩ := guard_eq_ok.mp ok
  obtain ⟨result, parsed, ok⟩ := bind_eq_ok.mp ok
  obtain ⟨last, -⟩ := guard_eq_ok.mp ok
  have kept :=
    ((or_same foreign_same (not_same foreign_same)) p (foreign_advance start step)).2 result parsed
  simp [kept.2] at last

theorem bytes_enough : (Cursor.ofBytes input).rest.length + 1 < input.length + 2 := by
  simp [Cursor.ofBytes]

/-- The Go parser always returns. -/
theorem parse_ends : parse input ≠ .error .outOfFuel := by
  intro spent
  unfold parse at spent
  rw [← strictly_resume Lexer.nextToken] at spent
  rcases parseFrom_follows progress_lexer bytes_enough with
    ⟨node, ok, -⟩ | ⟨err, -, other, refused, -⟩
  · rw [ok] at spent
    cases spent
  · rw [refused] at spent
    exact other (Except.error.inj spent)

variable (input) in
/-- The Haxe parser always returns. -/
theorem querySyntax_ends : ∃ result, QuerySyntax.parse input = some result := by
  unfold QuerySyntax.parse
  rcases parseFrom_follows progress_queryLexer bytes_enough with
    ⟨node, -, ok⟩ | ⟨-, err, -, -, refused⟩
  · exact ⟨_, ok⟩
  · exact ⟨_, refused⟩

/-- Both parsers accept the query with the same tree, or both refuse it. -/
def Agree (input : List UInt8) : Prop :=
  (∃ node, parse input = .ok node ∧ QuerySyntax.parse input = some (.ok node)) ∨
    ∃ err err', err ≠ .outOfFuel ∧ parse input = .error err ∧ QuerySyntax.parse input = some (.error err')

theorem agree_of_plain (text : (0 : UInt8) ∉ input) (plain : Plain input) : Agree input := by
  unfold Agree QuerySyntax.parse
  rw [parse_plain text plain]
  exact parseFrom_follows progress_queryLexer bytes_enough

/-- With superscripts and fractions among the digits the text is in the grammar of the Go parser. -/
def WellFormed (input : List UInt8) : Prop :=
  ∃ node, Parser.parseFrom (fun c => strictly (QueryLexer.nextToken c)) (input.length + 2) (Cursor.ofBytes input) =
    .ok node

private theorem querySyntax_accepts_iff :
    (∃ node, QuerySyntax.parse input = some (.ok node)) ↔ WellFormed input := by
  unfold WellFormed QuerySyntax.parse
  rcases parseFrom_follows progress_queryLexer bytes_enough with
    ⟨node, ok, accepted⟩ | ⟨err, err', -, refused, rejected⟩
  · exact iff_of_true ⟨node, accepted⟩ ⟨node, ok⟩
  · rw [refused, rejected]
    exact iff_of_false (fun ⟨_, same⟩ => by cases same) fun ⟨_, same⟩ => by cases same

end Queries

/-- Queries without superscripts and fractions outside quoted texts are parsed
alike. Of the others the Go parser refuses every one, so they are parsed alike
only where they are no queries even with these characters as digits. -/
theorem agree_iff (input : List UInt8) (text : (0 : UInt8) ∉ input) :
    (Agree input ↔ Plain input ∨ ¬ WellFormed input) ∧
      (¬ Plain input → ∀ node, parse input ≠ .ok node) := by
  refine ⟨⟨fun agree => ?_, ?_⟩, parse_foreign text⟩
  · by_cases plain : Plain input
    · exact .inl plain
    · refine .inr fun formed => ?_
      obtain ⟨node, accepted⟩ := querySyntax_accepts_iff.mpr formed
      rcases agree with ⟨node', ok, -⟩ | ⟨-, err, -, -, refused⟩
      · exact parse_foreign text plain node' ok
      · rw [refused] at accepted
        cases accepted
  · rintro (plain | refused)
    · exact agree_of_plain text plain
    · by_cases plain : Plain input
      · exact agree_of_plain text plain
      · obtain ⟨result, ends⟩ := querySyntax_ends input
        cases result with
        | ok node => exact absurd (querySyntax_accepts_iff.mp ⟨node, ends⟩) refused
        | error err' =>
          cases outcome : parse input with
          | ok node => exact absurd outcome (parse_foreign text plain node)
          | error err =>
            exact .inr ⟨err, err', fun same => parse_ends (outcome.trans (by rw [same])), outcome,
              ends⟩

/-- `status=open` -/
def statusOpen : List UInt8 := [115, 116, 97, 116, 117, 115, 61, 111, 112, 101, 110]

/-- A query of ASCII characters. -/
theorem agree_iff_status : (0 : UInt8) ∉ statusOpen ∧ Agree statusOpen :=
  ⟨by decide, (agree_iff statusOpen (by decide)).1.mpr (.inl (by decide +kernel))⟩

/-- `title=²`, with the superscript in its two bytes. -/
def titleSquare : List UInt8 := [116, 105, 116, 108, 101, 61, 194, 178]

/-- The port reads the second byte of the superscript as a digit. -/
theorem not_agree_square : (0 : UInt8) ∉ titleSquare ∧ ¬ Agree titleSquare := by
  have accepted : QuerySyntax.parse titleSquare = some
      (.ok (.comparison ⟨"title", .equals, "Â²", .ident⟩)) := by
    decide +kernel
  have refused : parse titleSquare = .error (.lexical (.unexpectedCharacter '²' 7)) := by
    decide +kernel
  refine ⟨by decide, ?_⟩
  rintro (⟨node, ok, -⟩ | ⟨err, err', -, -, rejected⟩)
  · rw [refused] at ok
    cases ok
  · rw [accepted] at rejected
    cases rejected

end Beads.Query
