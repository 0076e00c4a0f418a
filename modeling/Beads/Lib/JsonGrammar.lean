import Mathlib.Data.Bool.AllAny
import Mathlib.Data.List.Basic
import Mathlib.Tactic.Common

/-! The grammar of JSON over UTF-16 code units, with the tokens of a text. The texts of numbers and
the code units that need no escape are a parameter: `rfc8259` is the standard, `loose` lets any run
of code units be a number and any code unit stand in a string. -/
namespace Beads.Lib.JsonGrammar

abbrev CodeUnit := UInt16

/-- The code unit of an ASCII character. -/
def unit (c : Char) : CodeUnit := UInt16.ofNat c.toNat

def units (text : String) : List CodeUnit := text.toList.map unit

/-! ## Tokens -/

inductive Token where
  /-- A structural character. -/
  | mark (c : CodeUnit)
  | literal (text : List CodeUnit)
  | number (text : List CodeUnit)
  | string (body : List CodeUnit)
  deriving DecidableEq

def quoted (body : List CodeUnit) : List CodeUnit := unit '"' :: (body ++ [unit '"'])

def Token.text : Token → List CodeUnit
  | .mark c => [c]
  | .literal text => text
  | .number text => text
  | .string body => quoted body

def isBlank (c : CodeUnit) : Bool := c = unit ' ' || c = unit '\t' || c = unit '\n' || c = unit '\r'

/-- `ws` -/
def Gap (l : List CodeUnit) : Prop := ∀ c ∈ l, isBlank c = true

def isDigit (c : CodeUnit) : Bool := unit '0' ≤ c && c ≤ unit '9'

def isHex (c : CodeUnit) : Bool :=
  isDigit c || (unit 'A' ≤ c && c ≤ unit 'F') || (unit 'a' ≤ c && c ≤ unit 'f')

/-- What may follow a backslash, but for `u`. -/
def isEscape (c : CodeUnit) : Bool := c ∈ units "\"\\/bfnrt"

/-- The inside of a string, with code units from `low` on unescaped. -/
inductive Body (low : CodeUnit) : List CodeUnit → Prop where
  | nil : Body low []
  | plain {body : List CodeUnit} (c : CodeUnit) (quote : c ≠ unit '"') (slash : c ≠ unit '\\') (shown : low ≤ c)
      (rest : Body low body) : Body low (c :: body)
  | escape {body : List CodeUnit} (e : CodeUnit) (known : isEscape e = true) (rest : Body low body) :
      Body low (unit '\\' :: e :: body)
  | unicode {body : List CodeUnit} (a b c d : CodeUnit) (hex : ∀ x ∈ [a, b, c, d], isHex x = true)
      (rest : Body low body) : Body low (unit '\\' :: unit 'u' :: a :: b :: c :: d :: body)

/-! ## Numbers -/

def Digits (l : List CodeUnit) : Prop := l ≠ [] ∧ ∀ c ∈ l, isDigit c = true

def Whole (l : List CodeUnit) : Prop := Digits l ∧ (l = [unit '0'] ∨ l.head? ≠ some (unit '0'))

def Fraction (l : List CodeUnit) : Prop := ∃ digits, Digits digits ∧ l = unit '.' :: digits

def Exponent (l : List CodeUnit) : Prop :=
  ∃ e sign digits, (e = unit 'e' ∨ e = unit 'E') ∧ (sign = [] ∨ sign = [unit '+'] ∨ sign = [unit '-']) ∧ Digits digits ∧
    l = e :: (sign ++ digits)

/-- `number` -/
def Number (l : List CodeUnit) : Prop :=
  ∃ minus whole fraction exponent, (minus = [] ∨ minus = [unit '-']) ∧ Whole whole ∧
    (fraction = [] ∨ Fraction fraction) ∧ (exponent = [] ∨ Exponent exponent) ∧
    l = minus ++ whole ++ fraction ++ exponent

/-- What ends a run of code units. -/
def isEnd (c : CodeUnit) : Bool := c = unit ',' || c = unit ']' || c = unit '}' || isBlank c

/-- What starts another value than a number. -/
def isOpening (c : CodeUnit) : Bool := c ∈ units "\x7b[\"tfn"

/-- A run of code units that is read as a number. -/
def Run (l : List CodeUnit) : Prop :=
  l ≠ [] ∧ (∀ c ∈ l, isEnd c = false) ∧ ∀ c, l.head? = some c → isOpening c = false

/-! ## The grammar -/

structure Lexis where
  number : List CodeUnit → Prop
  low : CodeUnit

def rfc8259 : Lexis := ⟨Number, 0x20⟩

def loose : Lexis := ⟨Run, 0⟩

inductive Container where
  | array
  | object
  deriving DecidableEq

inductive Category where
  | value
  /-- A value with whitespace around it. -/
  | item
  /-- A member of an object. -/
  | pair
  | listOf (each : Category)

namespace Container

def opening : Container → CodeUnit
  | .array => unit '['
  | .object => unit '{'

def closing : Container → CodeUnit
  | .array => unit ']'
  | .object => unit '}'

def each : Container → Category
  | .array => .item
  | .object => .pair

end Container

/-- The texts of a category, with their tokens. A JSON text is an item. -/
inductive Grammar (lexis : Lexis) : Category → List CodeUnit → List Token → Prop where
  | literal (word : String) (known : word ∈ ["true", "false", "null"]) :
      Grammar lexis .value (units word) [.literal (units word)]
  | number {text : List CodeUnit} (number : lexis.number text) : Grammar lexis .value text [.number text]
  | string {body : List CodeUnit} (written : Body lexis.low body) : Grammar lexis .value (quoted body) [.string body]
  | empty (container : Container) {gap : List CodeUnit} (blank : Gap gap) :
      Grammar lexis .value (container.opening :: (gap ++ [container.closing]))
        [.mark container.opening, .mark container.closing]
  | container (container : Container) {text : List CodeUnit} {tokens : List Token}
      (inside : Grammar lexis (.listOf container.each) text tokens) :
      Grammar lexis .value (container.opening :: (text ++ [container.closing]))
        (.mark container.opening :: (tokens ++ [.mark container.closing]))
  | item {before text after : List CodeUnit} {tokens : List Token} (blank : Gap before) (blank' : Gap after)
      (value : Grammar lexis .value text tokens) : Grammar lexis .item (before ++ (text ++ after)) tokens
  | pair {before key after text : List CodeUnit} {tokens : List Token} (blank : Gap before) (blank' : Gap after)
      (written : Body lexis.low key) (value : Grammar lexis .item text tokens) :
      Grammar lexis .pair (before ++ (quoted key ++ (after ++ unit ':' :: text)))
        (.string key :: .mark (unit ':') :: tokens)
  | one {each : Category} {text : List CodeUnit} {tokens : List Token} (last : Grammar lexis each text tokens) :
      Grammar lexis (.listOf each) text tokens
  | more {each : Category} {text text' : List CodeUnit} {tokens tokens' : List Token}
      (first : Grammar lexis each text tokens) (rest : Grammar lexis (.listOf each) text' tokens') :
      Grammar lexis (.listOf each) (text ++ unit ',' :: text') (tokens ++ .mark (unit ',') :: tokens')

/-- A token that the lexis admits. -/
def Token.Fits (lexis : Lexis) : Token → Prop
  | .mark _ => True
  | .literal _ => True
  | .number text => lexis.number text
  | .string body => Body lexis.low body

namespace Grammar
variable {lexis lexis' : Lexis} {category : Category} {text : List CodeUnit} {tokens : List Token}

theorem fits (derived : Grammar lexis category text tokens) :
    ∀ token ∈ tokens, token.Fits lexis := by
  induction derived with
  | literal word known => simp [Token.Fits]
  | number number => simpa [Token.Fits] using number
  | string body => simpa [Token.Fits] using body
  | empty container blank => simp [Token.Fits]
  | container container inside ih => simpa [Token.Fits, or_imp, forall_and] using ih
  | item before after value ih => exact ih
  | pair before after key value ih => simpa [Token.Fits, key] using ih
  | one last ih => exact ih
  | more first rest ih ih' => simpa [Token.Fits, or_imp, forall_and] using ⟨ih, ih'⟩

/-- Only the tokens tell one lexis from another. -/
theorem refine (derived : Grammar lexis category text tokens)
    (fits : ∀ token ∈ tokens, token.Fits lexis') :
    Grammar lexis' category text tokens := by
  induction derived with
  | literal word known => exact .literal word known
  | number number => exact .number (fits _ List.mem_cons_self)
  | string body => exact .string (fits _ List.mem_cons_self)
  | empty container blank => exact .empty container blank
  | container container inside ih =>
    exact .container container (ih fun token held => fits token (by simp [held]))
  | item before after value ih => exact .item before after (ih fits)
  | pair before after key value ih =>
    exact .pair before after (fits _ List.mem_cons_self)
      (ih fun token held => fits token (by simp [held]))
  | one last ih => exact .one (ih fits)
  | more first rest ih ih' =>
    exact .more (ih fun token held => fits token (by simp [held]))
      (ih' fun token held => fits token (by simp [held]))

end Grammar

/-! ## The loose grammar -/

section Loose
variable {low : CodeUnit} {body : List CodeUnit}

private theorem Body.toLoose (written : Body low body) : Body 0 body := by
  induction written with
  | nil => exact .nil
  | plain c quote slash _ _ ih =>
    exact .plain c quote slash (UInt16.le_iff_toNat_le.mpr (Nat.zero_le _)) ih
  | escape e known _ ih => exact .escape e known ih
  | unicode a b c d hex _ ih => exact .unicode a b c d hex ih

private theorem isEscape_shown {c : CodeUnit} (known : isEscape c = true) : 0x20 ≤ c := by
  have shown : ∀ d ∈ units "\"\\/bfnrt", 0x20 ≤ d := List.all_iff_forall_prop.mp (by decide)
  exact shown c (of_decide_eq_true known)

private theorem isHex_shown {c : CodeUnit} (hex : isHex c = true) : 0x20 ≤ c := by
  simp only [isHex, isDigit, Bool.or_eq_true, Bool.and_eq_true, decide_eq_true_eq] at hex
  rcases hex with (digit | upper) | lower
  · exact UInt16.le_trans (by decide) digit.1
  · exact UInt16.le_trans (by decide) upper.1
  · exact UInt16.le_trans (by decide) lower.1

/-- Only the code units that stand for themselves can be control characters. -/
theorem Body.shown (written : Body 0x20 body) : ∀ c ∈ body, 0x20 ≤ c := by
  induction written with
  | nil => simp
  | plain c _ _ shown _ ih => exact List.forall_mem_cons.mpr ⟨shown, ih⟩
  | escape e known _ ih =>
    exact List.forall_mem_cons.mpr ⟨by decide, List.forall_mem_cons.mpr ⟨isEscape_shown known, ih⟩⟩
  | @unicode body a b c d hex _ ih =>
    have split : unit '\\' :: unit 'u' :: a :: b :: c :: d :: body =
        [unit '\\', unit 'u'] ++ [a, b, c, d] ++ body := rfl
    rw [split]
    refine List.forall_mem_append.mpr
      ⟨List.forall_mem_append.mpr ⟨List.all_iff_forall_prop.mp (by decide), fun x held => ?_⟩, ih⟩
    exact isHex_shown (hex x held)

theorem Body.raise {low' : CodeUnit} (written : Body low body) (shown : ∀ c ∈ body, low' ≤ c) :
    Body low' body := by
  induction written with
  | nil => exact .nil
  | plain c quote slash _ _ ih =>
    obtain ⟨first, others⟩ := List.forall_mem_cons.mp shown
    exact .plain c quote slash first (ih others)
  | escape e known _ ih => exact .escape e known (ih fun c held => shown c (by simp [held]))
  | unicode a b c d hex _ ih =>
    exact .unicode a b c d hex (ih fun c held => shown c (by simp [held]))

/-- The code units of numbers. -/
def isNumberPart (c : CodeUnit) : Bool := isDigit c || c ∈ units "-+.eE"

private theorem isDigit_range {c : CodeUnit} : isDigit c = true ↔ 48 ≤ c.toNat ∧ c.toNat ≤ 57 := by
  simp only [isDigit, Bool.and_eq_true, decide_eq_true_eq, UInt16.le_iff_toNat_le]
  rfl

theorem isNumberPart_plain {c : CodeUnit} (part : isNumberPart c = true) :
    isEnd c = false ∧ isOpening c = false := by
  simp only [isNumberPart, Bool.or_eq_true, decide_eq_true_eq] at part
  rcases part with digit | mark
  · rw [isDigit_range] at digit
    have other (d : Char) (outside : d.toNat < 48 ∨ 57 < d.toNat) (small : d.toNat < 65536) :
        c ≠ unit d := by
      intro same
      have value : c.toNat = d.toNat := by
        rw [same, unit, UInt16.toNat_ofNat']
        exact Nat.mod_eq_of_lt small
      omega
    constructor
    · simp [isEnd, isBlank, other ',' (by decide) (by decide), other ']' (by decide) (by decide),
        other '}' (by decide) (by decide), other ' ' (by decide) (by decide), other '\t' (by decide) (by decide),
        other '\n' (by decide) (by decide), other '\r' (by decide) (by decide)]
    · simp [isOpening, units, other '{' (by decide) (by decide), other '[' (by decide) (by decide),
        other '"' (by decide) (by decide), other 't' (by decide) (by decide), other 'f' (by decide) (by decide),
        other 'n' (by decide) (by decide)]
  · have plain : ∀ d ∈ units "-+.eE", isEnd d = false ∧ isOpening d = false :=
      List.all_iff_forall_prop.mp (by decide)
    exact plain c mark

theorem Digits.parts {l : List CodeUnit} (digits : Digits l) : ∀ c ∈ l, isNumberPart c = true := by
  intro c held
  simp [isNumberPart, digits.2 c held]

theorem Number.parts {l : List CodeUnit} (number : Number l) :
    l ≠ [] ∧ ∀ c ∈ l, isNumberPart c = true := by
  obtain ⟨minus, whole, fraction, exponent, sign, integer, part, power, rfl⟩ := number
  constructor
  · simp [integer.1.1]
  · simp only [List.forall_mem_append]
    refine ⟨⟨⟨?_, integer.1.parts⟩, ?_⟩, ?_⟩
    · rcases sign with rfl | rfl
      · simp
      · exact List.all_iff_forall_prop.mp (by decide)
    · rcases part with rfl | ⟨digits, written, rfl⟩
      · simp
      · exact List.forall_mem_cons.mpr ⟨by decide, written.parts⟩
    · rcases power with rfl | ⟨e, sign, digits, known, signed, written, rfl⟩
      · simp
      · refine List.forall_mem_cons.mpr ⟨?_, List.forall_mem_append.mpr ⟨?_, written.parts⟩⟩
        · rcases known with rfl | rfl <;> decide
        · rcases signed with rfl | rfl | rfl
          · simp
          · exact List.all_iff_forall_prop.mp (by decide)
          · exact List.all_iff_forall_prop.mp (by decide)

theorem Number.run {l : List CodeUnit} (number : Number l) : Run l := by
  obtain ⟨some, parts⟩ := number.parts
  refine ⟨some, fun c held => (isNumberPart_plain (parts c held)).1, fun c head => ?_⟩
  exact (isNumberPart_plain (parts c (List.mem_of_mem_head? head))).2

private theorem Token.Fits.toLoose {token : Token} (fits : token.Fits rfc8259) :
    token.Fits loose := by
  cases token with
  | mark c => trivial
  | literal text => trivial
  | number text => exact Number.run fits
  | string body => exact Body.toLoose fits

theorem Grammar.toLoose {category : Category} {text : List CodeUnit} {tokens : List Token}
    (derived : Grammar rfc8259 category text tokens) : Grammar loose category text tokens :=
  derived.refine fun token held => (derived.fits token held).toLoose

end Loose

end Beads.Lib.JsonGrammar
