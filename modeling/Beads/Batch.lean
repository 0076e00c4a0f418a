import Mathlib.Data.List.Basic

/-! The lines of a batch (`cmd/bd/batch.go`): tokens between spaces and tabs, which may be quoted.
-/
namespace Beads.Batch

abbrev Bytes := List UInt8

def quote : UInt8 := '"'.toUInt8
def backslash : UInt8 := '\\'.toUInt8
def space : UInt8 := ' '.toUInt8
def tab : UInt8 := '\t'.toUInt8

/-! ## The tokenizer -/

/-- The variables of the loop of `tokenizeBatchLine`. -/
structure Tokenizer where
  tokens : List Bytes := []
  cur : Bytes := []
  inQuote : Bool := false
  hasToken : Bool := false

namespace Tokenizer

/-- `cur.WriteByte`. -/
def writeByte (t : Tokenizer) (c : UInt8) : Tokenizer := { t with cur := t.cur ++ [c] }

/-- The token ends, if there is one. -/
def endToken (t : Tokenizer) : Tokenizer :=
  if t.hasToken then { t with tokens := t.tokens ++ [t.cur], cur := [], hasToken := false } else t

/-- The loop of `tokenizeBatchLine`. -/
def scan (t : Tokenizer) : Bytes → Tokenizer
  | [] => t
  | c :: rest =>
    if t.inQuote then
      if c = backslash then
        match rest with
        | next :: rest' =>
          if next = quote ∨ next = backslash then (t.writeByte next).scan rest'
          -- any other byte is read again, behind the backslash
          else (t.writeByte c).scan (next :: rest')
        | [] => t.writeByte c
      else if c = quote then { t with inQuote := false }.scan rest
      else (t.writeByte c).scan rest
    else if c = quote then { t with inQuote := true, hasToken := true }.scan rest
    else if c = space ∨ c = tab then t.endToken.scan rest
    else ({ t with hasToken := true }.writeByte c).scan rest

end Tokenizer

/-- `tokenizeBatchLine`. -/
def tokenizeBatchLine (s : Bytes) : Except String (List Bytes) :=
  let t := ({} : Tokenizer).scan s
  if t.inQuote then .error "unterminated quoted string" else .ok t.endToken.tokens

/-! ## Quoted lines -/

/-- Quotes and backslashes are escaped. -/
def escape (token : Bytes) : Bytes :=
  token.flatMap fun c => if c = quote ∨ c = backslash then [backslash, c] else [c]

/-- A token between quotes. -/
def quoted (token : Bytes) : Bytes := quote :: (escape token ++ [quote])

/-- Spaces and tabs, at least one. -/
def Gap (gap : Bytes) : Prop := gap ≠ [] ∧ ∀ c ∈ gap, c = space ∨ c = tab

/-- Tokens, each behind its gap. -/
def quotedTokens (others : List (Bytes × Bytes)) : Bytes :=
  others.flatMap fun p => p.1 ++ quoted p.2

/-- The line of the first token and the others. -/
def quotedLine (first : Bytes) (others : List (Bytes × Bytes)) : Bytes :=
  quoted first ++ quotedTokens others

namespace Tokenizer
variable {t : Tokenizer} {rest gap : Bytes}

/-- Between quotes, the escaped bytes of a token are written as they are. -/
theorem scan_escape (inside : t.inQuote = true) (token rest : Bytes) :
    t.scan (escape token ++ rest) = { t with cur := t.cur ++ token }.scan rest := by
  induction token generalizing t with
  | nil => rw [List.append_nil]; rfl
  | cons c token ih =>
    have next : (t.writeByte c).inQuote = true := inside
    have written :
        { t.writeByte c with cur := (t.writeByte c).cur ++ token } = { t with cur := t.cur ++ c :: token } := by
      rw [writeByte, List.append_assoc]
      rfl
    rw [escape, List.flatMap_cons]
    by_cases special : c = quote ∨ c = backslash
    · rw [if_pos special, List.append_assoc, List.cons_append, List.cons_append, List.nil_append,
        scan, if_pos inside,
        if_pos rfl]
      simp only [if_pos special]
      exact (ih next).trans (congrArg (scan · rest) written)
    · obtain ⟨plain, plain'⟩ := not_or.mp special
      rw [if_neg special, List.append_assoc, List.cons_append, List.nil_append, scan.eq_def]
      simp only [if_pos inside, if_neg plain, if_neg plain']
      exact (ih next).trans (congrArg (scan · rest) written)

@[simp] theorem inQuote_endToken (t : Tokenizer) : t.endToken.inQuote = t.inQuote := by
  rw [endToken]
  split <;> rfl

@[simp] theorem hasToken_endToken (t : Tokenizer) : t.endToken.hasToken = false := by
  rw [endToken]
  split
  · rfl
  · simpa using ‹¬t.hasToken = true›

/-- A quoted token is read whole. -/
theorem scan_quoted (outside : t.inQuote = false) (token rest : Bytes) :
    t.scan (quoted token ++ rest) = { t with cur := t.cur ++ token, hasToken := true }.scan rest := by
  have opened : t.scan (quoted token ++ rest) =
      { t with inQuote := true, hasToken := true }.scan (escape token ++ quote :: rest) := by
    rw [quoted, List.cons_append, List.append_assoc, scan.eq_def]
    simp [outside]
  rw [opened, scan_escape rfl, scan.eq_def]
  have other : quote ≠ backslash := by decide
  simp [other, outside]

theorem scan_blank {c : UInt8} (outside : t.inQuote = false) (blank : c = space ∨ c = tab)
    (rest : Bytes) :
    t.scan (c :: rest) = t.endToken.scan rest := by
  have plain : c ≠ quote := by rcases blank with rfl | rfl <;> decide
  rw [scan.eq_def]
  simp only [outside, Bool.false_eq_true, if_false, if_neg plain, if_pos blank]

/-- Outside the quotes and of a token, blanks are passed over. -/
theorem scan_blanks (outside : t.inQuote = false) (none : t.hasToken = false)
    (blank : ∀ c ∈ gap, c = space ∨ c = tab) (rest : Bytes) :
    t.scan (gap ++ rest) = t.scan rest := by
  induction gap with
  | nil => rfl
  | cons c gap ih =>
    obtain ⟨here, later⟩ := List.forall_mem_cons.mp blank
    rw [List.cons_append, scan_blank outside here, endToken, none]
    exact ih later

/-- A gap ends the token, once. -/
theorem scan_gap (outside : t.inQuote = false) (blank : Gap gap) (rest : Bytes) :
    t.scan (gap ++ rest) = t.endToken.scan rest := by
  obtain ⟨some', blanks⟩ := blank
  cases gap with
  | nil => exact absurd rfl some'
  | cons c gap =>
    obtain ⟨here, later⟩ := List.forall_mem_cons.mp blanks
    rw [List.cons_append, scan_blank outside here]
    exact scan_blanks (t.inQuote_endToken.trans outside) t.hasToken_endToken later rest

/-- The tokens behind the first one are read one by one. -/
theorem scan_quotedTokens (outside : t.inQuote = false) (held : t.hasToken = true)
    {others : List (Bytes × Bytes)} (blank : ∀ p ∈ others, Gap p.1) :
    (t.scan (quotedTokens others)).inQuote = false ∧
      (t.scan (quotedTokens others)).endToken.tokens = t.endToken.tokens ++ others.map (·.2) := by
  induction others generalizing t with
  | nil => exact ⟨outside, (List.append_nil _).symm⟩
  | cons p others ih =>
    obtain ⟨here, later⟩ := List.forall_mem_cons.mp blank
    -- the token before the gap is ended, the one behind it is read and not yet ended
    let next : Tokenizer := { t with tokens := t.tokens ++ [t.cur], cur := p.2, hasToken := true }
    have step : t.scan (quotedTokens (p :: others)) = next.scan (quotedTokens others) := by
      rw [quotedTokens, List.flatMap_cons, List.append_assoc, scan_gap outside here,
        scan_quoted (t.inQuote_endToken.trans outside), endToken, if_pos held]
      rfl
    obtain ⟨closed, read⟩ := ih (t := next) outside rfl later
    rw [step]
    refine ⟨closed, read.trans ?_⟩
    rw [endToken, endToken, if_pos rfl, if_pos held, List.map_cons, List.append_assoc]
    rfl

end Tokenizer

/-- Every list of tokens is read back from its quoted line. -/
theorem tokenizeBatchLine_quotedLine (first : Bytes) (others : List (Bytes × Bytes))
    (blank : ∀ p ∈ others, Gap p.1) :
    tokenizeBatchLine (quotedLine first others) = .ok (first :: others.map (·.2)) := by
  have opened := Tokenizer.scan_quoted (t := {}) rfl first (quotedTokens others)
  obtain ⟨closed, read⟩ :=
    Tokenizer.scan_quotedTokens (t := { cur := first, hasToken := true }) rfl rfl blank
  rw [List.nil_append] at opened
  rw [tokenizeBatchLine, quotedLine, opened]
  simp only [closed, read]
  rfl

/-- An empty token and one of a blank, a quote and a backslash, two blanks apart. -/
theorem tokenizeBatchLine_emptyAndSpecial :
    tokenizeBatchLine (quotedLine [] [([space, tab], [space, quote, backslash])]) =
      .ok [[], [space, quote, backslash]] := by
  refine tokenizeBatchLine_quotedLine [] [([space, tab], [space, quote, backslash])] fun p held =>
    ?_
  rw [List.mem_singleton.mp held]
  refine ⟨List.cons_ne_nil _ _, fun c inside => ?_⟩
  simpa using inside

end Beads.Batch
