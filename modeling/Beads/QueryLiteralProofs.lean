import Beads.QueryText

/-! Quoted literals. The lexer takes a byte as a character, so the value of a literal has the
bytes of the text as its characters; it is the text when that is in ASCII. -/
namespace Beads.Query

/-! ## Bytes as characters -/

section Bytes
variable {c : Char} {l : List Char}

/-- The characters that a lexer sees of characters. -/
def byteChars (l : List Char) : List Char :=
  (l.flatMap String.utf8EncodeChar).map fun b => Char.ofNat b.toNat

theorem byteChars_append (l l' : List Char) :
    byteChars (l ++ l') = byteChars l ++ byteChars l' := by
  simp [byteChars]

theorem byteChars_cons (c : Char) (l : List Char) :
    byteChars (c :: l) = byteChars [c] ++ byteChars l :=
  byteChars_append [c] l

theorem ofBytes_utf8 (text : String) : Cursor.ofBytes (utf8 text) = ⟨0, byteChars text.toList⟩ :=
  rfl

theorem length_utf8 (text : String) : (utf8 text).length = (byteChars text.toList).length := by
  simp [byteChars, utf8]

theorem utf8Size_eq_one : c.utf8Size = 1 ↔ c.toNat < 128 := by
  rw [Char.utf8Size_eq_one_iff, UInt32.le_iff_toNat_le]
  exact Nat.lt_succ_iff.symm

theorem byteChars_ascii (ascii : c.toNat < 128) : byteChars [c] = [c] := by
  have single := String.utf8EncodeChar_eq_singleton (utf8Size_eq_one.mpr ascii)
  have byte : c.val.toUInt8.toNat = c.toNat := by
    rw [UInt32.toNat_toUInt8]
    exact Nat.mod_eq_of_lt (by change c.toNat < 256; omega)
  rw [byteChars, List.flatMap_singleton, single, List.map_singleton, byte, Char.ofNat_toNat]

/-- The bytes of a character that is not in ASCII are none of ASCII. -/
theorem utf8EncodeChar_large {b : UInt8} (large : 128 ≤ c.toNat)
    (held : b ∈ String.utf8EncodeChar c) :
    128 ≤ b.toNat := by
  have value : c.val.toNat = c.toNat := rfl
  simp only [String.utf8EncodeChar, value] at held
  rw [if_neg (by omega)] at held
  split_ifs at held <;> simp only [List.mem_cons, List.not_mem_nil, or_false] at held <;>
    rcases held with rfl | rfl | rfl | rfl <;> simp only [UInt8.toNat_ofNat', Nat.reducePow] <;> omega

theorem byteChars_large {d : Char} (large : 128 ≤ c.toNat) (held : d ∈ byteChars [c]) :
    128 ≤ d.toNat := by
  simp only [byteChars, List.flatMap_singleton, List.mem_map] at held
  obtain ⟨b, byte, rfl⟩ := held
  have bound := b.toNat_lt
  have valid : b.toNat.isValidChar := .inl (by omega)
  have value : (Char.ofNat b.toNat).toNat = b.toNat := by
    rw [Char.ofNat, dif_pos valid]
    rfl
  rw [value]
  exact utf8EncodeChar_large large byte

theorem length_byteChars (c : Char) : (byteChars [c]).length = c.utf8Size := by
  simp [byteChars]

private theorem length_le_byteChars (l : List Char) : l.length ≤ (byteChars l).length := by
  induction l with
  | nil => simp [byteChars]
  | cons c l ih =>
    have := c.utf8Size_pos
    rw [byteChars_cons, List.length_append, length_byteChars, List.length_cons]
    omega

/-- A text with as many bytes as characters is in ASCII. -/
theorem ascii_of_length (same : (byteChars l).length = l.length) : ∀ c ∈ l, c.toNat < 128 := by
  induction l with
  | nil => simp
  | cons c l ih =>
    have rest := length_le_byteChars l
    have size := c.utf8Size_pos
    rw [byteChars_cons, List.length_append, length_byteChars, List.length_cons] at same
    exact List.forall_mem_cons.mpr ⟨utf8Size_eq_one.mp (by omega), ih (by omega)⟩

/-- Exactly the texts in ASCII are seen as they are. -/
theorem byteChars_eq_iff : byteChars l = l ↔ ∀ c ∈ l, c.toNat < 128 := by
  refine ⟨fun same => ascii_of_length (congrArg List.length same), fun ascii => ?_⟩
  induction l with
  | nil => rfl
  | cons c l ih =>
    rw [List.forall_mem_cons] at ascii
    rw [byteChars_cons, byteChars_ascii ascii.1, ih ascii.2]
    rfl

private theorem nul_not_mem_byteChars (text : '\x00' ∉ l) : '\x00' ∉ byteChars l := by
  induction l with
  | nil => simp [byteChars]
  | cons c l ih =>
    rw [List.mem_cons, not_or] at text
    rw [byteChars_cons, List.mem_append, not_or]
    refine ⟨?_, ih text.2⟩
    by_cases ascii : c.toNat < 128
    · rw [byteChars_ascii ascii]
      simpa using text.1
    · intro held
      have := byteChars_large (by omega) held
      simp at this

end Bytes

/-! ## Literals -/

section Literals
variable {c : Char} {l : List Char}

private theorem escape_large (large : 128 ≤ c.toNat) : escape c = [c] := by
  apply if_neg
  rintro (rfl | rfl) <;> simp at large

/-- The escapes are of characters in ASCII, so they are the same before and after the encoding. -/
theorem byteChars_flatMap_escape (l : List Char) :
    byteChars (l.flatMap escape) = (byteChars l).flatMap escape := by
  induction l with
  | nil => rfl
  | cons c l ih =>
    rw [List.flatMap_cons, byteChars_append, ih, byteChars_cons, List.flatMap_append]
    congr 1
    by_cases ascii : c.toNat < 128
    · rw [byteChars_ascii ascii, List.flatMap_singleton]
      unfold escape
      split
      · rw [byteChars_cons, byteChars_ascii ascii, byteChars_ascii (by decide)]
        rfl
      · exact byteChars_ascii ascii
    · rw [escape_large (by omega)]
      have plain : ∀ d ∈ byteChars [c], escape d = [d] :=
        fun d held => escape_large (byteChars_large (by omega) held)
      rw [List.flatMap_congr plain, List.flatMap_singleton']

section Steps
variable {start pos : Nat} {value rest : List Char}

private theorem readString_quote : Lexer.readString '"' start value pos ('"' :: rest) =
    .ok (⟨.string, String.ofList value, start⟩, ⟨pos + 1, rest⟩) := by
  rw [Lexer.readString.eq_def]
  simp

private theorem readString_escape (kept : c ≠ '\x00') :
    Lexer.readString '"' start value pos ('\\' :: c :: rest) =
    Lexer.readString '"' start (value ++ [unescape c]) (pos + 2) rest := by
  rw [Lexer.readString.eq_def]
  simp [kept]

private theorem readString_plain (kept : c ≠ '\x00') (quote : c ≠ '"') (slash : c ≠ '\\') :
    Lexer.readString '"' start value pos (c :: rest) =
      Lexer.readString '"' start (value ++ [c]) (pos + 1) rest := by
  rw [Lexer.readString.eq_def]
  simp [kept, quote, slash]

end Steps

/-- The literal is read up to its quote, and the escapes are undone. -/
theorem readString_escaped (text : '\x00' ∉ l) (start pos : Nat) (value rest : List Char) :
    Lexer.readString '"' start value pos (l.flatMap escape ++ '"' :: rest) =
      .ok (⟨.string, String.ofList (value ++ l), start⟩, ⟨pos + (l.flatMap escape).length + 1, rest⟩) := by
  induction l generalizing pos value with
  | nil => simpa using readString_quote
  | cons c l ih =>
    rw [List.mem_cons, not_or] at text
    have kept : c ≠ '\x00' := Ne.symm text.1
    rw [List.flatMap_cons]
    by_cases special : c = '"' ∨ c = '\\'
    · have same : unescape c = c := by rcases special with rfl | rfl <;> rfl
      rw [escape, if_pos special]
      simp only [List.cons_append, List.nil_append]
      rw [readString_escape kept, same, ih text.2]
      simp
      omega
    · obtain ⟨quote, slash⟩ := not_or.mp special
      rw [escape, if_neg special]
      simp only [List.cons_append, List.nil_append]
      rw [readString_plain kept quote slash, ih text.2]
      simp
      omega

end Literals

/-- A quoted text is one token without a rest, and its value is the text exactly when the text is
in ASCII. -/
theorem nextToken_quoted_iff (text : String) (nul : '\x00' ∉ text.toList) :
    Lexer.nextToken (Cursor.ofBytes (utf8 (quoted text))) =
      .ok (⟨.string, text, 0⟩, ⟨(utf8 (quoted text)).length, []⟩) ↔
        ∀ c ∈ text.toList, c.toNat < 128 := by
  have shape : byteChars (quoted text).toList = '"' :: (byteChars text.toList).flatMap escape ++
      ['"'] := by
    rw [quoted, String.toList_ofList, List.cons_append, byteChars_cons, byteChars_append,
      byteChars_flatMap_escape, byteChars_ascii (by decide)]
    rfl
  have read := readString_escaped (nul_not_mem_byteChars nul) 0 1 [] []
  have token : Lexer.nextToken (Cursor.ofBytes (utf8 (quoted text))) =
      .ok (⟨.string, String.ofList (byteChars text.toList), 0⟩, ⟨(utf8 (quoted text)).length, []⟩) := by
    rw [length_utf8, ofBytes_utf8, shape]
    have first : Lexer.isSpace '"' = false := by decide
    simp only [Lexer.nextToken, Lexer.skipWhitespace, List.cons_append, List.takeWhile_cons, first]
    simp only [Lexer.tokenAt, Cursor.skip]
    simp [read]
    omega
  rw [token, ← byteChars_eq_iff]
  simp only [Except.ok.injEq, Prod.mk.injEq, and_true, Token.mk.injEq, true_and]
  constructor
  · intro same
    have chars := congrArg String.toList same
    rwa [String.toList_ofList] at chars
  · intro same
    rw [same, String.ofList_toList]

theorem nextToken_quoted_open : '\x00' ∉ "say \"open\"".toList ∧
    Lexer.nextToken (Cursor.ofBytes (utf8 (quoted "say \"open\""))) =
      .ok (⟨.string, "say \"open\"", 0⟩, ⟨(utf8 (quoted "say \"open\"")).length, []⟩) :=
  ⟨by decide, (nextToken_quoted_iff "say \"open\"" (by decide)).mpr (List.all_iff_forall_prop.mp (by decide))⟩

/-- The two bytes of the letter are two characters of the value. -/
theorem nextToken_quoted_accent : ¬ ∀ text : String, '\x00' ∉ text.toList →
    Lexer.nextToken (Cursor.ofBytes (utf8 (quoted text))) =
      .ok (⟨.string, text, 0⟩, ⟨(utf8 (quoted text)).length, []⟩) := by
  intro kept
  have ascii := (nextToken_quoted_iff "é" (by decide)).mp (kept "é" (by decide))
  exact absurd (ascii 'é' (by decide)) (by decide)

end Beads.Query
