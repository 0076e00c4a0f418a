import Mathlib.Data.List.Basic
import Mathlib.Tactic.Common

/-! Reading JSON text by recursive descent. What readers differ in is given by their lexis:
whether control characters may stand in a string, how the units of a string are decoded, which
tokens are numbers, and what becomes of a second member with the same key.

`ObjectText` describes the ways to write an object whose members are strings, with any
whitespace and any escapes. `read_objectText` says what a reader makes of such a text. -/
namespace Beads.Lib.Json

inductive Value where
  | object (members : List (List Char × Value))
  | array (values : List Value)
  | string (text : List Char)
  | number (token : List Char)
  | boolean (value : Bool)
  | null

/-- A unit of a string: a character, or the code that a `\u` escape gives. -/
inductive Piece where
  | char (c : Char)
  | code (n : Nat)
  deriving DecidableEq

abbrev Members := List (List Char × Value)

structure Lexis where
  controls : Bool
  decode : List Piece → List Char
  number : List Char → Bool
  put : Members → List Char × Value → Members

/-! ## The reader -/

def isWhitespace (c : Char) : Bool := c = ' ' || c = '\t' || c = '\r' || c = '\n'

def skipWhitespace (cs : List Char) : List Char := cs.dropWhile isWhitespace

def hexDigit (c : Char) : Option Nat :=
  if '0' ≤ c ∧ c ≤ '9' then some (c.toNat - 48)
  else if 'A' ≤ c ∧ c ≤ 'F' then some (c.toNat - 55)
  else if 'a' ≤ c ∧ c ≤ 'f' then some (c.toNat - 87)
  else none

/-- The code of four hexadecimal digits. -/
def codeUnit (a b c d : Char) : Option Nat := do
  return (((← hexDigit a) * 16 + (← hexDigit b)) * 16 + (← hexDigit c)) * 16 + (← hexDigit d)

/-- The character that a one-letter escape stands for. -/
def escape (c : Char) : Option Char :=
  if c = '"' ∨ c = '\\' ∨ c = '/' then some c
  else if c = 'b' then some (Char.ofNat 8)
  else if c = 'f' then some (Char.ofNat 12)
  else if c = 'n' then some '\n'
  else if c = 'r' then some '\r'
  else if c = 't' then some '\t'
  else none

/-- The units up to the closing quote, and what follows it. -/
def pieces (controls : Bool) : List Char → Option (List Piece × List Char)
  | [] => none
  | '"' :: rest => some ([], rest)
  | '\\' :: 'u' :: a :: b :: c :: d :: rest => do
    let code ← codeUnit a b c d
    let (more, rest) ← pieces controls rest
    some (.code code :: more, rest)
  | '\\' :: e :: rest => do
    let c ← escape e
    let (more, rest) ← pieces controls rest
    some (.char c :: more, rest)
  | c :: rest =>
    if c = '\\' ∨ (controls = false ∧ c.toNat < 32) then none
    else do
      let (more, rest) ← pieces controls rest
      some (.char c :: more, rest)

def readString (lexis : Lexis) (cs : List Char) : Option (List Char × List Char) := do
  let (units, rest) ← pieces lexis.controls cs
  some (lexis.decode units, rest)

def readLiteral (token : String) (value : Value) (cs : List Char) : Option (Value × List Char) :=
  if token.toList.isPrefixOf cs then some (value, cs.drop token.length) else none

def readNumber (lexis : Lexis) (cs : List Char) : Option (Value × List Char) :=
  let inside (c : Char) : Bool := !(c = ',' || c = ']' || c = '}' || isWhitespace c)
  let token := cs.takeWhile inside
  if lexis.number token then some (.number token, cs.dropWhile inside) else none

/-- The members of an object from the first key on. -/
def readMembers (lexis : Lexis) (readValue : List Char → Option (Value × List Char)) :
    Nat → Members → List Char → Option (Members × List Char)
  | 0, _, _ => none
  | fuel + 1, members, cs =>
    match skipWhitespace cs with
    | '"' :: cs => do
      let (key, cs) ← readString lexis cs
      match skipWhitespace cs with
      | ':' :: cs => do
        let (value, cs) ← readValue (skipWhitespace cs)
        let members := lexis.put members (key, value)
        match skipWhitespace cs with
        | '}' :: cs => some (members, cs)
        | ',' :: cs => readMembers lexis readValue fuel members cs
        | _ => none
      | _ => none
    | _ => none

/-- The values of an array from the first on. -/
def readElements (readValue : List Char → Option (Value × List Char)) :
    Nat → List Value → List Char → Option (List Value × List Char)
  | 0, _, _ => none
  | fuel + 1, values, cs => do
    let (value, cs) ← readValue cs
    match skipWhitespace cs with
    | ']' :: cs => some (values ++ [value], cs)
    | ',' :: cs => readElements readValue fuel (values ++ [value]) cs
    | _ => none

/-- An object after its opening brace. -/
def readObject (lexis : Lexis) (readValue : List Char → Option (Value × List Char)) (fuel : Nat)
    (cs : List Char) :
    Option (Members × List Char) :=
  match skipWhitespace cs with
  | '}' :: cs => some ([], cs)
  | cs => readMembers lexis readValue fuel [] cs

/-- An array after its opening bracket. -/
def readArray (readValue : List Char → Option (Value × List Char)) (fuel : Nat) (cs : List Char) :
    Option (List Value × List Char) :=
  match skipWhitespace cs with
  | ']' :: cs => some ([], cs)
  | cs => readElements readValue fuel [] cs

def readValue (lexis : Lexis) : Nat → List Char → Option (Value × List Char)
  | 0, _ => none
  | fuel + 1, cs =>
    match skipWhitespace cs with
    | '{' :: cs => do
      let (members, cs) ← readObject lexis (readValue lexis fuel) (fuel + 1) cs
      some (.object members, cs)
    | '[' :: cs => do
      let (values, cs) ← readArray (readValue lexis fuel) (fuel + 1) cs
      some (.array values, cs)
    | '"' :: cs => do
      let (text, cs) ← readString lexis cs
      some (.string text, cs)
    | 't' :: cs => readLiteral "true" (.boolean true) ('t' :: cs)
    | 'f' :: cs => readLiteral "false" (.boolean false) ('f' :: cs)
    | 'n' :: cs => readLiteral "null" .null ('n' :: cs)
    | cs => readNumber lexis cs

/-- A text is one value with whitespace around it. Every call consumes a character, so the
length of the text is fuel enough. -/
def read (lexis : Lexis) (cs : List Char) : Option Value := do
  let (value, rest) ← readValue lexis (cs.length + 1) cs
  if skipWhitespace rest = [] then some value else none

/-! ## Written objects -/

/-- Whitespace. -/
structure Gap where
  chars : List Char
  blank : ∀ c ∈ chars, isWhitespace c = true

/-- The inside of a string, with the units that it stands for. -/
inductive Body : List Char → List Piece → Prop where
  | nil : Body [] []
  | plain {raw : List Char} {units : List Piece} (c : Char) (quote : c ≠ '"') (escape : c ≠ '\\')
      (control : 32 ≤ c.toNat) (rest : Body raw units) : Body (c :: raw) (.char c :: units)
  | escape {raw : List Char} {units : List Piece} (e c : Char) (stands : escape e = some c)
      (rest : Body raw units) : Body ('\\' :: e :: raw) (.char c :: units)
  | unicode {raw : List Char} {units : List Piece} (a b c d : Char) (n : Nat)
      (stands : codeUnit a b c d = some n) (rest : Body raw units) :
      Body ('\\' :: 'u' :: a :: b :: c :: d :: raw) (.code n :: units)

structure Quoted where
  raw : List Char
  units : List Piece
  body : Body raw units

private theorem Body.of_plain {raw : List Char}
    (plain : ∀ c ∈ raw, c ≠ '"' ∧ c ≠ '\\' ∧ 32 ≤ c.toNat) :
    Body raw (raw.map .char) := by
  induction raw with
  | nil => exact .nil
  | cons c rest ih =>
    obtain ⟨quote, escape, control⟩ := plain c (by simp)
    exact .plain c quote escape control (ih fun d held => plain d (by simp [held]))

/-- A string without escapes. -/
def Quoted.ofPlain (raw : List Char) (plain : raw.all (fun c => c ≠ '"' ∧ c ≠ '\\' ∧ 32 ≤ c.toNat) = true) : Quoted :=
  ⟨raw, raw.map .char, .of_plain (by simpa using plain)⟩

/-- A member whose value is a string. -/
structure Pair where
  beforeKey : Gap
  key : Quoted
  beforeColon : Gap
  afterColon : Gap
  value : Quoted
  afterValue : Gap

/-- An object whose members are strings. -/
structure ObjectText where
  before : Gap
  members : List Pair
  /-- What stands in the braces when there are no members. -/
  inside : Gap
  after : Gap

def Quoted.text (q : Quoted) : List Char := '"' :: (q.raw ++ ['"'])

def Pair.text (p : Pair) : List Char :=
  p.beforeKey.chars ++ p.key.text ++ p.beforeColon.chars ++ ':' :: p.afterColon.chars ++ p.value.text ++
    p.afterValue.chars

def pairsText : List Pair → List Char
  | [] => []
  | [p] => p.text
  | p :: rest => p.text ++ ',' :: pairsText rest

/-- The object from its opening to its closing brace. -/
def ObjectText.core (o : ObjectText) : List Char :=
  '{' :: ((match o.members with
    | [] => o.inside.chars
    | p :: rest => pairsText (p :: rest)) ++ ['}'])

def ObjectText.text (o : ObjectText) : List Char := o.before.chars ++ o.core ++ o.after.chars

/-! ## What a reader makes of them -/

section Reading
variable {lexis : Lexis} {raw rest : List Char} {units : List Piece}

theorem skipWhitespace_gap (g : Gap) {c : Char} (solid : isWhitespace c = false) :
    skipWhitespace (g.chars ++ c :: rest) = c :: rest := by
  rw [skipWhitespace, List.dropWhile_append_of_pos g.blank,
    List.dropWhile_cons_of_neg (by simp [solid])]

private theorem skipWhitespace_blank (g : Gap) : skipWhitespace g.chars = [] := by
  have all : (g.chars ++ []).dropWhile isWhitespace = [] := List.dropWhile_append_of_pos g.blank
  simpa [skipWhitespace] using all

private theorem pieces_body (body : Body raw units) (controls : Bool) :
    pieces controls (raw ++ '"' :: rest) = some (units, rest) := by
  induction body with
  | nil => simp [pieces]
  | plain c quote escape control _ ih =>
    have admitted : ¬ (c = '\\' ∨ (controls = false ∧ c.toNat < 32)) := by
      rintro (same | ⟨-, low⟩)
      · exact escape same
      · omega
    rw [List.cons_append, pieces]
    · simp [admitted, ih]
    all_goals simp_all
  | escape e c stands _ ih =>
    have other : e ≠ 'u' := by
      rintro rfl
      simp [Json.escape] at stands
    rw [List.cons_append, List.cons_append, pieces]
    · simp [stands, ih]
    all_goals simp_all
  | unicode a b c d n stands _ ih => simp [pieces, stands, ih]

theorem readString_quoted (lexis : Lexis) (q : Quoted) :
    readString lexis (q.raw ++ '"' :: rest) = some (lexis.decode q.units, rest) := by
  simp [readString, pieces_body q.body]

private theorem readValue_quoted (lexis : Lexis) (fuel : Nat) (q : Quoted) :
    readValue lexis (fuel + 1) (q.text ++ rest) = some (.string (lexis.decode q.units), rest) := by
  have solid : skipWhitespace ('"' :: (q.raw ++ '"' :: rest)) = '"' :: (q.raw ++ '"' :: rest) := by
    simp [skipWhitespace, isWhitespace]
  simp [readValue, Quoted.text, solid, readString_quoted]

/-- A member as a reader decodes it. -/
def Pair.decoded (lexis : Lexis) (p : Pair) : List Char × Value :=
  (lexis.decode p.key.units, .string (lexis.decode p.value.units))

private theorem readMembers_pair (fuel count : Nat) (members : Members) (p : Pair) :
    readMembers lexis (readValue lexis (fuel + 1)) (count + 1) members (p.text ++ rest) =
      match skipWhitespace (p.afterValue.chars ++ rest) with
      | '}' :: cs => some (lexis.put members (p.decoded lexis), cs)
      | ',' :: cs =>
        readMembers lexis (readValue lexis (fuel + 1)) count (lexis.put members (p.decoded lexis)) cs
      | _ => none := by
  have key : skipWhitespace (p.text ++ rest) =
      '"' :: (p.key.raw ++ '"' :: (p.beforeColon.chars ++ ':' :: (p.afterColon.chars ++ (p.value.text ++
        (p.afterValue.chars ++ rest))))) := by
    have solid : isWhitespace '"' = false := by decide
    rw [← skipWhitespace_gap p.beforeKey solid]
    simp [Pair.text, Quoted.text]
  have value : skipWhitespace (p.afterColon.chars ++ (p.value.text ++ (p.afterValue.chars ++ rest))) =
      p.value.text ++ (p.afterValue.chars ++ rest) := skipWhitespace_gap p.afterColon (by decide)
  have colon : isWhitespace ':' = false := by decide
  rw [readMembers, key]
  simp only [readString_quoted, skipWhitespace_gap p.beforeColon colon, value, readValue_quoted,
    Pair.decoded, Option.bind_eq_bind, Option.bind_some]

private theorem readMembers_pairs (fuel : Nat) {count : Nat} (members : Members) (p : Pair)
    (ps : List Pair) (enough : ps.length < count) :
    readMembers lexis (readValue lexis (fuel + 1)) count members (pairsText (p :: ps) ++ '}' :: rest) =
      some (((p :: ps).map (Pair.decoded lexis)).foldl lexis.put members, rest) := by
  induction ps generalizing p members count with
  | nil =>
    obtain ⟨count, rfl⟩ := Nat.exists_eq_add_of_lt enough
    have close : isWhitespace '}' = false := by decide
    simp [pairsText, readMembers_pair, skipWhitespace_gap p.afterValue close]
  | cons q ps ih =>
    obtain ⟨count, rfl⟩ := Nat.exists_eq_add_of_lt (Nat.zero_lt_of_lt enough)
    have comma : isWhitespace ',' = false := by decide
    have text : pairsText (p :: q :: ps) ++ '}' :: rest = p.text ++ ',' ::
        (pairsText (q :: ps) ++ '}' :: rest) := by
      simp [pairsText]
    simp only [List.length_cons] at enough
    rw [text, readMembers_pair, skipWhitespace_gap p.afterValue comma]
    simpa using ih (lexis.put members (p.decoded lexis)) q (by omega)

/-- The members of a written object, decoded and put together one after the other. -/
def ObjectText.decoded (lexis : Lexis) (o : ObjectText) : Members :=
  (o.members.map (Pair.decoded lexis)).foldl lexis.put []

private theorem length_lt_pairsText (p : Pair) (ps : List Pair) :
    ps.length < (pairsText (p :: ps)).length := by
  induction ps generalizing p with
  | nil =>
    simp only [pairsText, Pair.text, Quoted.text, List.length_append, List.length_cons,
      List.length_nil]
    omega
  | cons q ps ih =>
    have longer := ih q
    simp only [pairsText, List.length_append, List.length_cons]
    omega

private theorem readMembers_skipped (inner : List Char → Option (Value × List Char)) (count : Nat)
    (members : Members)
    {cs tail : List Char} {c : Char} (head : skipWhitespace cs = c :: tail)
    (solid : isWhitespace c = false) :
    readMembers lexis inner count members (c :: tail) = readMembers lexis inner count members cs := by
  have stays : skipWhitespace (c :: tail) = c :: tail :=
    List.dropWhile_cons_of_neg (by simp [solid])
  cases count with
  | zero => rfl
  | succ count => rw [readMembers, readMembers, head, stays]

/-- The members of an object start with a quote. -/
theorem skipWhitespace_pairsText (p : Pair) (ps : List Pair) (rest : List Char) :
    ∃ tail, skipWhitespace (pairsText (p :: ps) ++ rest) = '"' :: tail := by
  have solid : isWhitespace '"' = false := by decide
  have starts : ∃ tail, pairsText (p :: ps) = p.beforeKey.chars ++ '"' :: tail := by
    cases ps with
    | nil => simp [pairsText, Pair.text, Quoted.text]
    | cons q ps => simp [pairsText, Pair.text, Quoted.text]
  obtain ⟨tail, same⟩ := starts
  exact ⟨tail ++ rest, by rw [same, List.append_assoc, List.cons_append, skipWhitespace_gap p.beforeKey solid]⟩

private theorem readObject_core (lexis : Lexis) (o : ObjectText) (rest : List Char) (fuel : Nat)
    {count : Nat} (enough : o.members.length ≤ count) :
    ∃ cs, o.core ++ rest = '{' :: cs ∧
      readObject lexis (readValue lexis (fuel + 1)) count cs = some (o.decoded lexis, rest) := by
  have close : isWhitespace '}' = false := by decide
  rw [ObjectText.core, ObjectText.decoded, List.cons_append]
  refine ⟨_, rfl, ?_⟩
  cases written : o.members with
  | nil => simp [readObject, skipWhitespace_gap o.inside close]
  | cons p ps =>
    have solid : isWhitespace '"' = false := by decide
    rw [written, List.length_cons] at enough
    obtain ⟨tail, head⟩ := skipWhitespace_pairsText p ps ('}' :: rest)
    rw [List.append_assoc, List.singleton_append, readObject, head]
    exact (readMembers_skipped _ _ _ head solid).trans (readMembers_pairs fuel [] p ps enough)

/-- A reader makes an object of a written object. -/
theorem read_objectText (lexis : Lexis) (o : ObjectText) :
    read lexis o.text = some (.object (o.decoded lexis)) := by
  have opened : isWhitespace '{' = false := by decide
  have enough : o.members.length < o.core.length ∧ o.core.length ≤ o.text.length := by
    refine ⟨?_, by simp only [ObjectText.text, List.length_append]; omega⟩
    cases written : o.members with
    | nil => simp [ObjectText.core]
    | cons p ps =>
      have length := length_lt_pairsText p ps
      simp only [ObjectText.core, written, List.length_append, List.length_cons]
      omega
  obtain ⟨fuel, fueled⟩ := Nat.exists_eq_add_of_le' (show 1 ≤ o.text.length by omega)
  obtain ⟨cs, core, object⟩ :=
    readObject_core lexis o o.after.chars fuel (show o.members.length ≤ fuel + 2 by omega)
  have start : skipWhitespace o.text = '{' :: cs := by
    rw [ObjectText.text, List.append_assoc, core, skipWhitespace_gap o.before opened]
  have value : readValue lexis (fuel + 2) o.text = some
      (.object (o.decoded lexis), o.after.chars) := by
    rw [readValue, start]
    simp [object]
  simp [read, fueled, value, skipWhitespace_blank]

end Reading

end Beads.Lib.Json
