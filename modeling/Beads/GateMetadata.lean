import Beads.Lib.Json
import Beads.Tracker

/-! The gate of a waits-for edge is kept as JSON text in the metadata of the edge. The Go code
reads it with `encoding/json`, the Haxe code with a parser of its own, which admits control
characters in strings and any token for a number.

On a text that holds a gate and a spawner id the two readings agree
(`rawTopLevelStringEquals_iff`). -/
namespace Beads.Molecules
open Lib.Json

/-- `types.WaitsForAllChildren` and `types.WaitsForAnyChildren`. -/
inductive WaitsForGate where
  | allChildren
  | anyChildren
  deriving DecidableEq

def anyChildren : List Char := "any-children".toList

/-- The character of a code. A code that is none becomes the replacement character, as in a
conversion from a rune to a string. -/
def fromCharCode (n : Nat) : Char := if n.isValidChar then Char.ofNat n else '\uFFFD'

/-! ## Go -/

/-- The string that `encoding/json` makes of the units; two surrogates that belong together are
one character. -/
def unquote : List Piece → List Char
  | [] => []
  | .char c :: rest => c :: unquote rest
  | .code high :: .code low :: rest =>
    if 0xD800 ≤ high ∧ high < 0xDC00 ∧ 0xDC00 ≤ low ∧ low < 0xE000 then
      Char.ofNat ((high - 0xD800) * 0x400 + (low - 0xDC00) + 0x10000) :: unquote rest
    else fromCharCode high :: unquote (.code low :: rest)
  | .code n :: rest => fromCharCode n :: unquote rest

def digits (cs : List Char) : Bool := cs ≠ [] && cs.all (·.isDigit)

/-- `[eE][+-]?[0-9]+`, or nothing. -/
def isExponent : List Char → Bool
  | [] => true
  | e :: '+' :: rest => (e = 'e' || e = 'E') && digits rest
  | e :: '-' :: rest => (e = 'e' || e = 'E') && digits rest
  | e :: rest => (e = 'e' || e = 'E') && digits rest

/-- `(\.[0-9]+)?` and an exponent. -/
def isFraction : List Char → Bool
  | '.' :: rest => digits (rest.takeWhile (·.isDigit)) && isExponent (rest.dropWhile (·.isDigit))
  | rest => isExponent rest

/-- The numbers of JSON without their sign. -/
def isUnsigned : List Char → Bool
  | '0' :: rest => isFraction rest
  | cs => digits (cs.takeWhile (·.isDigit)) && isFraction (cs.dropWhile (·.isDigit))

def isNumber : List Char → Bool
  | '-' :: rest => isUnsigned rest
  | cs => isUnsigned cs

def encodingJson : Lexis where
  controls := false
  decode := unquote
  number := isNumber
  put members member := members ++ [member]

/-- `types.WaitsForMeta`. -/
structure WaitsForMeta where
  gate : List Char
  spawnerID : List Char
  alsoBlocks : Bool

/-- `foldName`, for the characters that fold to one in the name of a field. -/
def foldName (key : List Char) : List Char :=
  key.map fun c => if c = '\u017f' then 'S' else if c = '\u212a' then 'K' else c.toUpper

/-- A member is stored in the field with its name; letter case is ignored. `null` changes
nothing, a value of another type is an error. -/
def WaitsForMeta.set (record : WaitsForMeta) (member : List Char × Value) :
    Except Unit WaitsForMeta :=
  let field := foldName member.1
  if field = "GATE".toList then
    match member.2 with
    | .string text => .ok { record with gate := text }
    | .null => .ok record
    | _ => .error ()
  else if field = "SPAWNER_ID".toList then
    match member.2 with
    | .string text => .ok { record with spawnerID := text }
    | .null => .ok record
    | _ => .error ()
  else if field = "ALSO_BLOCKS".toList then
    match member.2 with
    | .boolean value => .ok { record with alsoBlocks := value }
    | .null => .ok record
    | _ => .error ()
  else .ok record

/-- `json.Unmarshal` into a `WaitsForMeta`. -/
def unmarshal (metadata : String) : Except Unit WaitsForMeta :=
  match read encodingJson metadata.toList with
  | some (.object members) => members.foldlM WaitsForMeta.set ⟨[], [], false⟩
  | some .null => .ok ⟨[], [], false⟩
  | _ => .error ()

/-- `ParseWaitsForGateMetadata`. -/
def parseWaitsForGateMetadata (metadata : String) : WaitsForGate :=
  if trimSpace metadata = "" then .allChildren
  else match unmarshal metadata with
    | .error _ => .allChildren
    | .ok record => if record.gate = anyChildren then .anyChildren else .allChildren

/-! ## Haxe -/

/-- A member replaces the one with its key, or comes last. -/
def setField : Members → List Char × Value → Members
  | [], member => [member]
  | field :: rest, member =>
    if field.1 = member.1 then member :: rest else field :: setField rest member

def Piece.decoded : Piece → Char
  | .char c => c
  | .code n => fromCharCode n

/-- `TypedJsonParser`. -/
def typedJsonParser : Lexis where
  controls := true
  decode units := units.map Piece.decoded
  number token := token ≠ []
  put := setField

/-- `StringTools.isSpace`. -/
def isSpace (c : Char) : Bool := (8 < c.toNat && c.toNat < 14) || c.toNat = 32

/-- `StringTools.trim`. -/
def trim (cs : List Char) : List Char := ((cs.dropWhile isSpace).reverse.dropWhile isSpace).reverse

def findField (fields : Members) (key : List Char) : Option (List Char × Value) :=
  fields.find? (·.1 = key)

/-- `rawTopLevelStringEquals`. -/
def rawTopLevelStringEquals (raw : String) (key expected : List Char) : Bool :=
  match read typedJsonParser (trim raw.toList) with
  | some (.object fields) =>
    match findField fields key with
    | some (_, .string value) => value = expected
    | _ => false
  | _ => false

/-! ## Texts that hold a gate -/

/-- The text is empty, or an object whose members are gates and spawner ids, given as strings. -/
def HoldsGate (metadata : String) : Prop :=
  metadata = "" ∨ ∃ o : ObjectText, metadata.toList = o.text ∧
    ∀ p ∈ o.members, unquote p.key.units = "gate".toList ∨ unquote p.key.units = "spawner_id".toList

section Agreement
variable {units : List Piece} {text : List Char}

/-- No unit is a code outside the characters. -/
def Scalar (units : List Piece) : Prop := ∀ n, .code n ∈ units → n.isValidChar

/-- The text has ASCII characters only. -/
def Ascii (text : List Char) : Prop := ∀ c ∈ text, c.toNat < 128

private theorem unquote_of_scalar (scalar : Scalar units) :
    unquote units = units.map Piece.decoded := by
  fun_induction unquote units with
  | case1 => rfl
  | case2 c rest ih => simp [Piece.decoded, ih fun n inside => scalar n (by simp [inside])]
  | case3 high low rest pair ih =>
    have valid := scalar high (by simp)
    simp only [Nat.isValidChar] at valid
    omega
  | case4 high low rest _ ih => 
    have more := ih fun n inside => scalar n (by simp [inside])
    simpa [Piece.decoded] using more
  | case5 n rest _ ih => simp [Piece.decoded, ih fun n inside => scalar n (by simp [inside])]

theorem not_ascii_fromCharCode {n : Nat} (invalid : ¬ n.isValidChar) :
    ¬ (fromCharCode n).toNat < 128 := by
  rw [fromCharCode, if_neg invalid]
  decide

private theorem scalar_code_cons {n : Nat} :
    Scalar (.code n :: units) ↔ n.isValidChar ∧ Scalar units := by
  simp [Scalar]

private theorem not_ascii_decoded (wild : ¬ Scalar units) : ¬ Ascii (units.map Piece.decoded) := by
  intro ascii
  apply wild
  intro n inside
  by_contra invalid
  exact not_ascii_fromCharCode invalid (ascii (fromCharCode n) (List.mem_map.mpr ⟨_, inside, rfl⟩))

private theorem not_ascii_unquote (wild : ¬ Scalar units) : ¬ Ascii (unquote units) := by
  intro ascii
  apply wild
  clear wild
  fun_induction unquote units with
  | case1 => simp [Scalar]
  | case2 c rest ih =>
    have tail := ih fun a held => ascii a (by simp [held])
    simpa [Scalar] using tail
  | case3 high low rest pair ih =>
    have valid : ((high - 0xD800) * 0x400 + (low - 0xDC00) + 0x10000).isValidChar := by
      simp only [Nat.isValidChar]
      omega
    have head := ascii _ List.mem_cons_self
    rw [Char.ofNat, dif_pos valid] at head
    change (high - 0xD800) * 0x400 + (low - 0xDC00) + 0x10000 < 128 at head
    omega
  | case4 high low rest _ ih =>
    have tail := ih fun a held => ascii a (by simp [held])
    refine scalar_code_cons.mpr ⟨?_, tail⟩
    by_contra invalid
    exact not_ascii_fromCharCode invalid (ascii _ List.mem_cons_self)
  | case5 n rest _ ih =>
    have tail := ih fun a held => ascii a (by simp [held])
    refine scalar_code_cons.mpr ⟨?_, tail⟩
    by_contra invalid
    exact not_ascii_fromCharCode invalid (ascii _ List.mem_cons_self)

/-- Against a plain text it makes no difference how a string is decoded. -/
theorem unquote_eq_iff (ascii : Ascii text) :
    unquote units = text ↔ units.map Piece.decoded = text := by
  by_cases scalar : Scalar units
  · rw [unquote_of_scalar scalar]
  · constructor
    · rintro rfl
      exact absurd ascii (not_ascii_unquote scalar)
    · rintro rfl
      exact absurd ascii (not_ascii_decoded scalar)

/-! ## The two readings -/

private theorem findField_setField (fields : Members) (member : List Char × Value)
    (key : List Char) :
    findField (setField fields member) key = if member.1 = key then some member else findField fields key := by
  induction fields with
  | nil => by_cases here : member.1 = key <;> simp [setField, findField, here]
  | cons field rest ih =>
    rw [setField]
    by_cases replaced : field.1 = member.1
    · rw [if_pos replaced]
      by_cases here : member.1 = key
      · simp [findField, here]
      · simp [findField, here, replaced]
    · rw [if_neg replaced]
      by_cases first : field.1 = key
      · have other : ¬ member.1 = key := fun same => replaced (first.trans same.symm)
        simp [findField, first, other]
      · have unchanged := ih
        simp only [findField] at unchanged
        simp [findField, first, unchanged]

/-- What the gate read by the one code says about the field found by the other. -/
def SameGate (gate : List Char) : Option (List Char × Value) → Prop
  | none => gate ≠ anyChildren
  | some (_, .string value) => value = anyChildren ↔ gate = anyChildren
  | some _ => False

theorem ascii_of_all {text : List Char} (all : text.all (·.toNat < 128) = true) : Ascii text := by
  simpa [Ascii] using all

private theorem ascii_anyChildren : Ascii anyChildren := ascii_of_all (by decide +kernel)

private theorem foldlM_set (pairs : List Pair)
    (keys : ∀ p ∈ pairs, unquote p.key.units = "gate".toList ∨
      unquote p.key.units = "spawner_id".toList)
    (record : WaitsForMeta) (fields : Members)
    (same : SameGate record.gate (findField fields "gate".toList)) :
    ∃ result, (pairs.map (Pair.decoded encodingJson)).foldlM WaitsForMeta.set record = .ok result ∧
      SameGate result.gate
        (findField ((pairs.map (Pair.decoded typedJsonParser)).foldl setField fields) "gate".toList) := by
  induction pairs generalizing record fields with
  | nil => exact ⟨record, rfl, same⟩
  | cons p rest ih =>
    have more := ih fun q held => keys q (by simp [held])
    rcases keys p (by simp) with gate | spawner
    · have key : p.key.units.map Piece.decoded = "gate".toList :=
        (unquote_eq_iff (ascii_of_all (by decide +kernel))).mp gate
      have stored : WaitsForMeta.set record (p.decoded encodingJson) =
          .ok { record with gate := unquote p.value.units } := by
        simp only [WaitsForMeta.set, Pair.decoded, encodingJson, gate]
        rfl
      have found : SameGate (unquote p.value.units)
          (findField (setField fields (p.decoded typedJsonParser)) "gate".toList) := by
        rw [findField_setField, if_pos (by simpa [Pair.decoded, typedJsonParser] using key)]
        exact (unquote_eq_iff ascii_anyChildren).symm
      rw [List.map_cons, List.map_cons, List.foldlM_cons, stored, List.foldl_cons]
      exact more _ _ found
    · have key : p.key.units.map Piece.decoded = "spawner_id".toList :=
        (unquote_eq_iff (ascii_of_all (by decide +kernel))).mp spawner
      have stored : WaitsForMeta.set record (p.decoded encodingJson) =
          .ok { record with spawnerID := unquote p.value.units } := by
        simp only [WaitsForMeta.set, Pair.decoded, encodingJson, spawner]
        rfl
      have other : ¬ (p.decoded typedJsonParser).1 = "gate".toList := by
        simp only [Pair.decoded, typedJsonParser, key]
        decide
      have found : SameGate record.gate
          (findField (setField fields (p.decoded typedJsonParser)) "gate".toList) := by
        rw [findField_setField, if_neg other]
        exact same
      rw [List.map_cons, List.map_cons, List.foldlM_cons, stored, List.foldl_cons]
      exact more _ _ found

private theorem foldl_put (members more : Members) :
    more.foldl encodingJson.put members = members ++ more := by
  induction more generalizing members with
  | nil => simp
  | cons member rest ih =>
    rw [List.foldl_cons, ih]
    simp [encodingJson]

private theorem mem_dropWhile {p : Char → Bool} {c : Char} {cs : List Char} (held : c ∈ cs)
    (stops : p c = false) :
    c ∈ cs.dropWhile p := by
  induction cs with
  | nil => exact absurd held (by simp)
  | cons first rest ih =>
    by_cases passes : p first = true
    · rw [List.dropWhile_cons_of_pos passes]
      apply ih
      rcases List.mem_cons.mp held with rfl | inside
      · exact absurd passes (by simp [stops])
      · exact inside
    · rwa [List.dropWhile_cons_of_neg passes]

private theorem trimSpace_ne {text : String} {c : Char} (held : c ∈ text.toList)
    (solid : Beads.isSpace c = false) :
    trimSpace text ≠ "" := by
  intro empty
  have inside : c ∈ (trimSpace text).toList := by
    rw [trimSpace, String.toList_ofList, List.mem_reverse]
    exact mem_dropWhile (List.mem_reverse.mpr (mem_dropWhile held solid)) solid
  rw [empty] at inside
  exact absurd inside (by simp)

private theorem isSpace_of_gap (g : Gap) : ∀ c ∈ g.chars, isSpace c = true := by
  intro c held
  have blank := g.blank c held
  simp only [isWhitespace, Bool.or_eq_true, decide_eq_true_eq] at blank
  rcases blank with ((rfl | rfl) | rfl) | rfl <;> decide

private theorem trim_text (o : ObjectText) : trim o.text = o.core := by
  obtain ⟨inner, core⟩ : ∃ inner, o.core = '{' :: (inner ++ ['}']) := ⟨_, rfl⟩
  have back : ∀ c ∈ o.after.chars.reverse, isSpace c = true := fun c held =>
    isSpace_of_gap o.after c (List.mem_reverse.mp held)
  have opened : isSpace '{' = false := by decide
  have close : isSpace '}' = false := by decide
  rw [trim, ObjectText.text, List.append_assoc,
    List.dropWhile_append_of_pos (isSpace_of_gap o.before), core,
    List.cons_append, List.dropWhile_cons_of_neg (by simp [opened])]
  simp [List.dropWhile_append_of_pos back, close]

/-- An object without whitespace around it. -/
def bare (o : ObjectText) : ObjectText := { o with before := ⟨[], by simp⟩, after := ⟨[], by simp⟩ }

/-- On a text that holds a gate the two codes read the same one. -/
theorem rawTopLevelStringEquals_iff {metadata : String} (holds : HoldsGate metadata) :
    rawTopLevelStringEquals metadata "gate".toList anyChildren = true ↔
      parseWaitsForGateMetadata metadata = .anyChildren := by
  rcases holds with rfl | ⟨o, text, keys⟩
  · decide +kernel
  · have haxe : read typedJsonParser (trim metadata.toList) = some
        (.object (o.decoded typedJsonParser)) := by
      have core : trim metadata.toList = (bare o).text := by
        rw [text, trim_text]
        simp [bare, ObjectText.text, ObjectText.core]
      rw [core]
      exact read_objectText typedJsonParser (bare o)
    have go : read encodingJson metadata.toList = some
        (.object (o.members.map (Pair.decoded encodingJson))) := by
      rw [text, read_objectText, ObjectText.decoded, foldl_put, List.nil_append]
    have solid : trimSpace metadata ≠ "" := by
      apply trimSpace_ne (c := '{')
      · rw [text]
        simp [ObjectText.text, ObjectText.core]
      · decide
    obtain ⟨result, run, same⟩ := foldlM_set o.members keys ⟨[], [], false⟩ []
      (show ([] : List Char) ≠ anyChildren by decide +kernel)
    rw [parseWaitsForGateMetadata, if_neg solid, unmarshal, go]
    simp only [run, rawTopLevelStringEquals, haxe]
    change SameGate _ (findField (o.decoded typedJsonParser) "gate".toList) at same
    generalize findField (o.decoded typedJsonParser) "gate".toList = found at same ⊢
    cases found with
    | none => simpa [SameGate] using same
    | some field =>
      obtain ⟨key, value⟩ := field
      cases value with
      | string value =>
        simp only [SameGate] at same
        by_cases wanted : value = anyChildren <;> simp [wanted, same.mp, ← same]
      | _ => exact same.elim

end Agreement

end Beads.Molecules
