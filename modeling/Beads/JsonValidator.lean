import Beads.Lib.JsonGrammar

/-! `JsonValue.parse` and its parser `TypedJsonParser` (`store/JsonValue.hx`). A text is a list of
UTF-16 code units. The parser notes a failure in a flag and goes on until its loops look at it. -/
namespace Beads.JsonValue
open Lib.JsonGrammar

/-- `JsonField`. -/
structure JsonField (V : Type) where
  key : List CodeUnit
  value : V
  raw : List CodeUnit

/-- `ParsedJsonValue`. -/
inductive ParsedJsonValue where
  | object (fields : List (JsonField ParsedJsonValue))
  | array (values : List ParsedJsonValue)
  | string (value : List CodeUnit)
  | number (token : List CodeUnit)
  | boolean (value : Bool)
  | null

/-- The source from the index on, and the flag. -/
structure ParserState where
  rest : List CodeUnit
  failed : Bool
  deriving DecidableEq

namespace TypedJsonParser

def fail (s : ParserState) : ParserState := { s with failed := true }

/-- `isWhitespace`. -/
def isWhitespace (c : CodeUnit) : Bool :=
  c = unit ' ' || c = unit '\t' || c = unit '\r' || c = unit '\n'

/-- `skipWhitespace`. -/
def skipWhitespace (s : ParserState) : ParserState :=
  { s with rest := s.rest.dropWhile isWhitespace }

/-- `consumeIf`: the state behind the character, if it is there. -/
def consumeIf (c : CodeUnit) (s : ParserState) : Option ParserState :=
  match s.rest with
  | [] => none
  | d :: rest => if d = c then some { s with rest } else none

/-! ## Strings -/

/-- The digit of `parseHexCodeUnit`. -/
def hexDigit (code : CodeUnit) : Option Nat :=
  if 48 ≤ code ∧ code ≤ 57 then some (code.toNat - 48)
  else if 65 ≤ code ∧ code ≤ 70 then some (code.toNat - 55)
  else if 97 ≤ code ∧ code ≤ 102 then some (code.toNat - 87)
  else none

/-- The loop of `parseHexCodeUnit`, over so many digits. -/
def hexLoop : Nat → Nat → List CodeUnit → Option Nat × List CodeUnit
  | 0, value, rest => (some value, rest)
  | _ + 1, _, [] => (none, [])
  | count + 1, value, code :: rest =>
    match hexDigit code with
    | none => (none, rest)
    | some digit => hexLoop count (value * 16 + digit) rest

/-- `parseHexCodeUnit`; there is no code if it has failed. -/
def parseHexCodeUnit (rest : List CodeUnit) : Option Nat × List CodeUnit :=
  if rest.length < 4 then (none, rest) else hexLoop 4 0 rest

private theorem length_hexLoop (count value : Nat) (rest : List CodeUnit) :
    (hexLoop count value rest).2.length ≤ rest.length := by
  fun_induction hexLoop count value rest with
  | case1 => exact Nat.le_refl _
  | case2 => exact Nat.le_refl _
  | case3 count value code rest => simp
  | case4 count value code rest digit _ ih => exact Nat.le_succ_of_le ih

theorem length_parseHexCodeUnit (rest : List CodeUnit) :
    (parseHexCodeUnit rest).2.length ≤ rest.length := by
  unfold parseHexCodeUnit
  split
  · exact Nat.le_refl _
  · exact length_hexLoop 4 0 rest

/-- The character of a one-letter escape. -/
def unescape (escape : CodeUnit) : Option CodeUnit :=
  if escape = unit '"' ∨ escape = unit '\\' ∨ escape = unit '/' then some escape
  else if escape = unit 'b' then some 8
  else if escape = unit 'f' then some 12
  else if escape = unit 'n' then some (unit '\n')
  else if escape = unit 'r' then some (unit '\r')
  else if escape = unit 't' then some (unit '\t')
  else none

/-- The loop of `parseString`, behind the opening quote. A failed `\u` escape does not end it. -/
def stringLoop (output : List CodeUnit) (failed : Bool) :
    List CodeUnit → List CodeUnit × ParserState
  | [] => (output, ⟨[], true⟩)
  | character :: rest =>
    if character = unit '"' then (output, ⟨rest, failed⟩)
    else if character ≠ unit '\\' then stringLoop (output ++ [character]) failed rest
    else
      match rest with
      | [] => (output, ⟨[], true⟩)
      | escape :: rest =>
        if escape = unit 'u' then
          let unit := parseHexCodeUnit rest
          match unit.1 with
          | none => stringLoop output true unit.2
          | some code => stringLoop (output ++ [UInt16.ofNat code]) failed unit.2
        else
          match unescape escape with
          | some character => stringLoop (output ++ [character]) failed rest
          | none => (output, ⟨rest, true⟩)
termination_by source => source.length
decreasing_by
  · simp
  · have shorter := length_parseHexCodeUnit rest
    simp only [List.length_cons]
    omega
  · have shorter := length_parseHexCodeUnit rest
    simp only [List.length_cons]
    omega
  · simp only [List.length_cons]
    omega

/-- `parseString`. -/
def parseString (s : ParserState) : List CodeUnit × ParserState :=
  match consumeIf (unit '"') s with
  | none => ([], fail s)
  | some s => stringLoop [] s.failed s.rest

/-! ## Values -/

/-- `parseNumber`: any run of characters up to a separator. -/
def parseNumber (s : ParserState) : ParsedJsonValue × ParserState :=
  let token :=
    s.rest.takeWhile fun c => !(c = unit ',' || c = unit ']' || c = unit '}' || isWhitespace c)
  (.number token, ⟨s.rest.drop token.length, if token = [] then true else s.failed⟩)

/-- `consumeLiteral`. -/
def consumeLiteral (token : String) (value : ParsedJsonValue) (s : ParserState) :
    ParsedJsonValue × ParserState :=
  if s.rest.take (units token).length ≠ units token then (value, fail s)
  else (value, { s with rest := s.rest.drop (units token).length })

/-- A field is put in the place of one with its key, or at the end. -/
def setField (fields : List (JsonField ParsedJsonValue)) (field : JsonField ParsedJsonValue) :
    List (JsonField ParsedJsonValue) :=
  match fields with
  | [] => [field]
  | first :: others =>
    if first.key = field.key then field :: others else first :: setField others field

section Containers
variable (parseValue : ParserState → Option (ParsedJsonValue × ParserState))

/-- The loop of `parseObject`. -/
def members : Nat → List (JsonField ParsedJsonValue) → ParserState →
    Option (ParsedJsonValue × ParserState)
  | 0, _, _ => none
  | fuel + 1, fields, s =>
    if s.failed then some (.object fields, s)
    else
      let s := skipWhitespace s
      if (consumeIf (unit '"') s).isNone then some (.object fields, fail s)
      else
        let key := parseString s
        let s := skipWhitespace key.2
        match consumeIf (unit ':') s with
        | none => some (.object fields, fail s)
        | some s => do
          let start := skipWhitespace s
          let value ← parseValue start
          let raw := start.rest.take (start.rest.length - value.2.rest.length)
          let fields := setField fields ⟨key.1, value.1, raw⟩
          let s := skipWhitespace value.2
          match consumeIf (unit '}') s with
          | some s => some (.object fields, s)
          | none =>
            match consumeIf (unit ',') s with
            | none => some (.object fields, fail s)
            | some s => members fuel fields s

/-- The loop of `parseArray`. -/
def elements : Nat → List ParsedJsonValue → ParserState → Option (ParsedJsonValue × ParserState)
  | 0, _, _ => none
  | fuel + 1, values, s =>
    if s.failed then some (.array values, s)
    else do
      let value ← parseValue s
      let values := values ++ [value.1]
      let s := skipWhitespace value.2
      match consumeIf (unit ']') s with
      | some s => some (.array values, s)
      | none =>
        match consumeIf (unit ',') s with
        | none => some (.array values, fail s)
        | some s => elements fuel values s

/-- `parseObject`, behind the brace. -/
def parseObject (fuel : Nat) (s : ParserState) : Option (ParsedJsonValue × ParserState) :=
  let s := skipWhitespace s
  match consumeIf (unit '}') s with
  | some s => some (.object [], s)
  | none => members parseValue fuel [] s

/-- `parseArray`, behind the bracket. -/
def parseArray (fuel : Nat) (s : ParserState) : Option (ParsedJsonValue × ParserState) :=
  let s := skipWhitespace s
  match consumeIf (unit ']') s with
  | some s => some (.array [], s)
  | none => elements parseValue fuel [] s

end Containers

/-- `parseValue`; nothing if the fuel did not last. -/
def parseValue : Nat → ParserState → Option (ParsedJsonValue × ParserState)
  | 0, _ => none
  | fuel + 1, s =>
    let s := skipWhitespace s
    match s.rest with
    | [] => some (.null, fail s)
    | c :: rest =>
      if c = unit '{' then parseObject (parseValue fuel) (fuel + 1) { s with rest }
      else if c = unit '[' then parseArray (parseValue fuel) (fuel + 1) { s with rest }
      else if c = unit '"' then
        let text := parseString s
        some (.string text.1, text.2)
      else if c = unit 't' then some (consumeLiteral "true" (.boolean true) s)
      else if c = unit 'f' then some (consumeLiteral "false" (.boolean false) s)
      else if c = unit 'n' then some (consumeLiteral "null" .null s)
      else some (parseNumber s)

/-- `TypedJsonParser.parse`; no value is `Invalid`. -/
def parse (source : List CodeUnit) : Option (Option ParsedJsonValue) := do
  let value ← parseValue (source.length + 1) ⟨source, false⟩
  let s := skipWhitespace value.2
  return if s.failed || s.rest ≠ [] then none else some value.1

end TypedJsonParser

/-! ## The validator -/

/-- `StringTools.isSpace`. -/
def isSpace (c : CodeUnit) : Bool := (8 < c && c < 14) || c = 32

/-- `StringTools.trim`. -/
def trim (text : List CodeUnit) : List CodeUnit :=
  ((text.reverse.dropWhile isSpace).reverse).dropWhile isSpace

/-- `JsonValue.parse`. -/
def parse (raw : List CodeUnit) (context : String) : Option (Except String (List CodeUnit)) :=
  let value := trim raw
  (TypedJsonParser.parse value).map fun
    | some _ => .ok value
    | none => .error (context ++ " contains invalid JSON")

end Beads.JsonValue
