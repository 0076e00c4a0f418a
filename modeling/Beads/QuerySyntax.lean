import Beads.Query
import Beads.Lib.Descent

/-! The two parsers of the query language: `query/lexer.go` with `query/parser.go`,
and their port `QuerySyntax.hx`. Both lexers take the input byte by byte and read
each byte as the character of its number, so every character is below 256. The Go
parser returns at the first error; the Haxe parser notes a failure and returns
through its callers, which may read more tokens on the way. -/
namespace Beads.Query
open Lib

/-! ## Tokens -/

/-- `TokenType` and `QueryTokenKind`. -/
inductive TokenType where
  | eof
  | ident
  | string
  | number
  | duration
  | equals
  | notEquals
  | less
  | lessEq
  | greater
  | greaterEq
  | and
  | or
  | not
  | lParen
  | rParen
  | comma
  deriving DecidableEq

structure Token where
  type : TokenType
  value : String
  pos : Nat
  deriving DecidableEq

/-- What a lexer refuses, and where. -/
inductive LexError where
  | unexpectedCharacter (char : Char) (pos : Nat)
  | loneBang (pos : Nat)
  | unterminatedString (pos : Nat)
  | unterminatedEscape (pos : Nat)
  | expectedDigit (pos : Nat)
  deriving DecidableEq

/-- What a query is refused for. `outOfFuel` is no error of the source. -/
inductive SyntaxError where
  | lexical (err : LexError)
  | emptyQuery
  | expectedEnd (value : String) (pos : Nat)
  | expectedRParen (pos : Nat) (got : TokenType)
  | expectedField (pos : Nat) (got : TokenType)
  | expectedOperator (pos : Nat) (got : TokenType)
  | expectedValue (pos : Nat) (got : TokenType)
  | outOfFuel
  deriving DecidableEq

/-- The position of a lexer and the characters from there on. -/
structure Cursor where
  pos : Nat
  rest : List Char
  deriving DecidableEq

def Cursor.skip (c : Cursor) (n : Nat) : Cursor := ⟨c.pos + n, c.rest.drop n⟩

def Cursor.ofBytes (input : List UInt8) : Cursor := ⟨0, input.map fun b => Char.ofNat b.toNat⟩

/-! ## Character classes

The Unicode categories of the characters below 256. -/

/-- The category L: `unicode.IsLetter` and `\p{L}`. -/
def isLetter (c : Char) : Bool :=
  c.isAlpha || c ∈ ['\xaa', '\xb5', '\xba'] || ('\xc0' ≤ c && c ≤ '\xff' && c ≠ '\xd7' && c ≠ '\xf7')

/-- The category No: superscripts and fractions. -/
def isOtherNumber (c : Char) : Bool := c ∈ ['\xb2', '\xb3', '\xb9', '\xbc', '\xbd', '\xbe']

/-- The lower case of a field name. -/
def lowerChar (c : Char) : Char :=
  if c.isUpper || ('\xc0' ≤ c && c ≤ '\xde' && c ≠ '\xd7') then Char.ofNat (c.toNat + 32) else c

/-- The upper case of a word that may be a keyword. -/
def upperChar (c : Char) : Char :=
  if c.isLower || ('\xe0' ≤ c && c ≤ '\xfe' && c ≠ '\xf7') then Char.ofNat (c.toNat - 32)
  else if c = '\xff' then '\u0178'
  else if c = '\xb5' then '\u039c'
  else c

/-- The end of `readIdent` and `readIdentifier`. -/
def wordType (word : List Char) : TokenType :=
  let upper := word.map upperChar
  if upper = ['A', 'N', 'D'] then .and
  else if upper = ['O', 'R'] then .or
  else if upper = ['N', 'O', 'T'] then .not
  else .ident

/-- Field names are in lower case, but a metadata key keeps its own. -/
def fieldName (value : String) : String :=
  let lower := value.toList.map lowerChar
  let key := "metadata.".toList
  if key.isPrefixOf lower && lower.length > key.length then String.ofList (key ++ value.toList.drop key.length)
  else String.ofList lower

/-- An escaped character of a quoted text. -/
def unescape : Char → Char
  | 'n' => '\n'
  | 't' => '\t'
  | c => c

def isDurationSuffix (c : Char) : Bool := c ∈ ['h', 'd', 'w', 'm', 'y', 'H', 'D', 'W', 'M', 'Y']

/-! ## The Go lexer -/

namespace Lexer

/-- `unicode.IsSpace`. -/
def isSpace (c : Char) : Bool := c ∈ ['\t', '\n', '\x0b', '\x0c', '\r', ' ', '\x85', '\xa0']

/-- `unicode.IsDigit`: the category Nd. -/
def isDigit (c : Char) : Bool := '0' ≤ c && c ≤ '9'

def isIdentStart (c : Char) : Bool := isLetter c || c = '_'

def isIdentChar (c : Char) : Bool := isLetter c || isDigit c || c ∈ ['_', '-', '.', ':', '/']

/-- `peek`; the end of the input is read as NUL. -/
def peek (c : Cursor) : Char := c.rest.headD '\x00'

/-- `readString`, behind the quote. -/
def readString (quote : Char) (start : Nat) (value : List Char) (pos : Nat) :
    List Char → Except LexError (Token × Cursor)
  | [] => .error (.unterminatedString start)
  | r :: rest =>
    if r = '\x00' then .error (.unterminatedString start)
    else if r = quote then .ok (⟨.string, String.ofList value, start⟩, ⟨pos + 1, rest⟩)
    else if r = '\\' then
      match rest with
      | [] => .error (.unterminatedEscape pos)
      | escaped :: rest =>
        if escaped = '\x00' then .error (.unterminatedEscape (pos + 1))
        else readString quote start (value ++ [unescape escaped]) (pos + 2) rest
    else readString quote start (value ++ [r]) (pos + 1) rest

/-- `readIdent`. -/
def readIdent (c : Cursor) : Token × Cursor :=
  let word := c.rest.takeWhile isIdentChar
  (⟨wordType word, String.ofList word, c.pos⟩, c.skip word.length)

/-- `readNumberOrDuration` behind the sign, if there is one. -/
def readDigits (c : Cursor) (hadSign : Bool) (unsigned : Cursor) :
    Except LexError (Token × Cursor) :=
  if !isDigit (peek unsigned) then .error (.expectedDigit unsigned.pos)
  else
    let digits := unsigned.rest.takeWhile isDigit
    let value := c.rest.take (unsigned.pos - c.pos) ++ digits
    let after := unsigned.skip digits.length
    let r := peek after
    if r ≠ '\x00' && isDurationSuffix r && !isIdentChar (peek (after.skip 1)) then
      .ok (⟨.duration, String.ofList (value ++ [r]), c.pos⟩, after.skip 1)
    else if !hadSign && r ≠ '\x00' && isIdentChar r then .ok (readIdent c)
    else .ok (⟨.number, String.ofList value, c.pos⟩, if after.rest.head? = some '\x00' then after.skip 1 else after)

/-- `readNumberOrDuration`. -/
def readNumberOrDuration (c : Cursor) : Except LexError (Token × Cursor) :=
  if peek c = '-' ∨ peek c = '+' then readDigits c true (c.skip 1) else readDigits c false c

/-- An operator that a following `=` makes another. -/
def operator (plain withEquals : TokenType) (text : String) (start : Nat) (after : Cursor) :
    Token × Cursor :=
  if peek after = '=' then (⟨withEquals, text ++ "=", start⟩, after.skip 1) else (⟨plain, text, start⟩, after)

def skipWhitespace (c : Cursor) : Cursor := c.skip (c.rest.takeWhile isSpace).length

/-- `NextToken` behind the whitespace. -/
def tokenAt (c : Cursor) : Except LexError (Token × Cursor) :=
  let after := c.skip 1
  match c.rest with
  | [] => .ok (⟨.eof, "", c.pos⟩, c)
  | r :: rest =>
    if r = '\x00' then .ok (⟨.eof, "", c.pos⟩, after)
    else if r = '(' then .ok (⟨.lParen, "(", c.pos⟩, after)
    else if r = ')' then .ok (⟨.rParen, ")", c.pos⟩, after)
    else if r = ',' then .ok (⟨.comma, ",", c.pos⟩, after)
    else if r = '=' then .ok (⟨.equals, "=", c.pos⟩, after)
    else if r = '!' then
      if peek after = '=' then .ok (⟨.notEquals, "!=", c.pos⟩, after.skip 1) else .error (.loneBang c.pos)
    else if r = '<' then .ok (operator .less .lessEq "<" c.pos after)
    else if r = '>' then .ok (operator .greater .greaterEq ">" c.pos after)
    else if r = '"' ∨ r = '\'' then readString r c.pos [] after.pos rest
    else if isDigit r || r = '-' || r = '+' then readNumberOrDuration c
    else if isIdentStart r then .ok (readIdent c)
    else .error (.unexpectedCharacter r c.pos)

/-- `NextToken`. -/
def nextToken (c : Cursor) : Except LexError (Token × Cursor) := tokenAt (skipWhitespace c)

end Lexer

/-! ## The Haxe lexer -/

namespace QueryLexer

/-- `isWhitespace`, with `\p{Z}` for the space and the no-break space. -/
def isWhitespace (c : Char) : Bool := ('\t' ≤ c && c ≤ '\r') || c = '\x85' || c ∈ [' ', '\xa0']

/-- `isDigit`: the category N, which has more than the decimal digits. -/
def isDigit (c : Char) : Bool := c.isDigit || isOtherNumber c

def isIdentifierStart (c : Char) : Bool := c = '_' || isLetter c

def isIdentifierCharacter (c : Char) : Bool :=
  isIdentifierStart c || isDigit c || c = '-' || c = '.' || c = ':' || c = '/'

/-- `peek`, with the empty text at the end of the input. -/
def peek (c : Cursor) : Option Char := c.rest.head?

/-- `QueryLexResult`, with the position at which the lexer goes on. -/
abbrev QueryLexResult := Except LexError Token × Cursor

/-- `readQuoted`, behind the quote. -/
def readQuoted (quote : Char) (start : Nat) (value : List Char) (pos : Nat) :
    List Char → QueryLexResult
  | [] => (.error (.unterminatedString start), ⟨pos, []⟩)
  | character :: rest =>
    if character = quote then (.ok ⟨.string, String.ofList value, start⟩, ⟨pos + 1, rest⟩)
    else if character ≠ '\\' then readQuoted quote start (value ++ [character]) (pos + 1) rest
    else
      match rest with
      | [] => (.error (.unterminatedEscape pos), ⟨pos + 1, []⟩)
      | escaped :: rest => readQuoted quote start (value ++ [unescape escaped]) (pos + 2) rest

/-- `readIdentifier`. -/
def readIdentifier (c : Cursor) : QueryLexResult :=
  let word := c.rest.takeWhile isIdentifierCharacter
  (.ok ⟨wordType word, String.ofList word, c.pos⟩, c.skip word.length)

/-- `readNumberOrDuration` behind the sign, if there is one. -/
def readDigits (c : Cursor) (hadSign : Bool) (unsigned : Cursor) : QueryLexResult :=
  if !(peek unsigned).any isDigit then (.error (.expectedDigit unsigned.pos), unsigned)
  else
    let digits := unsigned.rest.takeWhile isDigit
    let value := c.rest.take (unsigned.pos - c.pos) ++ digits
    let after := unsigned.skip digits.length
    if (peek after).any isDurationSuffix && !(peek (after.skip 1)).any isIdentifierCharacter then
      (.ok ⟨.duration, String.ofList (value ++ (peek after).toList), c.pos⟩, after.skip 1)
    else if !hadSign && (peek after).any isIdentifierCharacter then readIdentifier c
    else (.ok ⟨.number, String.ofList value, c.pos⟩, after)

/-- `readNumberOrDuration`. -/
def readNumberOrDuration (c : Cursor) : QueryLexResult :=
  if peek c = some '-' ∨ peek c = some '+' then readDigits c true (c.skip 1) else readDigits c false c

/-- An operator that a following `=` makes another. -/
def operator (plain withEquals : TokenType) (text : String) (start : Nat) (after : Cursor) :
    QueryLexResult :=
  if peek after = some '=' then (.ok ⟨withEquals, text ++ "=", start⟩, after.skip 1)
  else (.ok ⟨plain, text, start⟩, after)

def skipWhitespace (c : Cursor) : Cursor := c.skip (c.rest.takeWhile isWhitespace).length

/-- `nextToken` behind the whitespace. -/
def tokenAt (c : Cursor) : QueryLexResult :=
  let after := c.skip 1
  match c.rest with
  | [] => (.ok ⟨.eof, "", c.pos⟩, c)
  | character :: rest =>
    if character = '(' then (.ok ⟨.lParen, "(", c.pos⟩, after)
    else if character = ')' then (.ok ⟨.rParen, ")", c.pos⟩, after)
    else if character = ',' then (.ok ⟨.comma, ",", c.pos⟩, after)
    else if character = '=' then (.ok ⟨.equals, "=", c.pos⟩, after)
    else if character = '!' then
      if peek after = some '=' then (.ok ⟨.notEquals, "!=", c.pos⟩, after.skip 1)
      else (.error (.loneBang c.pos), after)
    else if character = '<' then operator .less .lessEq "<" c.pos after
    else if character = '>' then operator .greater .greaterEq ">" c.pos after
    else if character = '"' ∨ character = '\'' then readQuoted character c.pos [] after.pos rest
    else if isDigit character || character = '-' || character = '+' then readNumberOrDuration c
    else if isIdentifierStart character then readIdentifier c
    else (.error (.unexpectedCharacter character c.pos), after)

/-- `nextToken`. -/
def nextToken (c : Cursor) : QueryLexResult := tokenAt (skipWhitespace c)

end QueryLexer

/-! ## The Go parser -/

/-- The operator that a token stands for. -/
def TokenType.comparison? : TokenType → Option ComparisonOp
  | .equals => some .equals
  | .notEquals => some .notEquals
  | .less => some .less
  | .lessEq => some .lessEq
  | .greater => some .greater
  | .greaterEq => some .greaterEq
  | _ => none

/-- The kind of value that a token stands for. -/
def TokenType.value? : TokenType → Option ValueType
  | .ident => some .ident
  | .string => some .string
  | .number => some .number
  | .duration => some .duration
  | _ => none

/-- The token that a parser looks at and the position of its lexer. -/
structure ParserState where
  current : Token
  cursor : Cursor

def ParserState.at (p : ParserState) (type : TokenType) : Bool := p.current.type = type

namespace Parser
variable (nextToken : Cursor → Except LexError (Token × Cursor))

/-- `advance`; no parser function looks further ahead. -/
def advance (p : ParserState) : Except SyntaxError ParserState :=
  match nextToken p.cursor with
  | .ok next => .ok ⟨next.1, next.2⟩
  | .error err => .error (.lexical err)

/-- The end of `parseComparison`, at the value. -/
def parseValue (field : String) (op : ComparisonOp) :
    EarlyExit ParserState SyntaxError Node := fun p =>
  match p.current.type.value? with
  | none => .error (.expectedValue p.current.pos p.current.type)
  | some valueType => do
    let value := p.current.value
    let p ← advance nextToken p
    return (.comparison ⟨field, op, value, valueType⟩, p)

/-- The middle of `parseComparison`, at the operator. -/
def parseOperator (field : String) : EarlyExit ParserState SyntaxError Node := fun p =>
  match p.current.type.comparison? with
  | none => .error (.expectedOperator p.current.pos p.current.type)
  | some op => do
    let p ← advance nextToken p
    parseValue nextToken field op p

/-- `parseComparison`. -/
def parseComparison : EarlyExit ParserState SyntaxError Node := fun p =>
  if p.current.type ≠ .ident then .error (.expectedField p.current.pos p.current.type)
  else do
    let field := fieldName p.current.value
    let p ← advance nextToken p
    parseOperator nextToken field p

/-- The end of `parsePrimary`, at the closing parenthesis. -/
def closeParen (node : Node) : EarlyExit ParserState SyntaxError Node := fun p =>
  if p.current.type ≠ .rParen then .error (.expectedRParen p.current.pos p.current.type)
  else do
    let p ← advance nextToken p
    return (node, p)

/-- `parsePrimary`. -/
def parsePrimary (parseOr : EarlyExit ParserState SyntaxError Node) :
    EarlyExit ParserState SyntaxError Node := fun p =>
  if p.at .lParen then do
    let p ← advance nextToken p
    let inner ← parseOr p
    closeParen nextToken inner.1 inner.2
  else parseComparison nextToken p

/-- `parseAnd` over a `parseNot`. -/
def parseAnd (parseNot : EarlyExit ParserState SyntaxError Node) (fuel : Nat) :
    EarlyExit ParserState SyntaxError Node :=
  EarlyExit.chain (·.at .and) .and .outOfFuel (advance nextToken) parseNot fuel

/-- `parseOr` over a `parseNot`. -/
def parseOr (parseNot : EarlyExit ParserState SyntaxError Node) (fuel : Nat) :
    EarlyExit ParserState SyntaxError Node :=
  EarlyExit.chain (·.at .or) .or .outOfFuel (advance nextToken) (parseAnd nextToken parseNot fuel) fuel

/-- `parseNot`. -/
def parseNot : Nat → EarlyExit ParserState SyntaxError Node
  | 0, _ => .error .outOfFuel
  | fuel + 1, p =>
    if p.at .not then do
      let p ← advance nextToken p
      let operand ← parseNot fuel p
      return (.not operand.1, operand.2)
    else parsePrimary nextToken (parseOr nextToken (parseNot fuel) fuel) p

/-- `Parser.Parse` behind the first token. -/
def parseQuery (fuel : Nat) (p : ParserState) : Except SyntaxError Node :=
  if p.at .eof then throw .emptyQuery
  else do
    let result ← parseOr nextToken (parseNot nextToken fuel) fuel p
    if !result.2.at .eof then throw (.expectedEnd result.2.current.value result.2.current.pos)
    else return result.1

/-- `Parser.Parse` from the start of the input. -/
def parseFrom (fuel : Nat) (start : Cursor) : Except SyntaxError Node := do
  let p ← advance nextToken ⟨⟨.eof, "", 0⟩, start⟩
  parseQuery nextToken fuel p

end Parser

/-- `query.Parse`. -/
def parse (input : List UInt8) : Except SyntaxError Node :=
  Parser.parseFrom Lexer.nextToken (input.length + 2) (Cursor.ofBytes input)

/-! ## The Haxe parser -/

namespace QueryParser
variable (nextToken : Cursor → QueryLexer.QueryLexResult)

/-- A state with the failure noted last. -/
abbrev State := ParserState × Option SyntaxError

/-- `advance`: a failure leaves the current token as it was. -/
def advance (s : State) : State :=
  match nextToken s.1.cursor with
  | (.ok token, cursor) => (⟨token, cursor⟩, s.2)
  | (.error message, cursor) => ({ s.1 with cursor }, some (.lexical message))

def placeholder : Node := .comparison ⟨"", .equals, "", .ident⟩

/-- The end of `parseComparison`, at the value. -/
def parseValue (field : String) (op : ComparisonOp) :
    Lenient ParserState SyntaxError Node := fun s =>
  match s.1.current.type.value? with
  | none => some (placeholder, (s.1, some (.expectedValue s.1.current.pos s.1.current.type)))
  | some valueType =>
    some (.comparison ⟨field, op, s.1.current.value, valueType⟩, advance nextToken s)

/-- The middle of `parseComparison`, at the operator. -/
def parseOperator (field : String) : Lenient ParserState SyntaxError Node := fun s =>
  match s.1.current.type.comparison? with
  | none => some (placeholder, (s.1, some (.expectedOperator s.1.current.pos s.1.current.type)))
  | some op =>
    let s := advance nextToken s
    if s.2 ≠ none then some (placeholder, s) else parseValue nextToken field op s

/-- `parseComparison`. After the operator was missing or the value was, the failure
is noted and looked at before anything else. -/
def parseComparison : Lenient ParserState SyntaxError Node := fun s =>
  if s.1.current.type ≠ .ident then
    some (placeholder, (s.1, some (.expectedField s.1.current.pos s.1.current.type)))
  else
    let field := fieldName s.1.current.value
    let s := advance nextToken s
    if s.2 ≠ none then some (placeholder, s) else parseOperator nextToken field s

/-- The end of `parsePrimary`, at the closing parenthesis. -/
def closeParen (expression : Node) : Lenient ParserState SyntaxError Node := fun s =>
  if s.2 ≠ none then some (expression, s)
  else if s.1.current.type ≠ .rParen then
    some (expression, (s.1, some (.expectedRParen s.1.current.pos s.1.current.type)))
  else some (expression, advance nextToken s)

/-- `parsePrimary`. -/
def parsePrimary (parseOr : Lenient ParserState SyntaxError Node) :
    Lenient ParserState SyntaxError Node := fun s =>
  if s.1.at .lParen then do
    let inner ← parseOr (advance nextToken s)
    closeParen nextToken inner.1 inner.2
  else parseComparison nextToken s

/-- `parseAnd` over a `parseNot`. -/
def parseAnd (parseNot : Lenient ParserState SyntaxError Node) (fuel : Nat) :
    Lenient ParserState SyntaxError Node :=
  Lenient.chain (·.at .and) .and (advance nextToken) parseNot fuel

/-- `parseOr` over a `parseNot`. -/
def parseOr (parseNot : Lenient ParserState SyntaxError Node) (fuel : Nat) :
    Lenient ParserState SyntaxError Node :=
  Lenient.chain (·.at .or) .or (advance nextToken) (parseAnd nextToken parseNot fuel) fuel

/-- `parseNot`. -/
def parseNot : Nat → Lenient ParserState SyntaxError Node
  | 0, _ => none
  | fuel + 1, s =>
    if s.1.at .not then do
      let operand ← parseNot fuel (advance nextToken s)
      return (.not operand.1, operand.2)
    else parsePrimary nextToken (parseOr nextToken (parseNot fuel) fuel) s

/-- `QueryParser.parse` from the start of the input. -/
def parseFrom (fuel : Nat) (start : Cursor) : Option (Except SyntaxError Node) :=
  let s := advance nextToken (⟨⟨.eof, "", 0⟩, start⟩, none)
  match s.2 with
  | some failure => some (.error failure)
  | none =>
    if s.1.at .eof then some (.error .emptyQuery)
    else (parseOr nextToken (parseNot nextToken fuel) fuel s).map fun result =>
      match result.2.2 with
      | some failure => .error failure
      | none =>
        if !result.2.1.at .eof then .error (.expectedEnd result.2.1.current.value result.2.1.current.pos)
        else .ok result.1

end QueryParser

/-- `QuerySyntax.parse`; nothing if the fuel did not last. -/
def QuerySyntax.parse (input : List UInt8) : Option (Except SyntaxError Node) :=
  QueryParser.parseFrom QueryLexer.nextToken (input.length + 2) (Cursor.ofBytes input)

end Beads.Query
