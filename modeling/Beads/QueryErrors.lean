import Mathlib.Logic.Relation
import Beads.QuerySyntax

/-! The error messages of the query parsers, and the reading of a query from left to right, token
by token, up to its first error. -/
namespace Beads.Query

/-! ## Messages -/

/-- `TokenType.String` and `tokenName`. -/
def TokenType.name : TokenType → String
  | .eof => "EOF"
  | .ident => "IDENT"
  | .string => "STRING"
  | .number => "NUMBER"
  | .duration => "DURATION"
  | .equals => "="
  | .notEquals => "!="
  | .less => "<"
  | .lessEq => "<="
  | .greater => ">"
  | .greaterEq => ">="
  | .and => "AND"
  | .or => "OR"
  | .not => "NOT"
  | .lParen => "("
  | .rParen => ")"
  | .comma => ","

/-- The message of a lexer over its way to quote a character. -/
def LexError.message (quoteCharacter : Char → String) : LexError → String
  | .unexpectedCharacter char pos => "unexpected character " ++ quoteCharacter char ++ " at position " ++ pos.repr
  | .loneBang pos =>
    "unexpected character '!' at position " ++ pos.repr ++ " (did you mean '!=' or 'NOT'?)"
  | .unterminatedString pos => "unterminated string starting at position " ++ pos.repr
  | .unterminatedEscape pos => "unterminated escape sequence at position " ++ pos.repr
  | .expectedDigit pos => "expected digit at position " ++ pos.repr

/-- The message of a parser over its ways to quote a character and a value. -/
def SyntaxError.message (quoteCharacter : Char → String) (quoteValue : String → String) :
    SyntaxError → String
  | .lexical err => err.message quoteCharacter
  | .emptyQuery => "empty query"
  | .expectedEnd value pos =>
    "unexpected token " ++ quoteValue value ++ " at position " ++ pos.repr ++ " (expected end of query)"
  | .expectedRParen pos got => "expected ')' at position " ++ pos.repr ++ ", got " ++ got.name
  | .expectedField pos got => "expected field name at position " ++ pos.repr ++ ", got " ++ got.name
  | .expectedOperator pos got =>
    "expected comparison operator at position " ++ pos.repr ++ ", got " ++ got.name
  | .expectedValue pos got => "expected value at position " ++ pos.repr ++ ", got " ++ got.name
  | .outOfFuel => ""

/-! ## Quoting -/

/-- `strconv.IsPrint` on the characters below 256. -/
def isPrint (c : Char) : Bool := (' ' ≤ c && c ≤ '~') || ('\xa1' ≤ c && c ≠ '\xad')

/-- Two hexadecimal digits. -/
def hexByte (n : Nat) : List Char := [Nat.digitChar (n / 16 % 16), Nat.digitChar (n % 16)]

/-- A character as `%q` writes it between quotes, for characters below 256. -/
def escapeRune (quote c : Char) : List Char :=
  if c = quote ∨ c = '\\' then ['\\', c]
  else if isPrint c then [c]
  else
    match c with
    | '\x07' => ['\\', 'a']
    | '\x08' => ['\\', 'b']
    | '\x0c' => ['\\', 'f']
    | '\n' => ['\\', 'n']
    | '\r' => ['\\', 'r']
    | '\t' => ['\\', 't']
    | '\x0b' => ['\\', 'v']
    | c =>
      if c < ' ' ∨ c = '\x7f' then ['\\', 'x'] ++ hexByte c.toNat else ['\\', 'u', '0', '0'] ++ hexByte c.toNat

namespace Parser

/-- `%q` of a rune. -/
def quoteRune (c : Char) : String := String.ofList ('\'' :: escapeRune '\'' c ++ ['\''])

/-- `%q` of a text. -/
def quote (text : String) : String :=
  String.ofList ('"' :: text.toList.flatMap (escapeRune '"') ++ ['"'])

/-- The message of `query.Parse`. -/
def message (err : SyntaxError) : String := err.message quoteRune quote

end Parser

namespace QueryParser

/-- What `quoteCharacter` puts between the quotes. -/
def escaped : Char → List Char
  | '\\' => ['\\', '\\']
  | '\'' => ['\\', '\'']
  | '\n' => ['\\', 'n']
  | '\r' => ['\\', 'r']
  | '\t' => ['\\', 't']
  | c => [c]

/-- `quoteCharacter`. -/
def quoteCharacter (c : Char) : String := String.ofList ('\'' :: escaped c ++ ['\''])

/-- The value in quotes, as it is. -/
def quote (text : String) : String := String.ofList ('"' :: text.toList ++ ['"'])

/-- The message of `QuerySyntax.parse`. -/
def message (failure : SyntaxError) : String := failure.message quoteCharacter quote

end QueryParser

/-! ## Reading from left to right -/

/-- What a reader of a query waits for. -/
inductive Expected where
  /-- Nothing has been read. -/
  | first
  /-- The start of the query. -/
  | query
  | operand
  | operator
  | value
  /-- What may follow an operand. -/
  | more
  deriving DecidableEq

/-- What a reader waits for, in how many open parentheses, and what it looks at. -/
structure Place where
  expected : Expected
  depth : Nat
  state : ParserState

namespace Place

/-- Before the first token. -/
def start (input : List UInt8) : Place := ⟨.first, 0, ⟨⟨.eof, "", 0⟩, Cursor.ofBytes input⟩⟩

/-- The operand of a query, at its first token. -/
def operand? (depth : Nat) : TokenType → Option (Expected × Nat)
  | .not => some (.operand, depth)
  | .lParen => some (.operand, depth + 1)
  | .ident => some (.operator, depth)
  | _ => none

/-- What may come behind an operand. -/
def more? : Nat → TokenType → Option (Expected × Nat)
  | depth, .and => some (.operand, depth)
  | depth, .or => some (.operand, depth)
  | depth + 1, .rParen => some (.more, depth)
  | _, _ => none

/-- What the reader waits for behind the token, if it can be taken. -/
def behind (place : Place) : Option (Expected × Nat) :=
  let type := place.state.current.type
  match place.expected with
  | .first => some (.query, 0)
  | .query | .operand => operand? place.depth type
  | .operator => type.comparison?.map fun _ => (.value, place.depth)
  | .value => type.value?.map fun _ => (.more, place.depth)
  | .more => more? place.depth type

/-- What is wrong with a token that cannot be taken; at the end of a query nothing is. -/
def refusal (place : Place) : Option SyntaxError :=
  let token := place.state.current
  match place.expected with
  | .first => none
  | .query => some (if token.type = .eof then .emptyQuery else .expectedField token.pos token.type)
  | .operand => some (.expectedField token.pos token.type)
  | .operator => some (.expectedOperator token.pos token.type)
  | .value => some (.expectedValue token.pos token.type)
  | .more =>
    if 0 < place.depth then some (.expectedRParen token.pos token.type)
    else if token.type = .eof then none
    else some (.expectedEnd token.value token.pos)

/-- One token is taken, and the next one is read. -/
structure Step (a b : Place) : Prop where
  taken : a.behind = some (b.expected, b.depth)
  next : Parser.advance Lexer.nextToken a.state = .ok b.state

end Place

/-- The places that a reader comes to. -/
def Reads (input : List UInt8) (place : Place) : Prop :=
  Relation.ReflTransGen Place.Step (Place.start input) place

/-- The first error of a query: behind a token that is taken there is no token, or a token cannot
be taken. -/
inductive FirstError (input : List UInt8) : SyntaxError → Prop where
  | lexical {place : Place} {err : LexError} (reads : Reads input place) (taken : place.behind ≠ none)
      (failed : Lexer.nextToken place.state.cursor = .error err) : FirstError input (.lexical err)
  | refused {place : Place} {err : SyntaxError} (reads : Reads input place) (refused : place.behind = none)
      (named : place.refusal = some err) : FirstError input err

/-! ## Kept reports -/

/-- The port keeps a failure that it has noted in this state: negations and parentheses lead to a
field, and so many tokens can be read, with the one behind the field. -/
inductive Keeps : ParserState → Prop where
  | skip {p : ParserState} {token : Token} {cursor : Cursor}
      (opens : p.current.type = .not ∨ p.current.type = .lParen)
      (next : QueryLexer.nextToken p.cursor = (.ok token, cursor)) (rest : Keeps ⟨token, cursor⟩) : Keeps p
  | field {p : ParserState} {token : Token} {cursor : Cursor} (field : p.current.type = .ident)
      (next : QueryLexer.nextToken p.cursor = (.ok token, cursor)) : Keeps p

/-- An unexpected character is one that can be printed. -/
def LexError.Printable : LexError → Prop
  | .unexpectedCharacter char _ => isPrint char = true
  | _ => True

/-- A text without quotes, backslashes and characters that cannot be printed. -/
def Literal (text : String) : Prop := ∀ c ∈ text.toList, c ≠ '"' ∧ c ≠ '\\' ∧ isPrint c = true

/-- Wherever a reader comes to, a lexical error is printable and, where an operand is awaited, one
that the port keeps; and a token behind the end of the query is a literal text. -/
structure Faithful (input : List UInt8) : Prop where
  lexical : ∀ {place expected depth err cursor}, Reads input place → place.behind = some (expected, depth) →
    QueryLexer.nextToken place.state.cursor = (.error err, cursor) →
      err.Printable ∧ (expected = .operand → Keeps ⟨place.state.current, cursor⟩)
  ending : ∀ {place}, Reads input place → place.behind = none → place.expected = .more → place.depth = 0 →
    Literal place.state.current.value

end Beads.Query
