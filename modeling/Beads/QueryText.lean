import Mathlib.Data.Bool.AllAny
import Beads.QuerySyntax

/-! Texts of the query language: the bytes that a lexer is given for a text, quoted literals, the
rendering of expressions in Go (`Node.String` of `parser.go`) and in Haxe (`QuerySyntax.render`),
and the texts that are tokens by themselves. -/
namespace Beads.Query

/-- The bytes of a text in UTF-8. -/
def utf8 (text : String) : List UInt8 := text.toList.flatMap String.utf8EncodeChar

/-! ## Literals -/

/-- A character of a quoted literal; quotes and backslashes get a backslash. -/
def escape (c : Char) : List Char := if c = '"' ∨ c = '\\' then ['\\', c] else [c]

/-- The literal of a text. -/
def quoted (text : String) : String := String.ofList ('"' :: text.toList.flatMap escape ++ ['"'])

/-! ## Rendering -/

/-- The rendering of an expression over the texts of the operators. Binary nodes are in
parentheses, negation is not. -/
def Node.render (operator : ComparisonOp → String) : Node → String
  | .comparison c => c.field ++ operator c.op ++ c.value
  | .and left right => "(" ++ left.render operator ++ " AND " ++ right.render operator ++ ")"
  | .or left right => "(" ++ left.render operator ++ " OR " ++ right.render operator ++ ")"
  | .not operand => "NOT " ++ operand.render operator

/-- `Node.String`. -/
def Node.string (node : Node) : String := node.render ComparisonOp.text

namespace QuerySyntax

/-- `renderOperator`. -/
def renderOperator : ComparisonOp → String
  | .equals => "="
  | .notEquals => "!="
  | .less => "<"
  | .lessEq => "<="
  | .greater => ">"
  | .greaterEq => ">="

/-- `QuerySyntax.render`. -/
def render (expression : Node) : String := expression.render renderOperator

end QuerySyntax

/-! ## Token texts -/

/-- The lexer reads the bytes of the text as one token of the type. -/
def TokenText (type : TokenType) (text : String) : Prop :=
  Lexer.nextToken (Cursor.ofBytes (utf8 text)) =
    .ok (⟨type, String.ofList (Cursor.ofBytes (utf8 text)).rest, 0⟩, ⟨(utf8 text).length, []⟩)

instance (type : TokenType) (text : String) : Decidable (TokenText type text) :=
  inferInstanceAs (Decidable (_ = _))

/-- The type of token that a kind of value stands for. -/
def ValueType.token : ValueType → TokenType
  | .ident => .ident
  | .string => .string
  | .number => .number
  | .duration => .duration

/-- The field is a word in lower case, and the value is an unquoted text of its kind. -/
structure Comparison.Canonical (c : Comparison) : Prop where
  word : TokenText .ident c.field
  lower : c.field.toList.map lowerChar = c.field.toList
  unquoted : c.valueType ≠ .string
  value : TokenText c.valueType.token c.value

/-- The texts of a comparison are in ASCII. -/
def Comparison.Ascii (c : Comparison) : Prop :=
  ∀ char ∈ c.field.toList ++ c.value.toList, char.toNat < 128

instance (c : Comparison) : Decidable c.Ascii := List.decidableBAll _ _

/-- A condition on every comparison of an expression. -/
def Node.Each (p : Comparison → Prop) : Node → Prop
  | .comparison c => p c
  | .and left right => left.Each p ∧ right.Each p
  | .or left right => left.Each p ∧ right.Each p
  | .not operand => operand.Each p

end Beads.Query
