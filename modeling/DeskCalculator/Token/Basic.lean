import DeskCalculator.Operator
import DeskCalculator.Function

/-!
# Tokens and syntax errors

The words of an expression, in the order in which they are written or in postfix order. In postfix
order a plus or minus before its operand is a `sign`; as written it is an `operator` like any other.

A `SyntaxError` is why a text is not an expression. The causes come from three readers: the scanner
that splits text into tokens, the reordering of tokens into postfix order, and the construction of a
tree from tokens in postfix order. `SyntaxError.message` holds all the wording.
-/

namespace DeskCalculator

inductive Token where
  | number (value : Double)
  | constant (constant : Constant)
  | function (function : Function)
  | operator (operator : Operator)
  | sign (sign : Sign)
  | opening
  | closing
deriving DecidableEq

namespace Token

/-- The token in words, for messages. -/
def describe : Token → String
  | number value => "number " ++ String.ofList value.text
  | constant c => "constant " ++ String.singleton c.symbol
  | function f => "function " ++ String.ofList f.name
  | operator o => "operator " ++ o.name
  | sign s => "operator " ++ s.name
  | opening => "'('"
  | closing => "')'"

end Token

/-! ## Syntax errors -/

/-- Where the construction of a tree looked for an operand. -/
inductive OperandPlace where
  | whole | argument | afterSign (sign : Sign) | afterOperator | beforeOperator
deriving DecidableEq

inductive SyntaxError where
  /-- Digits and points that are not one number. -/
  | invalidNumber (literal : Text)
  /-- Letters that name neither a function nor a constant. -/
  | unknownName (name : Text)
  | unexpectedCharacter (c : Char)
  /-- A token that begins an operand stands where an operator is due. -/
  | missingOperatorBefore (token : Token)
  /-- A function name is not followed by its parenthesis. -/
  | missingParenthesis (function : Function)
  /-- A token that ends an operand, or joins two, stands where an operand is due. -/
  | missingOperandBefore (token : Token)
  | unexpectedEnd
  | mismatchedParenthesis
  /-- A token other than an operator was put off inside a group. -/
  | strayInGroup (token : Token)
  | nestedTooDeep
  /-- Postfix tokens end where an operand is due. -/
  | missingOperand (place : OperandPlace)
  /-- A parenthesis among postfix tokens. -/
  | strayParenthesis (token : Token)
  /-- Postfix tokens are left over. -/
  | missingOperator
deriving DecidableEq

/-- The deepest tree that is built and evaluated. -/
def maxDepth : Nat := 256

def OperandPlace.message : OperandPlace → String
  | whole => ""
  | argument => " in function call"
  | afterSign .plus => " after unary plus"
  | afterSign .minus => " after unary minus"
  | afterOperator => " after operator"
  | beforeOperator => " before operator"

namespace SyntaxError

/-- How a token that lacks an operator before it is called: functions by their name alone. -/
def operandName : Token → String
  | .function f => String.ofList f.name
  | token => token.describe

/-- The name of a token as postfix data. -/
def postfixName : Token → String
  | .opening => "LParen"
  | .closing => "RParen"
  | token => token.describe

def message : SyntaxError → String
  | invalidNumber literal => "invalid number " ++ String.ofList literal
  | unknownName name => "unknown name " ++ String.ofList name
  | unexpectedCharacter c => "unexpected character in input: " ++ String.singleton c
  | missingOperatorBefore token => "missing operator before " ++ operandName token
  | missingParenthesis f => "expected '(' after " ++ String.ofList f.name
  | missingOperandBefore token => "missing operand before " ++ token.describe
  | unexpectedEnd => "unexpected end of expression"
  | mismatchedParenthesis => "mismatched parenthesis"
  | strayInGroup token => "unexpected " ++ token.describe ++ " in operator stack"
  | nestedTooDeep => "expression nested deeper than " ++ maxDepth.repr ++ " levels"
  | missingOperand place => "empty expression" ++ place.message
  | strayParenthesis token => "unexpected " ++ postfixName token ++ " after shunting yard"
  | missingOperator => "missing operator"

end SyntaxError

end DeskCalculator
