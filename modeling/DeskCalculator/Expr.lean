import DeskCalculator.Token.Arranger

/-!
# Expressions

The tree of an expression. Parentheses and plus signs leave no trace in it.

* `Expr.listing`: the tree as tokens in postfix order;
* `Expr.height`: the longest path from the root, a literal or constant counting one;
* `Expr.build`: the tree of postfix tokens, read from the end: the last token is the root, and its
  operands are what lies before it, the right one first;
* `Token.depth`: the depth of that tree, measured beforehand without recursion;
* `Expr.ofPostfix`, `Expr.parse`: the tree of postfix tokens and of a text. Deep ones are refused.
-/

namespace DeskCalculator

inductive Expr where
  | literal (value : Double)
  | constant (constant : Constant)
  | negation (operand : Expr)
  | binary (operator : Operator) (left right : Expr)
  | call (function : Function) (argument : Expr)
deriving DecidableEq

namespace Expr

/-- The value of an expression that is a single literal. -/
def literal? : Expr → Option Double
  | literal value => some value
  | _ => none

/-- The tokens of the tree in postfix order. -/
def listing : Expr → List Token
  | literal value => [.number value]
  | constant c => [.constant c]
  | negation e => e.listing ++ [.sign .minus]
  | binary o l r => l.listing ++ r.listing ++ [.operator o]
  | call f e => e.listing ++ [.function f]

def height : Expr → Nat
  | literal _ | constant _ => 1
  | negation e | call _ e => e.height + 1
  | binary _ l r => max l.height r.height + 1

end Expr

/-! ## The tree of postfix tokens -/

namespace Token

/-- The depths of the operands on a stack after one more token; a missing operand counts zero. -/
def pushDepth (depths : List Nat) : Token → List Nat
  | sign _ | function _ => (depths.headD 0 + 1) :: depths.tail
  | operator _ => (max (depths.headD 0) (depths.tail.headD 0) + 1) :: depths.tail.tail
  | _ => 1 :: depths

/-- The depth of the tree of postfix tokens, plus signs included. -/
def depth (tokens : List Token) : Nat :=
  (tokens.foldl pushDepth []).foldl max 0

end Token

namespace Expr

/-- The operand at the head of `tokens`, which are in postfix order the last one first, and the
tokens that are left. At most `levels` operands may be open inside one another. -/
def build : (levels : Nat) → OperandPlace → (tokens : List Token) →
    Except SyntaxError (Expr × List Token)
  | 0, _, _ => .error .nestedTooDeep
  | _ + 1, place, [] => .error (.missingOperand place)
  | levels + 1, _, token :: rest =>
    match token with
    | .number value => .ok (literal value, rest)
    | .constant c => .ok (constant c, rest)
    | .function f => do
      let (argument, rest) ← build levels .argument rest
      .ok (call f argument, rest)
    | .sign .plus => build levels (.afterSign .plus) rest
    | .sign .minus => do
      let (operand, rest) ← build levels (.afterSign .minus) rest
      .ok (negation operand, rest)
    | .operator o => do
      let (right, rest) ← build levels .afterOperator rest
      let (left, rest) ← build levels .beforeOperator rest
      .ok (binary o left right, rest)
    | .opening | .closing => .error (.strayParenthesis token)

/-- The tree of tokens in postfix order. Operands that are open inside one another have a token
each, so the levels given to `build` are never used up. -/
def ofPostfix (tokens : List Token) : Except SyntaxError Expr := do
  if maxDepth < Token.depth tokens then .error .nestedTooDeep
  else
    let (e, rest) ← build (tokens.length + 1) .whole tokens.reverse
    if rest = [] then .ok e else .error .missingOperator

/-- The expression that a text is. -/
def parse (text : Text) : Except SyntaxError Expr := Token.arrange text >>= ofPostfix

end Expr

end DeskCalculator
