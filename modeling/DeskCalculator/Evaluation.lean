import DeskCalculator.Expr

/-!
# Evaluation

The value of an expression, or the first fault met: operands are evaluated from the left, and a
function rejects arguments outside its domain. Infinities are allowed on the way, but not as the
result.

* `Expr.eval`: the value of a tree under any arithmetic;
* `evaluate`: the outcome of a text under that of the calculator;
* `Outcome.display`: what the display shows of it;
* `Token.run`: postfix tokens evaluated from left to right on a stack of values, without a tree. The
  first function that rejects its argument ends the evaluation.
-/

namespace DeskCalculator

/-- Why an evaluation has no number. -/
inductive EvaluationError where
  | parse (cause : SyntaxError)
  | domain (cause : DomainError)
  | notFinite
deriving DecidableEq

def EvaluationError.message : EvaluationError → String
  | parse cause => "ParseError: " ++ cause.message
  | domain cause => "DomainError: " ++ cause.message
  | notFinite => "NotFinite: result is not a finite number"

namespace Expr

/-- The value of the tree; it may be infinite or not a number. -/
def eval (arithmetic : Arithmetic) : Expr → Except DomainError Double
  | literal value => .ok value
  | constant c => .ok c.value
  | negation e => do return arithmetic.neg (← e.eval arithmetic)
  | binary o l r => do
    let x ← l.eval arithmetic
    let y ← r.eval arithmetic
    return o.apply arithmetic x y
  | call f e => do f.apply arithmetic (← e.eval arithmetic)

end Expr

/-- The outcome of an evaluation. -/
abbrev Outcome := Except EvaluationError Double

namespace Outcome

/-- A number has to be finite. -/
def ofValue : Except DomainError Double → Outcome
  | .error cause => .error (.domain cause)
  | .ok value => if value.isFinite then .ok value else .error .notFinite

/-- The text on the display in place of a number. -/
def errorMarker : Text := ['E', 'r', 'r', 'o', 'r']

/-- The text on the display. -/
def display (precision : Nat) : Outcome → Text
  | .ok value => value.display precision
  | .error _ => errorMarker

end Outcome

/-- The outcome of a text under an arithmetic. -/
def evaluateWith (arithmetic : Arithmetic) (text : Text) : Outcome :=
  match Expr.parse text with
  | .error cause => .error (.parse cause)
  | .ok e => Outcome.ofValue (e.eval arithmetic)

/-- The outcome of a text. -/
def evaluate [MathLibrary] (text : Text) : Outcome := evaluateWith .ofLibrary text

/-! ## On a stack -/

/-- Why postfix tokens have no value. -/
inductive StackFault where
  | domain (cause : DomainError)
  /-- A token lacks an operand, or is a parenthesis. -/
  | malformed
deriving DecidableEq

namespace Token

/-- The stack of values, the top first, after one more token. The right operand of an operator is
the top, the left one lies below it. -/
def push (arithmetic : Arithmetic) (stack : List Double) (token : Token) :
    Except StackFault (List Double) :=
  match token, stack with
  | number value, stack => .ok (value :: stack)
  | constant c, stack => .ok (c.value :: stack)
  | sign .plus, x :: stack => .ok (x :: stack)
  | sign .minus, x :: stack => .ok (arithmetic.neg x :: stack)
  | operator .add, y :: x :: stack => .ok (arithmetic.add x y :: stack)
  | operator .subtract, y :: x :: stack => .ok (arithmetic.sub x y :: stack)
  | operator .multiply, y :: x :: stack => .ok (arithmetic.mul x y :: stack)
  | operator .divide, y :: x :: stack => .ok (arithmetic.div x y :: stack)
  | operator .remainder, y :: x :: stack => .ok (arithmetic.rem x y :: stack)
  | operator .power, y :: x :: stack => .ok (arithmetic.pow x y :: stack)
  | function f, x :: stack =>
    match f.apply arithmetic x with
    | .ok value => .ok (value :: stack)
    | .error cause => .error (.domain cause)
  | _, _ => .error .malformed

/-- The stack of values after tokens in postfix order. -/
def run (arithmetic : Arithmetic) (tokens : List Token) (stack : List Double) :
    Except StackFault (List Double) :=
  tokens.foldlM (push arithmetic) stack

end Token

end DeskCalculator
