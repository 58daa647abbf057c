import DeskCalculator.Arithmetic

/-!
# Operators

The six binary operators and the two signs: how they are written, how strongly they bind and what
they compute.
-/

namespace DeskCalculator

inductive Operator where
  | add | subtract | multiply | divide | remainder | power
deriving DecidableEq

/-- A sign before an operand. -/
inductive Sign where
  | plus | minus
deriving DecidableEq

namespace Operator

def all : List Operator := [add, subtract, multiply, divide, remainder, power]

/-- The character that stands for the operator in an expression. -/
def symbol : Operator → Char
  | add => '+'
  | subtract => '-'
  | multiply => '*'
  | divide => '/'
  | remainder => '%'
  | power => '^'

/-- The operator of a symbol or of one of the keypad's glyphs for minus, times and divide. -/
def ofChar? : Char → Option Operator
  | '+' => some add
  | '-' | '−' => some subtract
  | '*' | '×' => some multiply
  | '/' | '÷' => some divide
  | '%' => some remainder
  | '^' => some power
  | _ => none

/-- The name used in messages. -/
def name : Operator → String
  | add => "Plus"
  | subtract => "Minus"
  | multiply => "Mul"
  | divide => "Div"
  | remainder => "Rem"
  | power => "Exp"

/-- An operator binds its operands before every operator of a lower precedence. -/
def precedence : Operator → Nat
  | add | subtract => 1
  | multiply | divide | remainder => 2
  | power => 3

/-- Operators of one precedence are grouped from the left, powers from the right. -/
def isRightAssociative (o : Operator) : Bool := o = power

/-- The sign of the same symbol. -/
def sign? : Operator → Option Sign
  | add => some .plus
  | subtract => some .minus
  | _ => none

theorem sign?_eq_some_iff {o : Operator} {s : Sign} :
    o.sign? = some s ↔ o = .add ∧ s = .plus ∨ o = .subtract ∧ s = .minus := by
  cases o <;> cases s <;> decide

/-- What the operator computes. -/
def apply (arithmetic : Arithmetic) : Operator → Double → Double → Double
  | add => arithmetic.add
  | subtract => arithmetic.sub
  | multiply => arithmetic.mul
  | divide => arithmetic.div
  | remainder => arithmetic.rem
  | power => arithmetic.pow

end Operator

namespace Sign

/-- The name used in messages. -/
def name : Sign → String
  | plus => "Pos"
  | minus => "Neg"

/-- A plus sign changes nothing. -/
def apply (arithmetic : Arithmetic) : Sign → Double → Double
  | plus => id
  | minus => arithmetic.neg

end Sign

end DeskCalculator
