import DeskCalculator.Expr

/-!
# The grammar of expressions

The grammar that fixes which token sequences are expressions, and how they group. A `Phrase` is a
syntax tree in which parentheses leave no trace and every sign does.

* `Derives level tokens phrase`: the grammar derives the tokens at that level, with that tree;
* `Phrase.toExpr` forgets the plus signs, `Phrase.listing` and `Phrase.height` keep them;
* `listing_toExpr`: the postfix tokens of the expression are those of the phrase without its plus
  signs; `height_toExpr_le`: forgetting makes no tree higher.
-/

namespace DeskCalculator

/-- A syntax tree as it is written. -/
inductive Phrase where
  | literal (value : Double)
  | constant (constant : Constant)
  | signed (sign : Sign) (operand : Phrase)
  | binary (operator : Operator) (left right : Phrase)
  | call (function : Function) (argument : Phrase)
deriving DecidableEq

namespace Phrase

/-- The expression of a phrase. A plus sign leaves no trace. -/
def toExpr : Phrase → Expr
  | literal value => .literal value
  | constant c => .constant c
  | signed .plus p => p.toExpr
  | signed .minus p => .negation p.toExpr
  | binary o l r => .binary o l.toExpr r.toExpr
  | call f p => .call f p.toExpr

/-- The tokens of a phrase in postfix order. -/
def listing : Phrase → List Token
  | literal value => [.number value]
  | constant c => [.constant c]
  | signed s p => p.listing ++ [.sign s]
  | binary o l r => l.listing ++ r.listing ++ [.operator o]
  | call f p => p.listing ++ [.function f]

/-- The longest path from the root, a literal or constant counting one. -/
def height : Phrase → Nat
  | literal _ | constant _ => 1
  | signed _ p | call _ p => p.height + 1
  | binary _ l r => max l.height r.height + 1

theorem listing_toExpr (p : Phrase) :
    p.toExpr.listing = p.listing.filter (· ≠ .sign .plus) := by
  induction p with
  | literal value => rfl
  | constant c => rfl
  | signed s p ih => cases s <;> simp [toExpr, listing, Expr.listing, ih]
  | binary o l r ihl ihr => simp [toExpr, listing, Expr.listing, ihl, ihr]
  | call f p ih => simp [toExpr, listing, Expr.listing, ih]

theorem height_toExpr_le (p : Phrase) : p.toExpr.height ≤ p.height := by
  induction p with
  | literal value => exact Nat.le_refl _
  | constant c => exact Nat.le_refl _
  | signed s p ih => cases s <;> simp only [toExpr, height, Expr.height] <;> omega
  | binary o l r ihl ihr => simp only [toExpr, height, Expr.height]; omega
  | call f p ih => simp only [toExpr, height, Expr.height]; omega

end Phrase

/-- The levels of the grammar, from the weakest binding to the strongest. -/
inductive Level where
  | sum | product | power | unary | atom
deriving DecidableEq

/-- The grammar: sums and products group from the left, powers from the right, and signs bind more
strongly than powers. -/
inductive Derives : Level → List Token → Phrase → Prop where
  | sum {o ls rs l r} : o = .add ∨ o = .subtract → Derives .sum ls l → Derives .product rs r →
      Derives .sum (ls ++ .operator o :: rs) (.binary o l r)
  | product {o ls rs l r} : o = .multiply ∨ o = .divide ∨ o = .remainder →
      Derives .product ls l → Derives .power rs r →
      Derives .product (ls ++ .operator o :: rs) (.binary o l r)
  | power {ls rs l r} : Derives .unary ls l → Derives .power rs r →
      Derives .power (ls ++ .operator .power :: rs) (.binary .power l r)
  | signed {o s ts p} : o = .add ∧ s = .plus ∨ o = .subtract ∧ s = .minus → Derives .unary ts p →
      Derives .unary (.operator o :: ts) (.signed s p)
  | number (value) : Derives .atom [.number value] (.literal value)
  | constant (c) : Derives .atom [.constant c] (.constant c)
  | call {f ts p} : Derives .sum ts p →
      Derives .atom (.function f :: .opening :: ts ++ [.closing]) (.call f p)
  | group {ts p} : Derives .sum ts p → Derives .atom (.opening :: ts ++ [.closing]) p
  | sumOfProduct {ts p} : Derives .product ts p → Derives .sum ts p
  | productOfPower {ts p} : Derives .power ts p → Derives .product ts p
  | powerOfUnary {ts p} : Derives .unary ts p → Derives .power ts p
  | unaryOfAtom {ts p} : Derives .atom ts p → Derives .unary ts p

end DeskCalculator
