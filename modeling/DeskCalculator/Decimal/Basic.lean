import DeskCalculator.Double.Basic
import DeskCalculator.Text

/-!
# Decimals

A non-negative decimal is a coefficient and the number of digits after its point. This module
reads one from digits, writes one in positional notation and finds the double nearest to it.

* `Decimal.ofText?`: digits with at most one point, of which at least one is a digit;
* `Decimal.text`: no exponent, at least one digit before the point, all `places` after it;
* `Decimal.nearest`: correctly rounded, whatever the number of digits.
-/

namespace DeskCalculator

/-- The number `coefficient / 10 ^ places`. -/
structure Decimal where
  coefficient : Nat
  places : Nat
deriving DecidableEq

namespace Decimal

/-- The decimal written with digits `whole` before the point and `fraction` after it. -/
def ofDigits (whole fraction : Text) : Decimal :=
  ⟨Nat.ofDigitChars 10 (whole ++ fraction) 0, fraction.length⟩

/-- A number literal: digits, at least one, with at most one point before, between or after them. -/
def ofText? (literal : Text) : Option Decimal :=
  let whole := literal.takeWhile Char.isDigit
  match literal.dropWhile Char.isDigit with
  | [] => if whole = [] then none else some (ofDigits whole [])
  | point :: fraction =>
    if point = '.' ∧ fraction.all Char.isDigit ∧ whole ++ fraction ≠ [] then
      some (ofDigits whole fraction)
    else none

/-- The digits of `n`, filled with zeros on the left up to `width`. -/
def paddedDigits (width n : Nat) : Text :=
  (Nat.toDigits 10 n).leftpad width '0'

/-- The decimal in positional notation. -/
def text (d : Decimal) : Text :=
  if d.places = 0 then Nat.toDigits 10 d.coefficient
  else Nat.toDigits 10 (d.coefficient / Nat.pow 10 d.places) ++
    '.' :: paddedDigits d.places (d.coefficient % Nat.pow 10 d.places)

/-- The rank nearest to the decimal. -/
def rank (d : Decimal) : Nat :=
  nearestRank (d.coefficient * unitsPerOne) (Nat.pow 10 d.places)

/-- The double nearest to the decimal, with the given sign. -/
def nearest (negative : Bool) (d : Decimal) : Double :=
  .ofRatio negative (d.coefficient * unitsPerOne) (Nat.pow 10 d.places)

/-- Zeros at the end of the digits after the point are dropped, and the point after the last. -/
def trim (d : Decimal) : Decimal :=
  go d.coefficient d.places
where
  go (coefficient : Nat) : Nat → Decimal
    | 0 => ⟨coefficient, 0⟩
    | places + 1 =>
      if coefficient % 10 = 0 then go (coefficient / 10) places else ⟨coefficient, places + 1⟩

end Decimal

end DeskCalculator
