import DeskCalculator.Double.Basic

/-!
# Exact arithmetic on doubles

Sum, difference, product, quotient and remainder are each the exact result rounded once, to the
nearest double, with the signs of zero and the infinities of binary floating-point arithmetic.
-/

namespace DeskCalculator

/-- The value in units, with its sign. -/
def Magnitude.signed (negative : Bool) (m : Magnitude) : Int :=
  if negative then -m.units else m.units

namespace Double

/-- The opposite. -/
def neg : Double → Double
  | nan => nan
  | infinite negative => infinite !negative
  | finite negative m => finite (!negative) m

/-- The sum. Two zeros of one sign keep it; any other sum that is zero is positive. -/
def add : Double → Double → Double
  | infinite a, infinite b => if a = b then infinite a else nan
  | infinite a, finite .. => infinite a
  | finite .., infinite b => infinite b
  | finite a m, finite b n =>
    let sum := m.signed a + n.signed b
    if sum = 0 then zero (a && b) else ofRatio (sum < 0) sum.natAbs 1
  | _, _ => nan

/-- The difference. -/
def sub (x y : Double) : Double := add x y.neg

/-- The product. An infinity times zero is not a number. -/
def mul : Double → Double → Double
  | infinite a, infinite b => infinite (a ^^ b)
  | infinite a, finite b n => if n.rank = 0 then nan else infinite (a ^^ b)
  | finite a m, infinite b => if m.rank = 0 then nan else infinite (a ^^ b)
  | finite a m, finite b n => ofRatio (a ^^ b) (m.units * n.units) unitsPerOne
  | _, _ => nan

/-- The quotient. A number over zero is infinite, zero over zero is not a number. -/
def div : Double → Double → Double
  | infinite a, finite b _ => infinite (a ^^ b)
  | finite a _, infinite b => zero (a ^^ b)
  | finite a m, finite b n =>
    if n.rank = 0 then
      if m.rank = 0 then nan else infinite (a ^^ b)
    else ofRatio (a ^^ b) (m.units * unitsPerOne) n.units
  | _, _ => nan

/-- The remainder of the division towards zero. It is exact and has the sign of the dividend. -/
def rem : Double → Double → Double
  | finite a m, infinite _ => finite a m
  | finite a m, finite _ n => if n.rank = 0 then nan else ofRatio a (m.units % n.units) 1
  | _, _ => nan

/-! ## Powers of whole numbers -/

/-- The whole number that a double is, by sign and size. -/
def whole? : Double → Option (Bool × Nat)
  | finite negative m => if m.IsWhole then some (negative, m.whole) else none
  | _ => none

/-- The largest exponent tried for an exact power: `2⁵³` is the last power of two up to which all
whole numbers are doubles. -/
def maxExactExponent : Nat := 53

/-- The power of a whole number with a small whole exponent, when it needs no rounding. -/
def wholePow? (x y : Double) : Option Double :=
  match x.whole?, y.whole? with
  | some (negative, base), some (false, exponent) =>
    if exponent ≤ maxExactExponent then
      let power := Nat.pow base exponent
      if power ≤ 2 * binadeSize then
        some (ofRatio (negative && exponent % 2 = 1) (power * unitsPerOne) 1)
      else none
    else none
  | _, _ => none

end Double

end DeskCalculator
