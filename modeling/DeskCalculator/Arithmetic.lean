import DeskCalculator.Double.Arithmetic

/-!
# The primitive operations of an evaluation

An `Arithmetic` gives a meaning to each primitive operation on doubles. Evaluation is defined over
any of them, and what it promises about order, errors and the shape of expressions holds for all
of them.

The arithmetic of the calculator, `Arithmetic.ofLibrary`, takes the operators of binary arithmetic as
they are: exact results, rounded once. Remainders, powers and the functions are those of a
mathematical library, of which nothing is assumed. `MathLibrary.system` is the one that runs.
-/

namespace DeskCalculator

/-- A meaning for the primitive operations on doubles. -/
structure Arithmetic where
  neg : Double → Double
  add : Double → Double → Double
  sub : Double → Double → Double
  mul : Double → Double → Double
  div : Double → Double → Double
  rem : Double → Double → Double
  pow : Double → Double → Double
  sin : Double → Double
  cos : Double → Double
  tan : Double → Double
  log10 : Double → Double
  ln : Double → Double
  sqrt : Double → Double

/-- The operations that a mathematical library provides. -/
class MathLibrary where
  rem : Double → Double → Double
  pow : Double → Double → Double
  sin : Double → Double
  cos : Double → Double
  tan : Double → Double
  log10 : Double → Double
  ln : Double → Double
  sqrt : Double → Double

/-- The arithmetic of the calculator over a mathematical library. -/
def Arithmetic.ofLibrary [MathLibrary] : Arithmetic where
  neg := Double.neg
  add := Double.add
  sub := Double.sub
  mul := Double.mul
  div := Double.div
  rem := MathLibrary.rem
  pow := MathLibrary.pow
  sin := MathLibrary.sin
  cos := MathLibrary.cos
  tan := MathLibrary.tan
  log10 := MathLibrary.log10
  ln := MathLibrary.ln
  sqrt := MathLibrary.sqrt

/-! ## The library of the system -/

namespace Double

def toFloat (x : Double) : Float := .ofBits x.toBits

def ofFloat (x : Float) : Double := ofBits x.toBits

/-- A function of the system's mathematical library. -/
def viaFloat (f : Float → Float) (x : Double) : Double := ofFloat (f x.toFloat)

/-- A power. Small powers of whole numbers are exact; the mathematical library, which agrees on
those, gives the others. -/
def pow (x y : Double) : Double :=
  (wholePow? x y).getD (ofFloat (x.toFloat.pow y.toFloat))

end Double

/-- The mathematical library of the system. Remainders are exact and need no library. -/
instance MathLibrary.system : MathLibrary where
  rem := Double.rem
  pow := Double.pow
  sin := Double.viaFloat Float.sin
  cos := Double.viaFloat Float.cos
  tan := Double.viaFloat Float.tan
  log10 := Double.viaFloat Float.log10
  ln := Double.viaFloat Float.log
  sqrt := Double.viaFloat Float.sqrt

end DeskCalculator
