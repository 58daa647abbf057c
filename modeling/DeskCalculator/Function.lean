import DeskCalculator.Arithmetic
import DeskCalculator.Display

/-!
# Functions and constants

The functions of the scientific keypad with their real domains, and the two named constants.

* `Function.ofName?_name`: each function is found under its own name;
* `Function.apply`: a value, or the cause when the argument lies outside the domain.
-/

namespace DeskCalculator

inductive Function where
  | sin | cos | tan | log | ln | sqrt
deriving DecidableEq

inductive Constant where
  | pi | e
deriving DecidableEq

/-- An argument outside the domain of a function. -/
structure DomainError where
  function : Function
  argument : Double
deriving DecidableEq

namespace Function

def all : List Function := [sin, cos, tan, log, ln, sqrt]

/-- The name in an expression and on the keypad. -/
def name : Function → Text
  | sin => ['s', 'i', 'n']
  | cos => ['c', 'o', 's']
  | tan => ['t', 'a', 'n']
  | log => ['l', 'o', 'g']
  | ln => ['l', 'n']
  | sqrt => ['s', 'q', 'r', 't']

def ofName? (name : Text) : Option Function := all.find? (·.name = name)

@[simp] theorem ofName?_name (f : Function) : ofName? f.name = some f := by
  cases f <;> decide

/-- Arguments outside the real domain. A value that is not a number is not outside. -/
def rejects : Function → Double → Bool
  | log, x | ln, x => x.isNonPositive
  | sqrt, x => x.isNegative
  | _, _ => false

/-- What the function computes inside its domain; `log` is the decimal logarithm. -/
def compute (arithmetic : Arithmetic) : Function → Double → Double
  | sin => arithmetic.sin
  | cos => arithmetic.cos
  | tan => arithmetic.tan
  | log => arithmetic.log10
  | ln => arithmetic.ln
  | sqrt => arithmetic.sqrt

def apply (arithmetic : Arithmetic) (f : Function) (x : Double) : Except DomainError Double :=
  if f.rejects x then .error ⟨f, x⟩ else .ok (f.compute arithmetic x)

end Function

/-- The numbers a function rejects, in words. -/
def DomainError.rejected (e : DomainError) : String :=
  if e.function = .sqrt then "negative" else "non-positive"

def DomainError.message (e : DomainError) : String :=
  String.ofList e.function.name ++ " of " ++ e.rejected ++ " number " ++
    String.ofList e.argument.text

namespace Constant

/-- The character of the constant in the expression of a calculator. -/
def symbol : Constant → Char
  | pi => 'π'
  | e => 'e'

/-- The constant of a symbol, or of the name `pi`. -/
def ofName? : Text → Option Constant
  | ['π'] | ['p', 'i'] => some pi
  | ['e'] => some e
  | _ => none

/-- The double nearest to the constant. -/
def value : Constant → Double
  | pi => .finite false ⟨0x400921fb54442d18, by decide⟩
  | e => .finite false ⟨0x4005bf0a8b145769, by decide⟩

end Constant

end DeskCalculator
