import DeskCalculator.Operator
import DeskCalculator.Function

/-!
# The keypad

What can be entered on the keypad, in which mode, and under which key names.

* `Mode.allows`: functions and constants are on the scientific keypad only;
* `Event.ofKey?`: the event of a named key, or of a key named by its character.
-/

namespace DeskCalculator

/-- The layout of the keypad. -/
inductive Mode where
  | standard | scientific
deriving DecidableEq

inductive Paren where
  | opening | closing
deriving DecidableEq

/-- One entry on the keypad. -/
inductive Event where
  /-- A digit or the point; any other character is ignored. -/
  | digit (c : Char)
  /-- A binary operator, or the sign of a negative number. -/
  | operator (operator : Operator)
  /-- A function with its opening parenthesis. -/
  | function (function : Function)
  | constant (constant : Constant)
  | paren (paren : Paren)
  | clear
  | backspace
  | evaluate
deriving DecidableEq

namespace Mode

def name : Mode → String
  | standard => "standard"
  | scientific => "scientific"

/-- The name in a description of the calculator. -/
def title : Mode → String
  | standard => "Standard"
  | scientific => "Scientific"

def ofName? (name : String) : Option Mode :=
  if name = standard.name then some standard
  else if name = scientific.name then some scientific
  else none

/-- What is said of a name that no mode has. -/
def unknownMessage (name : String) : String := "unknown mode '" ++ name ++ "'"

/-- The event is on the keypad of this mode. -/
def allows (mode : Mode) : Event → Bool
  | .function _ | .constant _ => mode = scientific
  | _ => true

end Mode

namespace Paren

def symbol : Paren → Char
  | opening => '('
  | closing => ')'

end Paren

namespace Event

/-- A digit or the point. -/
def isDigitKey (c : Char) : Bool := c.isDigit || c = '.'

/-- The event of a key that is named by its character. -/
def ofChar? (c : Char) : Option Event :=
  if isDigitKey c then some (digit c) else (Operator.ofChar? c).map operator

/-- The event of a key in any mode. -/
def ofName? (key : Text) : Option Event :=
  if key = "Enter".toList ∨ key = ['='] then some evaluate
  else if key = "Backspace".toList then some backspace
  else if key = "Escape".toList then some clear
  else if key = [Paren.opening.symbol] then some (paren .opening)
  else if key = [Paren.closing.symbol] then some (paren .closing)
  else
    match Function.ofName? key with
    | some f => some (function f)
    | none =>
      match Constant.ofName? key with
      | some c => some (constant c)
      | none =>
        match key with
        | [c] => ofChar? c
        | _ => none

/-- The event of a key, if the keypad of the mode has it. -/
def ofKey? (mode : Mode) (key : Text) : Option Event :=
  (ofName? key).filter mode.allows

theorem allows_of_ofKey? {mode : Mode} {key : Text} {e : Event} (h : ofKey? mode key = some e) :
    mode.allows e = true := by
  rw [ofKey?, Option.filter_eq_some_iff] at h
  exact h.2

end Event

end DeskCalculator
