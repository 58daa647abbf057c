import DeskCalculator.Evaluation
import DeskCalculator.Keypad.Event

/-!
# The entry

The text being entered, and whether the next value replaces it. Every edit keeps the text close to
an expression: `0` stands for an empty entry, an operator replaces the operator before it, and a
value that follows a value is multiplied by it.

* `Entry.digit`, `Entry.operator`, `Entry.function`, `Entry.constant`, `Entry.paren`: appending;
* `Entry.deleteLast`, `Entry.clear`: taking back;
* `Entry.showResult`: the entry becomes the text of a result.
-/

namespace DeskCalculator

structure Entry where
  text : Text
  /-- The text is a result: the next value replaces it. -/
  isResult : Bool
deriving DecidableEq

namespace Entry

/-- The text of an empty entry. -/
def emptyText : Text := ['0']

def empty : Entry := ⟨emptyText, false⟩

/-- The character of a binary operator. -/
def isOperatorChar (c : Char) : Bool := Operator.all.any (·.symbol = c)

/-- A character that can end a value. -/
def endsValue (c : Char) : Bool := c.isDigit || c = 'π' || c = 'e' || c = ')'

/-- The next value replaces the text. -/
def startsFresh (e : Entry) : Bool := e.isResult || e.text = emptyText

/-- The last character has a property. -/
def lastIs (e : Entry) (p : Char → Bool) : Bool := e.text.getLast?.any p

/-- A digit or the point joins the number at the end; other characters are ignored. -/
def digit (e : Entry) (c : Char) : Entry :=
  if Event.isDigitKey c then
    if e.startsFresh then ⟨[c], false⟩ else ⟨e.text ++ [c], e.isResult⟩
  else e

/-- An operator continues a result and replaces an operator. A minus in an empty entry or after an
opening parenthesis is the sign of the number that follows. -/
def operator (e : Entry) (o : Operator) : Entry :=
  if o = .subtract ∧ e.text = emptyText then ⟨[o.symbol], false⟩
  else if o = .subtract ∧ e.lastIs (· = '(') then ⟨e.text ++ [o.symbol], false⟩
  else if e.lastIs isOperatorChar then ⟨e.text.dropLast ++ [o.symbol], false⟩
  else ⟨e.text ++ [o.symbol], false⟩

/-- The text of a value: it replaces a result or an empty entry, and is multiplied by a value before
it. -/
def value (e : Entry) (text : Text) : Entry :=
  if e.startsFresh then ⟨text, false⟩
  else if e.lastIs endsValue then ⟨e.text ++ '*' :: text, e.isResult⟩
  else ⟨e.text ++ text, e.isResult⟩

/-- A function name with its opening parenthesis. -/
def function (e : Entry) (f : Function) : Entry := e.value (f.name ++ ['('])

def constant (e : Entry) (c : Constant) : Entry := e.value [c.symbol]

/-- A group begins like a value. Its end is always appended. -/
def paren (e : Entry) : Paren → Entry
  | .opening => e.value ['(']
  | .closing => ⟨e.text ++ [')'], false⟩

def clear (_ : Entry) : Entry := empty

/-- The last character is taken away; a result, the error marker and a single character as a
whole. -/
def deleteLast (e : Entry) : Entry :=
  if e.isResult ∨ e.text = Outcome.errorMarker ∨ e.text.length < 2 then e.clear
  else ⟨e.text.dropLast, false⟩

/-- The text of a result; an empty one is shown as zero. -/
def showResult (_ : Entry) (text : Text) : Entry :=
  ⟨if text = [] then emptyText else text, true⟩

end Entry

end DeskCalculator
