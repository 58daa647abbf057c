import DeskCalculator.Entry

/-!
# The calculator

An entry, the mode of the keypad and the number of decimal places of results. Each event is handled
in one step, which gives the new calculator and the texts it puts on the display.

* `Calculator.handle`: one event;
* `Calculator.evaluate`: the outcome of the entry, which then shows it;
* `Calculator.start`: the first thing a display receives;
* `shown_handle`: each event puts the entry that it leaves on the display, once;
* `entry_after_congr`: the entry after events depends on the entry and the precision before them.
-/

namespace DeskCalculator

structure Calculator where
  entry : Entry
  mode : Mode
  precision : Nat
deriving DecidableEq

namespace Calculator

/-- What follows a step: the calculator, and the texts put on the display in turn. -/
structure Step where
  calculator : Calculator
  shown : List Text

/-- An empty entry. -/
def new (mode : Mode) (precision : Nat) : Calculator := ⟨.empty, mode, precision⟩

/-- The text of the entry. -/
def display (c : Calculator) : Text := c.entry.text

/-- A step that ends by putting the entry on the display. -/
def render (c : Calculator) : Step := ⟨c, [c.display]⟩

/-- A display is connected and receives the entry. -/
def start (c : Calculator) : Step := c.render

/-- The keypad changes its layout; entry and display stay. -/
def setMode (c : Calculator) (mode : Mode) : Step := ⟨{ c with mode }, []⟩

/-- The edit of an event other than the evaluation. -/
def edit (e : Entry) : Event → Entry
  | .digit d => e.digit d
  | .operator o => e.operator o
  | .function f => e.function f
  | .constant k => e.constant k
  | .paren p => e.paren p
  | .clear => e.clear
  | .backspace => e.deleteLast
  | .evaluate => e

variable [MathLibrary]

/-- The outcome of the entry. -/
def outcome (c : Calculator) : Outcome := DeskCalculator.evaluate c.entry.text

/-- The entry becomes the text of its outcome. -/
def evaluate (c : Calculator) : Step :=
  { c with entry := c.entry.showResult (c.outcome.display c.precision) }.render

/-- One event. -/
def handle (c : Calculator) (event : Event) : Step :=
  if event = .evaluate then c.evaluate else { c with entry := edit c.entry event }.render

/-- The calculator after events in turn. -/
def after (c : Calculator) (events : List Event) : Calculator :=
  events.foldl (fun c event => (c.handle event).calculator) c

/-- A calculator that events have led to from an empty entry. -/
def Reachable (c : Calculator) : Prop :=
  ∃ events : List Event, c = (new c.mode c.precision).after events

@[simp] theorem after_nil (c : Calculator) : c.after [] = c := rfl

@[simp] theorem after_cons (c : Calculator) (event : Event) (events : List Event) :
    c.after (event :: events) = (c.handle event).calculator.after events := rfl

/-- The whole state in words, for diagnosis. An entry holds no character that would have to be
escaped between quotes. -/
def description (c : Calculator) : String :=
  "Calculator \x7b state: CalculatorState \x7b buffer: \"" ++ String.ofList c.entry.text ++
    "\", reset: " ++ (if c.entry.isResult then "true" else "false") ++ " \x7d, mode: " ++
    c.mode.title ++ ", precision: " ++ c.precision.repr ++ " \x7d"

theorem shown_handle (c : Calculator) (event : Event) :
    (c.handle event).shown = [(c.handle event).calculator.display] := by
  unfold handle; split <;> rfl

theorem mode_handle (c : Calculator) (event : Event) :
    (c.handle event).calculator.mode = c.mode := by
  unfold handle; split <;> rfl

theorem precision_handle (c : Calculator) (event : Event) :
    (c.handle event).calculator.precision = c.precision := by
  unfold handle; split <;> rfl

theorem after_concat (c : Calculator) (events : List Event) (event : Event) :
    c.after (events ++ [event]) = ((c.after events).handle event).calculator := by
  rw [after, after, List.foldl_append]
  rfl

/-- What an event makes of the entry depends on the entry and the precision. The mode of the keypad
has no part in it. -/
theorem entry_handle_congr {c d : Calculator} (h : c.entry = d.entry)
    (hp : c.precision = d.precision) (event : Event) :
    (c.handle event).calculator.entry = (d.handle event).calculator.entry := by
  unfold handle
  split
  · show c.entry.showResult (c.outcome.display c.precision) =
      d.entry.showResult (d.outcome.display d.precision)
    rw [outcome, outcome, h, hp]
  · exact congrArg (edit · event) h

theorem entry_after_congr {c d : Calculator} (h : c.entry = d.entry)
    (hp : c.precision = d.precision) (events : List Event) :
    (c.after events).entry = (d.after events).entry := by
  induction events generalizing c d with
  | nil => exact h
  | cons event events ih =>
    refine ih (entry_handle_congr h hp event) ?_
    rw [precision_handle, precision_handle, hp]

end Calculator

end DeskCalculator
