import DeskCalculator.Calculator
import DeskCalculator.Settings

/-!
# A session on a terminal

The front end types lines of key names on a calculator and answers each with the end of the display.
The screen is what the calculator has put on the display last; the front end never looks into the
calculator for it.

* `Session.type` is a line: its words are keys, and a word that is no key is typed one character at
  a time;
* `Session.answers` are the answers to the lines of an input, up to the first that is not text.
-/

namespace DeskCalculator

structure Session where
  calculator : Calculator
  screen : Text
deriving DecidableEq

namespace Session

/-- The screen after the texts that a step puts on the display. -/
def receive (screen : Text) (shown : List Text) : Text := shown.foldl (fun _ text => text) screen

/-- A step of the calculator, as the screen shows it. -/
def take (s : Session) (step : Calculator.Step) : Session :=
  ⟨step.calculator, receive s.screen step.shown⟩

/-- A calculator that is connected to an empty screen. -/
def start (settings : Settings) : Session :=
  let calculator := Calculator.new settings.mode settings.precision
  take ⟨calculator, []⟩ calculator.start

/-- The mode that a word switches to. -/
def modeWord? (word : Text) : Option Mode :=
  match word with
  | ':' :: name => Mode.ofName? (String.ofList name)
  | _ => none

variable [MathLibrary]

/-- A key, if the keypad has it. -/
def press (s : Session) (key : Text) : Session :=
  match Event.ofKey? s.calculator.mode key with
  | some event => s.take (s.calculator.handle event)
  | none => s

/-- A word of a line. -/
def typeWord (s : Session) (word : Text) : Session :=
  match modeWord? word with
  | some mode => s.take (s.calculator.setMode mode)
  | none =>
    if (Event.ofKey? s.calculator.mode word).isSome then s.press word
    else word.foldl (fun s c => s.press [c]) s

/-- A line. -/
def type (s : Session) (line : Text) : Session := line.words.foldl typeWord s

/-! ## Lines of bytes -/

/-- The lines of an input. The last one need not be ended. -/
def lines (input : List UInt8) : List (List UInt8) :=
  let pieces := input.splitOnP (· = 0x0a)
  if pieces.getLast? = some [] then pieces.dropLast else pieces

/-- The text of a line in UTF-8. -/
def lineText? (line : List UInt8) : Option Text :=
  (String.fromUTF8? ⟨line.toArray⟩).map String.toList

/-- The answers to lines, and whether all of them could be read. -/
structure Answers where
  answered : List Text
  complete : Bool
deriving DecidableEq

/-- Each line is typed and answered with the end of the screen. -/
def answers (width : Nat) (s : Session) : List (List UInt8) → Answers
  | [] => ⟨[], true⟩
  | line :: rest =>
    match lineText? line with
    | none => ⟨[], false⟩
    | some text =>
      let s := s.type text
      let later := answers width s rest
      ⟨tail s.screen width :: later.answered, later.complete⟩

end Session

end DeskCalculator
