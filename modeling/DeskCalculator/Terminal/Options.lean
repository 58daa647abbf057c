import DeskCalculator.Settings

/-!
# Command line options

Each option has a long name and a letter and takes one value: in the argument itself, with or
without an equals sign after a letter, or in the next one, which must not look like an option. An
option is given once, and nothing else is expected.

* `Options.parse`: the options, or the reason to stop before the calculator starts;
* `Options.apply`: options win over other settings.
-/

namespace DeskCalculator

/-- The options of the command line that have been given. -/
structure Options where
  settingsFile : Option String
  mode : Option Mode
  precision : Option Nat
  width : Option Nat
deriving DecidableEq

/-- What to do instead of running the calculator. -/
inductive Stop where
  | usage | help | version
deriving DecidableEq

/-- The options that take a value. -/
inductive OptionName where
  | settingsFile | mode | precision | width
deriving DecidableEq

namespace OptionName

def long : OptionName → String
  | settingsFile => "config"
  | mode => "mode"
  | precision => "precision"
  | width => "width"

def letter : OptionName → Char
  | settingsFile => 'c'
  | mode => 'm'
  | precision => 'p'
  | width => 'w'

/-- What the option is for, as the help has it. -/
def description : OptionName → String
  | settingsFile => "TOML configuration file"
  | mode => "Keypad mode at startup (standard or scientific)"
  | precision => "Decimal places kept in results"
  | width => "Number of characters of the display"

def all : List OptionName := [settingsFile, mode, precision, width]

end OptionName

/-- What an argument asks for. -/
inductive Request where
  /-- An option, with its value if the argument holds it. -/
  | option (name : OptionName) (value : Option Text)
  | stop (stop : Stop)
deriving DecidableEq

namespace Request

/-- The request of a long name, without its dashes. -/
def ofLong (text : Text) : Request :=
  let name := String.ofList (text.takeWhile (· ≠ '='))
  let value := match text.dropWhile (· ≠ '=') with
    | [] => none
    | _ :: value => some value
  match OptionName.all.find? (·.long = name) with
  | some o => .option o value
  | none =>
    if name = "help" ∧ value = none then .stop .help
    else if name = "version" ∧ value = none then .stop .version
    else .stop .usage

/-- The request of a letter, and of what follows it in the argument. -/
def ofLetter (c : Char) (rest : Text) : Request :=
  match OptionName.all.find? (·.letter = c) with
  | some o =>
    match rest with
    | [] => .option o none
    | '=' :: value => .option o (some value)
    | value => .option o (some value)
  | none => .stop (if c = 'h' then .help else if c = 'V' then .version else .usage)

/-- The request of an argument. -/
def ofArgument (argument : String) : Request :=
  match argument.toList with
  | '-' :: '-' :: text => ofLong text
  | '-' :: c :: rest => ofLetter c rest
  | _ => .stop .usage

end Request

namespace Options

def none : Options := ⟨.none, .none, .none, .none⟩

/-- A size: digits with an optional plus sign, in 64 bits. -/
def size? (text : Text) : Option Nat :=
  let digits := if text.head? = some '+' then text.tail else text
  let n := Nat.ofDigitChars 10 digits 0
  if digits ≠ [] ∧ digits.all Char.isDigit ∧ n < Settings.sizeBound then some n else .none

/-- One more option. A value that is not of its kind, or a second value, is refused. -/
def set (o : Options) (name : OptionName) (value : Text) : Except Stop Options :=
  let result := match name with
    | .settingsFile =>
      if o.settingsFile.isSome ∨ value = [] then .none
      else some { o with settingsFile := some (String.ofList value) }
    | .mode =>
      if o.mode.isSome then .none
      else (Mode.ofName? (String.ofList value)).map fun m => { o with mode := some m }
    | .precision =>
      if o.precision.isSome then .none
      else (size? value).map fun n => { o with precision := some n }
    | .width =>
      if o.width.isSome then .none
      else (size? value).map fun n => { o with width := some n }
  match result with
  | some o => .ok o
  | .none => .error .usage

/-- An argument that can be the value of the option before it. -/
def isValue (argument : String) : Bool :=
  argument.toList.head? ≠ some '-' || argument = "-"

/-- The options of arguments, added to those before them. -/
def parseFrom (o : Options) : List String → Except Stop Options
  | [] => .ok o
  | argument :: rest =>
    if argument = "--" then if rest = [] then .ok o else .error .usage
    else
      match Request.ofArgument argument with
      | .stop stop => .error stop
      | .option name (some value) => do parseFrom (← o.set name value) rest
      | .option name .none =>
        match rest with
        | [] => .error .usage
        | value :: rest =>
          if isValue value then do parseFrom (← o.set name value.toList) rest
          else .error .usage

/-- The options of a command line. -/
def parse (arguments : List String) : Except Stop Options := parseFrom none arguments

/-- Settings with the options that have been given in place of their own. -/
def apply (o : Options) (s : Settings) : Settings where
  mode := o.mode.getD s.mode
  precision := o.precision.getD s.precision
  displayWidth := o.width.getD s.displayWidth

end Options

end DeskCalculator
