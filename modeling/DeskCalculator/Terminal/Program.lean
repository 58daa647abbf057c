import DeskCalculator.Terminal.Session
import DeskCalculator.Terminal.Options

/-!
# The program

The whole run of the command line program as a function of its arguments, the files it can read and
its input. Options win over the settings file, which is checked on its own first.

* `Readers`: how arguments and the text of a settings file are read;
* `Program.settings`: the settings of a run, or its failure;
* `Program.runWith`, `Program.run`: the report of a run, with any readers and with those of this
  library.
-/

namespace DeskCalculator

/-- Why a file cannot be read. -/
inductive FileError where
  | notFound
  | notFolder
  | isFolder
  | nameTooLong
  | notText
  | other (message : String)
deriving DecidableEq

/-- What is said of bytes that are no UTF-8. -/
def notTextMessage : String := "stream did not contain valid UTF-8"

def FileError.message : FileError → String
  | notFound => "No such file or directory (os error 2)"
  | notFolder => "Not a directory (os error 20)"
  | isFolder => "Is a directory (os error 21)"
  | nameTooLong => "File name too long (os error 36)"
  | notText => notTextMessage
  | other message => message

/-- Why a settings file cannot be used. -/
inductive FileFault where
  | unreadable (cause : FileError)
  | refused (cause : SettingsError)
deriving DecidableEq

/-- Why a run fails. -/
inductive Failure where
  | settingsFile (path : String) (cause : FileFault)
  | options (cause : SettingsError)
  | input
deriving DecidableEq

namespace Failure

/-- What the program was doing. -/
def context : Failure → String
  | settingsFile path _ => "loading configuration from " ++ path
  | options _ => "invalid command line options"
  | input => "reading standard input"

/-- What went wrong, each line explained by the next. -/
def causes : Failure → List String
  | settingsFile _ (.unreadable cause) =>
    ["failed to read configuration: " ++ cause.message, cause.message]
  | settingsFile _ (.refused cause) => [cause.message]
  | options cause => [cause.message]
  | input => [notTextMessage]

/-- The first line of the message. -/
def headline (f : Failure) : String := "Error: " ++ f.context

/-- Causes one to a line, numbered if there are several. -/
def causeLines : List String → String
  | [cause] => "    " ++ cause ++ "\n"
  | causes => String.join (causes.mapIdx fun i cause => "    " ++ i.repr ++ ": " ++ cause ++ "\n")

def message (f : Failure) : String :=
  f.headline ++ "\n\nCaused by:\n" ++ causeLines f.causes

end Failure

/-- How a run ends: before the calculator starts, or with the answers to its lines and the failure
that ended it, if any. -/
inductive Report where
  | stopped (stop : Stop)
  | ran (answers : List Text) (failure : Option Failure)
deriving DecidableEq

namespace Program

def name : String := "calcpad"

/-- The options in columns, with the name of their value in capitals. -/
def optionLines : String :=
  String.join (OptionName.all.map fun o =>
    let forms := "  -" ++ String.singleton o.letter ++ ", --" ++ o.long ++ " <" ++ o.long.toUpper ++ ">"
    String.ofList (forms.toList.rightpad 31 ' ') ++ o.description ++ "\n")

def helpText : String :=
  "Keypad calculator reading key names from stdin\n\n" ++
  "Usage: " ++ name ++ " [OPTIONS]\n\nOptions:\n" ++ optionLines ++
  "  -h, --help                   Print help\n" ++
  "  -V, --version                Print version\n"

def versionText : String := name ++ " 0.1.0\n"

/-- What is said of arguments that are refused, whatever is wrong with them. -/
def usageText : String :=
  "Usage: " ++ name ++ " [OPTIONS]\n\nFor more information, try '--help'.\n"

end Program

/-- How arguments and the text of a settings file are read. -/
structure Readers where
  options : List String → Except Stop Options
  settings : Text → Except SettingsError Settings

/-- Settings are written in TOML. -/
def Readers.standard : Readers := ⟨Options.parse, Settings.ofToml⟩

namespace Program

/-- The settings of a file. -/
def fileSettings (readers : Readers) (contents : Except FileError Text) :
    Except FileFault Settings :=
  match contents with
  | .error cause => .error (.unreadable cause)
  | .ok document => (readers.settings document).mapError .refused

/-- The settings of a run. -/
def settings (readers : Readers) (options : Options) (read : String → Except FileError Text) :
    Except Failure Settings := do
  let base ← match options.settingsFile with
    | some path => (fileSettings readers (read path)).mapError (.settingsFile path)
    | none => .ok Settings.default
  (options.apply base).validate.mapError .options

variable [MathLibrary]

/-- The answers to an input, and the failure that ended it. -/
def converse (settings : Settings) (input : List UInt8) : Report :=
  let answers := (Session.start settings).answers settings.displayWidth (Session.lines input)
  .ran answers.answered (if answers.complete then none else some .input)

/-- The report of a run: `read` looks up files, `input` is the standard input. -/
def runWith (readers : Readers) (arguments : List String)
    (read : String → Except FileError Text) (input : List UInt8) : Report :=
  match readers.options arguments with
  | .error stop => .stopped stop
  | .ok options =>
    match settings readers options read with
    | .error failure => .ran [] (some failure)
    | .ok settings => converse settings input

/-- The report of a run of the program. -/
def run : List String → (String → Except FileError Text) → List UInt8 → Report :=
  runWith .standard

end Program

namespace Report

def exitCode : Report → Nat
  | stopped .usage => 2
  | stopped _ => 0
  | ran _ none => 0
  | ran _ (some _) => 1

/-- The standard output: a line for each answer. -/
def output : Report → String
  | stopped .help => Program.helpText
  | stopped .version => Program.versionText
  | stopped .usage => ""
  | ran answers _ => String.ofList (answers.flatMap (· ++ ['\n']))

/-- The standard error. -/
def errors : Report → String
  | stopped .usage => Program.usageText
  | stopped _ => ""
  | ran _ none => ""
  | ran _ (some failure) => failure.message

end Report

end DeskCalculator
