import DeskCalculator.Keypad.Event
import DeskCalculator.Toml.Document

/-!
# Settings

The settings of a session, their defaults and ranges, and reading them from a TOML document. A
setting that a document leaves out keeps its default; a key that names no setting is refused.

* `Settings.validate`: the first setting out of range;
* `Settings.ofToml`: the settings of a document, in range.
-/

namespace DeskCalculator

structure Settings where
  /-- The keypad at the beginning. -/
  mode : Mode
  /-- Decimal places of results. -/
  precision : Nat
  /-- Characters on the display. -/
  displayWidth : Nat
deriving DecidableEq

/-- Why settings cannot be used. -/
inductive SettingsError where
  | malformed
  | precisionTooLarge (precision : Nat)
  | noWidth
deriving DecidableEq

namespace Settings

def default : Settings := ⟨.standard, 8, 16⟩

/-- The largest precision. -/
def maxPrecision : Nat := 15

/-- Sizes are numbers of 64 bits. -/
def sizeBound : Nat := UInt64.size

def validate (s : Settings) : Except SettingsError Settings :=
  if maxPrecision < s.precision then .error (.precisionTooLarge s.precision)
  else if s.displayWidth = 0 then .error .noWidth
  else .ok s

theorem validate_eq_ok_iff {s t : Settings} :
    s.validate = .ok t ↔ t = s ∧ s.precision ≤ maxPrecision ∧ s.displayWidth ≠ 0 := by
  unfold validate
  split
  · simp only [reduceCtorEq, false_iff]; omega
  · split
    · simp_all
    · simp_all [eq_comm]

/-- A mode is its name, or a table with that name alone and nothing under it. -/
def mode? : Toml.Value → Option Mode
  | .string name => Mode.ofName? (String.ofList name)
  | .table _ [(name, .array [])] | .table _ [(name, .table _ [])] =>
    Mode.ofName? (String.ofList name)
  | _ => none

def size? : Toml.Value → Option Nat
  | .integer n => if 0 ≤ n ∧ n < sizeBound then some n.toNat else none
  | _ => none

/-- One entry of a document. -/
def set? (s : Settings) (entry : Text × Toml.Value) : Option Settings :=
  if entry.1 = "mode".toList then return { s with mode := ← mode? entry.2 }
  else if entry.1 = "precision".toList then return { s with precision := ← size? entry.2 }
  else if entry.1 = "display_width".toList then return { s with displayWidth := ← size? entry.2 }
  else none

/-- The settings of a document, whatever their range. -/
def decode? (document : Text) : Option Settings := do
  (← Toml.parse? document).foldlM set? default

/-- The settings of a document. -/
def ofToml (document : Text) : Except SettingsError Settings :=
  match decode? document with
  | some s => s.validate
  | none => .error .malformed

end Settings

namespace SettingsError

/-- What is said of a setting out of range. -/
def message : SettingsError → String
  | malformed => "invalid configuration file"
  | precisionTooLarge p =>
    "invalid configuration value: precision " ++ p.repr ++ " is above " ++
      Settings.maxPrecision.repr
  | noWidth => "invalid configuration value: display width must be positive"

end SettingsError

end DeskCalculator
