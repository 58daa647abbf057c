import DeskCalculator.Toml.Lexeme
import DeskCalculator.Toml.Table

/-!
# TOML documents

A document is a sequence of lines, each a key with its value or the header of a table. Settings are
strings, integers, arrays and tables; a document with a value of another type, or with an array
of tables, has no place for it among the settings and is refused like one with a fault.
-/

namespace DeskCalculator.Toml

/-- The equals sign between a key and its value, with what `skip` allows around it: only spaces
on a line, and line ends and comments as well inside braces. -/
def skipEquals? (skip : Text → Option Text) (text : Text) : Option Text := do
  match ← skip text with
  | '=' :: rest => skip rest
  | _ => none

/-- The items of an array after its opening bracket, at most `fuel`. -/
def items? (value? : Reader Value) : (fuel : Nat) → Reader (List Value)
  | 0, _ => none
  | fuel + 1, text => do
    match ← skipTrivia? false text with
    | ']' :: rest => return ([], rest)
    | text =>
      let (item, rest) ← value? text
      match ← skipTrivia? false rest with
      | ']' :: rest => return ([item], rest)
      | ',' :: rest =>
        let (items, rest) ← items? value? fuel rest
        return (item :: items, rest)
      | _ => none

/-- The fields of a table after its opening brace and the entries before them, at most `fuel`. -/
def fields? (value? : Reader Value) : (fuel : Nat) → Entries → Reader Entries
  | 0, _, _ => none
  | fuel + 1, entries, text => do
    match ← skipTrivia? false text with
    | '\x7d' :: rest => return (entries, rest)
    | text =>
      let (path, rest) ← key? text
      let (value, rest) ← value? (← skipEquals? (skipTrivia? false) rest)
      let entries ← entries.insert value path
      match ← skipTrivia? false rest with
      | '\x7d' :: rest => return (entries, rest)
      | ',' :: rest => fields? value? fuel entries rest
      | _ => none

/-- A value, nested at most `depth` deep. -/
def value? : (depth : Nat) → Reader Value
  | 0, _ => none
  | depth + 1, text =>
    match text with
    | '[' :: rest => (items? (value? depth) (rest.length + 1) rest).map fun (items, rest) =>
      (.array items, rest)
    | '\x7b' :: rest => (fields? (value? depth) (rest.length + 1) [] rest).map fun (fields, rest) =>
      (.table .inline fields, rest)
    | c :: _ =>
      if c = '"' ∨ c = '\'' then (string? text).map fun (s, rest) => (.string s, rest)
      else
        (integer? (text.takeWhile isWordChar)).map fun n =>
          (.integer n, text.dropWhile isWordChar)
    | [] => none

/-- A document so far: the table that lines add to, and all entries. -/
structure Document where
  path : List Text
  entries : Entries

/-- The path of a table header after its opening bracket. -/
def header? : Reader (List Text) := fun text => do
  let (path, rest) ← key? (skipSpace text)
  match skipSpace rest with
  | ']' :: rest => return (path, rest)
  | _ => none

/-- One line of a document, and the text after what it says. -/
def Document.line? (d : Document) : Reader Document
  | '[' :: rest => do
    let (path, rest) ← header? rest
    return (⟨path, ← d.entries.openTable path⟩, rest)
  | text => do
    let (path, rest) ← key? text
    let (value, rest) ← value? (text.length + 1) (← skipEquals? (some ∘ skipSpace) rest)
    return ({ d with entries := ← d.entries.within (·.insert value path) d.path }, rest)

/-- The text ends, or the line does: nothing but a comment follows. -/
def atLineEnd : Text → Bool
  | [] => true
  | c :: _ => c = '\n' || c = '#'

/-- The lines of a document, at most `fuel`, added to the ones before them. -/
def Document.read? : (fuel : Nat) → Document → Text → Option Entries
  | 0, _, _ => none
  | fuel + 1, d, text => do
    match ← skipTrivia? false text with
    | [] => return d.entries
    | text =>
      let (d, rest) ← d.line? text
      if atLineEnd (skipSpace rest) then read? fuel d rest else none

/-- The entries of a document. A byte order mark may stand before it. -/
def parse? (text : Text) : Option Entries := do
  let text ← unixLines? (if text.head? = some '\ufeff' then text.tail else text)
  Document.read? (text.length + 1) ⟨[], []⟩ text

end DeskCalculator.Toml
