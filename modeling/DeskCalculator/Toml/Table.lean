import DeskCalculator.Text

/-!
# TOML tables

The values of a TOML document, and how a document adds to its tables. A table remembers how it came
to be, because that decides what may still be added to it and under which kind of key.

* `Entries.insert`: a value under a dotted key;
* `Entries.openTable`: the table of a header;
* `Entries.within`: a change to the table that a header opened.

Each of them has no result where TOML forbids the addition: a key is defined once, and tables that
are written out are closed.
-/

namespace DeskCalculator.Toml

/-- How a table came to be. -/
inductive Origin where
  /-- By the header of a table inside it. -/
  | implied
  /-- By its own header. -/
  | header
  /-- By a dotted key. -/
  | dotted
  /-- Written out as a value. -/
  | inline
deriving DecidableEq

/-- A value of one of the types that settings have. -/
inductive Value where
  | string (text : Text)
  | integer (n : Int)
  | array (items : List Value)
  | table (origin : Origin) (entries : List (Text × Value))

/-- The entries of a table in the order of their definition. -/
abbrev Entries := List (Text × Value)

namespace Entries

/-- The value of a key is replaced, or added at the end. -/
def put (entries : Entries) (key : Text) (value : Value) : Entries :=
  if (entries.lookup key).isSome then
    entries.map fun entry => if entry.1 = key then (key, value) else entry
  else entries ++ [(key, value)]

/-- A new value under a dotted key. The tables on the way are new or made by dotted keys. -/
def insert (value : Value) : (path : List Text) → Entries → Option Entries
  | [], _ => none
  | [key], entries => if (entries.lookup key).isSome then none else some (entries.put key value)
  | key :: path, entries =>
    match entries.lookup key with
    | none => return entries.put key (.table .dotted (← insert value path []))
    | some (.table .dotted inner) =>
      return entries.put key (.table .dotted (← insert value path inner))
    | some _ => none

/-- The table of a header, which no header, dotted key or value has defined before. -/
def openTable : (path : List Text) → Entries → Option Entries
  | [], _ => none
  | [key], entries =>
    match entries.lookup key with
    | none => some (entries.put key (.table .header []))
    | some (.table .implied inner) => some (entries.put key (.table .header inner))
    | some _ => none
  | key :: path, entries =>
    match entries.lookup key with
    | none => return entries.put key (.table .implied (← openTable path []))
    | some (.table .inline _) => none
    | some (.table origin inner) =>
      return entries.put key (.table origin (← openTable path inner))
    | some _ => none

/-- A change to the table at a path. -/
def within (change : Entries → Option Entries) : (path : List Text) → Entries → Option Entries
  | [], entries => change entries
  | key :: path, entries =>
    match entries.lookup key with
    | some (.table origin inner) =>
      return entries.put key (.table origin (← within change path inner))
    | _ => none

end Entries

end DeskCalculator.Toml
