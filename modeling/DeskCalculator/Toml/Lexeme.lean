import DeskCalculator.Text

/-!
# TOML lexemes

Strings, integers, keys and what may stand between them. Each reader takes the text at hand and
gives what it has read and the text that is left, or nothing if the text does not begin that way.
Lines end with a line feed here; `unixLines?` brings a text into that form.
-/

namespace DeskCalculator.Toml

/-- A reader of something at the beginning of a text. -/
abbrev Reader (α : Type) := Text → Option (α × Text)

/-- Carriage returns belong to the end of a line, and are dropped there. -/
def unixLines? : Text → Option Text
  | [] => some []
  | '\r' :: '\n' :: rest => (unixLines? rest).map ('\n' :: ·)
  | '\r' :: _ => none
  | c :: rest => (unixLines? rest).map (c :: ·)

def isSpace (c : Char) : Bool := c = ' ' || c = '\t'

def skipSpace (text : Text) : Text := text.dropWhile isSpace

/-- A character of a comment or of a string on one line: no control character but the tab. -/
def isPlain (c : Char) : Bool := c = '\t' || (' ' ≤ c && c ≠ '\x7f')

/-- Spaces, line ends and comments are skipped; `inComment` is true inside a comment. -/
def skipTrivia? (inComment : Bool) : Text → Option Text
  | [] => some []
  | c :: rest =>
    if c = '\n' then skipTrivia? false rest
    else if inComment then
      if isPlain c then skipTrivia? true rest else none
    else if isSpace c then skipTrivia? false rest
    else if c = '#' then skipTrivia? true rest
    else some (c :: rest)

/-! ## Integers -/

def digitValue? (c : Char) : Option Nat :=
  if c.isDigit then some (c.toNat - '0'.toNat)
  else if 'a' ≤ c ∧ c ≤ 'f' then some (c.toNat - 'a'.toNat + 10)
  else if 'A' ≤ c ∧ c ≤ 'F' then some (c.toNat - 'A'.toNat + 10)
  else none

/-- One more digit in base `base`. -/
def pushDigit? (base n : Nat) (c : Char) : Option Nat :=
  match digitValue? c with
  | some d => if d < base then some (base * n + d) else none
  | none => none

/-- Digits in base `base`, with single underscores between them. -/
def digits? (base : Nat) (text : Text) : Option Nat :=
  if [] ∈ text.splitOnP (· = '_') then none
  else (text.filter (· ≠ '_')).foldlM (pushDigit? base) 0

/-- Decimal digits without a leading zero. -/
def decimal? : Text → Option Nat
  | ['0'] => some 0
  | '0' :: _ => none
  | text => digits? 10 text

/-- A whole word as an integer. -/
def integer? : Text → Option Int
  | '+' :: text => (decimal? text).map Int.ofNat
  | '-' :: text => (decimal? text).map fun n => -Int.ofNat n
  | '0' :: 'x' :: text => (digits? 16 text).map Int.ofNat
  | '0' :: 'o' :: text => (digits? 8 text).map Int.ofNat
  | '0' :: 'b' :: text => (digits? 2 text).map Int.ofNat
  | text => (decimal? text).map Int.ofNat

/-- A character of an unquoted value. -/
def isWordChar (c : Char) : Bool := c.isAlphanum || ['_', '+', '-', '.', ':'].contains c

/-! ## Strings -/

/-- The character with a code point in hexadecimal digits. -/
def scalar? (digits : Text) : Option Char :=
  match digits.foldlM (pushDigit? 16) 0 with
  | some n => if h : n.isValidChar then some (Char.ofNatAux n h) else none
  | none => none

/-- The character that an escape stands for; `text` follows the backslash. -/
def escape? : Reader Char
  | 'b' :: rest => some ('\x08', rest)
  | 't' :: rest => some ('\t', rest)
  | 'n' :: rest => some ('\n', rest)
  | 'f' :: rest => some ('\x0c', rest)
  | 'r' :: rest => some ('\r', rest)
  | 'e' :: rest => some ('\x1b', rest)
  | '"' :: rest => some ('"', rest)
  | '\\' :: rest => some ('\\', rest)
  | 'x' :: a :: b :: rest => (scalar? [a, b]).map (·, rest)
  | 'u' :: a :: b :: c :: d :: rest => (scalar? [a, b, c, d]).map (·, rest)
  | 'U' :: a :: b :: c :: d :: e :: f :: g :: h :: rest =>
    (scalar? [a, b, c, d, e, f, g, h]).map (·, rest)
  | _ => none

/-- The rest of a literal string on one line. -/
def literal? : Reader Text
  | [] => none
  | '\'' :: rest => some ([], rest)
  | c :: rest => if isPlain c then (literal? rest).map fun (s, rest) => (c :: s, rest) else none

/-- The rest of a basic string on one line, of at most `fuel` characters. -/
def basic? : (fuel : Nat) → Reader Text
  | 0, _ => none
  | _, [] => none
  | _ + 1, '"' :: rest => some ([], rest)
  | fuel + 1, '\\' :: rest => do
    let (c, rest) ← escape? rest
    let (s, rest) ← basic? fuel rest
    return (c :: s, rest)
  | fuel + 1, c :: rest =>
    if isPlain c then (basic? fuel rest).map fun (s, rest) => (c :: s, rest) else none

/-- The rest of a string over several lines, of at most `fuel` characters. Three quotes end it, and
up to two more before them belong to it. A backslash at the end of a line joins the lines. -/
def multiline? (quote : Char) : (fuel : Nat) → Reader Text
  | 0, _ => none
  | fuel + 1, text =>
    let quotes := text.takeWhile (· = quote)
    if 3 ≤ quotes.length then some ((quotes.drop 3).take 2, text.drop (min quotes.length 5))
    else
      match text with
      | [] => none
      | c :: rest =>
        if c = '\\' ∧ quote = '"' then
          match skipSpace rest with
          | '\n' :: more =>
            multiline? quote fuel (more.dropWhile fun c => isSpace c || c = '\n')
          | _ => do
            let (c, rest) ← escape? rest
            let (s, rest) ← multiline? quote fuel rest
            return (c :: s, rest)
        else if isPlain c || c = '\n' then
          (multiline? quote fuel rest).map fun (s, rest) => (c :: s, rest)
        else none

/-- A string over several lines after its opening quotes. A line end at its beginning does not
count. -/
def block? (quote : Char) : Reader Text
  | '\n' :: rest => multiline? quote (rest.length + 1) rest
  | rest => multiline? quote (rest.length + 1) rest

/-- A string of any kind. -/
def string? : Reader Text
  | '"' :: '"' :: '"' :: rest => block? '"' rest
  | '\'' :: '\'' :: '\'' :: rest => block? '\'' rest
  | '"' :: rest => basic? (rest.length + 1) rest
  | '\'' :: rest => literal? rest
  | _ => none

/-! ## Keys -/

/-- A character of a key without quotes. -/
def isBareKeyChar (c : Char) : Bool := c.isAlphanum || c = '_' || c = '-'

/-- A key without points. -/
def simpleKey? : Reader Text
  | '"' :: rest => basic? (rest.length + 1) rest
  | '\'' :: rest => literal? rest
  | text =>
    if text.takeWhile isBareKeyChar = [] then none
    else some (text.takeWhile isBareKeyChar, text.dropWhile isBareKeyChar)

/-- Keys joined by points, at most `fuel`. -/
def dottedKey? : (fuel : Nat) → Reader (List Text)
  | 0, _ => none
  | fuel + 1, text => do
    let (key, rest) ← simpleKey? text
    match skipSpace rest with
    | '.' :: rest =>
      let (keys, rest) ← dottedKey? fuel (skipSpace rest)
      return (key :: keys, rest)
    | rest => return ([key], rest)

/-- A key. -/
def key? : Reader (List Text) := fun text => dottedKey? text.length text

end DeskCalculator.Toml
