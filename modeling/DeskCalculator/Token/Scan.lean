import DeskCalculator.Token.Basic

/-!
# Splitting text into tokens

Blanks are skipped; a run of digits and points is a number, a run of letters a name, and every other
token is a single character. Scanning goes from left to right and stops at the first fault, so a
text gives the tokens before that fault, and the fault if there is one.

* `lexeme_suffix`: what follows a lexeme ends the text after its first character;
* `scan_blank`, `scan_cons`, `scan_fault`: scanning one blank, one lexeme, and one that is faulty.
-/

namespace DeskCalculator.Token

/-- A character of a number. -/
def isNumberPart (c : Char) : Bool := c = '.' || c.isDigit

theorem isNumberPart_eq_true_iff {c : Char} :
    isNumberPart c = true ↔ c = '.' ∨ c.isDigit = true := by
  rw [isNumberPart, Bool.or_eq_true, decide_eq_true_eq]

/-- A run of digits and points as a token. -/
def ofNumber (literal : Text) : Except SyntaxError Token :=
  match Decimal.ofText? literal with
  | some d => .ok (.number (d.nearest false))
  | none => .error (.invalidNumber literal)

/-- A run of letters as a token. -/
def ofName (name : Text) : Except SyntaxError Token :=
  match Function.ofName? name with
  | some f => .ok (.function f)
  | none =>
    match Constant.ofName? name with
    | some c => .ok (.constant c)
    | none => .error (.unknownName name)

/-- A single character as a token. -/
def ofSymbol (c : Char) : Except SyntaxError Token :=
  match Operator.ofChar? c with
  | some o => .ok (.operator o)
  | none =>
    if c = 'π' then .ok (.constant .pi)
    else if c = '(' then .ok .opening
    else if c = ')' then .ok .closing
    else .error (.unexpectedCharacter c)

/-- The lexeme that starts with the character `c`, and the text after it. -/
def lexeme (c : Char) (rest : Text) : Except SyntaxError Token × Text :=
  if isNumberPart c then
    (ofNumber (c :: rest.takeWhile isNumberPart), rest.dropWhile isNumberPart)
  else if c.isAlpha then
    (ofName (c :: rest.takeWhile Char.isAlpha), rest.dropWhile Char.isAlpha)
  else (ofSymbol c, rest)

theorem lexeme_suffix (c : Char) (rest : Text) : (lexeme c rest).2 <:+ rest := by
  unfold lexeme
  split
  · exact List.dropWhile_suffix _
  · split
    · exact List.dropWhile_suffix _
    · exact List.suffix_rfl

theorem length_lexeme_le (c : Char) (rest : Text) : (lexeme c rest).2.length ≤ rest.length :=
  (lexeme_suffix c rest).length_le

/-- The tokens of a text up to its first fault. -/
structure Scanned where
  tokens : List Token
  fault : Option SyntaxError

/-- The tokens of a text from left to right. -/
def scan : Text → Scanned
  | [] => ⟨[], none⟩
  | c :: rest =>
    if isBlank c then scan rest
    else
      match (lexeme c rest).1 with
      | .error fault => ⟨[], some fault⟩
      | .ok token =>
        let scanned := scan (lexeme c rest).2
        ⟨token :: scanned.tokens, scanned.fault⟩
termination_by text => text.length
decreasing_by
  · simp
  · have := length_lexeme_le c rest; simp; omega

@[simp] theorem scan_nil : scan [] = ⟨[], none⟩ := by rw [scan]

theorem scan_blank {c : Char} (h : isBlank c = true) (rest : Text) :
    scan (c :: rest) = scan rest := by
  rw [scan, if_pos h]

theorem scan_cons {c : Char} {rest remaining : Text} {token : Token} (hb : isBlank c = false)
    (h : lexeme c rest = (.ok token, remaining)) :
    scan (c :: rest) = ⟨token :: (scan remaining).tokens, (scan remaining).fault⟩ := by
  rw [scan]; simp [hb, h]

theorem scan_fault {c : Char} {rest : Text} {fault : SyntaxError} (hb : isBlank c = false)
    (h : (lexeme c rest).1 = .error fault) : scan (c :: rest) = ⟨[], some fault⟩ := by
  rw [scan]; simp [hb, h]

end DeskCalculator.Token
