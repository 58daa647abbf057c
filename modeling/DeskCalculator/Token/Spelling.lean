import DeskCalculator.Token.Scan

/-!
# How tokens are spelled

Which texts spell a token, and which spell a sequence of tokens, said without the scanner: lexemes
stand one after the other with blanks between them, and none could be longer.

* `operatorCharacters`, `functionNames`, `constantNames`, `whiteSpace`: the characters and names of
  the language, listed; `operator_ofChar?_iff`, `function_ofName?_iff`, `constant_ofName?_iff` and
  `isBlank_iff_mem` say that the tables of the scanner are these lists;
* `Spells text token`: the text is a lexeme of the token;
* `Reads text tokens`: the text, blanks skipped, is a sequence of longest lexemes of the tokens.
-/

namespace DeskCalculator.Token

/-! ## Characters and names -/

/-- The characters of the operators: six of a keyboard, and the glyphs for minus, times and
divide. -/
def operatorCharacters : List (Char × Operator) :=
  [('+', .add), ('-', .subtract), ('*', .multiply), ('/', .divide), ('%', .remainder),
    ('^', .power), ('−', .subtract), ('×', .multiply), ('÷', .divide)]

def functionNames : List (Text × Function) :=
  [(['s', 'i', 'n'], .sin), (['c', 'o', 's'], .cos), (['t', 'a', 'n'], .tan),
    (['l', 'o', 'g'], .log), (['l', 'n'], .ln), (['s', 'q', 'r', 't'], .sqrt)]

def constantNames : List (Text × Constant) := [(['π'], .pi), (['p', 'i'], .pi), (['e'], .e)]

/-- The characters with the Unicode property White_Space. -/
def whiteSpace : Text :=
  ['\u0009', '\u000a', '\u000b', '\u000c', '\u000d', '\u0020', '\u0085', '\u00a0', '\u1680',
    '\u2000', '\u2001', '\u2002', '\u2003', '\u2004', '\u2005', '\u2006', '\u2007', '\u2008',
    '\u2009', '\u200a', '\u2028', '\u2029', '\u202f', '\u205f', '\u3000']

theorem operator_ofChar?_iff {c : Char} {o : Operator} :
    Operator.ofChar? c = some o ↔ (c, o) ∈ operatorCharacters := by
  constructor
  · intro h
    unfold Operator.ofChar? at h
    split at h <;> cases h <;> decide
  · have hall : ∀ pair ∈ operatorCharacters, Operator.ofChar? pair.1 = some pair.2 :=
      forall_mem_of_all (by decide)
    exact hall (c, o)

theorem mem_functionNames {name : Text} {f : Function} :
    (name, f) ∈ functionNames ↔ name = f.name := by
  cases f <;> simp [functionNames, Function.name]

theorem function_ofName?_iff {name : Text} {f : Function} :
    Function.ofName? name = some f ↔ (name, f) ∈ functionNames := by
  rw [mem_functionNames]
  constructor
  · intro h
    have hname : f.name = name := by simpa using List.find?_some h
    exact hname.symm
  · rintro rfl
    exact Function.ofName?_name f

theorem mem_constantNames {name : Text} {c : Constant} :
    (name, c) ∈ constantNames ↔ name = [c.symbol] ∨ (name = ['p', 'i'] ∧ c = .pi) := by
  cases c <;> simp [constantNames, Constant.symbol]

theorem constant_ofName?_iff {name : Text} {c : Constant} :
    Constant.ofName? name = some c ↔ (name, c) ∈ constantNames := by
  constructor
  · intro h
    unfold Constant.ofName? at h
    split at h <;> cases h <;> decide
  · have hall : ∀ pair ∈ constantNames, Constant.ofName? pair.1 = some pair.2 :=
      forall_mem_of_all (by decide)
    exact hall (name, c)

/-- A range of code points, from a listing of its characters. -/
theorem mem_of_range {text : Text} (first width : Nat)
    (hall : ∀ i < width, Char.ofNat (first + i) ∈ text) {c : Char} (h : first ≤ c.toNat)
    (h' : c.toNat < first + width) : c ∈ text := by
  have hc := hall (c.toNat - first) (by omega)
  rwa [show first + (c.toNat - first) = c.toNat by omega, Char.ofNat_toNat] at hc

theorem isBlank_iff_mem {c : Char} : isBlank c = true ↔ c ∈ whiteSpace := by
  constructor
  · simp only [isBlank, Bool.or_eq_true, Bool.and_eq_true, decide_eq_true_eq,
      List.contains_iff_mem, Char.le_def]
    rintro ((⟨h, h'⟩ | ⟨h, h'⟩) | h)
    · exact mem_of_range 0x0009 5 (by decide) h (Nat.lt_succ_of_le h')
    · exact mem_of_range 0x2000 11 (by decide) h (Nat.lt_succ_of_le h')
    · have hall : ∀ d ∈ loneBlanks, d ∈ whiteSpace := forall_mem_of_all (by decide)
      exact hall c h
  · have hall : ∀ d ∈ whiteSpace, isBlank d = true := forall_mem_of_all (by decide)
    exact hall c

/-! ## Lexemes -/

/-- A number literal: digits and points, at least one digit and at most one point. -/
def IsLiteral (literal : Text) : Prop :=
  (∀ c ∈ literal, c = '.' ∨ c.isDigit = true) ∧ (∃ c ∈ literal, c.isDigit = true) ∧
    literal.count '.' ≤ 1

/-- The decimal of a literal: its digits, and how many follow the point. -/
def literalDecimal (literal : Text) : Decimal :=
  ⟨Nat.ofDigitChars 10 (literal.filter Char.isDigit) 0, (literal.dropWhile (· ≠ '.')).tail.length⟩

/-- The lexemes of each token. -/
inductive Spells : Text → Token → Prop where
  | number {literal} : IsLiteral literal →
      Spells literal (.number ((literalDecimal literal).nearest false))
  | function {name f} : (name, f) ∈ functionNames → Spells name (.function f)
  | constant {name c} : (name, c) ∈ constantNames → Spells name (.constant c)
  | operator {c o} : (c, o) ∈ operatorCharacters → Spells [c] (.operator o)
  | opening : Spells ['('] .opening
  | closing : Spells [')'] .closing

theorem Spells.name (f : Function) : Spells f.name (.function f) :=
  .function (mem_functionNames.2 rfl)

theorem Spells.symbol (c : Constant) : Spells [c.symbol] (.constant c) :=
  .constant (mem_constantNames.2 (.inl rfl))

/-! ## Longest lexemes -/

/-- Characters that run together into one lexeme. -/
def RunTogether (c d : Char) : Prop :=
  ((c = '.' ∨ c.isDigit = true) ∧ (d = '.' ∨ d.isDigit = true)) ∨
    (c.isAlpha = true ∧ d.isAlpha = true)

/-- The text after a lexeme does not prolong it. -/
def Ends (lexeme rest : Text) : Prop :=
  ∀ c ∈ lexeme.getLast?, ∀ d ∈ rest.head?, ¬ RunTogether c d

/-- The tokens of a text by longest lexemes. -/
inductive Reads : Text → List Token → Prop where
  | nil : Reads [] []
  | blank {c text tokens} : c ∈ whiteSpace → Reads text tokens → Reads (c :: text) tokens
  | lexeme {lexeme rest token tokens} : Spells lexeme token → Ends lexeme rest →
      Reads rest tokens → Reads (lexeme ++ rest) (token :: tokens)

end DeskCalculator.Token
