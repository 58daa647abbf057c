import DeskCalculator.Token.Scan

/-!
# Postfix order

Tokens as they are written are rearranged so that every operator, sign and function follows its
operands. One pass does it: operands go out at once; operators, signs and groups wait on a stack
until what follows them decides.

* `Arranger.step` takes one token, `Arranger.finish` the end of the text;
* `Token.arrange` arranges a text: of several faults the leftmost is reported.
-/

namespace DeskCalculator

/-- What the next token has to be. -/
inductive Expected where
  /-- The beginning of an operand. -/
  | operand
  /-- A binary operator, or the end of a group or of the text. -/
  | operator
  /-- The opening parenthesis of a function's argument. -/
  | argument (function : Function)
deriving DecidableEq

/-- A rearrangement under way: the tokens already in postfix order, the last one first, the tokens
that wait, the most recent first, and what comes next. -/
structure Arranger where
  output : List Token
  waiting : List Token
  expected : Expected
deriving DecidableEq

namespace Token

/-- A waiting token that is applied before a binary operator that follows. Signs always are. -/
def isAppliedBefore (o : Operator) : Token → Bool
  | operator earlier =>
    if o.isRightAssociative then o.precedence < earlier.precedence
    else o.precedence ≤ earlier.precedence
  | sign _ => true
  | _ => false

/-- Operators and signs, which go out when their group ends. -/
def isApplied : Token → Bool
  | operator _ | sign _ => true
  | _ => false

end Token

namespace Arranger

def start : Arranger := ⟨[], [], .operand⟩

/-- The waiting tokens of `waiting` that go out, put after `output`; both the last one first. -/
def release (released output : List Token) : List Token := released.reverse ++ output

/-- A number or a constant. -/
def operand (a : Arranger) (token : Token) : Except SyntaxError Arranger :=
  if a.expected = .operand then .ok { a with output := token :: a.output, expected := .operator }
  else .error (.missingOperatorBefore token)

/-- A function name. -/
def call (a : Arranger) (f : Function) : Except SyntaxError Arranger :=
  if a.expected = .operand then .ok { a with expected := .argument f }
  else .error (.missingOperatorBefore (.function f))

/-- An opening parenthesis where an operand is due. -/
def openGroup (a : Arranger) : Except SyntaxError Arranger :=
  if a.expected = .operand then .ok { a with waiting := .opening :: a.waiting }
  else .error (.missingOperatorBefore .opening)

/-- A plus or minus where an operand is due is a sign; elsewhere an operator first applies those
that bind at least as strongly. -/
def operator (a : Arranger) (o : Operator) : Except SyntaxError Arranger :=
  if a.expected = .operand then
    match o.sign? with
    | some s => .ok { a with waiting := .sign s :: a.waiting }
    | none => .error (.missingOperandBefore (.operator o))
  else
    .ok {
      output := release (a.waiting.takeWhile (Token.isAppliedBefore o)) a.output
      waiting := .operator o :: a.waiting.dropWhile (Token.isAppliedBefore o)
      expected := .operand }

/-- A closing parenthesis ends the innermost group and applies the function before it, if any. -/
def closeGroup (a : Arranger) : Except SyntaxError Arranger :=
  if a.expected = .operand then .error (.missingOperandBefore .closing)
  else
    let output := release (a.waiting.takeWhile Token.isApplied) a.output
    match a.waiting.dropWhile Token.isApplied with
    | .opening :: .function f :: waiting => .ok { a with output := .function f :: output, waiting }
    | .opening :: waiting => .ok { a with output, waiting }
    | token :: _ => .error (.strayInGroup token)
    | [] => .error .mismatchedParenthesis

/-- The state after one more token. A sign is no token of a text and is taken as its operator. -/
def step (a : Arranger) (token : Token) : Except SyntaxError Arranger :=
  match a.expected with
  | .argument f =>
    if token = .opening then
      .ok { a with waiting := .opening :: .function f :: a.waiting, expected := .operand }
    else .error (.missingParenthesis f)
  | _ =>
    match token with
    | .number _ | .constant _ => a.operand token
    | .function f => a.call f
    | .operator o => a.operator o
    | .sign .plus => a.operator .add
    | .sign .minus => a.operator .subtract
    | .opening => a.openGroup
    | .closing => a.closeGroup

/-- The tokens in postfix order once the text has ended. -/
def finish (a : Arranger) : Except SyntaxError (List Token) :=
  match a.expected with
  | .argument f => .error (.missingParenthesis f)
  | .operand => .error .unexpectedEnd
  | .operator =>
    if a.waiting.all Token.isApplied then .ok (release a.waiting a.output).reverse
    else .error .mismatchedParenthesis

end Arranger

namespace Token

/-- The tokens of a text in postfix order. -/
def arrange (text : Text) : Except SyntaxError (List Token) := do
  let scanned := scan text
  let arranged ← scanned.tokens.foldlM Arranger.step Arranger.start
  match scanned.fault with
  | some fault => .error fault
  | none => arranged.finish

end Token

end DeskCalculator
