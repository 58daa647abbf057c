import DeskCalculator.Proofs.Parsing

/-!
# Evaluation on a stack agrees with the tree

The postfix tokens of an expression, run on a stack from left to right, leave the value of its tree,
or stop at the argument that the evaluation of the tree rejects first, whatever the primitive
operations mean:

* `Token.run_append`, `Token.run_concat`: running tokens in two stretches;
* `Token.push_sign`, `Token.push_operator`, `Token.push_function`: a token after its operands;
* `Phrase.run_listing`: the tokens of a phrase put its value on top of any stack;
* `run_arrange`: the tokens of a text that is parsed.
-/

namespace DeskCalculator

variable {arithmetic : Arithmetic} {stack : List Double}

namespace Token

/-- The stack once an operand has been evaluated above it. -/
def stacked (stack : List Double) : Except DomainError Double → Except StackFault (List Double)
  | .ok value => .ok (value :: stack)
  | .error cause => .error (.domain cause)

theorem run_append (first second : List Token) (stack : List Double) :
    run arithmetic (first ++ second) stack =
      run arithmetic first stack >>= run arithmetic second :=
  List.foldlM_append

theorem run_concat (tokens : List Token) (token : Token) (stack : List Double) :
    run arithmetic (tokens ++ [token]) stack =
      run arithmetic tokens stack >>= fun s => push arithmetic s token := by
  rw [run_append]
  refine congrArg (_ >>= ·) (funext fun s => ?_)
  show (push arithmetic s token >>= pure) = push arithmetic s token
  exact bind_pure _

/-- A sign is applied to the operand before it; a plus sign leaves it. -/
theorem push_sign (s : Sign) (operand : Except DomainError Double) :
    (stacked stack operand >>= fun st => push arithmetic st (.sign s)) =
      stacked stack (operand >>= fun x => pure (s.apply arithmetic x)) := by
  cases operand with
  | error cause => rfl
  | ok x => cases s <;> rfl

/-- The right operand of an operator lies above the left one. -/
theorem push_operator (o : Operator) (left right : Except DomainError Double) :
    ((stacked stack left >>= fun st => stacked st right) >>= fun st =>
        push arithmetic st (.operator o)) =
      stacked stack (left >>= fun x => right >>= fun y => pure (o.apply arithmetic x y)) := by
  cases left with
  | error cause => rfl
  | ok x =>
    cases right with
    | error cause => rfl
    | ok y => cases o <;> rfl

/-- A function is applied to the operand before it, or rejects it. -/
theorem push_function (f : Function) (operand : Except DomainError Double) :
    (stacked stack operand >>= fun st => push arithmetic st (.function f)) =
      stacked stack (operand >>= f.apply arithmetic) := by
  cases operand with
  | error cause => rfl
  | ok x =>
    show push arithmetic (x :: stack) (.function f) = stacked stack (f.apply arithmetic x)
    rw [push]
    cases f.apply arithmetic x <;> rfl

end Token

/-- The tokens of a phrase put its value on top of any stack, or end in the first argument that is
rejected. -/
theorem Phrase.run_listing (p : Phrase) (stack : List Double) :
    Token.run arithmetic p.listing stack = Token.stacked stack (p.toExpr.eval arithmetic) := by
  induction p generalizing stack with
  | literal value => rfl
  | constant c => rfl
  | signed s p ih =>
    rw [listing, Token.run_concat, ih, Token.push_sign]
    cases s with
    | plus => exact congrArg (Token.stacked stack) (bind_pure _)
    | minus => rfl
  | binary o l r ihl ihr =>
    rw [listing, Token.run_concat, Token.run_append, ihl, funext ihr, Token.push_operator]
    rfl
  | call f p ih =>
    rw [listing, Token.run_concat, ih, Token.push_function]
    rfl

/-- The postfix tokens of a text that is parsed, and their run. -/
theorem run_arrange {text : Text} {e : Expr} (h : Expr.parse text = .ok e)
    (arithmetic : Arithmetic) :
    ∃ tokens, Token.arrange text = .ok tokens ∧
      Token.run arithmetic tokens [] = Token.stacked [] (e.eval arithmetic) := by
  obtain ⟨tokens, p, hreads, hp, -, rfl⟩ := derives_of_parse h
  exact ⟨p.listing, Token.arrange_eq_ok_iff.2 ⟨tokens, p, hreads, hp, rfl⟩, p.run_listing []⟩

/-- Whatever the primitive operations mean, the tree of a text has the value that its postfix tokens
leave alone on a stack, or the first argument that a function rejects there; and the outcome of the
text is that value if it is finite, or that fault. -/
theorem eval_eq_run {text : Text} {e : Expr} (h : Expr.parse text = .ok e)
    (arithmetic : Arithmetic) :
    ∃ tokens, Token.arrange text = .ok tokens ∧
      ((∃ value, e.eval arithmetic = .ok value ∧ Token.run arithmetic tokens [] = .ok [value] ∧
          evaluateWith arithmetic text =
            if value.isFinite then .ok value else .error .notFinite) ∨
        ∃ cause, e.eval arithmetic = .error cause ∧
          Token.run arithmetic tokens [] = .error (.domain cause) ∧
          evaluateWith arithmetic text = .error (.domain cause)) := by
  obtain ⟨tokens, harrange, hrun⟩ := run_arrange h arithmetic
  refine ⟨tokens, harrange, ?_⟩
  have hevaluate : evaluateWith arithmetic text = Outcome.ofValue (e.eval arithmetic) := by
    rw [evaluateWith, h]
  cases hvalue : e.eval arithmetic with
  | ok value =>
    rw [hvalue] at hrun hevaluate
    exact .inl ⟨value, rfl, hrun, hevaluate⟩
  | error cause =>
    rw [hvalue] at hrun hevaluate
    exact .inr ⟨cause, rfl, hrun, hevaluate⟩

/-- A difference and a power, run to their value; and a difference whose right operand, after a plus
sign, is the logarithm of zero. -/
theorem eval_eq_run_difference :
    let value : Double := .finite true ⟨0x3ff0000000000000, by decide⟩
    let number : (rank : Nat) → rank < infinityRank → Expr := fun rank h =>
      .literal (.finite false ⟨rank, h⟩)
    let difference : Expr := .binary .subtract (number 0x401c000000000000 (by decide))
      (.binary .power (number 0x4000000000000000 (by decide))
        (number 0x4008000000000000 (by decide)))
    let logarithm : Expr := .binary .subtract (number 0x4000000000000000 (by decide))
      (.call .ln (number 0 (by decide)))
    (Expr.parse ['7', '-', '2', '^', '3'] = .ok difference ∧
      ∃ tokens, Token.arrange ['7', '-', '2', '^', '3'] = .ok tokens ∧
        Token.run .ofLibrary tokens [] = .ok [value] ∧
        evaluateWith .ofLibrary ['7', '-', '2', '^', '3'] = .ok value) ∧
    (Expr.parse ['2', '-', '+', 'l', 'n', '(', '0', ')'] = .ok logarithm ∧
      ∃ tokens, Token.arrange ['2', '-', '+', 'l', 'n', '(', '0', ')'] = .ok tokens ∧
        Token.run .ofLibrary tokens [] = .error (.domain ⟨.ln, .zero false⟩)) := by
  intro value number difference logarithm
  have hdifference : Expr.parse ['7', '-', '2', '^', '3'] = .ok difference := by decide +kernel
  have hlogarithm : Expr.parse ['2', '-', '+', 'l', 'n', '(', '0', ')'] = .ok logarithm := by
    decide +kernel
  refine ⟨⟨hdifference, ?_⟩, hlogarithm, ?_⟩
  · have hvalue : difference.eval .ofLibrary = .ok value := by decide +kernel
    obtain ⟨tokens, harrange, ⟨v, hv, hrun, hevaluate⟩ | ⟨cause, hcause, -⟩⟩ :=
      eval_eq_run hdifference .ofLibrary
    · obtain rfl := Except.ok.inj (hvalue.symm.trans hv)
      exact ⟨tokens, harrange, hrun, hevaluate⟩
    · cases hvalue.symm.trans hcause
  · obtain ⟨tokens, harrange, ⟨v, hv, -⟩ | ⟨cause, hcause, hrun, -⟩⟩ :=
      eval_eq_run hlogarithm .ofLibrary
    · cases hv
    · cases hcause
      exact ⟨tokens, harrange, hrun⟩

end DeskCalculator
