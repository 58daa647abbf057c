import DeskCalculator.Calculator
import DeskCalculator.Proofs.Parsing
import DeskCalculator.Proofs.Shown

/-!
# Evaluating a shown result

The text of a result is itself an expression, and what it evaluates to is shown as the same text:

* `evaluate_literal`: a literal is evaluated to the double nearest to its decimal;
* `evaluate_numeral`: the digits of a decimal, with or without a minus sign, are evaluated to the
  nearest double;
* `evaluate_display`: a shown number is evaluated to a number that is shown alike;
* `evaluate_errorMarker_append`: the error marker is no expression, whatever follows it;
* `evaluate_evaluate`: a second evaluation leaves the calculator as the first left it.
-/

namespace DeskCalculator

/-- A literal alone is its token. -/
theorem reads_literal (d : Decimal) :
    Token.Reads d.text [.number (d.nearest false)] := by
  obtain ⟨hl, hd⟩ := d.isLiteral_text
  have h := (Token.Spells.number hl).reads
  rwa [hd] at h

theorem derives_number (x : Double) : Derives .unary [.number x] (.literal x) :=
  .unaryOfAtom (.number x)

theorem Derives.sumOfUnary {tokens : List Token} {p : Phrase} (h : Derives .unary tokens p) :
    Derives .sum tokens p :=
  .sumOfProduct (.productOfPower (.powerOfUnary h))

/-- The letters after the error marker belong to one name with it, and no name begins so. -/
theorem ofName_errorMarker (letters : Text) :
    Token.ofName (Outcome.errorMarker ++ letters) =
      .error (.unknownName (Outcome.errorMarker ++ letters)) := by
  have hfunction : Function.ofName? (Outcome.errorMarker ++ letters) = none := by
    refine List.find?_eq_none.2 fun f _ => ?_
    cases f <;> simp [Function.name, Outcome.errorMarker]
  have hconstant : Constant.ofName? (Outcome.errorMarker ++ letters) = none := rfl
  rw [Token.ofName, hfunction, hconstant]

theorem finite_of_ofValue {value : Except DomainError Double} {v : Double}
    (h : Outcome.ofValue value = .ok v) : ∃ negative m, v = .finite negative m := by
  unfold Outcome.ofValue at h
  split at h
  · cases h
  · next x =>
    match x with
    | .nan | .infinite _ => cases h
    | .finite negative m => exact ⟨negative, m, (Except.ok.inj h).symm⟩

theorem Decimal.text_ne_nil (d : Decimal) : d.text ≠ [] := d.isLiteral_text.1.ne_nil

theorem withSign_ne_nil {negative : Bool} {text : Text} (h : text ≠ []) :
    withSign negative text ≠ [] := by
  unfold withSign
  split
  · exact List.cons_ne_nil _ _
  · exact h

theorem Outcome.display_ne_nil (o : Outcome) (precision : Nat) : o.display precision ≠ [] := by
  match o with
  | .error _ => exact List.cons_ne_nil _ _
  | .ok .nan => exact List.cons_ne_nil _ _
  | .ok (.infinite _) => exact withSign_ne_nil (List.cons_ne_nil _ _)
  | .ok (.finite _ _) => exact withSign_ne_nil (Decimal.text_ne_nil _)

/-! ## Evaluations -/

variable [MathLibrary]

theorem evaluate_of_derives {text : Text} {tokens : List Token} {p : Phrase}
    (hreads : Token.Reads text tokens) (hp : Derives .sum tokens p) (hh : p.height ≤ maxDepth) :
    evaluate text = Outcome.ofValue (p.toExpr.eval .ofLibrary) := by
  rw [evaluate, evaluateWith, parse_of_derives hreads hp, if_neg (Nat.not_lt.2 hh)]

/-- A literal is evaluated to the double nearest to its decimal. -/
theorem evaluate_literal {literal : Text} (h : Token.IsLiteral literal) :
    evaluate literal = Outcome.ofValue (.ok ((Token.literalDecimal literal).nearest false)) := by
  rw [evaluate_of_derives (Token.Spells.number h).reads (derives_number _).sumOfUnary
    (show 1 ≤ maxDepth by decide)]
  rfl

/-- The digits of a decimal, with or without a minus sign, are evaluated to the nearest double. -/
theorem evaluate_numeral {d : Decimal} {w : Magnitude}
    (hw : d.nearest false = .finite false w) (negative : Bool) :
    evaluate (withSign negative d.text) = .ok (.finite negative w) := by
  cases negative with
  | false =>
    obtain ⟨hl, hd⟩ := d.isLiteral_text
    rw [withSign, if_neg (by decide), evaluate_literal hl, hd, hw]
    rfl
  | true =>
    have hreads := reads_literal d
    rw [hw] at hreads
    have hderives := Derives.signed (.inr ⟨rfl, rfl⟩) (derives_number (.finite false w))
    have hminus : Token.Reads ('-' :: d.text) (.operator .subtract :: [.number (.finite false w)]) :=
      .operator (by decide) hreads
    rw [withSign, if_pos rfl, evaluate_of_derives hminus hderives.sumOfUnary
      (show 2 ≤ maxDepth by decide)]
    rfl

/-- A shown number is evaluated to a number that is shown alike; a whole number is kept. -/
theorem evaluate_display (negative : Bool) (m : Magnitude) (precision : Nat) :
    ∃ w, evaluate ((Double.finite negative m).display precision) = .ok w ∧
      w.display precision = (Double.finite negative m).display precision ∧
      (m.IsWhole → w.numEq (.finite negative m) = true) := by
  obtain ⟨w, hnearest, hdigits, hwhole⟩ := m.digits_nearest precision
  refine ⟨.finite (negative && (m.digits precision).coefficient != 0) w, ?_, ?_, fun h => ?_⟩
  · rw [Double.display_finite, evaluate_numeral (hnearest false)]
  · rw [Double.display_finite, Double.display_finite, hdigits, Bool.and_assoc, Bool.and_self]
  · obtain rfl := hwhole h
    by_cases hzero : (w.digits precision).coefficient = 0
    · rw [Magnitude.digits, if_pos h] at hzero
      simp [Double.numEq, Magnitude.rank_eq_zero hzero]
    · have hne : ((w.digits precision).coefficient != 0) = true := bne_iff_ne.2 hzero
      simp [Double.numEq, hne]

/-- No text that begins with the error marker is an expression. -/
theorem evaluate_errorMarker_append (rest : Text) :
    evaluate (Outcome.errorMarker ++ rest) =
      .error (.parse (.unknownName (Outcome.errorMarker ++ rest.takeWhile Char.isAlpha))) := by
  have halpha : ∀ a ∈ Outcome.errorMarker.tail, a.isAlpha = true := forall_mem_of_all (by decide)
  have hlexeme : (Token.lexeme 'E' (Outcome.errorMarker.tail ++ rest)).1 =
      .error (.unknownName (Outcome.errorMarker ++ rest.takeWhile Char.isAlpha)) := by
    rw [Token.lexeme_name (by decide), List.takeWhile_append_of_pos halpha]
    exact ofName_errorMarker _
  have hscan : Token.scan (Outcome.errorMarker ++ rest) =
      ⟨[], some (.unknownName (Outcome.errorMarker ++ rest.takeWhile Char.isAlpha))⟩ := by
    show Token.scan ('E' :: (Outcome.errorMarker.tail ++ rest)) = _
    rw [Token.scan, if_neg (by decide), hlexeme]
  have harrange : Token.arrange (Outcome.errorMarker ++ rest) =
      .error (.unknownName (Outcome.errorMarker ++ rest.takeWhile Char.isAlpha)) := by
    rw [Token.arrange, hscan]
    rfl
  rw [evaluate, evaluateWith, Expr.parse, harrange]
  rfl

/-- The error marker is no expression. -/
theorem evaluate_errorMarker :
    evaluate Outcome.errorMarker = .error (.parse (.unknownName Outcome.errorMarker)) :=
  evaluate_errorMarker_append []

/-- An outcome is never infinite. -/
theorem finite_of_evaluate {text : Text} {v : Double} (h : evaluate text = .ok v) :
    ∃ negative m, v = .finite negative m := by
  rw [evaluate, evaluateWith] at h
  split at h
  · cases h
  · exact finite_of_ofValue h

/-! ## The calculator -/

namespace Calculator

/-- An evaluation leaves the text of the outcome, as a result. -/
theorem evaluate_eq (c : Calculator) :
    c.evaluate = render { c with entry := ⟨c.outcome.display c.precision, true⟩ } := by
  rw [evaluate, Entry.showResult, if_neg (c.outcome.display_ne_nil _)]

theorem outcome_evaluate (c : Calculator) :
    c.evaluate.calculator.outcome = DeskCalculator.evaluate (c.outcome.display c.precision) := by
  rw [evaluate_eq]
  rfl

/-- An outcome that is shown alike makes the second evaluation the same step as the first. -/
theorem evaluate_of_display {c : Calculator}
    (h : c.evaluate.calculator.outcome.display c.precision = c.outcome.display c.precision) :
    c.evaluate.calculator.evaluate = c.evaluate := by
  have hprecision : c.evaluate.calculator.precision = c.precision := rfl
  rw [evaluate_eq c.evaluate.calculator, hprecision, h, evaluate_eq c]
  rfl

/-- A second evaluation is the same step as the first, in the calculator that it leaves and in the
text that it puts on the display: a number is evaluated to one that is shown alike, a whole number
to itself, and an error to an error. -/
theorem evaluate_evaluate (c : Calculator) :
    c.evaluate.calculator.evaluate = c.evaluate ∧
    (∀ v, c.outcome = .ok v → ∃ w, c.evaluate.calculator.outcome = .ok w ∧
      w.display c.precision = v.display c.precision ∧
      ∀ negative m, v = .finite negative m → m.IsWhole → w.numEq v = true) ∧
    (∀ e, c.outcome = .error e → c.evaluate.calculator.display = Outcome.errorMarker ∧
      ∃ e', c.evaluate.calculator.outcome = .error e') := by
  cases ho : c.outcome with
  | error e =>
    have hdisplay : c.outcome.display c.precision = Outcome.errorMarker := by rw [ho]; rfl
    have hagain : c.evaluate.calculator.outcome =
        .error (.parse (.unknownName Outcome.errorMarker)) := by
      rw [outcome_evaluate, hdisplay, evaluate_errorMarker]
    refine ⟨evaluate_of_display ?_, nofun, fun _ _ => ⟨?_, _, hagain⟩⟩
    · rw [hagain, hdisplay]
      rfl
    · rw [evaluate_eq, hdisplay]
      rfl
  | ok v =>
    obtain ⟨negative, m, rfl⟩ := finite_of_evaluate ho
    obtain ⟨w, hw, hshown, hwhole⟩ := evaluate_display negative m c.precision
    have hdisplay : c.outcome.display c.precision =
        (Double.finite negative m).display c.precision := by rw [ho]; rfl
    have hagain : c.evaluate.calculator.outcome = .ok w := by rw [outcome_evaluate, hdisplay, hw]
    refine ⟨evaluate_of_display ?_, ?_, nofun⟩
    · rw [hagain, hdisplay, ← hshown]
      rfl
    · intro v hv
      obtain rfl := Except.ok.inj hv
      refine ⟨w, hagain, hshown, ?_⟩
      intro _ _ hm
      cases hm
      exact hwhole

end Calculator

end DeskCalculator
