import DeskCalculator.Evaluation
import DeskCalculator.Proofs.Arranging
import DeskCalculator.Proofs.Postfix

/-!
# Parsing is the grammar

A text is parsed exactly if its longest lexemes are the tokens of a sum, and the tree is the one of
the derivation:

* `parse_of_derives`, `derives_of_parse`: the outcome for a text of the grammar, and the derivation
  behind a tree;
* `isLexical_of_scan`, `isMisplacement_of_step`, `expected_of_finish`: the faults of the scanner, of a
  step and of the end;
* `arrange_eq_error_iff`: where the first fault of a text lies, so that it is never its depth
  (`arrange_ne_nestedTooDeep`);
* `parse_iff_derives`: all texts.
-/

namespace DeskCalculator

/-! ## Faults before a tree is built -/

namespace SyntaxError

/-- A fault of a lexeme. -/
def isLexical : SyntaxError → Bool
  | invalidNumber _ | unknownName _ | unexpectedCharacter _ => true
  | _ => false

/-- A fault of a token at its place. -/
def isMisplacement : SyntaxError → Bool
  | missingOperatorBefore _ | missingParenthesis _ | missingOperandBefore _
  | mismatchedParenthesis | strayInGroup _ => true
  | _ => false

end SyntaxError

namespace Token

theorem isLexical_of_lexeme {c : Char} {rest : Text} {fault : SyntaxError}
    (h : (lexeme c rest).1 = .error fault) : fault.isLexical = true := by
  unfold lexeme ofNumber ofName ofSymbol at h
  repeat' split at h
  all_goals cases h <;> rfl

theorem isLexical_of_scan {text : Text} {fault : SyntaxError}
    (h : (scan text).fault = some fault) : fault.isLexical = true := by
  fun_induction scan text with
  | case1 => cases h
  | case2 c rest hb ih => exact ih h
  | case3 c rest hb fault' hf =>
    obtain rfl := Option.some.inj h
    exact isLexical_of_lexeme hf
  | case4 c rest hb token ht scanned ih => exact ih h

end Token

namespace Arranger

theorem isMisplacement_of_step {a : Arranger} {t : Token} {fault : SyntaxError}
    (h : a.step t = .error fault) : fault.isMisplacement = true := by
  unfold step operand call operator openGroup closeGroup at h
  repeat' split at h
  all_goals cases h <;> rfl

/-- What can be wrong with the end of a text. -/
theorem expected_of_finish {a : Arranger} {fault : SyntaxError} (h : a.finish = .error fault) :
    (∃ f, fault = .missingParenthesis f) ∨ (fault = .unexpectedEnd ∧ a.expected = .operand) ∨
      (fault = .mismatchedParenthesis ∧ a.expected = .operator) := by
  unfold finish at h
  split at h
  · next f _ => exact .inl ⟨f, (Except.error.inj h).symm⟩
  · next ha => exact .inr (.inl ⟨(Except.error.inj h).symm, ha⟩)
  · next ha =>
    split at h
    · cases h
    · exact .inr (.inr ⟨(Except.error.inj h).symm, ha⟩)

/-- A run that fails does so at one of its tokens. -/
theorem exists_of_foldlM_error {ts : List Token} {a : Arranger} {fault : SyntaxError}
    (h : ts.foldlM step a = .error fault) :
    ∃ before t after b, ts = before ++ t :: after ∧ before.foldlM step a = .ok b ∧
      step b t = .error fault := by
  induction ts generalizing a with
  | nil => cases h
  | cons t ts ih =>
    cases hstep : step a t with
    | error cause =>
      rw [List.foldlM_cons, hstep] at h
      exact ⟨[], t, ts, a, rfl, rfl, hstep.trans h⟩
    | ok b =>
      rw [foldlM_step_cons hstep] at h
      obtain ⟨before, u, after, c, rfl, hrun, hu⟩ := ih h
      exact ⟨t :: before, u, after, c, rfl, (foldlM_step_cons hstep).trans hrun, hu⟩

end Arranger

namespace Token

/-- The first fault of a text: a misplaced token, what is no token, or the end. -/
theorem arrange_eq_error_iff {text : Text} {fault : SyntaxError} :
    arrange text = .error fault ↔
      (scan text).tokens.foldlM Arranger.step .start = .error fault ∨
        ∃ a, (scan text).tokens.foldlM Arranger.step .start = .ok a ∧
          ((scan text).fault = some fault ∨
            (scan text).fault = none ∧ a.finish = .error fault) := by
  simp only [arrange, bind, Except.bind]
  cases (scan text).tokens.foldlM Arranger.step .start with
  | error cause => simp
  | ok a => cases (scan text).fault <;> simp

/-- Neither the scanner nor the arranger refuses a text for its depth. -/
theorem arrange_ne_nestedTooDeep (text : Text) : arrange text ≠ .error .nestedTooDeep := by
  intro h
  rcases arrange_eq_error_iff.1 h with hrun | ⟨a, -, hfault | ⟨-, hfinish⟩⟩
  · obtain ⟨before, t, after, b, -, -, hstep⟩ := Arranger.exists_of_foldlM_error hrun
    cases Arranger.isMisplacement_of_step hstep
  · cases isLexical_of_scan hfault
  · rcases Arranger.expected_of_finish hfinish with ⟨f, hf⟩ | ⟨hf, -⟩ | ⟨hf, -⟩ <;> cases hf

end Token

/-! ## All texts -/

/-- A text of the grammar is its tree, unless that is too deep. -/
theorem parse_of_derives {text : Text} {tokens : List Token} {p : Phrase}
    (hreads : Token.Reads text tokens) (hp : Derives .sum tokens p) :
    Expr.parse text = if maxDepth < p.height then .error .nestedTooDeep else .ok p.toExpr := by
  rw [Expr.parse, Token.arrange_eq_ok_iff.2 ⟨tokens, p, hreads, hp, rfl⟩, ← p.ofPostfix_listing]
  rfl

/-- A text outside the grammar has a fault before a tree is built. -/
theorem parse_of_not_derives {text : Text}
    (h : ¬ ∃ tokens p, Token.Reads text tokens ∧ Derives .sum tokens p) :
    ∃ cause, cause ≠ .nestedTooDeep ∧ Expr.parse text = .error cause := by
  cases ha : Token.arrange text with
  | error cause =>
    refine ⟨cause, ?_, by rw [Expr.parse, ha]; rfl⟩
    rintro rfl
    exact Token.arrange_ne_nestedTooDeep text ha
  | ok ts =>
    obtain ⟨tokens, p, hreads, hp, -⟩ := Token.arrange_eq_ok_iff.1 ha
    exact absurd ⟨tokens, p, hreads, hp⟩ h

/-- The derivation behind a tree. -/
theorem derives_of_parse {text : Text} {e : Expr} (h : Expr.parse text = .ok e) :
    ∃ tokens p, Token.Reads text tokens ∧ Derives .sum tokens p ∧ p.height ≤ maxDepth ∧
      e = p.toExpr := by
  by_cases hex : ∃ tokens p, Token.Reads text tokens ∧ Derives .sum tokens p
  · obtain ⟨tokens, p, hreads, hp⟩ := hex
    rw [parse_of_derives hreads hp] at h
    split at h
    · cases h
    · next hh => exact ⟨tokens, p, hreads, hp, by omega, (Except.ok.inj h).symm⟩
  · obtain ⟨cause, -, hc⟩ := parse_of_not_derives hex
    rw [hc] at h
    cases h

/-- A text is parsed exactly if its longest lexemes are the tokens of a sum that is not too deep,
and its tree is the one of that sum; sums that are too deep are refused as such, and every other
text has a syntax error. -/
theorem parse_iff_derives [MathLibrary] (text : Text) :
    (∀ e, Expr.parse text = .ok e ↔
      ∃ tokens p, Token.Reads text tokens ∧ Derives .sum tokens p ∧ p.height ≤ maxDepth ∧
        e = p.toExpr) ∧
    (Expr.parse text = .error .nestedTooDeep ↔
      ∃ tokens p, Token.Reads text tokens ∧ Derives .sum tokens p ∧ maxDepth < p.height) ∧
    ((¬ ∃ tokens p, Token.Reads text tokens ∧ Derives .sum tokens p) →
      ∃ cause, cause ≠ .nestedTooDeep ∧ Expr.parse text = .error cause ∧
        evaluate text = .error (.parse cause)) := by
  by_cases h : ∃ tokens p, Token.Reads text tokens ∧ Derives .sum tokens p
  · obtain ⟨tokens, p, hreads, hp⟩ := h
    have hparse := parse_of_derives hreads hp
    refine ⟨fun e => ⟨fun he => ?_, ?_⟩, ⟨fun he => ?_, ?_⟩, fun hn => absurd ⟨_, _, hreads, hp⟩ hn⟩
    · rw [hparse] at he
      split at he
      · cases he
      · next hh => exact ⟨tokens, p, hreads, hp, by omega, (Except.ok.inj he).symm⟩
    · rintro ⟨tokens', p', hreads', hp', hh, rfl⟩
      rw [parse_of_derives hreads' hp', if_neg (by omega)]
    · rw [hparse] at he
      split at he
      · next hh => exact ⟨tokens, p, hreads, hp, hh⟩
      · cases he
    · rintro ⟨tokens', p', hreads', hp', hh⟩
      rw [parse_of_derives hreads' hp', if_pos hh]
  · obtain ⟨cause, hne, hc⟩ := parse_of_not_derives h
    refine ⟨fun e => ?_, ?_, fun _ => ⟨cause, hne, hc, ?_⟩⟩
    · rw [hc]
      exact iff_of_false nofun fun ⟨tokens, p, hreads, hp, _⟩ => h ⟨tokens, p, hreads, hp⟩
    · rw [hc]
      refine iff_of_false (fun he => hne (Except.error.inj he)) ?_
      exact fun ⟨tokens, p, hreads, hp, _⟩ => h ⟨tokens, p, hreads, hp⟩
    · rw [evaluate, evaluateWith, hc]

/-- A signed base, two glyphs, a blank, and a plus sign that leaves no trace. -/
theorem parse_iff_derives_glyphs :
    let one : Double := .finite false ⟨0x3ff0000000000000, by decide⟩
    let two : Double := .finite false ⟨0x4000000000000000, by decide⟩
    let tokens : List Token := [.operator .subtract, .number two, .operator .power, .number two,
      .operator .subtract, .number one, .operator .divide, .operator .add, .number two]
    let p : Phrase := .binary .subtract
      (.binary .power (.signed .minus (.literal two)) (.literal two))
      (.binary .divide (.literal one) (.signed .plus (.literal two)))
    Token.Reads ['-', '2', '^', '2', ' ', '−', '1', '÷', '+', '2'] tokens ∧
      Derives .sum tokens p ∧
      Expr.parse ['-', '2', '^', '2', ' ', '−', '1', '÷', '+', '2'] =
        .ok (.binary .subtract (.binary .power (.negation (.literal two)) (.literal two))
          (.binary .divide (.literal one) (.literal two))) := by
  intro one two tokens p
  have hspells : ∀ c x, c.isDigit = true → (Token.literalDecimal [c]).nearest false = x →
      Token.Spells [c] (.number x) := by
    rintro c _ hc rfl
    exact .number ((Token.isLiteral_digits (by simpa using hc)).2 (List.cons_ne_nil _ _))
  have hone := hspells '1' one (by decide) (by decide +kernel)
  have htwo := hspells '2' two (by decide) (by decide +kernel)
  have hreads : Token.Reads ['-', '2', '^', '2', ' ', '−', '1', '÷', '+', '2'] tokens := by
    refine .operator (by decide) ?_
    refine .lexeme htwo (Token.ends_before_symbol (by decide) (by decide) _ _) ?_
    refine .operator (by decide) ?_
    refine .lexeme htwo (Token.ends_before_symbol (by decide) (by decide) _ _) ?_
    refine .blank (by decide) ?_
    refine .operator (by decide) ?_
    refine .lexeme hone (Token.ends_before_symbol (by decide) (by decide) _ _) ?_
    refine .operator (by decide) ?_
    refine .operator (by decide) ?_
    exact htwo.reads
  have hnumber : ∀ x, Derives .unary [.number x] (.literal x) := fun x => .unaryOfAtom (.number x)
  have hbase : Derives .unary [.operator .subtract, .number two] (.signed .minus (.literal two)) :=
    .signed (.inr ⟨rfl, rfl⟩) (hnumber two)
  have hdivisor : Derives .unary [.operator .add, .number two] (.signed .plus (.literal two)) :=
    .signed (.inl ⟨rfl, rfl⟩) (hnumber two)
  have hquotient : Derives .product
      [.number one, .operator .divide, .operator .add, .number two] _ :=
    .product (.inr (.inl rfl)) (.productOfPower (.powerOfUnary (hnumber one)))
      (.powerOfUnary hdivisor)
  have hp : Derives .sum tokens p :=
    .sum (.inr rfl) (.sumOfProduct (.productOfPower (.power hbase (.powerOfUnary (hnumber two)))))
      hquotient
  exact ⟨hreads, hp, ((parse_iff_derives _).1 _).2 ⟨tokens, p, hreads, hp, by decide, rfl⟩⟩

end DeskCalculator
