import DeskCalculator.Proofs.Typing

/-!
# Continuing a result

An operator that is entered after a result continues the expression from the text of the result. The
one exception is a minus after a shown zero, which is taken for a sign, as in an empty entry, and so
binds more strongly than a power:

* `IsTower`: numbers of digits with powers between them;
* `type?_tower`: the keys of a tower are appended to any entry that is not empty;
* `operator_result`: what an operator makes of a result;
* `evaluate_minus`, `evaluate_zero_minus`: a negative number, and a difference from zero, which are
  equal for a number of digits (`agree_minus_digits`);
* `continue_result`: so an operator and a tower after a result are evaluated with the result before
  them; `minus_continues_no_zero` is a difference that is not.
-/

namespace DeskCalculator

/-- Numbers of digits with powers between them. -/
inductive IsTower : Text → Prop where
  | digits {n : Text} : n ≠ [] → (∀ a ∈ n, a.isDigit = true) → IsTower n
  | power {n t : Text} : n ≠ [] → (∀ a ∈ n, a.isDigit = true) → IsTower t →
      IsTower (n ++ '^' :: t)

theorem IsTower.ne_nil {t : Text} (h : IsTower t) : t ≠ [] := by
  cases h with
  | digits hne _ => exact hne
  | power hne _ _ => exact List.append_ne_nil_of_left_ne_nil hne _

/-- Two outcomes that are equal as numbers, or both errors. -/
def Outcome.Agree : Outcome → Outcome → Prop
  | .ok x, .ok y => x.numEq y = true
  | .error _, .error _ => True
  | _, _ => False

/-! ## Typing a tower -/

namespace Calculator

variable [MathLibrary] {c : Calculator} {u : Text}

theorem type?_digits {n : Text} (hn : ∀ a ∈ n, a.isDigit = true) (hne : u ≠ [])
    (hempty : u ≠ Entry.emptyText) (rest : Text) :
    (c.retyped u).type? (keys (n ++ rest)) = (c.retyped (u ++ n)).type? (keys rest) :=
  type?_numberParts (fun a ha => isNumberPart_of_isDigit (hn a ha))
    fun before _ _ _ => append_ne_emptyText hne hempty before

/-- The keys of a tower are appended to an entry that is not empty. -/
theorem type?_tower {t : Text} (ht : IsTower t) (hne : u ≠ []) (hempty : u ≠ Entry.emptyText) :
    (c.retyped u).type? (keys t) = some (c.retyped (u ++ t)) := by
  induction ht generalizing u with
  | @digits n _ hn =>
    have := type?_digits (c := c) hn hne hempty []
    rwa [List.append_nil, keys_nil] at this
  | @power n t hnil hn ht ih =>
    have hun := append_ne_emptyText hne hempty n
    have hfirst : u ++ n = [] → Operator.power = .subtract := fun h =>
      absurd (List.append_eq_nil_iff.1 h).1 hne
    have hlast : ∀ a ∈ (u ++ n).getLast?, Entry.isOperatorChar a = false := by
      intro a ha
      rw [List.getLast?_append_of_ne_nil u hnil] at ha
      have hdigit := hn a (List.mem_of_getLast? ha)
      exact (Entry.not_value_of_isNumberPart (isNumberPart_of_isDigit hdigit)).1
    have hpower : u ++ n ++ ['^'] ≠ Entry.emptyText := by
      rw [List.append_assoc]
      exact append_ne_emptyText hne hempty _
    calc (c.retyped u).type? (keys (n ++ '^' :: t))
        = (c.retyped (u ++ n)).type? (keys (Operator.power.symbol :: t)) :=
          type?_digits hn hne hempty _
      _ = (c.retyped (u ++ n ++ ['^'])).type? (keys t) := type?_symbol hun hfirst hlast t
      _ = some (c.retyped (u ++ n ++ ['^'] ++ t)) := ih (List.concat_ne_nil _ _) hpower
      _ = some (c.retyped (u ++ (n ++ '^' :: t))) := by simp

end Calculator

/-! ## An operator after a result -/

/-- A canonical numeral ends in a digit. -/
theorem Numeral.last_isDigit {n : Numeral} {places : Nat} (h : n.IsCanonical places) :
    ∀ a ∈ n.text.getLast?, a.isDigit = true := by
  intro a ha
  by_cases hf : n.fraction = []
  · rw [text, if_pos hf, List.append_nil, List.getLast?_append_of_ne_nil _ h.whole_ne_nil] at ha
    exact h.whole_digits a (List.mem_of_getLast? ha)
  · have hpoint : ('.' :: n.fraction).getLast? = n.fraction.getLast? := by
      obtain ⟨b, l, he⟩ := List.exists_cons_of_ne_nil hf
      rw [he, List.getLast?_cons_cons]
    rw [text, if_neg hf, List.getLast?_append_of_ne_nil _ (List.cons_ne_nil _ _), hpoint] at ha
    exact h.fraction_digits a (List.mem_of_getLast? ha)

namespace Entry

variable {e : Entry} {precision : Nat}

/-- A result ends neither in an operator nor in the beginning of a group. -/
theorem last_result (h : e.IsShaped precision) (hresult : e.isResult = true) :
    ∀ a ∈ e.text.getLast?, isOperatorChar a = false ∧ a ≠ '(' := by
  intro a ha
  rcases h.result hresult with he | ⟨n, hn, he⟩
  · rw [he] at ha
    obtain rfl := Option.mem_some_iff.1 ha
    decide
  · rw [he] at ha
    have hdigit := Numeral.last_isDigit hn a ha
    refine ⟨(not_value_of_isNumberPart (isNumberPart_of_isDigit hdigit)).1, ?_⟩
    rintro rfl
    exact absurd hdigit (by decide)

/-- The text of a result with an operator after it; a minus takes the place of a zero. -/
def continued (text : Text) (o : Operator) : Text :=
  if o = .subtract ∧ text = emptyText then [o.symbol] else text ++ [o.symbol]

theorem operator_result (h : e.IsShaped precision) (hresult : e.isResult = true) (o : Operator) :
    e.operator o = typed (continued e.text o) := by
  have hlast := last_result h hresult
  have hopen : e.lastIs (· = '(') = false := by
    rw [lastIs, Option.any_eq_false]
    intro a ha
    exact decide_eq_false (hlast a ha).2
  have hop : e.lastIs isOperatorChar = false := by
    rw [lastIs, Option.any_eq_false]
    exact fun a ha => (hlast a ha).1
  rw [operator, continued, hopen, hop]
  split
  · rfl
  · rw [if_neg (by simp), if_neg (by decide), typed, if_neg (List.concat_ne_nil _ _)]

theorem continued_ne_nil (text : Text) (o : Operator) : continued text o ≠ [] := by
  unfold continued
  split <;> simp

theorem continued_ne_emptyText (text : Text) (o : Operator) :
    continued text o ≠ emptyText := by
  intro h
  have hlast : (continued text o).getLast? = some o.symbol := by
    unfold continued
    split
    · rfl
    · exact List.getLast?_concat
  rw [h] at hlast
  revert hlast
  cases o <;> decide

end Entry

namespace Calculator

/-- The keys of an operator and a tower after a result. -/
theorem type?_continued [MathLibrary] (c : Calculator) (o : Operator) {t : Text} (ht : IsTower t) :
    c.evaluate.calculator.type? (keys (o.symbol :: t)) =
      some (c.retyped (Entry.continued c.evaluate.calculator.display o ++ t)) := by
  have hshaped : c.evaluate.calculator.entry.IsShaped c.precision := by
    rw [evaluate_eq]
    exact Entry.isShaped_outcome c.entry.text
  have hresult : c.evaluate.calculator.entry.isResult = true := by rw [evaluate_eq]; rfl
  have halpha : o.symbol.isAlpha = false := by cases o <;> decide
  have hpress : c.evaluate.calculator.press? [o.symbol] =
      some (c.retyped (Entry.continued c.evaluate.calculator.display o)) := by
    have hne : Event.operator o ≠ .evaluate := by simp
    rw [press?, Event.ofKey?_operator, Option.map_some, handle, if_neg hne]
    exact congrArg (fun e => some { c with entry := e })
      (Entry.operator_result hshaped hresult o)
  rw [keys_cons (.inl halpha), type?, List.foldlM_cons, hpress]
  exact type?_tower ht (Entry.continued_ne_nil _ _) (Entry.continued_ne_emptyText _ _)

end Calculator

/-! ## A minus after zero -/

variable {n : Text} {x : Double}

theorem evaluate_minus [MathLibrary] (hreads : Token.Reads n [.number x]) :
    evaluate ('-' :: n) = Outcome.ofValue (.ok x.neg) := by
  have hp : Derives .unary [.operator .subtract, .number x] (.signed .minus (.literal x)) :=
    .signed (.inr ⟨rfl, rfl⟩) (derives_number x)
  have hminus : Token.Reads ('-' :: n) [.operator .subtract, .number x] :=
    .operator (by decide) hreads
  rw [evaluate_of_derives hminus hp.sumOfUnary (show 2 ≤ maxDepth by decide)]
  rfl

theorem evaluate_zero_minus [MathLibrary] (hreads : Token.Reads n [.number x]) :
    evaluate ('0' :: '-' :: n) = Outcome.ofValue (.ok ((Double.zero false).sub x)) := by
  have hzero : Token.Reads ['0'] [.number (.zero false)] := by
    have := reads_literal ⟨0, 0⟩
    rwa [show (Decimal.mk 0 0).text = ['0'] by decide,
      show (Decimal.mk 0 0).nearest false = .zero false by decide +kernel] at this
  have htext : Token.Reads (['0'] ++ '-' :: n)
      ([.number (.zero false)] ++ .operator .subtract :: [.number x]) :=
    hzero.binary (by decide) hreads
  have hp : Derives .sum [.number (.zero false), .operator .subtract, .number x]
      (.binary .subtract (.literal (.zero false)) (.literal x)) :=
    .sum (.inr rfl) (derives_number _).sumOfUnary
      (.productOfPower (.powerOfUnary (derives_number x)))
  rw [show '0' :: '-' :: n = ['0'] ++ '-' :: n from rfl,
    evaluate_of_derives htext hp (show 2 ≤ maxDepth by decide)]
  rfl

/-- The difference from zero of a magnitude is its opposite, but for the sign of zero. -/
theorem zero_sub_finite (m : Magnitude) :
    ∃ negative, (Double.zero false).sub (.finite false m) = .finite negative m ∧
      (negative = true ∨ m.rank = 0) := by
  have hzero : Magnitude.zero.signed false = 0 := by
    show ((unitsOfRank 0 : Nat) : Int) = 0
    rw [unitsOfRank_small (Nat.zero_le _)]
    rfl
  have hsub : (Double.zero false).sub (.finite false m) =
      if -(m.units : Int) = 0 then .zero false
      else .ofRatio (-(m.units : Int) < 0) (-(m.units : Int)).natAbs 1 := by
    have hsum : Magnitude.zero.signed false + m.signed true = -(m.units : Int) := by
      rw [hzero, Int.zero_add]
      rfl
    rw [← hsum]
    rfl
  rw [hsub]
  by_cases hm : m.units = 0
  · have hrank : m.rank = 0 := by
      have := unitsOfRank_strictMono.injective (hm.trans (unitsOfRank_small (Nat.zero_le _)).symm)
      exact this
    obtain ⟨rank, _⟩ := m
    obtain rfl : rank = 0 := hrank
    refine ⟨false, ?_, .inr rfl⟩
    rw [if_pos (by omega)]
    rfl
  · refine ⟨true, ?_, .inl rfl⟩
    have hneg : -(m.units : Int) < 0 := by omega
    have habs : (-(m.units : Int)).natAbs = m.units * 1 := by omega
    rw [if_neg (by omega), habs, decide_eq_true hneg, Double.ofRatio_units true m Nat.one_pos]

/-- An opposite and a difference from zero are equal as numbers, and infinite alike. -/
theorem agree_neg_zero_sub (num den : Nat) :
    Outcome.Agree (Outcome.ofValue (.ok (Double.ofRatio false num den).neg))
      (Outcome.ofValue (.ok ((Double.zero false).sub (.ofRatio false num den)))) := by
  have hfinite : ∀ m, Outcome.Agree (Outcome.ofValue (.ok (Double.finite false m).neg))
      (Outcome.ofValue (.ok ((Double.zero false).sub (.finite false m)))) := by
    intro m
    obtain ⟨negative, he, hsign⟩ := zero_sub_finite m
    rw [he]
    show (Double.finite true m).numEq (.finite negative m) = true
    rcases hsign with rfl | hrank
    · simp [Double.numEq]
    · simp [Double.numEq, hrank]
  unfold Double.ofRatio
  split
  · exact hfinite _
  · trivial

/-- A negative number and the difference of the number from zero. -/
theorem agree_minus_digits [MathLibrary] (hn : ∀ a ∈ n, a.isDigit = true) (hne : n ≠ []) :
    Outcome.Agree (evaluate ('-' :: n)) (evaluate ('0' :: '-' :: n)) := by
  have hreads := (Token.Spells.number ((Token.isLiteral_digits hn).2 hne)).reads
  rw [evaluate_minus hreads, evaluate_zero_minus hreads]
  exact agree_neg_zero_sub _ _

namespace Calculator

/-- An operator and a tower that are entered after a result are evaluated with the text of the
result before them, unless the operator is a minus and the result zero: then they are evaluated by
themselves, which makes no difference to a number alone. -/
theorem continue_result [MathLibrary] (c : Calculator) (o : Operator) {t : Text} (ht : IsTower t) :
    ∃ d, c.evaluate.calculator.type? (keys (o.symbol :: t)) = some d ∧
      (¬ (o = .subtract ∧ c.evaluate.calculator.display = Entry.emptyText) →
        d.outcome =
          DeskCalculator.evaluate (c.evaluate.calculator.display ++ o.symbol :: t)) ∧
      (o = .subtract → c.evaluate.calculator.display = Entry.emptyText →
        d.outcome = DeskCalculator.evaluate ('-' :: t) ∧
        ((∀ a ∈ t, a.isDigit = true) → d.outcome.Agree
          (DeskCalculator.evaluate (c.evaluate.calculator.display ++ o.symbol :: t)))) := by
  have houtcome : ∀ u, u ≠ [] →
      (c.retyped (u ++ t)).outcome = DeskCalculator.evaluate (u ++ t) := by
    intro u hu
    show DeskCalculator.evaluate (Entry.typed (u ++ t)).text = _
    rw [Entry.typed, if_neg (List.append_ne_nil_of_left_ne_nil hu t)]
  refine ⟨_, c.type?_continued o ht, ?_, ?_⟩
  · intro h
    rw [houtcome _ (Entry.continued_ne_nil _ _), Entry.continued, if_neg h, List.append_assoc]
    rfl
  · rintro rfl hdisplay
    have hminus := houtcome _ (Entry.continued_ne_nil c.evaluate.calculator.display .subtract)
    rw [Entry.continued, if_pos ⟨rfl, hdisplay⟩] at hminus ⊢
    refine ⟨hminus, fun hdigits => ?_⟩
    rw [hminus, hdisplay]
    exact agree_minus_digits hdigits ht.ne_nil

/-- A power of two digits divided into a result. -/
theorem continue_quotient :
    IsTower ['2', '^', '3'] ∧
    ∃ d, ((new .standard 8).after [.digit '5']).evaluate.calculator.type?
        (keys ['/', '2', '^', '3']) = some d ∧
      d.outcome = DeskCalculator.evaluate ['5', '/', '2', '^', '3'] := by
  have ht : IsTower ['2', '^', '3'] :=
    .power (n := ['2']) (List.cons_ne_nil _ _) (forall_mem_of_all (by decide))
      (.digits (List.cons_ne_nil _ _) (forall_mem_of_all (by decide)))
  have hdisplay : ((new .standard 8).after [.digit '5']).evaluate.calculator.display = ['5'] := by
    decide +kernel
  obtain ⟨d, hd, houtcome, -⟩ :=
    continue_result ((new .standard 8).after [.digit '5']) .divide ht
  refine ⟨ht, d, hd, ?_⟩
  rw [hdisplay] at houtcome
  exact houtcome (by decide)

/-- Zero is shown, and a minus and the square of two are entered: the result is the square of minus
two, and not zero less the square of two. -/
theorem minus_continues_no_zero :
    (new .standard 8).evaluate.calculator.display = ['0'] ∧
    IsTower ['2', '^', '2'] ∧
    (∃ d, (new .standard 8).evaluate.calculator.type? (keys ['-', '2', '^', '2']) = some d ∧
      d.outcome = .ok (.finite false ⟨0x4010000000000000, by decide⟩)) ∧
    DeskCalculator.evaluate ['0', '-', '2', '^', '2'] =
      .ok (.finite true ⟨0x4010000000000000, by decide⟩) ∧
    ¬ Outcome.Agree (.ok (.finite false ⟨0x4010000000000000, by decide⟩))
      (.ok (.finite true ⟨0x4010000000000000, by decide⟩)) := by
  refine ⟨by decide +kernel, ?_, ⟨⟨⟨['-', '2', '^', '2'], false⟩, .standard, 8⟩, ?_, ?_⟩, ?_, ?_⟩
  · exact .power (n := ['2']) (List.cons_ne_nil _ _) (forall_mem_of_all (by decide))
      (.digits (List.cons_ne_nil _ _) (forall_mem_of_all (by decide)))
  · decide +kernel
  · decide +kernel
  · decide +kernel
  · simp [Outcome.Agree, Double.numEq]

end Calculator

end DeskCalculator
