import DeskCalculator.Proofs.EntryCharacters
import DeskCalculator.Proofs.Typing

/-!
# Implicit multiplication

A value that is entered after a value is multiplied by it. Where an expression ends is judged by its
last character, which is right for every expression that events can lead to but one that ends in a
point:

* `Derives.times`: an expression times an operand;
* `endsValue_or_point`: the last character of an expression that events have led to;
* `EntersOperand`, `after_entersOperand`: events that enter an operand, and the text they append;
* `parse_missing_operator`: between an expression and an operand right after it is no operator;
* `parse_after_operand`: so an operand is multiplied by the expression before it exactly if that
  does not end in a point; `parse_constant_after_point` is an expression that does.
-/

namespace DeskCalculator

/-! ## An expression times an operand -/

/-- A sum times an operand is a sum: the operand joins the last product. -/
theorem Derives.times {ts us : List Token} {p q : Phrase} (hp : Derives .sum ts p)
    (hq : Derives .power us q) : ∃ r, Derives .sum (ts ++ .operator .multiply :: us) r := by
  cases hp with
  | sum ho hl hr =>
    have hproduct := Derives.product (.inl rfl) hr hq
    have hsum := Derives.sum ho hl hproduct
    rw [List.append_assoc, List.cons_append]
    exact ⟨_, hsum⟩
  | sumOfProduct hp => exact ⟨_, .sumOfProduct (.product (.inl rfl) hp hq)⟩

/-- A text that is an operand, and does not begin with a digit or a point. -/
structure IsOperand (text : Text) (tokens : List Token) : Prop where
  reads : Token.Reads text tokens
  derives : ∃ q, Derives .atom tokens q
  first : ∀ c ∈ text.head?, Token.isNumberPart c = false

variable {u k : Text} {ts us : List Token} {p : Phrase}

theorem parse_of_derivation (hreads : Token.Reads u ts) (hp : Derives .sum ts p) :
    (∃ e, Expr.parse u = .ok e) ∨ Expr.parse u = .error .nestedTooDeep := by
  rw [parse_of_derives hreads hp]
  split
  · exact .inr rfl
  · exact .inl ⟨_, rfl⟩

/-- An expression times an operand is an expression, if it is not too deep. -/
theorem parse_times (hreads : Token.Reads u ts) (hp : Derives .sum ts p) (hk : IsOperand k us) :
    (∃ e, Expr.parse (u ++ '*' :: k) = .ok e) ∨
      Expr.parse (u ++ '*' :: k) = .error .nestedTooDeep := by
  obtain ⟨q, hq⟩ := hk.derives
  obtain ⟨r, hr⟩ := hp.times (.powerOfUnary (.unaryOfAtom hq))
  exact parse_of_derivation (hreads.binary (by decide) hk.reads) hr

/-- After an expression, a token that begins an operand has no operator before it. -/
theorem arrange_missing_operator {t : Token} (hreads : Token.Reads u (ts ++ t :: us))
    (hp : Derives .sum ts p) (ht : t.beginsOperand = true) :
    Token.arrange u = .error (.missingOperatorBefore t) := by
  obtain ⟨pending, out, hrun, -⟩ :=
    Arranger.arranges_of_derives hp [] [] (Nat.le_refl _) (by simp)
  have hstep : Arranger.step ⟨out, pending ++ [], .operator⟩ t =
      .error (.missingOperatorBefore t) := by
    cases t with
    | number _ | constant _ | function _ | opening => rfl
    | operator _ | sign _ | closing => cases ht
  have hall : (ts ++ t :: us).foldlM Arranger.step Arranger.start =
      .error (.missingOperatorBefore t) := by
    rw [Arranger.start, Arranger.foldlM_step_append hrun, List.foldlM_cons, hstep]
    rfl
  rw [Token.arrange, Token.scan_of_reads hreads]
  simp only [bind, Except.bind, hall]

theorem beginsOperand_of_derives (h : Derives .atom ts p) :
    ∃ t rest, ts = t :: rest ∧ t.beginsOperand = true := by
  cases h with
  | number | constant | call | group => exact ⟨_, _, rfl, rfl⟩

/-- After a point, an operand does not run together with the number before it. -/
theorem parse_missing_operator (hreads : Token.Reads u ts) (hp : Derives .sum ts p)
    (hk : IsOperand k us) (hlast : ∀ c ∈ u.getLast?, c = '.') :
    ∃ t, Expr.parse (u ++ k) = .error (.missingOperatorBefore t) := by
  have hends : Token.Ends u k := by
    rintro c hc d hd (⟨-, h⟩ | ⟨h, -⟩)
    · rw [← Token.isNumberPart_eq_true_iff, hk.first d hd] at h
      cases h
    · rw [hlast c hc] at h
      exact absurd h (by decide)
  obtain ⟨q, hq⟩ := hk.derives
  obtain ⟨t, rest, rfl, ht⟩ := beginsOperand_of_derives hq
  have harrange := arrange_missing_operator (hreads.append hk.reads hends) hp ht
  refine ⟨t, ?_⟩
  rw [Expr.parse, harrange]
  rfl

/-! ## The end of an expression -/

/-- A lexeme of a token that ends an operand ends a value, but for a number that ends in a point. -/
theorem endsValue_of_spells {found : Text} {t : Token} (h : Token.Spells found t)
    (ht : t.endsOperand = true) (hp : 'p' ∉ found) :
    ∀ c ∈ found.getLast?, Entry.endsValue c = true ∨ c = '.' := by
  intro c hc
  cases h with
  | number hl =>
    refine (hl.1 c (List.mem_of_getLast? hc)).symm.imp_left fun hdigit => ?_
    simp [Entry.endsValue, hdigit]
  | @constant _ k hk =>
    rcases Token.mem_constantNames.1 hk with rfl | ⟨rfl, rfl⟩
    · obtain rfl := Option.mem_some_iff.1 hc
      exact .inl (by cases k <;> decide)
    · exact absurd List.mem_cons_self hp
  | closing =>
    obtain rfl := Option.mem_some_iff.1 hc
    exact .inl (by decide)
  | function | operator | opening => cases ht

/-- An expression without blanks and without the name `pi` ends in the end of a value or in a
point. -/
theorem endsValue_or_point (hreads : Token.Reads u ts) (hp : Derives .sum ts p)
    (hu : ∀ c ∈ u, isBlank c = false ∧ c ≠ 'p') :
    ∃ c ∈ u.getLast?, Entry.endsValue c = true ∨ c = '.' := by
  obtain ⟨t, ht, hend⟩ := (Token.joined_of_derives hp).last
  obtain ⟨before, found, rfl, hspells⟩ := hreads.last_lexeme (fun c hc => (hu c hc).1) t ht
  have hlast := List.getLast?_eq_some_getLast hspells.ne_nil
  refine ⟨_, ?_, endsValue_of_spells hspells hend (fun hmem => ?_) _ hlast⟩
  · rw [List.getLast?_append, hlast]
    rfl
  · exact (hu 'p' (List.mem_append_right before hmem)).2 rfl

/-! ## Entering an operand -/

/-- Events that enter an operand: a constant, or a function or a group around one digit. -/
inductive EntersOperand : List Event → Prop where
  | constant (k : Constant) : EntersOperand [.constant k]
  | call (f : Function) {d : Char} : d.isDigit = true →
      EntersOperand [.function f, .digit d, .paren .closing]
  | group {d : Char} : d.isDigit = true →
      EntersOperand [.paren .opening, .digit d, .paren .closing]

theorem isOperand_constant (k : Constant) : IsOperand [k.symbol] [.constant k] where
  reads := (Token.Spells.symbol k).reads
  derives := ⟨_, .constant k⟩
  first := by cases k <;> rintro _ ⟨⟩ <;> decide

theorem reads_digit_group {d : Char} (hd : d.isDigit = true) :
    ∃ x, Token.Reads ['(', d, ')'] [.opening, .number x, .closing] := by
  have hdigits : ∀ c ∈ [d], c.isDigit = true := by simpa using hd
  have hl : Token.IsLiteral [d] := (Token.isLiteral_digits hdigits).2 (List.cons_ne_nil _ _)
  have hnumber := Token.Reads.lexeme (.number hl)
    (Token.ends_before_symbol (by decide) (by decide) [d] []) Token.Spells.closing.reads
  exact ⟨_, hnumber.opening⟩

theorem isOperand_group {d : Char} (hd : d.isDigit = true) :
    ∃ us, IsOperand ['(', d, ')'] us := by
  obtain ⟨x, hreads⟩ := reads_digit_group hd
  refine ⟨_, hreads, ⟨_, .group (derives_number x).sumOfUnary⟩, ?_⟩
  rintro _ ⟨⟩
  decide

theorem isOperand_call (f : Function) {d : Char} (hd : d.isDigit = true) :
    ∃ us, IsOperand (f.name ++ ['(', d, ')']) us := by
  obtain ⟨x, hgroup⟩ := reads_digit_group hd
  have hreads := Token.Reads.lexeme (.name f)
    (Token.ends_before_symbol (by decide) (by decide) f.name [d, ')']) hgroup
  refine ⟨_, hreads, ⟨_, .call (derives_number x).sumOfUnary⟩, ?_⟩
  cases f <;> rintro _ ⟨⟩ <;> decide

namespace Entry

/-- The times sign before a value that is entered next. -/
def timesSign (e : Entry) : Text := if e.lastIs endsValue then ['*'] else []

theorem value_eq {e : Entry} (h : e.startsFresh = false) (k : Text) :
    e.value k = ⟨e.text ++ (e.timesSign ++ k), false⟩ := by
  have hresult := isResult_eq_false (Bool.eq_false_iff.1 h)
  rw [value, h, if_neg (by decide), timesSign, hresult]
  split <;> rfl

/-- A digit and the end of a group after its beginning. -/
theorem digit_closing {d : Char} (hd : d.isDigit = true) (before : Text) :
    ((Entry.mk (before ++ ['(']) false).digit d).paren .closing =
      ⟨before ++ ['(', d, ')'], false⟩ := by
  have hne : before ++ ['('] ≠ emptyText := by
    intro h
    have hlast := congrArg List.getLast? h
    rw [List.getLast?_concat] at hlast
    cases hlast
  have hkey : Event.isDigitKey d = true := by rw [Event.isDigitKey, hd, Bool.true_or]
  simp [digit, hkey, startsFresh, hne, paren]

end Entry

namespace Calculator

section

variable [MathLibrary]

/-- Events that enter an operand append its text, after a times sign if a value ends before it. -/
theorem after_entersOperand {events : List Event} (h : EntersOperand events) :
    ∃ k us, IsOperand k us ∧ ∀ c : Calculator, c.entry.startsFresh = false →
      (c.after events).entry = ⟨c.entry.text ++ (c.entry.timesSign ++ k), false⟩ := by
  cases h with
  | constant k => exact ⟨_, _, isOperand_constant k, fun c hc => c.entry.value_eq hc _⟩
  | @call f d hd =>
    obtain ⟨us, hk⟩ := isOperand_call f hd
    refine ⟨_, us, hk, fun c hc => ?_⟩
    show ((c.entry.value (f.name ++ ['('])).digit d).paren .closing = _
    rw [Entry.value_eq hc, ← List.append_assoc, ← List.append_assoc, Entry.digit_closing hd]
    simp only [List.append_assoc]
  | @group d hd =>
    obtain ⟨us, hk⟩ := isOperand_group hd
    refine ⟨_, us, hk, fun c hc => ?_⟩
    show ((c.entry.value ['(']).digit d).paren .closing = _
    rw [Entry.value_eq hc, ← List.append_assoc, Entry.digit_closing hd, List.append_assoc]

/-- An operand that is entered after an expression is multiplied by it, unless the expression ends
in a point: then no operator comes before the operand. -/
theorem parse_after_operand {c : Calculator} (hc : c.Reachable) (hresult : c.entry.isResult = false)
    (hempty : c.entry.text ≠ Entry.emptyText) {e : Expr} (hparse : Expr.parse c.entry.text = .ok e)
    {events : List Event} (hevents : EntersOperand events) :
    (¬ c.entry.lastIs (· = '.') = true →
      (∃ e', Expr.parse (c.after events).entry.text = .ok e') ∨
        Expr.parse (c.after events).entry.text = .error .nestedTooDeep) ∧
    (c.entry.lastIs (· = '.') = true →
      ∃ t, Expr.parse (c.after events).entry.text = .error (.missingOperatorBefore t)) := by
  obtain ⟨history, hc⟩ := hc
  have hcharacters : ∀ a ∈ c.entry.text, isBlank a = false ∧ a ≠ 'p' := by
    intro a ha
    rw [hc] at ha
    exact Entry.isBlank_of_isEntryCharacter (isEntryCharacter_after _ _ history a ha)
  have hfresh : c.entry.startsFresh = false := by
    simp [Entry.startsFresh, hresult, hempty]
  obtain ⟨tokens, p, hreads, hp, -⟩ := derives_of_parse hparse
  obtain ⟨a, ha, hend⟩ := endsValue_or_point hreads hp hcharacters
  obtain ⟨k, us, hk, hafter⟩ := after_entersOperand hevents
  rw [hafter c hfresh, Entry.timesSign]
  refine ⟨fun hpoint => ?_, fun hpoint => ?_⟩
  · have hvalue : Entry.endsValue a = true := by
      refine hend.resolve_right fun he => hpoint (Entry.lastIs_iff.2 ⟨a, ha, ?_⟩)
      exact decide_eq_true he
    rw [if_pos (Entry.lastIs_iff.2 ⟨a, ha, hvalue⟩)]
    exact parse_times hreads hp hk
  · have hlast : ∀ b ∈ c.entry.text.getLast?, b = '.' := fun b hb =>
      of_decide_eq_true (Entry.last_of_lastIs hpoint b hb)
    have hvalue : ¬ c.entry.lastIs Entry.endsValue = true := by
      intro h
      obtain ⟨b, hb, hbv⟩ := Entry.lastIs_iff.1 h
      rw [hlast b hb] at hbv
      exact absurd hbv (by decide)
    rw [if_neg hvalue, List.nil_append]
    exact parse_missing_operator hreads hp hk hlast

end

/-- A function after a power. -/
theorem parse_after_call :
    ((new .scientific 8).after [.digit '2', .operator .power, .digit '3']).Reachable ∧
    ((new .scientific 8).after [.digit '2', .operator .power, .digit '3']).entry =
      ⟨['2', '^', '3'], false⟩ ∧
    (∃ e, Expr.parse ['2', '^', '3'] = .ok e) ∧
    EntersOperand [.function .sin, .digit '1', .paren .closing] ∧
    ((∃ e, Expr.parse ['2', '^', '3', '*', 's', 'i', 'n', '(', '1', ')'] = .ok e) ∨
      Expr.parse ['2', '^', '3', '*', 's', 'i', 'n', '(', '1', ')'] = .error .nestedTooDeep) := by
  let c := (new .scientific 8).after [.digit '2', .operator .power, .digit '3']
  have hreachable : c.Reachable := ⟨[.digit '2', .operator .power, .digit '3'], rfl⟩
  have hevents : EntersOperand [.function .sin, .digit '1', .paren .closing] :=
    .call .sin (by decide)
  obtain ⟨e, he⟩ : ∃ e, Expr.parse ['2', '^', '3'] = .ok e :=
    ⟨.binary .power (.literal (.finite false ⟨0x4000000000000000, by decide⟩))
      (.literal (.finite false ⟨0x4008000000000000, by decide⟩)), by decide +kernel⟩
  exact ⟨hreachable, by decide, ⟨e, he⟩, hevents,
    (parse_after_operand (c := c) hreachable rfl (by decide) he hevents).1 (by decide)⟩

/-- Five and a point are an expression, and with a constant entered after them they are none: no
times sign is inserted. -/
theorem parse_constant_after_point :
    ((new .scientific 8).after [.digit '5', .digit '.']).Reachable ∧
    ((new .scientific 8).after [.digit '5', .digit '.']).entry = ⟨['5', '.'], false⟩ ∧
    Expr.parse ['5', '.'] = .ok (.literal (.finite false ⟨0x4014000000000000, by decide⟩)) ∧
    EntersOperand [.constant .pi] ∧
    (((new .scientific 8).after [.digit '5', .digit '.']).after [.constant .pi]).entry.text =
      ['5', '.', 'π'] ∧
    Expr.parse ['5', '.', 'π'] = .error (.missingOperatorBefore (.constant .pi)) :=
  ⟨⟨[.digit '5', .digit '.'], rfl⟩, by decide, by decide +kernel, .constant .pi, by decide,
    by decide +kernel⟩

end Calculator

end DeskCalculator
