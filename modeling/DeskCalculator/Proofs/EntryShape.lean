import DeskCalculator.Proofs.Reevaluating
import Mathlib.Data.List.Chain

/-!
# The shape of the entry

What the text of an entry looks like after any events, however little of it is an expression:

* `Entry.Neighbours`: no operator follows another, and no value begins right after another ends
  (`neighbours_iff`, in the classes of characters that the edits test);
* `Entry.IsShaped`: the text is not empty, all neighbours in it are such, and a result is the error
  marker or a canonical numeral;
* `isShaped_edit`, `isShaped_handle`: every edit and every event keeps this shape;
* `isShaped_after`: so every event of a new calculator leaves it.
-/

namespace DeskCalculator

/-- What is appended to a text that is not empty does not make it the zero of an empty entry. -/
theorem append_ne_emptyText {u : Text} (hne : u ≠ []) (hempty : u ≠ Entry.emptyText) (v : Text) :
    u ++ v ≠ Entry.emptyText := by
  intro h
  obtain ⟨a, rest, rfl⟩ := List.exists_cons_of_ne_nil hne
  obtain ⟨rfl, hnil⟩ := List.cons.inj h
  rw [(List.append_eq_nil_iff.1 hnil).1] at hempty
  exact hempty rfl

namespace Entry

/-- The two characters are not both operators, and not the end and the beginning of two values. -/
def Neighbours (c d : Char) : Prop :=
  ¬ (c ∈ ['+', '-', '*', '/', '%', '^'] ∧ d ∈ ['+', '-', '*', '/', '%', '^']) ∧
    ¬ ((c.isDigit = true ∨ c ∈ ['π', 'e', ')']) ∧ (d ∈ ['(', 'π'] ∨ d.isAlpha = true))

instance (c d : Char) : Decidable (Neighbours c d) := inferInstanceAs (Decidable (_ ∧ _))

/-- A character that begins a value other than a number. -/
def beginsValue (c : Char) : Bool := c = '(' || c = 'π' || c.isAlpha

/-- The editor goes by these classes of characters. -/
theorem neighbours_iff {c d : Char} :
    Neighbours c d ↔ ¬ (isOperatorChar c = true ∧ isOperatorChar d = true) ∧
      ¬ (endsValue c = true ∧ beginsValue d = true) := by
  have hoperator : ∀ a, isOperatorChar a = true ↔ a ∈ ['+', '-', '*', '/', '%', '^'] := fun a => by
    simp [isOperatorChar, Operator.all, Operator.symbol, @eq_comm _ _ a]
  have hend : endsValue c = true ↔ c.isDigit = true ∨ c ∈ ['π', 'e', ')'] := by
    simp [endsValue, or_assoc]
  have hbegin : beginsValue d = true ↔ d ∈ ['(', 'π'] ∨ d.isAlpha = true := by
    simp [beginsValue]
  rw [Neighbours, hoperator, hoperator, hend, hbegin]

/-- The shape of an entry whose results have at most `precision` decimal places. -/
structure IsShaped (precision : Nat) (e : Entry) : Prop where
  ne_nil : e.text ≠ []
  neighbours : e.text.IsChain Neighbours
  result : e.isResult = true → e.text = Outcome.errorMarker ∨
    ∃ n : Numeral, n.IsCanonical precision ∧ e.text = n.text

/-! ## Characters -/

theorem isOperatorChar_iff {c : Char} : isOperatorChar c = true ↔ ∃ o : Operator, c = o.symbol := by
  rw [isOperatorChar, List.any_eq_true]
  constructor
  · rintro ⟨o, -, ho⟩
    exact ⟨o, (of_decide_eq_true ho).symm⟩
  · rintro ⟨o, rfl⟩
    exact ⟨o, by cases o <;> decide, decide_eq_true rfl⟩

theorem isOperatorChar_symbol (o : Operator) : isOperatorChar o.symbol = true :=
  isOperatorChar_iff.2 ⟨o, rfl⟩

theorem not_value_of_isOperatorChar {c : Char} (h : isOperatorChar c = true) :
    endsValue c = false ∧ beginsValue c = false := by
  obtain ⟨o, rfl⟩ := isOperatorChar_iff.1 h
  cases o <;> decide

theorem not_value_of_isNumberPart {c : Char} (h : Token.isNumberPart c = true) :
    isOperatorChar c = false ∧ beginsValue c = false := by
  have halpha := not_isAlpha_of_isNumberPart h
  have hne : ∀ d : Char, Token.isNumberPart d = false → c ≠ d := by
    rintro d hd rfl
    rw [h] at hd
    cases hd
  refine ⟨Bool.eq_false_iff.2 fun hop => ?_, ?_⟩
  · obtain ⟨o, rfl⟩ := isOperatorChar_iff.1 hop
    exact hne o.symbol (by cases o <;> decide) rfl
  · simp [beginsValue, halpha, hne '(' (by decide), hne 'π' (by decide)]

/-- An operator may follow anything but an operator. -/
theorem neighbours_operator {c d : Char} (hc : isOperatorChar c = false)
    (hd : isOperatorChar d = true) : Neighbours c d := by
  simp [neighbours_iff, hc, (not_value_of_isOperatorChar hd).2]

/-- What is neither an operator nor the beginning of a value may follow anything. -/
theorem neighbours_of_neither {c d : Char} (h : isOperatorChar d = false ∧ beginsValue d = false) :
    Neighbours c d := by
  simp [neighbours_iff, h]

/-- A value may follow anything but the end of a value. -/
theorem neighbours_value {c d : Char} (hc : endsValue c = false) (hd : isOperatorChar d = false) :
    Neighbours c d := by
  simp [neighbours_iff, hc, hd]

/-! ## Texts -/

variable {text k : Text}

theorem lastIs_iff {e : Entry} {p : Char → Bool} :
    e.lastIs p = true ↔ ∃ c ∈ e.text.getLast?, p c = true := by
  rw [lastIs, Option.any_eq_true]
  rfl

theorem last_of_not_lastIs {e : Entry} {p : Char → Bool} (h : ¬ e.lastIs p = true) :
    ∀ c ∈ e.text.getLast?, p c = false := by
  intro c hc
  refine Bool.eq_false_iff.2 fun hp => h (lastIs_iff.2 ⟨c, hc, hp⟩)

theorem last_of_lastIs {e : Entry} {p : Char → Bool} (h : e.lastIs p = true) :
    ∀ c ∈ e.text.getLast?, p c = true := by
  obtain ⟨c, hc, hp⟩ := lastIs_iff.1 h
  intro c' hc'
  rwa [Option.mem_unique hc' hc]

/-- One more character. -/
theorem chain_concat {c : Char} (h : text.IsChain Neighbours)
    (hc : ∀ a ∈ text.getLast?, Neighbours a c) : (text ++ [c]).IsChain Neighbours := by
  refine h.append (.singleton c) fun a ha d hd => ?_
  obtain rfl := Option.mem_some_iff.1 hd
  exact hc a ha

/-- An operator in the place of the one at the end. -/
theorem chain_replace {d : Char} (h : text.IsChain Neighbours)
    (hlast : ∀ c ∈ text.getLast?, isOperatorChar c = true) (hd : isOperatorChar d = true) :
    (text.dropLast ++ [d]).IsChain Neighbours := by
  refine chain_concat h.dropLast fun a ha => neighbours_operator ?_ hd
  have hne : text ≠ [] := by
    rintro rfl
    cases ha
  have hlast' := hlast _ (List.getLast?_eq_some_getLast hne)
  rw [← List.dropLast_append_getLast hne] at h
  have hpair := (List.isChain_append.1 h).2.2 a ha _ rfl
  exact Bool.eq_false_iff.2 fun ha' => (neighbours_iff.1 hpair).1 ⟨ha', hlast'⟩

/-- Digits and points after a sign, or after nothing. -/
theorem chain_number (negative : Bool) {digits : Text}
    (h : ∀ c ∈ digits, Token.isNumberPart c = true) :
    ((if negative then ['-'] else []) ++ digits).IsChain Neighbours := by
  have hdigits : digits.IsChain Neighbours := by
    refine (List.pairwise_of_forall_mem_list fun _ _ d hd => ?_).isChain
    exact neighbours_of_neither (not_value_of_isNumberPart (h d hd))
  refine List.IsChain.append (by cases negative <;> simp) hdigits fun c _ d hd => ?_
  exact neighbours_of_neither (not_value_of_isNumberPart (h d (List.mem_of_mem_head? hd)))

/-! ## Edits -/

variable {precision : Nat} {e : Entry}

theorem isShaped_text (hne : text ≠ []) (h : text.IsChain Neighbours) :
    IsShaped precision ⟨text, false⟩ :=
  ⟨hne, h, nofun⟩

theorem isShaped_empty : IsShaped precision empty :=
  isShaped_text (List.cons_ne_nil _ _) (.singleton '0')

theorem isResult_eq_false (h : ¬ e.startsFresh = true) : e.isResult = false := by
  rw [startsFresh, Bool.or_eq_true, not_or] at h
  exact Bool.eq_false_iff.2 h.1

theorem isShaped_digit (h : e.IsShaped precision) (c : Char) : (e.digit c).IsShaped precision := by
  unfold digit
  split
  · next hkey =>
    split
    · exact isShaped_text (List.cons_ne_nil _ _) (.singleton c)
    · next hfresh =>
      rw [isResult_eq_false hfresh]
      refine isShaped_text (List.concat_ne_nil _ _) (chain_concat h.neighbours fun a _ => ?_)
      rw [Event.isDigitKey, Bool.or_comm] at hkey
      exact neighbours_of_neither (not_value_of_isNumberPart hkey)
  · exact h

theorem isShaped_operator (h : e.IsShaped precision) (o : Operator) :
    (e.operator o).IsShaped precision := by
  have ho := isOperatorChar_symbol o
  unfold operator
  split
  · exact isShaped_text (List.cons_ne_nil _ _) (.singleton _)
  · split
    · next hopen =>
      refine isShaped_text (List.concat_ne_nil _ _) (chain_concat h.neighbours fun a ha => ?_)
      have : a = '(' := of_decide_eq_true (last_of_lastIs hopen.2 a ha)
      exact neighbours_operator (this ▸ by decide) ho
    · split
      · next hlast =>
        exact isShaped_text (List.concat_ne_nil _ _)
          (chain_replace h.neighbours (last_of_lastIs hlast) ho)
      · next hlast =>
        refine isShaped_text (List.concat_ne_nil _ _) (chain_concat h.neighbours fun a ha => ?_)
        exact neighbours_operator (last_of_not_lastIs hlast a ha) ho

/-- A value is set apart by an operator where it would follow another. -/
theorem isShaped_value (h : e.IsShaped precision) (hne : k ≠ []) (hk : k.IsChain Neighbours)
    (hhead : ∀ d ∈ k.head?, isOperatorChar d = false) : (e.value k).IsShaped precision := by
  unfold value
  split
  · exact isShaped_text hne hk
  · next hfresh =>
    rw [isResult_eq_false hfresh]
    split
    · next hlast =>
      have hstar : ('*' :: k).IsChain Neighbours :=
        hk.cons fun d hd => neighbours_value (by decide) (hhead d hd)
      refine isShaped_text (List.append_ne_nil_of_left_ne_nil h.ne_nil _)
        (h.neighbours.append hstar fun a ha d hd => ?_)
      obtain rfl := Option.mem_some_iff.1 hd
      refine neighbours_operator (Bool.eq_false_iff.2 fun hop => ?_) (by decide)
      have hend := last_of_lastIs hlast a ha
      rw [(not_value_of_isOperatorChar hop).1] at hend
      cases hend
    · next hlast =>
      refine isShaped_text (List.append_ne_nil_of_left_ne_nil h.ne_nil _)
        (h.neighbours.append hk fun a ha d hd => ?_)
      exact neighbours_value (last_of_not_lastIs hlast a ha) (hhead d hd)

theorem isShaped_paren (h : e.IsShaped precision) (p : Paren) : (e.paren p).IsShaped precision := by
  cases p with
  | opening =>
    exact isShaped_value h (List.cons_ne_nil _ _) (.singleton _) (by rintro _ ⟨⟩; decide)
  | closing =>
    refine isShaped_text (List.concat_ne_nil _ _) (chain_concat h.neighbours fun a _ => ?_)
    exact neighbours_of_neither (by decide)

theorem isShaped_deleteLast (h : e.IsShaped precision) : e.deleteLast.IsShaped precision := by
  unfold deleteLast
  split
  · exact isShaped_empty
  · next hkeep =>
    refine isShaped_text (List.ne_nil_of_length_pos ?_) h.neighbours.dropLast
    rw [List.length_dropLast]
    omega

/-- Every edit keeps the shape. -/
theorem isShaped_edit (h : e.IsShaped precision) (event : Event) :
    (Calculator.edit e event).IsShaped precision := by
  cases event with
  | digit c => exact isShaped_digit h c
  | operator o => exact isShaped_operator h o
  | function f =>
    exact isShaped_value h (List.concat_ne_nil _ _) (by cases f <;> decide)
      (by cases f <;> rintro _ ⟨⟩ <;> decide)
  | constant k =>
    exact isShaped_value h (List.cons_ne_nil _ _) (.singleton _)
      (by cases k <;> rintro _ ⟨⟩ <;> decide)
  | paren p => exact isShaped_paren h p
  | clear => exact isShaped_empty
  | backspace => exact isShaped_deleteLast h
  | evaluate => exact h

/-! ## Results -/

theorem chain_numeral {n : Numeral} (h : n.IsCanonical precision) :
    n.text.IsChain Neighbours := by
  rw [Numeral.text, List.append_assoc]
  refine chain_number n.negative fun c hc => ?_
  rcases List.mem_append.1 hc with hc | hc
  · exact isNumberPart_of_isDigit (h.whole_digits c hc)
  · split at hc
    · cases hc
    · rcases List.mem_cons.1 hc with rfl | hc
      · decide
      · exact isNumberPart_of_isDigit (h.fraction_digits c hc)

/-- The text of an outcome is the error marker or a canonical numeral. -/
theorem display_evaluate [MathLibrary] (text : Text) (precision : Nat) :
    (evaluate text).display precision = Outcome.errorMarker ∨
      ∃ n : Numeral, n.IsCanonical precision ∧ (evaluate text).display precision = n.text := by
  cases ho : evaluate text with
  | error cause => exact .inl rfl
  | ok v =>
    obtain ⟨negative, m, rfl⟩ := finite_of_evaluate ho
    exact .inr (Double.isCanonical_display negative m precision)

theorem isShaped_outcome [MathLibrary] (text : Text) :
    IsShaped precision ⟨(evaluate text).display precision, true⟩ := by
  have hdisplay := display_evaluate text precision
  refine ⟨(evaluate text).display_ne_nil precision, ?_, fun _ => hdisplay⟩
  show ((evaluate text).display precision).IsChain Neighbours
  rcases hdisplay with h | ⟨n, hn, h⟩
  · rw [h]
    decide
  · rw [h]
    exact chain_numeral hn

end Entry

namespace Calculator

variable [MathLibrary]

/-- Every event keeps the shape of the entry. -/
theorem isShaped_handle {c : Calculator} (h : c.entry.IsShaped c.precision) (event : Event) :
    (c.handle event).calculator.entry.IsShaped c.precision := by
  unfold handle
  split
  · rw [evaluate_eq]
    exact Entry.isShaped_outcome c.entry.text
  · exact Entry.isShaped_edit h event

/-- Events keep the shape of the entry. -/
theorem isShaped_events {c : Calculator} (h : c.entry.IsShaped c.precision) (events : List Event) :
    (c.after events).entry.IsShaped c.precision := by
  induction events generalizing c with
  | nil => exact h
  | cons event events ih =>
    rw [after_cons, ← c.precision_handle event]
    refine ih ?_
    rw [c.precision_handle event]
    exact isShaped_handle h event

/-- Whatever the events of a new calculator, its entry is not empty, no two operators and no end and
beginning of two values are neighbours in it, and a result is the error marker or a canonical
numeral. -/
theorem isShaped_after (mode : Mode) (precision : Nat) (events : List Event) :
    ((new mode precision).after events).entry.IsShaped precision := by
  have hstart : (new mode precision).entry.IsShaped precision := Entry.isShaped_empty
  exact isShaped_events (c := new mode precision) hstart events

end Calculator

end DeskCalculator
