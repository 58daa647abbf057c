import DeskCalculator.Proofs.NewEntry
import DeskCalculator.Proofs.Typing

/-!
# Entering a number

Digits and points that begin an entry are the number that they spell. A zero at the front is an empty
entry, so that whatever follows takes its place:

* `dropZeros`: a text without the zeros at its front;
* `digits_fresh`: the text of the entry after digits and points;
* `literalDecimal_dropZeros`, `isLiteral_dropZeros`: without the zeros a literal is of the same
  decimal, and is a literal still unless nothing or only a point is left;
* `type_number`: the outcome of the entry is the one of the literal, except after zeros and a point,
  which leave a lone point.
-/

namespace DeskCalculator

/-- The text without the zeros at its front. -/
def dropZeros (text : Text) : Text := text.dropWhile (· = '0')

/-! ## The entry after digits and points -/

namespace Entry

variable {u w : Text}

/-- Behind anything but a zero at the front, digits and points are appended. -/
theorem digits_typed (hw : ∀ c ∈ w, Token.isNumberPart c = true)
    (hzero : (u ++ w).head? ≠ some '0') : w.foldl digit (typed u) = typed (u ++ w) := by
  induction w generalizing u with
  | nil => rw [List.append_nil, List.foldl_nil]
  | cons c w ih =>
    obtain ⟨hc, hw⟩ := List.forall_mem_cons.1 hw
    have hkey := (Event.ofKey?_digit .standard hc).1
    have happend : u ++ c :: w = (u ++ [c]) ++ w := by simp
    rw [List.foldl_cons, digit_typed (ne_emptyText hzero) hkey, happend]
    exact ih hw (happend ▸ hzero)

/-- A zero leaves the entry empty. -/
theorem digit_zero : Entry.empty.digit '0' = .empty := by decide

theorem digits_empty (hw : ∀ c ∈ w, Token.isNumberPart c = true) :
    w.foldl digit .empty = typed (dropZeros w) := by
  induction w with
  | nil => rfl
  | cons c w ih =>
    obtain ⟨hc, hrest⟩ := List.forall_mem_cons.1 hw
    by_cases hzero : c = '0'
    · rw [hzero, List.foldl_cons, digit_zero, ih hrest, dropZeros, dropZeros,
        List.dropWhile_cons_of_pos (by decide)]
    · rw [dropZeros, List.dropWhile_cons_of_neg (by simpa using hzero), ← typed_nil,
        digits_typed hw (by simpa using hzero), List.nil_append]

/-- An entry that begins is empty, or a result that is replaced. -/
theorem digits_fresh {e : Entry} (he : e = .empty ∨ e.isResult = true) (hne : w ≠ [])
    (hw : ∀ c ∈ w, Token.isNumberPart c = true) : w.foldl digit e = typed (dropZeros w) := by
  rw [← digits_empty hw]
  rcases he with rfl | he
  · rfl
  · obtain ⟨c, w, rfl⟩ := List.exists_cons_of_ne_nil hne
    have hkey := (Event.ofKey?_digit .standard (hw c List.mem_cons_self)).1
    have hstarts : (Event.digit c).startsEntry = true := hkey
    have hfirst : e.digit c = Entry.empty.digit c := edit_of_startsEntry he hstarts
    rw [List.foldl_cons, List.foldl_cons, hfirst]

end Entry

theorem Calculator.entry_after_digits [MathLibrary] (c : Calculator) (w : Text) :
    (c.after (w.map .digit)).entry = w.foldl Entry.digit c.entry := by
  induction w generalizing c with
  | nil => rfl
  | cons d w ih =>
    rw [List.map_cons, after_cons, ih, List.foldl_cons]
    rfl

/-! ## Zeros at the front of a literal -/

namespace Token

theorem literalDecimal_dropZeros (literal : Text) :
    literalDecimal (dropZeros literal) = literalDecimal literal := by
  induction literal with
  | nil => rfl
  | cons c rest ih =>
    by_cases hzero : c = '0'
    · subst hzero
      rw [dropZeros, List.dropWhile_cons_of_pos (by decide)]
      refine ih.trans ?_
      rw [literalDecimal, literalDecimal, List.filter_cons_of_pos (by decide),
        List.dropWhile_cons_of_pos (by decide), Nat.ofDigitChars_cons]
      rfl
    · rw [dropZeros, List.dropWhile_cons_of_neg (by simpa using hzero)]

/-- A literal without the zeros at its front is a literal, or nothing or a point is left of it. -/
theorem isLiteral_dropZeros {literal : Text} (h : IsLiteral literal) :
    dropZeros literal = [] ∨ dropZeros literal = ['.'] ∨ IsLiteral (dropZeros literal) := by
  have hsuffix : dropZeros literal <:+ literal := List.dropWhile_suffix _
  have hpart : ∀ c ∈ dropZeros literal, c = '.' ∨ c.isDigit = true := fun c hc =>
    h.1 c (hsuffix.subset hc)
  have hpoints : (dropZeros literal).count '.' ≤ 1 := (hsuffix.sublist.count_le '.').trans h.2.2
  by_cases hdigit : ∃ c ∈ dropZeros literal, c.isDigit = true
  · exact .inr (.inr ⟨hpart, hdigit, hpoints⟩)
  · have hpoint : ∀ c ∈ dropZeros literal, c = '.' := fun c hc => by
      have hnone : c.isDigit = false := Bool.eq_false_iff.2 fun hd => hdigit ⟨c, hc, hd⟩
      simpa [hnone] using hpart c hc
    have hall := List.eq_replicate_iff.2 ⟨rfl, hpoint⟩
    rw [hall, List.count_replicate_self] at hpoints
    rcases Nat.le_one_iff_eq_zero_or_eq_one.1 hpoints with hnil | hone
    · exact .inl (List.length_eq_zero_iff.1 hnil)
    · rw [hone] at hall
      exact .inr (.inl hall)

end Token

namespace Calculator

/-- Digits and points that are entered into an empty entry or in place of a result are evaluated as
the literal that they spell, unless they are zeros and a point behind them. As a zero is an empty
entry, those leave the point alone, which is no number, while the literal is zero. -/
theorem type_number [MathLibrary] (c : Calculator) (hc : c.entry = .empty ∨ c.entry.isResult = true) {w : Text}
    (hw : Token.IsLiteral w) :
    (dropZeros w ≠ ['.'] → (c.after (w.map .digit)).outcome = DeskCalculator.evaluate w) ∧
      (dropZeros w = ['.'] → (c.after (w.map .digit)).display = ['.'] ∧
        (c.after (w.map .digit)).outcome = .error (.parse (.invalidNumber ['.'])) ∧
        DeskCalculator.evaluate w = .ok (.zero false)) := by
  have hentry : (c.after (w.map .digit)).entry = .typed (dropZeros w) := by
    rw [entry_after_digits, Entry.digits_fresh hc hw.ne_nil hw.isNumberPart]
  have hvalue := evaluate_literal hw
  rw [← Token.literalDecimal_dropZeros w] at hvalue
  constructor
  · intro hpoint
    rw [outcome, hentry, hvalue]
    rcases Token.isLiteral_dropZeros hw with hnil | hlone | hliteral
    · have hzero : Token.IsLiteral ['0'] :=
        (Token.isLiteral_digits (forall_mem_of_all (by decide))).2 (List.cons_ne_nil _ _)
      have hdecimal : Token.literalDecimal [] = Token.literalDecimal ['0'] :=
        Token.literalDecimal_dropZeros ['0']
      rw [hnil, hdecimal]
      exact evaluate_literal hzero
    · exact absurd hlone hpoint
    · rw [Entry.typed, if_neg hliteral.ne_nil]
      exact evaluate_literal hliteral
  · intro hpoint
    rw [hpoint] at hentry hvalue
    have hnearest : (Token.literalDecimal ['.']).nearest false = .zero false := by decide +kernel
    have hlone : Expr.parse ['.'] = .error (.invalidNumber ['.']) := by decide +kernel
    have htyped : (Entry.typed ['.']).text = ['.'] := rfl
    refine ⟨?_, ?_, ?_⟩
    · rw [display, hentry, htyped]
    · rw [outcome, hentry, htyped, DeskCalculator.evaluate, evaluateWith, hlone]
    · rw [hvalue, hnearest]
      rfl

/-- Zeros, a point and digits in place of a result. -/
theorem type_number_result :
    let c := (new .standard 8).after [.digit '5', .evaluate]
    c.entry.isResult = true ∧ Token.IsLiteral ['0', '0', '.', '5', '0'] ∧
      (c.after (['0', '0', '.', '5', '0'].map .digit)).outcome =
        DeskCalculator.evaluate ['0', '0', '.', '5', '0'] := by
  intro c
  have hw : Token.IsLiteral ['0', '0', '.', '5', '0'] :=
    (@Token.isLiteral_point ['0', '0'] ['5', '0'] (forall_mem_of_all (by decide))).2 (by decide)
  have hc : c.entry.isResult = true := by decide +kernel
  exact ⟨hc, hw, (type_number c (.inr hc) hw).1 (by decide)⟩

/-- A zero and a point into an empty entry: the point is left alone. -/
theorem type_zero_point :
    Token.IsLiteral ['0', '.'] ∧ (new .standard 8).entry = .empty ∧
      ((new .standard 8).after (['0', '.'].map .digit)).outcome =
        .error (.parse (.invalidNumber ['.'])) ∧
      DeskCalculator.evaluate ['0', '.'] = .ok (.zero false) ∧
      ((new .standard 8).after (['0', '.'].map .digit)).outcome ≠
        DeskCalculator.evaluate ['0', '.'] :=
  ⟨(@Token.isLiteral_point ['0'] [] (forall_mem_of_all (by decide))).2 (by decide), rfl,
    by decide +kernel, by decide +kernel, by decide +kernel⟩

end Calculator

end DeskCalculator
