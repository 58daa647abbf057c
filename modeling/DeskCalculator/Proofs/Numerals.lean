import DeskCalculator.Display
import DeskCalculator.Proofs.Nearest
import DeskCalculator.Proofs.Scanning

/-!
# Decimals as they are written

A `Numeral` has the parts of a decimal as it is written. It is canonical if no digit in it could be
left out, it has no exponent, and no sign on a zero: the one form in which a display writes a number
(`Numeral.IsCanonical`). A decimal without zeros at the end of its places is written as a canonical
numeral, and read again from it:

* `trim_spec`, `isTrimmed_trim`, `trim_scale`: leaving out zeros keeps the number;
* `text_numeral`, `isCanonical_numeral`: the text of a decimal as a numeral;
* `ofDigits_numeral`: the digits of a decimal are those of that decimal;
* `isLiteral_text`: the text is a literal of the decimal.
-/

namespace DeskCalculator

/-! ## Canonical numerals -/

/-- The parts of a decimal as it is written. -/
structure Numeral where
  negative : Bool
  whole : Text
  fraction : Text
deriving DecidableEq

namespace Numeral

/-- The numeral as it is written. -/
def text (n : Numeral) : Text :=
  (if n.negative then ['-'] else []) ++ n.whole ++
    (if n.fraction = [] then [] else '.' :: n.fraction)

/-- No digit is superfluous, at most `places` follow the point, and zero has no sign. -/
structure IsCanonical (places : Nat) (n : Numeral) : Prop where
  whole_ne_nil : n.whole ≠ []
  whole_digits : ∀ c ∈ n.whole, c.isDigit = true
  fraction_digits : ∀ c ∈ n.fraction, c.isDigit = true
  no_leading_zero : n.whole.head? = some '0' → n.whole = ['0']
  no_trailing_zero : n.fraction.getLast? ≠ some '0'
  length_fraction_le : n.fraction.length ≤ places
  zero_unsigned : n.whole = ['0'] → n.fraction = [] → n.negative = false

end Numeral

/-! ## Digits -/

theorem isDigit_of_mem_digits {n : Nat} : ∀ c ∈ Nat.toDigits 10 n, c.isDigit = true :=
  fun _ hc => Nat.isDigit_of_mem_toDigits (by decide) (by decide) hc

/-- No number but zero begins with the digit zero. -/
theorem head?_toDigits_ne_zero {n : Nat} (hn : n ≠ 0) : (Nat.toDigits 10 n).head? ≠ some '0' := by
  induction n using Nat.strongRecOn with
  | ind n ih =>
    rcases Nat.lt_or_ge n 10 with hlt | hge
    · rw [Nat.toDigits_of_lt_base hlt]
      simpa using hn
    · have h := ih (n / 10) (by omega) (by omega)
      rw [Nat.toDigits_of_base_le (by decide) hge]
      obtain ⟨c, l, he⟩ := List.exists_cons_of_ne_nil (Nat.toDigits_ne_nil (n := n / 10) (b := 10))
      rw [he] at h ⊢
      exact h

theorem getLast?_toDigits (n : Nat) : (Nat.toDigits 10 n).getLast? = some (n % 10).digitChar := by
  rcases Nat.lt_or_ge n 10 with hlt | hge
  · rw [Nat.toDigits_of_lt_base hlt, Nat.mod_eq_of_lt hlt]
    rfl
  · rw [Nat.toDigits_of_base_le (by decide) hge, List.getLast?_concat]

theorem toDigits_eq_zero_iff {n : Nat} : Nat.toDigits 10 n = ['0'] ↔ n = 0 := by
  refine ⟨fun h => ?_, fun h => by rw [h, Nat.toDigits_zero]⟩
  by_contra hn
  exact head?_toDigits_ne_zero hn (by rw [h]; rfl)

namespace Decimal

theorem isDigit_of_mem_paddedDigits {width n : Nat} :
    ∀ c ∈ paddedDigits width n, c.isDigit = true := by
  intro c hc
  rw [paddedDigits, List.leftpad, List.mem_append] at hc
  rcases hc with hc | hc
  · rw [List.eq_of_mem_replicate hc]
    decide
  · exact isDigit_of_mem_digits c hc

theorem length_paddedDigits {width n : Nat} (hw : 0 < width) (hn : n < Nat.pow 10 width) :
    (paddedDigits width n).length = width := by
  have := (Nat.length_toDigits_le_iff (b := 10) (n := n) (by decide) hw).2 hn
  rw [paddedDigits, List.length_leftpad]
  omega

theorem getLast?_paddedDigits (width n : Nat) :
    (paddedDigits width n).getLast? = some (n % 10).digitChar := by
  rw [paddedDigits, List.leftpad, List.getLast?_append, getLast?_toDigits]
  rfl

theorem ofDigitChars_paddedDigits {width n : Nat} (hw : 0 < width) (hn : n < Nat.pow 10 width)
    (m : Nat) :
    Nat.ofDigitChars 10 (paddedDigits width n) m = m * Nat.pow 10 width + n := by
  have hlen : (paddedDigits width n).length = width := length_paddedDigits hw hn
  have hzero : Nat.ofDigitChars 10 (paddedDigits width n) 0 = n := by
    rw [paddedDigits, List.leftpad, Nat.ofDigitChars_append, Nat.ofDigitChars_replicate_zero,
      Nat.mul_zero, Nat.ofDigitChars_ten_toDigits]
  rw [Nat.ofDigitChars_eq_ofDigitChars_zero, hlen, hzero, Nat.mul_comm]
  rfl

/-! ## Zeros at the end -/

/-- No digit after the point could be left out. -/
def IsTrimmed (d : Decimal) : Prop := d.places = 0 ∨ d.coefficient % 10 ≠ 0

theorem trimGo_spec (coefficient places : Nat) :
    ∃ k, coefficient = (trim.go coefficient places).coefficient * Nat.pow 10 k ∧
      places = (trim.go coefficient places).places + k := by
  induction places generalizing coefficient with
  | zero => exact ⟨0, (Nat.mul_one _).symm, rfl⟩
  | succ places ih =>
    rw [trim.go]
    split
    · next h =>
      obtain ⟨k, hc, hp⟩ := ih (coefficient / 10)
      refine ⟨k + 1, ?_, by omega⟩
      rw [show Nat.pow 10 (k + 1) = Nat.pow 10 k * 10 from rfl, ← Nat.mul_assoc, ← hc]
      omega
    · exact ⟨0, (Nat.mul_one _).symm, rfl⟩

/-- Leaving out zeros keeps the number. -/
theorem trim_spec (d : Decimal) :
    ∃ k, d.coefficient = d.trim.coefficient * Nat.pow 10 k ∧ d.places = d.trim.places + k :=
  trimGo_spec d.coefficient d.places

theorem isTrimmed_trim (d : Decimal) : d.trim.IsTrimmed := by
  suffices h : ∀ coefficient places, (trim.go coefficient places).IsTrimmed from
    h d.coefficient d.places
  intro coefficient places
  induction places generalizing coefficient with
  | zero => exact .inl rfl
  | succ places ih =>
    rw [trim.go]
    split
    · exact ih _
    · next h => exact .inr h

theorem places_trim_le (d : Decimal) : d.trim.places ≤ d.places := by
  obtain ⟨k, -, hp⟩ := d.trim_spec
  omega

/-- Zeros that are added are left out again. -/
theorem trim_scale (d : Decimal) (more : Nat) :
    trim ⟨d.coefficient * Nat.pow 10 more, d.places + more⟩ = d.trim := by
  show trim.go (d.coefficient * Nat.pow 10 more) (d.places + more) = _
  induction more with
  | zero => exact congrArg (trim.go · d.places) (Nat.mul_one d.coefficient)
  | succ more ih =>
    have e : d.coefficient * Nat.pow 10 (more + 1) = d.coefficient * Nat.pow 10 more * 10 := by
      rw [show Nat.pow 10 (more + 1) = Nat.pow 10 more * 10 from rfl, Nat.mul_assoc]
    rw [e, ← Nat.add_assoc, trim.go, if_pos (Nat.mul_mod_left ..),
      Nat.mul_div_cancel _ (by decide), ih]

/-- A whole number has no places left. -/
theorem trim_whole (n places : Nat) : trim ⟨n * Nat.pow 10 places, places⟩ = ⟨n, 0⟩ := by
  have h := trim_scale ⟨n, 0⟩ places
  rwa [Nat.zero_add] at h

theorem rank_trim (d : Decimal) : d.trim.rank = d.rank := by
  obtain ⟨k, hc, hp⟩ := d.trim_spec
  have hpow : Nat.pow 10 d.places = Nat.pow 10 d.trim.places * Nat.pow 10 k := by
    rw [hp]
    exact Nat.pow_add 10 ..
  rw [rank, rank, hpow, hc, Nat.mul_assoc, Nat.mul_comm (Nat.pow 10 k), ← Nat.mul_assoc,
    nearestRank_scale _ _ (power_pos (by decide) k)]

/-! ## The text of a decimal -/

/-- The parts of the text of a decimal, with a sign. -/
def numeral (negative : Bool) (d : Decimal) : Numeral where
  negative
  whole := Nat.toDigits 10 (d.coefficient / Nat.pow 10 d.places)
  fraction :=
    if d.places = 0 then [] else paddedDigits d.places (d.coefficient % Nat.pow 10 d.places)

theorem length_fraction (negative : Bool) (d : Decimal) :
    (d.numeral negative).fraction.length = d.places := by
  unfold numeral
  by_cases hp : d.places = 0
  · simp [hp]
  · rw [if_neg hp, length_paddedDigits (by omega) (Nat.mod_lt _ (power_pos (by decide) _))]

theorem fraction_eq_nil_iff {negative : Bool} {d : Decimal} :
    (d.numeral negative).fraction = [] ↔ d.places = 0 := by
  rw [← List.length_eq_zero_iff, length_fraction]

theorem text_numeral (negative : Bool) (d : Decimal) :
    (d.numeral negative).text = withSign negative d.text := by
  have hsign : ∀ t : Text, (if negative then ['-'] else []) ++ t = withSign negative t := by
    intro t
    cases negative <;> rfl
  rw [Numeral.text, List.append_assoc, show (d.numeral negative).negative = negative from rfl,
    hsign]
  congr 1
  by_cases hp : d.places = 0
  · rw [if_pos (fraction_eq_nil_iff.2 hp), List.append_nil, text, if_pos hp, numeral, hp]
    exact congrArg (Nat.toDigits 10) (Nat.div_one _)
  · rw [if_neg (mt fraction_eq_nil_iff.1 hp), text, if_neg hp, numeral, if_neg hp]

/-- Only zero is written as zero. -/
theorem text_eq_zero_iff {d : Decimal} (h : d.IsTrimmed) : d.text = ['0'] ↔ d.coefficient = 0 := by
  by_cases hp : d.places = 0
  · rw [text, if_pos hp, toDigits_eq_zero_iff]
  · have hne : d.coefficient ≠ 0 := fun h0 => h.resolve_left hp (by rw [h0])
    rw [iff_false_right hne, text, if_neg hp]
    intro he
    rcases List.append_eq_singleton_iff.1 he with ⟨hnil, -⟩ | ⟨-, hnil⟩
    · exact Nat.toDigits_ne_nil hnil
    · cases hnil

theorem minus_notMem_text (d : Decimal) : '-' ∉ d.text := by
  intro h
  unfold text at h
  split at h
  · exact absurd (isDigit_of_mem_digits _ h) (by decide)
  · rcases List.mem_append.1 h with h | h
    · exact absurd (isDigit_of_mem_digits _ h) (by decide)
    · rcases List.mem_cons.1 h with h | h
      · exact absurd h (by decide)
      · exact absurd (isDigit_of_mem_paddedDigits _ h) (by decide)

/-- A decimal without zeros at the end is written canonically. -/
theorem isCanonical_numeral {negative : Bool} {d : Decimal} {places : Nat} (ht : d.IsTrimmed)
    (hp : d.places ≤ places) (hs : d.coefficient = 0 → negative = false) :
    (d.numeral negative).IsCanonical places where
  whole_ne_nil := Nat.toDigits_ne_nil
  whole_digits := isDigit_of_mem_digits
  fraction_digits := by
    intro c hc
    unfold numeral at hc
    by_cases h0 : d.places = 0
    · simp [h0] at hc
    · rw [if_neg h0] at hc
      exact isDigit_of_mem_paddedDigits c hc
  no_leading_zero := by
    intro h
    by_contra hne
    exact head?_toDigits_ne_zero (mt toDigits_eq_zero_iff.2 hne) h
  no_trailing_zero := by
    unfold numeral
    by_cases h0 : d.places = 0
    · simp [h0]
    · have hdvd : 10 ∣ Nat.pow 10 d.places := dvd_pow_self 10 h0
      rw [if_neg h0, getLast?_paddedDigits, Nat.mod_mod_of_dvd _ hdvd]
      simpa using ht.resolve_left h0
  length_fraction_le := by rwa [length_fraction]
  zero_unsigned := by
    intro hw hf
    have h0 := fraction_eq_nil_iff.1 hf
    refine hs ?_
    have := toDigits_eq_zero_iff.1 hw
    rw [h0] at this
    exact (Nat.div_one _).symm.trans this

/-- The digits of a decimal are those of that decimal. -/
theorem ofDigits_numeral (negative : Bool) (d : Decimal) :
    ofDigits (d.numeral negative).whole (d.numeral negative).fraction = d := by
  unfold numeral
  by_cases hp : d.places = 0
  · simp only [hp, if_pos, ofDigits, List.append_nil, List.length_nil]
    rw [show Nat.pow 10 0 = 1 from rfl, Nat.div_one, Nat.ofDigitChars_ten_toDigits, ← hp]
  · have hlt := Nat.mod_lt d.coefficient (power_pos (show 0 < 10 by decide) d.places)
    rw [if_neg hp, ofDigits, Nat.ofDigitChars_append, Nat.ofDigitChars_ten_toDigits,
      ofDigitChars_paddedDigits (by omega) hlt, length_paddedDigits (by omega) hlt,
      Nat.div_add_mod']

/-- The text of a decimal is a literal, and the one of that decimal. -/
theorem isLiteral_text (d : Decimal) :
    Token.IsLiteral d.text ∧ Token.literalDecimal d.text = d := by
  have hread := d.ofDigits_numeral false
  have hw := isDigit_of_mem_digits (n := d.coefficient / Nat.pow 10 d.places)
  by_cases hp : d.places = 0
  · have hd := isDigit_of_mem_digits (n := d.coefficient)
    rw [text, if_pos hp, Token.isLiteral_digits hd, Token.literalDecimal_digits hd]
    refine ⟨Nat.toDigits_ne_nil, ?_⟩
    simpa [numeral, hp] using hread
  · have hf : ∀ c ∈ paddedDigits d.places (d.coefficient % Nat.pow 10 d.places),
        c.isDigit = true := isDigit_of_mem_paddedDigits
    rw [text, if_neg hp, Token.isLiteral_point hw, Token.literalDecimal_point hw hf]
    refine ⟨⟨List.all_eq_true.2 hf, by simp⟩, ?_⟩
    simpa only [numeral, if_neg hp] using hread

end Decimal

end DeskCalculator
