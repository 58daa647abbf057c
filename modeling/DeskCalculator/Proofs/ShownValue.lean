import DeskCalculator.Proofs.Shown
import Mathlib.Algebra.Order.Field.Rat
import Mathlib.Algebra.Order.Ring.Abs
import Mathlib.Data.Rat.Cast.Order
import Mathlib.Tactic.FieldSimp
import Mathlib.Tactic.Linarith
import Mathlib.Tactic.Positivity
import Mathlib.Tactic.Ring

/-!
# The value of a shown number

A display is the canonical numeral of a rational number that the double and the decimal places
determine:

* `isRoundHalfEven_unique`: a number has one rounding to a whole one, a half going to the even;
* `read_numeral`, `value_numeral_of_le`: a whole number is read back, and up to `2⁵³` it is written
  as it is;
* `exists_isRoundHalfEven`: any other number is written rounded to the places of the calculator;
* `display_neg`: the opposite has the other sign, unless zero is shown;
* `display_correctly_rounded`: all of this, of every finite double.
-/

namespace DeskCalculator

/-! ## Rounding -/

/-- The whole number `k` is within a half of `x`, and even if that is the distance. -/
def IsRoundHalfEven (x : ℚ) (k : ℤ) : Prop := |x - k| ≤ 1 / 2 ∧ (|x - k| = 1 / 2 → Even k)

theorem IsRoundHalfEven.neg {x : ℚ} {k : ℤ} (h : IsRoundHalfEven x k) :
    IsRoundHalfEven (-x) (-k) := by
  have habs : |-x - ((-k : ℤ) : ℚ)| = |x - k| := by
    rw [← abs_neg (x - k)]
    push_cast
    ring_nf
  rw [IsRoundHalfEven, habs, even_neg]
  exact h

/-- No two whole numbers are the rounding of one number: two that are each a half away are
neighbours, and not both even. -/
theorem isRoundHalfEven_unique {x : ℚ} {j k : ℤ} (hj : IsRoundHalfEven x j)
    (hk : IsRoundHalfEven x k) : j = k := by
  wlog hlt : j < k generalizing j k
  · rcases lt_or_eq_of_le (not_lt.1 hlt) with h | h
    · exact (this hk hj h).symm
    · exact h.symm
  exfalso
  obtain ⟨hj1, hj2⟩ := abs_le.1 hj.1
  obtain ⟨hk1, hk2⟩ := abs_le.1 hk.1
  have hle : k ≤ j + 1 := by
    have : (k : ℚ) ≤ ((j + 1 : ℤ) : ℚ) := by push_cast; linarith
    exact_mod_cast this
  obtain rfl : k = j + 1 := by omega
  push_cast at hk1 hk2
  have hhalf : x - j = 1 / 2 := by linarith
  have heven := hj.2 (by rw [hhalf]; norm_num)
  have hodd := hk.2 (by
    rw [Int.cast_add, Int.cast_one, show x - (j + 1) = -(1 / 2) by linarith]
    norm_num)
  exact absurd hodd (by rw [Int.not_even_iff_odd]; exact heven.add_one)

/-- Rounding a quotient of natural numbers. -/
theorem IsRounded.isRoundHalfEven {num den k : Nat} (hd : 0 < den) (h : IsRounded num den k) :
    IsRoundHalfEven (num / den) k := by
  have hden : (0 : ℚ) < den := Nat.cast_pos.2 hd
  have hdist : |(num : ℚ) / den - ((k : ℤ) : ℚ)| = (Nat.dist num (k * den) : ℚ) / den := by
    have hsub : (num : ℚ) / den - ((k : ℤ) : ℚ) = (num - k * den) / den := by
      push_cast
      field_simp
    rw [hsub, abs_div, abs_of_pos hden]
    congr 1
    rcases Nat.le_total num (k * den) with hle | hle
    · have hcast : (num : ℚ) ≤ k * den := by exact_mod_cast hle
      rw [Nat.dist_eq_sub_of_le hle, Nat.cast_sub hle, abs_of_nonpos (by linarith)]
      push_cast
      ring
    · have hcast : (k : ℚ) * den ≤ num := by exact_mod_cast hle
      rw [Nat.dist_eq_sub_of_le_right hle, Nat.cast_sub hle, abs_of_nonneg (by linarith)]
      push_cast
      ring
  obtain ⟨hnear, htie⟩ := h
  rw [IsRoundHalfEven, hdist]
  refine ⟨?_, fun heq => ?_⟩
  · rw [div_le_div_iff₀ hden two_pos, mul_comm, one_mul]
    exact_mod_cast hnear
  · rw [div_eq_div_iff hden.ne' two_ne_zero, mul_comm, one_mul] at heq
    have heven := htie (by exact_mod_cast heq)
    exact_mod_cast Nat.even_iff.2 heven

/-! ## Values -/

/-- A sign before a number. -/
def signedValue (negative : Bool) (x : ℚ) : ℚ := if negative then -x else x

/-- The number that a decimal is. -/
def Decimal.value (d : Decimal) : ℚ := d.coefficient / 10 ^ d.places

/-- The exact value of a magnitude. -/
def Magnitude.value (m : Magnitude) : ℚ := m.units / unitsPerOne

namespace Numeral

/-- The digits of a numeral as a decimal. -/
def decimal (n : Numeral) : Decimal := .ofDigits n.whole n.fraction

/-- The number that is written. -/
def value (n : Numeral) : ℚ := signedValue n.negative n.decimal.value

/-- The double nearest to the number that is written. -/
def read (n : Numeral) : Double := n.decimal.nearest n.negative

end Numeral

/-- Powers of ten and two are written with `Nat.pow` where doubles are read and rounded. -/
theorem natCast_pow (base k : Nat) : ((Nat.pow base k : Nat) : ℚ) = base ^ k := Nat.cast_pow base k

theorem unitsPerOne_cast_pos : (0 : ℚ) < unitsPerOne := Nat.cast_pos.2 unitsPerOne_pos

namespace Decimal

theorem value_trim (d : Decimal) : d.trim.value = d.value := by
  obtain ⟨k, hc, hp⟩ := d.trim_spec
  rw [value, value, hc, hp, Nat.cast_mul, natCast_pow, pow_add]
  exact (mul_div_mul_right _ _ (by positivity)).symm

end Decimal

namespace Numeral.IsCanonical

variable {n : Numeral} {places : Nat}

theorem point_notMem (h : n.IsCanonical places) (hf : n.fraction = []) : '.' ∉ n.text := by
  rw [text, if_pos hf, List.append_nil, List.mem_append, not_or]
  refine ⟨?_, fun hmem => absurd (h.whole_digits _ hmem) (by decide)⟩
  split <;> decide

theorem text_ne_minus_zero (h : n.IsCanonical places) : n.text ≠ ['-', '0'] := by
  intro he
  obtain ⟨a, l, hwhole⟩ := List.exists_cons_of_ne_nil h.whole_ne_nil
  have ha := h.whole_digits a (by rw [hwhole]; exact List.mem_cons_self)
  rw [text, hwhole] at he
  cases hsign : n.negative with
  | false =>
    -- a digit is no sign
    simp only [hsign, Bool.false_eq_true, if_false, List.nil_append, List.cons_append,
      List.cons.injEq] at he
    rw [he.1] at ha
    exact absurd ha (by decide)
  | true =>
    simp only [hsign, if_true, List.cons_append, List.nil_append, List.cons.injEq, true_and,
      List.append_eq_nil_iff, ite_eq_left_iff, reduceCtorEq, imp_false, not_not] at he
    obtain ⟨rfl, rfl, hfraction⟩ := he
    exact absurd (h.zero_unsigned hwhole hfraction) (by rw [hsign]; decide)

end Numeral.IsCanonical

theorem signedValue_zero (negative : Bool) : signedValue negative 0 = 0 := by
  cases negative
  · rfl
  · exact neg_zero

theorem abs_signedValue (negative : Bool) (x : ℚ) : |signedValue negative x| = |x| := by
  cases negative
  · rfl
  · exact abs_neg x

-- the power of two is never multiplied out
attribute [local irreducible] unitsPerOne finestPlaces

namespace Magnitude

theorem decimal_numeral (negative : Bool) (m : Magnitude) (precision : Nat) :
    (m.numeral negative precision).decimal = m.digits precision :=
  (m.digits precision).ofDigits_numeral _

/-- The sign that zero lacks makes no difference. -/
theorem value_numeral (negative : Bool) (m : Magnitude) (precision : Nat) :
    (m.numeral negative precision).value = signedValue negative (m.digits precision).value := by
  rw [Numeral.value, decimal_numeral]
  by_cases hc : (m.digits precision).coefficient = 0
  · have hzero : (m.digits precision).value = 0 := by
      rw [Decimal.value, hc, Nat.cast_zero, zero_div]
    rw [hzero, signedValue_zero, signedValue_zero]
  · have hsign : (m.numeral negative precision).negative = negative := by
      rw [numeral, Decimal.numeral, bne_iff_ne.2 hc, Bool.and_true]
    rw [hsign]

/-! ## Whole numbers -/

variable {m : Magnitude}

theorem value_of_isWhole (h : m.IsWhole) : m.value = m.whole := by
  rw [value, units_eq_whole h, Nat.cast_mul, mul_div_cancel_right₀ _ unitsPerOne_cast_pos.ne']

theorem isWhole_iff (negative : Bool) :
    m.IsWhole ↔ ∃ z : ℤ, signedValue negative m.value = z := by
  refine ⟨fun h => ?_, fun ⟨z, hz⟩ => ?_⟩
  · rw [value_of_isWhole h]
    cases negative
    · exact ⟨m.whole, (Int.cast_natCast _).symm⟩
    · exact ⟨-m.whole, by rw [Int.cast_neg, Int.cast_natCast]; rfl⟩
  · obtain ⟨w, hw⟩ : ∃ w : ℤ, m.value = w := by
      cases negative
      · exact ⟨z, hz⟩
      · exact ⟨-z, by rw [Int.cast_neg, ← hz]; exact (neg_neg _).symm⟩
    rw [value, div_eq_iff unitsPerOne_cast_pos.ne'] at hw
    have hunits : (m.units : ℤ) = unitsPerOne * w := by
      rw [mul_comm]
      exact_mod_cast hw
    exact Nat.mod_eq_zero_of_dvd (Int.natCast_dvd_natCast.1 ⟨w, hunits⟩)

theorem fraction_numeral (h : m.IsWhole) (negative : Bool) (precision : Nat) :
    (m.numeral negative precision).fraction = [] := by
  refine Decimal.fraction_eq_nil_iff.2 ?_
  rw [digits, if_pos h]
  exact places_shortest h

/-- A shown whole number is read back, a negative zero without its sign. -/
theorem read_numeral (h : m.IsWhole) (negative : Bool) (precision : Nat) :
    (m.numeral negative precision).read.numEq (.finite negative m) = true := by
  have hdigits : m.digits precision = m.shortest := if_pos h
  rw [Numeral.read, decimal_numeral, hdigits, nearest_shortest, Double.numEq, numeral,
    Decimal.numeral, hdigits]
  by_cases hc : m.shortest.coefficient = 0
  · simp [rank_eq_zero hc]
  · simp [hc]

/-- A whole number up to `2⁵³` is written as it is. -/
theorem value_numeral_of_le (h : m.IsWhole) (hm : m.whole ≤ 2 * binadeSize) (negative : Bool)
    (precision : Nat) :
    (m.numeral negative precision).value = signedValue negative m.value := by
  rw [value_numeral, digits, if_pos h, shortest_eq_whole h hm, value_of_isWhole h, Decimal.value,
    pow_zero, div_one]

/-! ## Other numbers -/

/-- The rounding to any number of places, of which those that are left out are zeros. -/
theorem exists_rounded (m : Magnitude) (places : Nat) :
    ∃ k : Nat, IsRounded (m.units * Nat.pow 10 places) unitsPerOne k ∧
      (m.rounded places).value = k / 10 ^ places := by
  obtain ⟨more, hc, hp⟩ := m.rounded_scale places
  refine ⟨_, roundHalfEven_spec _ unitsPerOne_pos, ?_⟩
  have hpow : (10 : ℚ) ^ places = 10 ^ (m.rounded places).places * 10 ^ more := by
    rw [← pow_add, ← hp]
  rw [hc, hpow, Nat.cast_mul, natCast_pow]
  exact (mul_div_mul_right _ _ (by positivity)).symm

/-- A number that is not whole is shown as its rounding. -/
theorem exists_isRoundHalfEven (h : ¬ m.IsWhole) (negative : Bool) (precision : Nat) :
    ∃ k : ℤ, IsRoundHalfEven (signedValue negative m.value * 10 ^ precision) k ∧
      (m.numeral negative precision).value = k / 10 ^ precision := by
  obtain ⟨k, hk, hvalue⟩ := m.exists_rounded precision
  have hround : IsRoundHalfEven (m.value * 10 ^ precision) k := by
    have := hk.isRoundHalfEven unitsPerOne_pos
    rwa [Nat.cast_mul, natCast_pow, Nat.cast_ofNat, mul_div_right_comm] at this
  rw [value_numeral, digits, if_neg h, fixed, Decimal.value_trim, hvalue]
  cases negative
  · exact ⟨k, hround, by rw [Int.cast_natCast]; rfl⟩
  · refine ⟨-k, ?_, ?_⟩
    · have := hround.neg
      rwa [← neg_mul] at this
    · rw [Int.cast_neg, Int.cast_natCast, neg_div]
      rfl

end Magnitude

/-! ## The opposite number -/

/-- A text with a minus sign instead of none, or without it. -/
def flipSign : Text → Text
  | '-' :: text => text
  | text => '-' :: text

theorem flipSign_withSign (negative : Bool) {text : Text} (h : '-' ∉ text) :
    flipSign (withSign negative text) = withSign (!negative) text := by
  cases negative
  · show flipSign text = '-' :: text
    unfold flipSign
    split
    · exact absurd List.mem_cons_self h
    · rfl
  · rfl

namespace Double

/-- The opposite is shown with the other sign, unless zero is shown. -/
theorem display_neg (negative : Bool) (m : Magnitude) (precision : Nat) :
    (finite negative m).neg.display precision =
      if (finite negative m).display precision = ['0'] then ['0']
      else flipSign ((finite negative m).display precision) := by
  have htrim := m.isTrimmed_digits precision
  rw [neg, display_finite, display_finite]
  by_cases hc : (m.digits precision).coefficient = 0
  · have htext := (Decimal.text_eq_zero_iff htrim).2 hc
    simp [hc, withSign, htext]
  · have htext : (m.digits precision).text ≠ ['0'] := mt (Decimal.text_eq_zero_iff htrim).1 hc
    have hzero : withSign negative (m.digits precision).text ≠ ['0'] := by
      cases negative
      · exact htext
      · exact fun h => absurd (List.cons.inj h).1 (by decide)
    rw [bne_iff_ne.2 hc, Bool.and_true, Bool.and_true, if_neg hzero,
      flipSign_withSign _ (Decimal.minus_notMem_text _)]

/-- A finite double is shown as a canonical numeral. The numeral of one that is not whole is that of
its only rounding to the decimal places of the calculator, half to even. A whole one has no point,
is read back, and is the number itself up to `2⁵³`. The opposite of a double is shown with the other
sign, unless zero is shown. -/
theorem display_correctly_rounded (negative : Bool) (m : Magnitude) (precision : Nat) :
    let value := signedValue negative m.value
    ∃ n : Numeral, (finite negative m).display precision = n.text ∧
      n.IsCanonical precision ∧ n.text ≠ "-0".toList ∧
      ((¬ ∃ z : ℤ, value = z) →
        ∃ k : ℤ, (∀ j : ℤ, IsRoundHalfEven (value * 10 ^ precision) j ↔ j = k) ∧
          n.value = k / 10 ^ precision) ∧
      (∀ z : ℤ, value = z →
        '.' ∉ n.text ∧ n.read.numEq (finite negative m) = true ∧
          (|z| ≤ 2 ^ 53 → n.value = z)) ∧
      (finite negative m).neg.display precision =
        if n.text = "0".toList then "0".toList else flipSign n.text := by
  intro value
  have hcanonical := m.isCanonical_numeral negative precision
  refine ⟨m.numeral negative precision, display_numeral negative m precision, hcanonical,
    hcanonical.text_ne_minus_zero, fun hwhole => ?_, fun z hz => ?_, ?_⟩
  · rw [← Magnitude.isWhole_iff] at hwhole
    obtain ⟨k, hround, hvalue⟩ := Magnitude.exists_isRoundHalfEven hwhole negative precision
    refine ⟨k, fun j => ⟨fun hj => isRoundHalfEven_unique hj hround, ?_⟩, hvalue⟩
    rintro rfl
    exact hround
  · have hwhole : m.IsWhole := (Magnitude.isWhole_iff negative).2 ⟨z, hz⟩
    refine ⟨hcanonical.point_notMem (Magnitude.fraction_numeral hwhole negative precision),
      Magnitude.read_numeral hwhole negative precision, fun hle => ?_⟩
    have hm : m.whole ≤ 2 * binadeSize := by
      have habs : ((m.whole : ℤ) : ℚ) = (|z| : ℤ) := by
        rw [Int.cast_abs, ← hz, abs_signedValue, Magnitude.value_of_isWhole hwhole, Int.cast_natCast,
          Nat.abs_cast]
      have : (m.whole : ℤ) ≤ 2 ^ 53 := Int.cast_injective habs ▸ hle
      exact_mod_cast this
    rw [Magnitude.value_numeral_of_le hwhole hm]
    exact hz
  · rw [display_neg, display_numeral]
    rfl

/-- Minus one eighth is half way between two numbers of two decimal places. -/
theorem display_correctly_rounded_eighth :
    let m : Magnitude := ⟨0x3fc0000000000000, by decide⟩
    signedValue true m.value = -1 / 8 ∧
      ∃ n : Numeral, (finite true m).display 2 = n.text ∧ n.text = "-0.12".toList ∧
        n.value = -12 / 10 ^ 2 := by
  intro m
  have hvalue : signedValue true m.value = -1 / 8 := by
    have hunits : (m.units : ℚ) * 8 = unitsPerOne := by
      exact_mod_cast show m.units * 8 = unitsPerOne by decide +kernel
    have hpos := unitsPerOne_cast_pos
    rw [signedValue, if_pos rfl, Magnitude.value, neg_div, neg_inj,
      div_eq_div_iff hpos.ne' (by norm_num), hunits, one_mul]
  refine ⟨hvalue, ?_⟩
  obtain ⟨n, hdisplay, -, -, hround, -⟩ := display_correctly_rounded true m 2
  obtain ⟨k, hk, hn⟩ := hround fun ⟨z, hz⟩ => by
    rw [hvalue, div_eq_iff (by norm_num)] at hz
    have : (-1 : ℤ) = z * 8 := by exact_mod_cast hz
    omega
  have htie : IsRoundHalfEven (signedValue true m.value * 10 ^ 2) (-12) := by
    rw [hvalue]
    refine ⟨?_, fun _ => by decide⟩
    rw [abs_le]
    norm_num
  refine ⟨n, hdisplay, hdisplay ▸ by decide +kernel, ?_⟩
  rw [hn, ← (hk (-12)).1 htie]
  norm_num

end Double

end DeskCalculator
