import DeskCalculator.Proofs.Shown
import Mathlib.Data.List.DropRight

/-!
# Trimming the text of a result

A display leaves out superfluous zeros before a number is written. Writing all decimal places first
and trimming the text gives the same:

* `trimmed`: a text without the zeros at its end and without a point there;
* `Decimal.text_succ`: one more place is one more digit;
* `Decimal.trimmed_text`: the trimmed text of a decimal is that of the trimmed decimal;
* `Double.fixedText`: a number with all its places;
* `Double.display_eq_formatted`: what the display shows, in these terms.
-/

namespace DeskCalculator

/-- A text without the zeros at its end and then without the point there, if it has a point at all.
A zero that is left alone has no sign. -/
def trimmed (text : Text) : Text :=
  let rest :=
    if '.' ∈ text then (text.rdropWhile (· = '0')).rdropWhile (· = '.') else text
  if rest = ['-', '0'] then ['0'] else rest

namespace Decimal

/-! ## One more place -/

theorem paddedDigits_succ {width : Nat} (hw : 0 < width) (n : Nat) :
    paddedDigits (width + 1) n = paddedDigits width (n / 10) ++ [(n % 10).digitChar] := by
  rcases Nat.lt_or_ge n 10 with hlt | hge
  · obtain ⟨k, rfl⟩ := Nat.exists_eq_succ_of_ne_zero hw.ne'
    rw [Nat.div_eq_of_lt hlt, Nat.mod_eq_of_lt hlt, paddedDigits, paddedDigits,
      Nat.toDigits_of_lt_base hlt, Nat.toDigits_zero, List.leftpad, List.leftpad]
    simp [List.replicate_succ']
  · rw [paddedDigits, paddedDigits, Nat.toDigits_of_base_le (by decide) hge, List.leftpad,
      List.leftpad, List.length_append, List.length_singleton, Nat.add_sub_add_right,
      List.append_assoc]

theorem text_one (coefficient : Nat) :
    text ⟨coefficient, 1⟩ =
      Nat.toDigits 10 (coefficient / 10) ++ ['.', (coefficient % 10).digitChar] := by
  have hdigit : Nat.toDigits 10 (coefficient % 10) = [(coefficient % 10).digitChar] :=
    Nat.toDigits_of_lt_base (Nat.mod_lt _ (by decide))
  show Nat.toDigits 10 (coefficient / 10) ++ '.' :: paddedDigits 1 (coefficient % 10) = _
  rw [paddedDigits, hdigit]
  rfl

/-- With one more place there is one more digit. -/
theorem text_succ (coefficient : Nat) {places : Nat} (hp : 0 < places) :
    text ⟨coefficient, places + 1⟩ =
      text ⟨coefficient / 10, places⟩ ++ [(coefficient % 10).digitChar] := by
  have hpow : Nat.pow 10 (places + 1) = 10 * Nat.pow 10 places := Nat.mul_comm ..
  have hmod : coefficient % (10 * Nat.pow 10 places) % 10 = coefficient % 10 :=
    Nat.mod_mul_right_mod ..
  have hdiv : coefficient % (10 * Nat.pow 10 places) / 10 = coefficient / 10 % Nat.pow 10 places :=
    Nat.mod_mul_right_div_self ..
  rw [text, text, if_neg (Nat.succ_ne_zero places), if_neg hp.ne']
  show Nat.toDigits 10 (coefficient / Nat.pow 10 (places + 1)) ++
      '.' :: paddedDigits (places + 1) (coefficient % Nat.pow 10 (places + 1)) = _
  rw [hpow, ← Nat.div_div_eq_div_mul, paddedDigits_succ hp, hmod, hdiv]
  simp

/-- The last place is the last digit, whatever is before the decimal. -/
theorem getLast?_text (before : Text) (coefficient : Nat) {places : Nat} (hp : 0 < places) :
    (before ++ text ⟨coefficient, places⟩).getLast? = some (coefficient % 10).digitChar := by
  obtain ⟨places, rfl⟩ := Nat.exists_eq_succ_of_ne_zero hp.ne'
  cases places with
  | zero =>
    rw [text_one, ← List.append_assoc, List.getLast?_append_of_ne_nil _ (List.cons_ne_nil _ _)]
    rfl
  | succ places => rw [text_succ _ places.succ_pos, ← List.append_assoc, List.getLast?_concat]

/-! ## Trimming a text -/

/-- A text that ends in another digit than zero is left as it is. -/
theorem rdropWhile_digit {text : Text} {n : Nat} (h : n % 10 ≠ 0)
    (hlast : text.getLast? = some (n % 10).digitChar) :
    (text.rdropWhile (· = '0')).rdropWhile (· = '.') = text := by
  obtain ⟨before, rfl⟩ := List.getLast?_eq_some_iff.1 hlast
  rw [List.rdropWhile_concat_neg _ _ _ (by simpa using h),
    List.rdropWhile_concat_neg _ _ _ (by simp)]

/-- Zeros and a point at the end of a text, whatever is before the decimal. -/
theorem rdropWhile_text (before : Text) (coefficient : Nat) {places : Nat} (hp : 0 < places) :
    ((before ++ text ⟨coefficient, places⟩).rdropWhile (· = '0')).rdropWhile (· = '.') =
      before ++ (trim ⟨coefficient, places⟩).text := by
  show _ = before ++ (trim.go coefficient places).text
  obtain ⟨places, rfl⟩ := Nat.exists_eq_succ_of_ne_zero hp.ne'
  induction places generalizing coefficient with
  | zero =>
    rw [trim.go]
    split
    · next hc =>
      -- the zero goes, then the point, and the digit before the point stays
      have hlast : (before ++ Nat.toDigits 10 (coefficient / 10)).getLast? =
          some (coefficient / 10 % 10).digitChar := by
        rw [List.getLast?_append, getLast?_toDigits]
        rfl
      obtain ⟨rest, hrest⟩ := List.getLast?_eq_some_iff.1 hlast
      have htext : before ++ text ⟨coefficient, 1⟩ =
          rest ++ [(coefficient / 10 % 10).digitChar] ++ ['.'] ++ ['0'] := by
        rw [text_one, hc, ← hrest]
        simp
      rw [htext, List.rdropWhile_concat_pos _ _ _ (by decide),
        List.rdropWhile_concat_neg _ _ _ (by decide), List.rdropWhile_concat_pos _ _ _ (by decide),
        List.rdropWhile_concat_neg _ _ _ (by simp)]
      exact hrest.symm
    · next hc =>
      exact rdropWhile_digit hc (getLast?_text before coefficient hp)
  | succ places ih =>
    rw [trim.go]
    split
    · next hc =>
      rw [text_succ coefficient places.succ_pos, hc, ← List.append_assoc,
        List.rdropWhile_concat_pos _ _ _ (by decide)]
      exact ih (coefficient / 10) places.succ_pos
    · next hc =>
      exact rdropWhile_digit hc (getLast?_text before coefficient hp)

theorem point_mem_text_iff (d : Decimal) : '.' ∈ d.text ↔ 0 < d.places := by
  unfold text
  split
  · next hp =>
    refine iff_of_false (fun h => absurd (isDigit_of_mem_digits _ h) (by decide)) (by omega)
  · next hp => exact iff_of_true (by simp) (by omega)

/-- The trimmed text of a decimal is that of the trimmed decimal, zero without a sign. -/
theorem trimmed_text (negative : Bool) (d : Decimal) :
    trimmed (withSign negative d.text) =
      withSign (negative && d.trim.coefficient != 0) d.trim.text := by
  obtain ⟨before, hbefore, hpoint⟩ :
      ∃ before : Text, (∀ text, withSign negative text = before ++ text) ∧ '.' ∉ before := by
    cases negative
    · exact ⟨[], fun _ => rfl, by decide⟩
    · exact ⟨['-'], fun _ => rfl, by decide⟩
  have hmem : '.' ∈ before ++ d.text ↔ 0 < d.places := by
    rw [List.mem_append, or_iff_right hpoint, point_mem_text_iff]
  have hrest : (if '.' ∈ withSign negative d.text then
      ((withSign negative d.text).rdropWhile (· = '0')).rdropWhile (· = '.')
      else withSign negative d.text) = withSign negative d.trim.text := by
    rw [hbefore, hbefore]
    by_cases hp : 0 < d.places
    · rw [if_pos (hmem.2 hp)]
      exact rdropWhile_text before d.coefficient hp
    · rw [if_neg (mt hmem.1 hp)]
      obtain ⟨coefficient, places⟩ := d
      obtain rfl : places = 0 := Nat.eq_zero_of_not_pos hp
      rfl
  rw [trimmed, hrest]
  have hzero := text_eq_zero_iff d.isTrimmed_trim
  cases negative with
  | false =>
    have hne : d.trim.text ≠ ['-', '0'] := fun h =>
      d.trim.minus_notMem_text (h ▸ List.mem_cons_self)
    exact if_neg hne
  | true =>
    by_cases hc : d.trim.coefficient = 0
    · simp [withSign, hzero.2 hc, hc]
    · have hne : withSign true d.trim.text ≠ ['-', '0'] := fun h =>
        hc (hzero.1 (List.cons.inj h).2)
      rw [if_neg hne, bne_iff_ne.2 hc, Bool.and_true]

end Decimal

-- the power of two is never multiplied out
attribute [local irreducible] unitsPerOne finestPlaces

namespace Double

/-- A double with all of `places` decimal places, the exact value rounded half to even. -/
def fixedText (places : Nat) : Double → Text
  | finite negative m => withSign negative
      (Decimal.text ⟨roundHalfEven (m.units * Nat.pow 10 places) unitsPerOne, places⟩)
  | x => x.nonFiniteText

/-- The text of a result: zero, a whole number in full, and otherwise the trimmed text of all
places. -/
def formatted (precision : Nat) : Double → Text
  | finite negative m =>
    if m.rank = 0 then ['0']
    else if m.IsWhole then (finite negative m).text
    else trimmed ((finite negative m).fixedText precision)
  | x => trimmed (x.fixedText precision)

theorem digits_of_rank_eq_zero {m : Magnitude} (h : m.rank = 0) (precision : Nat) :
    m.digits precision = ⟨0, 0⟩ := by
  have hunits : m.units = 0 := by
    rw [Magnitude.units, h]
    exact unitsOfRank_small (Nat.zero_le _)
  have hwhole : m.whole = 0 := by rw [Magnitude.whole, hunits, Nat.zero_div]
  have hw : m.IsWhole := by rw [Magnitude.IsWhole, hunits, Nat.zero_mod]
  rw [Magnitude.digits, if_pos hw, Magnitude.shortest_eq_whole hw (hwhole ▸ Nat.zero_le _), hwhole]

/-- All places, without the zeros at their end, are the digits of a display. -/
theorem trim_places (m : Magnitude) (places : Nat) :
    Decimal.trim ⟨roundHalfEven (m.units * Nat.pow 10 places) unitsPerOne, places⟩ =
      m.fixed places := by
  obtain ⟨more, hc, hp⟩ := m.rounded_scale places
  have h := Decimal.trim_scale (m.rounded places) more
  rwa [← hc, ← hp] at h

/-- The display shows a zero, a whole number in full, and the trimmed text of any other number. -/
theorem display_eq_formatted (precision : Nat) (x : Double) :
    x.display precision = x.formatted precision := by
  cases x with
  | nan =>
    show "NaN".toList = trimmed "NaN".toList
    decide
  | infinite negative =>
    show withSign negative "inf".toList = trimmed (withSign negative "inf".toList)
    cases negative <;> decide
  | finite negative m =>
    rw [formatted]
    split
    · next h =>
      rw [display_finite, digits_of_rank_eq_zero h]
      cases negative <;> decide
    · next h =>
      split
      · next hw =>
        have hc : m.shortest.coefficient ≠ 0 := mt Magnitude.rank_eq_zero h
        rw [display_finite, Magnitude.digits, if_pos hw, bne_iff_ne.2 hc, Bool.and_true]
        rfl
      · next hw =>
        rw [display_finite, Magnitude.digits, if_neg hw, fixedText, Decimal.trimmed_text,
          trim_places]

end Double

end DeskCalculator
