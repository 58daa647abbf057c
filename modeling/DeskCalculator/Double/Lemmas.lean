import DeskCalculator.Double.Basic

/-!
# Magnitudes are their own rounding

Rounding to the nearest double changes nothing that is a double already:

* `nearestRank_unitsOfRank`: the rank nearest to the value of a rank is that rank;
* `Double.ofRatio_units`: so a finite double is the double nearest to its units.
-/

namespace DeskCalculator

/-- A number of 53 bits, shifted by `s`, is rounded in steps of `2 ^ s`. -/
theorem log2_significand {m s : Nat} (h : binadeSize ≤ m) (h' : m < 2 * binadeSize) :
    (m * Nat.pow 2 s).log2 - 52 = s := by
  have hm : m.log2 = 52 := (Nat.log2_eq_iff (by simp [binadeSize] at h; omega)).2 ⟨h, h'⟩
  have h52 : binadeSize = 2 ^ 52 := rfl
  have hp := Nat.two_pow_pos s
  have : (m * 2 ^ s).log2 = 52 + s := by
    refine (Nat.log2_eq_iff (Nat.ne_of_gt (Nat.mul_pos (by omega) hp))).2 ⟨?_, ?_⟩
    · rw [Nat.pow_add]; exact Nat.mul_le_mul_right _ (h52 ▸ h)
    · rw [show 52 + s + 1 = 53 + s by omega, Nat.pow_add]
      exact Nat.mul_lt_mul_of_pos_right (by omega) hp
  rw [show Nat.pow 2 s = 2 ^ s from rfl, this]; omega

/-- The value of a rank is nearest to that rank: no magnitude moves when it is rounded. -/
theorem nearestRank_unitsOfRank (rank : Nat) {den : Nat} (hd : 0 < den) :
    nearestRank (unitsOfRank rank * den) den = rank := by
  unfold nearestRank unitsOfRank
  rw [Nat.mul_div_cancel _ hd]
  split
  · next h =>
    have : rank.log2 - 52 = 0 := by
      have : rank.log2 < 53 := by
        by_cases h0 : rank = 0
        · simp [h0]
        · exact (Nat.log2_lt h0).2 (by simp [binadeSize] at h; omega)
      omega
    simp only [this, Nat.zero_mul, Nat.zero_add]
    simpa using roundHalfEven_mul rank hd
  · next h =>
    have hb : 0 < binadeSize := by decide
    have hmod := Nat.mod_lt rank hb
    simp only [log2_significand (by omega : binadeSize ≤ binadeSize + rank % binadeSize) (by omega)]
    have hp : 0 < Nat.pow 2 (rank / binadeSize - 1) := Nat.two_pow_pos _
    rw [Nat.mul_assoc, Nat.mul_comm _ den, roundHalfEven_mul _ (Nat.mul_pos hd hp)]
    have hq : 1 ≤ rank / binadeSize := (Nat.le_div_iff_mul_le hb).2 (by omega)
    have hdm := Nat.div_add_mod rank binadeSize
    obtain ⟨k, hk⟩ : ∃ k, rank / binadeSize = k + 1 := ⟨rank / binadeSize - 1, by omega⟩
    rw [hk] at hdm ⊢
    rw [Nat.mul_add, Nat.mul_one, Nat.mul_comm] at hdm
    simp only [Nat.add_sub_cancel]
    omega

theorem Double.ofRatio_units (negative : Bool) (m : Magnitude) {den : Nat} (hd : 0 < den) :
    Double.ofRatio negative (m.units * den) den = .finite negative m := by
  simp only [Double.ofRatio, Magnitude.units, nearestRank_unitsOfRank m.rank hd, m.rank_lt,
    ↓reduceDIte]

end DeskCalculator
