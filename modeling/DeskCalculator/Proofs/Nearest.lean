import DeskCalculator.Double.Lemmas
import DeskCalculator.Proofs.Rounding
import Mathlib.Order.Monotone.Basic

/-!
# The nearest magnitude

The magnitudes by rank: equal steps between two powers of two (`unitsOfRank_binade`), growing with
the rank (`unitsOfRank_strictMono`). Reading a decimal takes the nearest of them:

* `nearestRank_nearest`: no magnitude, were the ranks to go on without end, is nearer;
* `nearestRank_le`: a quotient that is not above a magnitude is not rounded above it;
* `nearestRank_scale`: only the quotient matters;
* `exists_rank`: every number of 53 bits, shifted to the left, is a magnitude.
-/

namespace DeskCalculator

theorem binadeSize_pos : 0 < binadeSize := by decide

/-- The ranks between two powers of two are equal steps. -/
theorem unitsOfRank_binade (s : Nat) {t : Nat} (hb : binadeSize ≤ t) (ht : t ≤ 2 * binadeSize) :
    unitsOfRank (s * binadeSize + t) = t * Nat.pow 2 s := by
  have hpos := binadeSize_pos
  rw [unitsOfRank, if_neg (by omega)]
  rcases Nat.lt_or_ge t (2 * binadeSize) with hlt | hge
  · obtain ⟨k, rfl⟩ : ∃ k, t = binadeSize + k := ⟨t - binadeSize, by omega⟩
    have e : s * binadeSize + (binadeSize + k) = k + binadeSize * (s + 1) := by
      rw [Nat.mul_add, Nat.mul_comm s]
      omega
    rw [e, Nat.add_mul_mod_self_left, Nat.add_mul_div_left _ _ hpos,
      Nat.mod_eq_of_lt (by omega), Nat.div_eq_of_lt (by omega)]
    simp
  · obtain rfl : t = 2 * binadeSize := by omega
    have e : s * binadeSize + 2 * binadeSize = (s + 2) * binadeSize := (Nat.add_mul ..).symm
    rw [e, Nat.mul_mod_left, Nat.mul_div_cancel _ hpos, Nat.add_zero,
      show s + 2 - 1 = s + 1 by omega, show Nat.pow 2 (s + 1) = Nat.pow 2 s * 2 from rfl,
      Nat.mul_comm (Nat.pow 2 s), ← Nat.mul_assoc, Nat.mul_comm binadeSize]

theorem unitsOfRank_small {rank : Nat} (h : rank ≤ 2 * binadeSize) : unitsOfRank rank = rank := by
  rcases Nat.lt_or_ge rank binadeSize with hlt | hge
  · rw [unitsOfRank, if_pos hlt]
  · have := unitsOfRank_binade 0 hge h
    simpa using this

/-- The step between two powers of two that a rank lies in. -/
theorem exists_binade {rank : Nat} (h : binadeSize ≤ rank) :
    ∃ s t, rank = s * binadeSize + t ∧ binadeSize ≤ t ∧ t < 2 * binadeSize := by
  have hpos := binadeSize_pos
  have hq : 1 ≤ rank / binadeSize := (Nat.le_div_iff_mul_le hpos).2 (by omega)
  obtain ⟨k, hk⟩ : ∃ k, rank / binadeSize = k + 1 := ⟨rank / binadeSize - 1, by omega⟩
  have hdm := Nat.div_add_mod' rank binadeSize
  rw [hk, Nat.add_mul, Nat.one_mul] at hdm
  have := Nat.mod_lt rank hpos
  exact ⟨k, binadeSize + rank % binadeSize, by omega, by omega, by omega⟩

theorem unitsOfRank_strictMono : StrictMono unitsOfRank := by
  refine strictMono_nat_of_lt_succ fun rank => ?_
  have hpos := binadeSize_pos
  rcases Nat.lt_or_ge rank binadeSize with hlt | hge
  · rw [unitsOfRank_small (by omega), unitsOfRank_small (by omega)]
    exact Nat.lt_succ_self _
  · obtain ⟨s, t, rfl, hb, ht⟩ := exists_binade hge
    rw [Nat.add_assoc, unitsOfRank_binade s hb (by omega), unitsOfRank_binade s (by omega) ht]
    exact Nat.mul_lt_mul_of_pos_right (Nat.lt_succ_self t) (power_pos (by decide) s)

/-- Magnitudes from a power of two on are multiples of the step before it. -/
theorem pow_dvd_unitsOfRank {s rank : Nat} (h : (s + 1) * binadeSize ≤ rank) :
    Nat.pow 2 s ∣ unitsOfRank rank := by
  have hpos := binadeSize_pos
  rw [Nat.add_mul, Nat.one_mul] at h
  obtain ⟨s', t, rfl, hb, ht⟩ := exists_binade (by omega : binadeSize ≤ rank)
  rw [unitsOfRank_binade s' hb (by omega)]
  have hs : s ≤ s' := by
    by_contra hlt
    have := Nat.mul_le_mul_right binadeSize (by omega : s' + 1 ≤ s)
    rw [Nat.add_mul, Nat.one_mul] at this
    omega
  exact Nat.dvd_mul_left_of_dvd (Nat.pow_dvd_pow 2 hs) t

/-- Every number of 53 bits, shifted to the left, is a magnitude. -/
theorem exists_rank {t : Nat} (s : Nat) (ht : t ≤ 2 * binadeSize) :
    ∃ rank, unitsOfRank rank = t * Nat.pow 2 s := by
  induction s generalizing t with
  | zero => exact ⟨t, by rw [unitsOfRank_small ht]; exact (Nat.mul_one t).symm⟩
  | succ s ih =>
    rcases Nat.lt_or_ge t binadeSize with hlt | hge
    · obtain ⟨rank, hr⟩ := ih (t := 2 * t) (by omega)
      refine ⟨rank, ?_⟩
      rw [hr, show Nat.pow 2 (s + 1) = Nat.pow 2 s * 2 from rfl, Nat.mul_comm (Nat.pow 2 s),
        ← Nat.mul_assoc, Nat.mul_comm 2]
    · exact ⟨_, unitsOfRank_binade (s + 1) hge ht⟩

/-- The step in which a quotient is rounded: coarse enough for 53 bits, and no coarser than
needed. -/
theorem nearestRank_eq (num : Nat) {den : Nat} (hd : 0 < den) :
    ∃ s, nearestRank num den = s * binadeSize + roundHalfEven num (den * Nat.pow 2 s) ∧
      num ≤ 2 * binadeSize * (den * Nat.pow 2 s) ∧
      (s = 0 ∨ binadeSize * (den * Nat.pow 2 s) ≤ num) := by
  have hb : binadeSize = 2 ^ 52 := rfl
  have hlt : num < (num / den + 1) * den := by
    have := Nat.lt_mul_div_succ num hd
    rwa [Nat.mul_comm] at this
  have hle : num / den * den ≤ num := Nat.div_mul_le_self num den
  refine ⟨(num / den).log2 - 52, rfl, ?_, ?_⟩
  · have hq : num / den + 1 ≤ 2 * binadeSize * Nat.pow 2 ((num / den).log2 - 52) := by
      have h1 : num / den < 2 ^ ((num / den).log2 + 1) := Nat.lt_log2_self
      have h2 : 2 ^ ((num / den).log2 + 1) ≤ 2 ^ (53 + ((num / den).log2 - 52)) :=
        Nat.pow_le_pow_right (by decide) (by omega)
      rw [Nat.pow_add 2 53] at h2
      exact Nat.le_trans h1 h2
    have := Nat.mul_le_mul_right den hq
    rw [Nat.mul_assoc, Nat.mul_comm (Nat.pow 2 _)] at this
    omega
  · rcases Nat.eq_zero_or_pos ((num / den).log2 - 52) with h0 | hs
    · exact .inl h0
    right
    have hne : num / den ≠ 0 := by
      intro h
      rw [h] at hs
      simp at hs
    have hq : binadeSize * Nat.pow 2 ((num / den).log2 - 52) ≤ num / den := by
      have h1 : 2 ^ (num / den).log2 ≤ num / den := Nat.log2_self_le hne
      have h2 : 2 ^ (52 + ((num / den).log2 - 52)) = 2 ^ (num / den).log2 := by
        congr 1
        omega
      rw [Nat.pow_add] at h2
      exact Nat.le_trans (Nat.le_of_eq h2) h1
    have := Nat.mul_le_mul_right den hq
    rw [Nat.mul_assoc, Nat.mul_comm (Nat.pow 2 _)] at this
    omega

/-- The value of the nearest rank is the rounded quotient. -/
theorem unitsOfRank_nearestRank (num : Nat) {den : Nat} (hd : 0 < den) :
    ∃ s, unitsOfRank (nearestRank num den) = roundHalfEven num (den * Nat.pow 2 s) * Nat.pow 2 s ∧
      (s = 0 ∨ binadeSize * (den * Nat.pow 2 s) ≤ num) := by
  obtain ⟨s, hr, hle, hge⟩ := nearestRank_eq num hd
  have hden : 0 < den * Nat.pow 2 s := Nat.mul_pos hd (power_pos (by decide) s)
  have ht := roundHalfEven_le hden hle
  refine ⟨s, ?_, hge⟩
  rw [hr]
  rcases hge with rfl | hge
  · rw [Nat.zero_mul, Nat.zero_add, unitsOfRank_small ht]
    exact (Nat.mul_one _).symm
  · exact unitsOfRank_binade s (le_roundHalfEven hden hge) ht

/-- No magnitude is nearer to a quotient. -/
theorem nearestRank_nearest (num : Nat) {den : Nat} (hd : 0 < den) (rank : Nat) :
    Nat.dist num (unitsOfRank (nearestRank num den) * den) ≤
      Nat.dist num (unitsOfRank rank * den) := by
  obtain ⟨s, hu, hs⟩ := unitsOfRank_nearestRank num hd
  have hscale : ∀ k, k * Nat.pow 2 s * den = k * (den * Nat.pow 2 s) := fun k => by
    rw [Nat.mul_assoc, Nat.mul_comm (Nat.pow 2 s)]
  have hnear := roundHalfEven_nearest num (den * Nat.pow 2 s)
  rw [hu, hscale]
  by_cases hdvd : Nat.pow 2 s ∣ unitsOfRank rank
  · obtain ⟨k, hk⟩ := hdvd
    rw [hk, Nat.mul_comm _ k, hscale]
    exact hnear k
  -- a magnitude that is no multiple of the step lies below the power of two the quotient reached
  · have hlt : rank < (s + 1) * binadeSize := Nat.lt_of_not_le fun h => hdvd (pow_dvd_unitsOfRank h)
    have hpow : unitsOfRank ((s + 1) * binadeSize) = binadeSize * Nat.pow 2 s := by
      rw [Nat.add_mul, Nat.one_mul, unitsOfRank_binade s (Nat.le_refl _) (by omega)]
    have hbelow := Nat.mul_le_mul_right den (unitsOfRank_strictMono.monotone (Nat.le_of_lt hlt))
    rw [hpow, hscale] at hbelow
    have hbinade : binadeSize * (den * Nat.pow 2 s) ≤ num := by
      rcases hs with rfl | hs
      · exact absurd (Nat.one_dvd _) hdvd
      · exact hs
    have := hnear binadeSize
    simp only [Nat.dist] at this ⊢
    omega

/-- A quotient that is not above a magnitude is not rounded above it. -/
theorem nearestRank_le {num den rank : Nat} (hd : 0 < den) (h : num ≤ unitsOfRank rank * den) :
    nearestRank num den ≤ rank := by
  by_contra hgt
  have hu := unitsOfRank_strictMono (Nat.lt_of_not_le hgt)
  have hmul := Nat.mul_lt_mul_of_pos_right hu hd
  have := nearestRank_nearest num hd rank
  simp only [Nat.dist] at this
  omega

theorem nearestRank_scale (num den : Nat) {k : Nat} (hk : 0 < k) :
    nearestRank (num * k) (den * k) = nearestRank num den := by
  have hden : ∀ s, den * k * Nat.pow 2 s = den * Nat.pow 2 s * k := fun s => by
    rw [Nat.mul_assoc, Nat.mul_comm k, Nat.mul_assoc]
  simp only [nearestRank, Nat.mul_div_mul_right _ _ hk, hden, roundHalfEven_scale _ _ hk]

end DeskCalculator
