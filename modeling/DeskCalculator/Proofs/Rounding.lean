import DeskCalculator.Double.Basic
import Mathlib.Data.Nat.Dist

/-!
# The nearest whole number

What rounding a quotient means, without the rounding:

* `roundHalfEven_spec`, `roundHalfEven_unique`: it is the only whole number within half a unit, or
  the even one of two;
* `roundHalfEven_nearest`: no multiple of the denominator is nearer;
* `roundHalfEven_of_dist_le`: a numerator that is no farther from the result than another has the
  same result.
-/

namespace DeskCalculator

/-- The whole number `c` is within half a unit of `num / den`, and even if that is the distance. -/
def IsRounded (num den c : Nat) : Prop :=
  2 * Nat.dist num (c * den) ≤ den ∧ (2 * Nat.dist num (c * den) = den → c % 2 = 0)

theorem roundHalfEven_spec (num : Nat) {den : Nat} (hd : 0 < den) :
    IsRounded num den (roundHalfEven num den) := by
  have hdiv := Nat.div_add_mod' num den
  have hmod := Nat.mod_lt num hd
  have hsucc := Nat.add_one_mul (num / den) den
  simp only [IsRounded, roundHalfEven, Nat.dist]
  split <;> omega

theorem roundHalfEven_unique {num den c : Nat} (hd : 0 < den) (h : IsRounded num den c) :
    roundHalfEven num den = c := by
  have hdiv := Nat.div_add_mod' num den
  have hmod := Nat.mod_lt num hd
  have hsucc := Nat.add_one_mul (num / den) den
  simp only [IsRounded, Nat.dist] at h
  -- the result is the quotient or the number after it
  have hc : c = num / den ∨ c = num / den + 1 := by
    rcases Nat.lt_or_ge c (num / den) with hlt | hge
    · have := Nat.mul_le_mul_right den (Nat.succ_le_of_lt hlt)
      rw [Nat.succ_mul] at this
      omega
    · rcases Nat.lt_or_ge (num / den + 1) c with hgt | hle
      · have := Nat.mul_le_mul_right den (Nat.succ_le_of_lt hgt)
        rw [Nat.succ_mul, hsucc] at this
        omega
      · omega
  unfold roundHalfEven
  rcases hc with rfl | rfl <;> dsimp only <;> split <;> omega

/-- No multiple of the denominator is nearer to the numerator. -/
theorem roundHalfEven_nearest (num den k : Nat) :
    Nat.dist num (roundHalfEven num den * den) ≤ Nat.dist num (k * den) := by
  rcases Nat.eq_zero_or_pos den with rfl | hd
  · exact Nat.le_refl _
  have h := (roundHalfEven_spec num hd).1
  rcases Nat.lt_trichotomy k (roundHalfEven num den) with hlt | heq | hgt
  · have := Nat.mul_le_mul_right den (Nat.succ_le_of_lt hlt)
    rw [Nat.succ_mul] at this
    simp only [Nat.dist] at h ⊢
    omega
  · rw [heq]
  · have := Nat.mul_le_mul_right den (Nat.succ_le_of_lt hgt)
    rw [Nat.succ_mul] at this
    simp only [Nat.dist] at h ⊢
    omega

/-- A numerator no farther from the result than another one has the same result: of two that are
half a unit away, both have the even result. -/
theorem roundHalfEven_of_dist_le {x y den c : Nat} (hd : 0 < den) (hx : roundHalfEven x den = c)
    (h : Nat.dist y (c * den) ≤ Nat.dist x (c * den)) : roundHalfEven y den = c := by
  obtain ⟨hnear, htie⟩ := hx ▸ roundHalfEven_spec x hd
  exact roundHalfEven_unique hd ⟨by omega, fun hy => htie (by omega)⟩

theorem roundHalfEven_scale (num den : Nat) {k : Nat} (hk : 0 < k) :
    roundHalfEven (num * k) (den * k) = roundHalfEven num den := by
  have htwice : 2 * (num % den * k) = 2 * (num % den) * k := (Nat.mul_assoc ..).symm
  simp only [roundHalfEven, Nat.mul_div_mul_right _ _ hk, Nat.mul_mod_mul_right, htwice,
    Nat.mul_lt_mul_right hk, Nat.mul_left_inj (Nat.ne_of_gt hk)]

theorem le_roundHalfEven {num den c : Nat} (hd : 0 < den) (h : c * den ≤ num) :
    c ≤ roundHalfEven num den := by
  have hq : c ≤ num / den := (Nat.le_div_iff_mul_le hd).2 h
  unfold roundHalfEven
  dsimp only
  split <;> omega

theorem roundHalfEven_le {num den c : Nat} (hd : 0 < den) (h : num ≤ c * den) :
    roundHalfEven num den ≤ c := by
  have hdiv := Nat.div_add_mod' num den
  have hs := roundHalfEven_spec num hd
  rcases Nat.lt_or_ge c (roundHalfEven num den) with hlt | hge
  · have := Nat.mul_le_mul_right den (Nat.succ_le_of_lt hlt)
    rw [Nat.succ_mul] at this
    simp only [IsRounded, Nat.dist] at hs
    omega
  · exact hge

end DeskCalculator
