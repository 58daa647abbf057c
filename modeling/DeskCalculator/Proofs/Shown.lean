import DeskCalculator.Proofs.Numerals

/-!
# The digits of a shown number

A display shows a whole number in its shortest digits and any other number rounded to the decimal
places of the calculator. Reading these digits gives a number with the same digits:

* `places_shortest`: the shortest digits of a whole number have no point;
* `shortest_eq_whole`: up to `2⁵³` they are the number itself;
* `rounded_scale`: places beyond those of the finest magnitude are zeros;
* `rounded_nearest`: the magnitude nearest to a rounded one is rounded alike;
* `digits_nearest`: whatever is shown is read as a number that is shown alike;
* `isCanonical_display`: a finite number is shown as a canonical numeral.
-/

namespace DeskCalculator

theorem unitsPerOne_eq : unitsPerOne = Nat.pow 2 finestPlaces := by
  unfold unitsPerOne
  exact Eq.refl _

theorem rank_lt_infinityRank {rank : Nat} (h : rank ≤ finestPlaces * binadeSize + binadeSize) :
    rank < infinityRank :=
  Nat.lt_of_le_of_lt h (by decide)

-- the power of two is never multiplied out
attribute [local irreducible] unitsPerOne finestPlaces

namespace Magnitude

/-- The digits of a magnitude on a display, without the sign. -/
def digits (m : Magnitude) (precision : Nat) : Decimal :=
  if m.IsWhole then m.shortest else m.fixed precision

/-! ## Whole numbers -/

theorem units_eq_whole {m : Magnitude} (h : m.IsWhole) : m.units = m.whole * unitsPerOne := by
  have hdm := Nat.div_add_mod' m.units unitsPerOne
  rw [show m.units % unitsPerOne = 0 from h, Nat.add_zero] at hdm
  exact hdm.symm

/-- A whole number lies on the grid of the whole numbers. -/
theorem onGrid?_zero {m : Magnitude} (h : m.IsWhole) : m.onGrid? 0 = some ⟨m.whole, 0⟩ := by
  have hn : m.neighbours 0 = ⟨⟨m.whole, 0⟩, ⟨m.whole + 1, 0⟩, true⟩ := by
    have hp : 0 < unitsPerOne := unitsPerOne_pos
    have hone : Nat.pow 10 0 = 1 := rfl
    simp only [neighbours, Int.toNat_zero, Int.neg_zero, hone, Nat.mul_one,
      show m.units % unitsPerOne = 0 from h, Nat.mul_zero, hp, decide_true, whole]
  have hread : m.ReadsFrom ⟨m.whole, 0⟩ := by
    show nearestRank (m.whole * unitsPerOne) (Nat.pow 10 0) = m.rank
    have hone : m.units = unitsOfRank m.rank * Nat.pow 10 0 := (Nat.mul_one _).symm
    rw [← units_eq_whole h, hone]
    exact nearestRank_unitsOfRank m.rank Nat.one_pos
  simp only [onGrid?, hn, hread, true_or, and_self, if_true]

theorem places_of_onGrid? {m : Magnitude} {exponent : Int} {d : Decimal}
    (h : m.onGrid? exponent = some d) : d.places = (-exponent).toNat := by
  simp only [onGrid?] at h
  split at h
  · rw [← Option.some.inj h]
    rfl
  · split at h
    · rw [← Option.some.inj h]
      rfl
    · cases h

/-- The shortest digits of a whole number have no point: a grid at least as coarse as the whole
numbers holds one that reads back. -/
theorem places_shortest {m : Magnitude} (h : m.IsWhole) : m.shortest.places = 0 := by
  let top := (Nat.toDigits 10 m.whole).length
  let exponent : Nat → Int := fun i => (top : Int) - i
  have hsplit : m.gridExponents =
      (List.range (top + 1)).map exponent ++
        ((List.range finestPlaces).map (top + 1 + ·)).map exponent := by
    rw [← List.map_append, ← List.range_add, Nat.add_right_comm]
    rfl
  obtain ⟨d, hd⟩ : ∃ d, ((List.range (top + 1)).map exponent).findSome? m.onGrid? = some d := by
    refine Option.isSome_iff_exists.1 (List.findSome?_isSome_iff.2 ⟨0, ?_, ?_⟩)
    · exact List.mem_map.2 ⟨top, List.mem_range.2 (by omega), by simp [exponent]⟩
    · rw [onGrid?_zero h]
      rfl
  obtain ⟨_, hmem, hgrid⟩ := List.exists_of_findSome?_eq_some hd
  obtain ⟨i, hi, rfl⟩ := List.mem_map.1 hmem
  have := List.mem_range.1 hi
  rw [shortest, hsplit, List.findSome?_append, hd, Option.some_or, Option.getD_some,
    places_of_onGrid? hgrid]
  simp only [exponent]
  omega

/-- A whole number below `2⁵³` is its own shortest digits: no other whole number is as near to it
as the magnitude. -/
theorem shortest_eq_whole_of_lt {m : Magnitude} (h : m.IsWhole) (hm : m.whole < 2 * binadeSize) :
    m.shortest = ⟨m.whole, 0⟩ := by
  have hread := m.readsFrom_shortest
  have hplaces := places_shortest h
  generalize m.shortest = d at hread hplaces ⊢
  obtain ⟨k, places⟩ := d
  obtain rfl : places = 0 := hplaces
  have hrank : nearestRank (k * unitsPerOne) 1 = m.rank := hread
  have hnear : ∀ j ≤ 2 * binadeSize, Nat.dist (k * unitsPerOne) (m.whole * unitsPerOne) ≤
      Nat.dist (k * unitsPerOne) (j * unitsPerOne) := by
    intro j hj
    obtain ⟨rank, hj⟩ := exists_rank finestPlaces hj
    rw [← unitsPerOne_eq] at hj
    have := nearestRank_nearest (k * unitsPerOne) Nat.one_pos rank
    rwa [hrank, hj, Nat.mul_one, Nat.mul_one, show unitsOfRank m.rank = _ from units_eq_whole h]
      at this
  simp only [Nat.dist_mul_right, Nat.mul_le_mul_right_iff unitsPerOne_pos] at hnear
  have hk : k = m.whole := by
    rcases Nat.lt_or_ge (m.whole + 1) k with hlt | hge
    · have := hnear (m.whole + 1) hm
      simp only [Nat.dist] at this
      omega
    · have := hnear k (by omega)
      simp only [Nat.dist] at this
      omega
  rw [hk]

/-- The magnitude `2⁵³` is its own shortest digits, although the next whole number is read as it
too. -/
theorem shortest_binade :
    shortest ⟨finestPlaces * binadeSize + 2 * binadeSize, by decide +kernel⟩ =
      ⟨2 * binadeSize, 0⟩ := by
  decide +kernel

/-- A whole number up to `2⁵³` is its own shortest digits. -/
theorem shortest_eq_whole {m : Magnitude} (h : m.IsWhole) (hm : m.whole ≤ 2 * binadeSize) :
    m.shortest = ⟨m.whole, 0⟩ := by
  rcases Nat.lt_or_eq_of_le hm with hlt | heq
  · exact shortest_eq_whole_of_lt h hlt
  · have hunits : unitsOfRank m.rank = unitsOfRank (finestPlaces * binadeSize + 2 * binadeSize) := by
      rw [unitsOfRank_binade _ (by omega) (Nat.le_refl _), ← unitsPerOne_eq, ← heq]
      exact units_eq_whole h
    have heqm : m = ⟨finestPlaces * binadeSize + 2 * binadeSize, by decide +kernel⟩ := by
      cases m
      rw [mk.injEq]
      exact unitsOfRank_strictMono.injective hunits
    rw [heq, heqm, shortest_binade]

/-! ## Other numbers -/

/-- Rounding to more places than the finest magnitude has changes nothing, so those that are left
out are zeros. -/
theorem rounded_scale (m : Magnitude) (places : Nat) :
    ∃ more, roundHalfEven (m.units * Nat.pow 10 places) unitsPerOne =
        (m.rounded places).coefficient * Nat.pow 10 more ∧
      places = (m.rounded places).places + more := by
  rcases Nat.le_total places finestPlaces with hle | hge
  · refine ⟨0, ?_, ?_⟩
    · rw [rounded, Nat.min_eq_left hle]
      exact (Nat.mul_one _).symm
    · rw [rounded, Nat.min_eq_left hle, Nat.add_zero]
  · have hexact : m.units * Nat.pow 10 finestPlaces = m.exact.coefficient * unitsPerOne := by
      rw [pow_ten_eq, unitsPerOne_eq, ← Nat.mul_assoc]
      rfl
    obtain ⟨more, rfl⟩ := Nat.exists_eq_add_of_le hge
    have hpow : Nat.pow 10 (finestPlaces + more) = Nat.pow 10 finestPlaces * Nat.pow 10 more :=
      Nat.pow_add 10 ..
    refine ⟨more, ?_, by rw [rounded, Nat.min_eq_right hge]⟩
    rw [rounded, Nat.min_eq_right hge, hpow, ← Nat.mul_assoc, hexact, Nat.mul_right_comm,
      roundHalfEven_mul _ unitsPerOne_pos, roundHalfEven_mul _ unitsPerOne_pos]

/-- Magnitudes from `2⁵²` on are whole. -/
theorem units_lt_of_not_isWhole {m : Magnitude} (h : ¬ m.IsWhole) :
    m.units < binadeSize * unitsPerOne := by
  have hlt : m.rank < (finestPlaces + 1) * binadeSize := by
    refine Nat.lt_of_not_le fun hle => h ?_
    have hdvd := pow_dvd_unitsOfRank hle
    rw [← unitsPerOne_eq] at hdvd
    exact Nat.mod_eq_zero_of_dvd hdvd
  have := unitsOfRank_strictMono hlt
  rwa [Nat.add_mul, Nat.one_mul, unitsOfRank_binade _ (Nat.le_refl _) (by omega),
    ← unitsPerOne_eq] at this

theorem coefficient_rounded_le {m : Magnitude} (h : ¬ m.IsWhole) (precision : Nat) :
    (m.rounded precision).coefficient ≤
      binadeSize * Nat.pow 10 (m.rounded precision).places := by
  refine roundHalfEven_le unitsPerOne_pos ?_
  have := Nat.mul_le_mul_right (Nat.pow 10 (min precision finestPlaces))
    (Nat.le_of_lt (units_lt_of_not_isWhole h))
  rwa [Nat.mul_right_comm] at this

theorem rank_rounded_lt {m : Magnitude} (h : ¬ m.IsWhole) (precision : Nat) :
    (m.rounded precision).rank < infinityRank := by
  have hle := Nat.mul_le_mul_right unitsPerOne (coefficient_rounded_le h precision)
  refine rank_lt_infinityRank (nearestRank_le (power_pos (by decide) _) ?_)
  rw [unitsOfRank_binade _ (Nat.le_refl _) (by omega), ← unitsPerOne_eq]
  rwa [Nat.mul_right_comm] at hle

/-- The magnitude nearest to a rounded one is no farther from it than the one that was rounded, so
it is rounded alike. -/
theorem rounded_nearest {m w : Magnitude} {precision : Nat}
    (hw : w.rank = (m.rounded precision).rank) : w.rounded precision = m.rounded precision := by
  have hpow := power_pos (show 0 < 10 by decide) (min precision finestPlaces)
  have hnear := nearestRank_nearest ((m.rounded precision).coefficient * unitsPerOne) hpow m.rank
  rw [show nearestRank _ (Nat.pow 10 (min precision finestPlaces)) = w.rank from hw.symm] at hnear
  have hc : roundHalfEven (w.units * Nat.pow 10 (min precision finestPlaces)) unitsPerOne =
      (m.rounded precision).coefficient := by
    refine roundHalfEven_of_dist_le unitsPerOne_pos rfl ?_
    rw [Nat.dist_comm, Nat.dist_comm (m.units * _)]
    exact hnear
  exact congrArg (Decimal.mk · (min precision finestPlaces)) hc

/-- A number rounded to a whole one is shown as that. -/
theorem fixed_eq_shortest {m w : Magnitude} {precision : Nat} (hm : ¬ m.IsWhole) (hw : w.IsWhole)
    (h : w.rounded precision = m.rounded precision) : m.fixed precision = w.shortest := by
  have hround : w.rounded precision =
      ⟨w.whole * Nat.pow 10 (min precision finestPlaces), min precision finestPlaces⟩ := by
    rw [rounded, units_eq_whole hw, Nat.mul_right_comm, roundHalfEven_mul _ unitsPerOne_pos]
  have hle := coefficient_rounded_le hm precision
  rw [← h, hround] at hle
  have hpos := binadeSize_pos
  have hbound := Nat.le_of_mul_le_mul_right hle (power_pos (by decide) _)
  rw [fixed, ← h, hround, Decimal.trim_whole, shortest_eq_whole hw (by omega)]

/-- Whatever is shown is read as a number that is shown alike, and a whole number as itself. -/
theorem digits_nearest (m : Magnitude) (precision : Nat) :
    ∃ w : Magnitude, (∀ negative, (m.digits precision).nearest negative = .finite negative w) ∧
      w.digits precision = m.digits precision ∧ (m.IsWhole → w = m) := by
  by_cases hm : m.IsWhole
  · refine ⟨m, fun negative => ?_, rfl, fun _ => rfl⟩
    rw [digits, if_pos hm, nearest_shortest]
  · have hlt := rank_rounded_lt hm precision
    have hfixed : (m.fixed precision).rank = (m.rounded precision).rank := Decimal.rank_trim _
    let w : Magnitude := ⟨(m.rounded precision).rank, hlt⟩
    have hw : w.rounded precision = m.rounded precision := rounded_nearest rfl
    refine ⟨w, fun negative => ?_, ?_, fun h => absurd h hm⟩
    · rw [digits, if_neg hm]
      have : nearestRank ((m.fixed precision).coefficient * unitsPerOne)
          (Nat.pow 10 (m.fixed precision).places) = (m.rounded precision).rank := hfixed
      simp only [Decimal.nearest, Double.ofRatio, this, hlt, ↓reduceDIte, w]
    · rw [digits, digits, if_neg hm]
      by_cases hwhole : w.IsWhole
      · rw [if_pos hwhole, fixed_eq_shortest hm hwhole hw]
      · rw [if_neg hwhole, fixed, fixed, hw]

theorem isTrimmed_digits (m : Magnitude) (precision : Nat) : (m.digits precision).IsTrimmed := by
  unfold digits
  split
  · next h => exact .inl (places_shortest h)
  · exact Decimal.isTrimmed_trim _

theorem places_digits_le (m : Magnitude) (precision : Nat) :
    (m.digits precision).places ≤ precision := by
  unfold digits
  split
  · next h => exact places_shortest h ▸ Nat.zero_le _
  · exact Nat.le_trans (Decimal.places_trim_le _) (Nat.min_le_left ..)

/-- Only zero has no digit but zeros. -/
theorem rank_eq_zero {m : Magnitude} (h : m.shortest.coefficient = 0) : m.rank = 0 := by
  have hread : nearestRank (m.shortest.coefficient * unitsPerOne) (Nat.pow 10 m.shortest.places) =
      m.rank := m.readsFrom_shortest
  have hzero := nearestRank_unitsOfRank 0 (power_pos (show 0 < 10 by decide) m.shortest.places)
  rw [unitsOfRank_small (Nat.zero_le _), Nat.zero_mul] at hzero
  rw [← hread, h, Nat.zero_mul, hzero]

/-- The numeral on a display. Zero has no sign. -/
def numeral (negative : Bool) (m : Magnitude) (precision : Nat) : Numeral :=
  (m.digits precision).numeral (negative && (m.digits precision).coefficient != 0)

theorem isCanonical_numeral (negative : Bool) (m : Magnitude) (precision : Nat) :
    (m.numeral negative precision).IsCanonical precision := by
  refine Decimal.isCanonical_numeral (m.isTrimmed_digits _) (m.places_digits_le _) fun h => ?_
  simp only [h, bne_self_eq_false, Bool.and_false]

end Magnitude

namespace Double

theorem display_finite (negative : Bool) (m : Magnitude) (precision : Nat) :
    (finite negative m).display precision =
      withSign (negative && (m.digits precision).coefficient != 0) (m.digits precision).text :=
  rfl

theorem display_numeral (negative : Bool) (m : Magnitude) (precision : Nat) :
    (finite negative m).display precision = (m.numeral negative precision).text := by
  rw [display_finite, Magnitude.numeral, Decimal.text_numeral]

/-- A finite number is shown as a canonical numeral. -/
theorem isCanonical_display (negative : Bool) (m : Magnitude) (precision : Nat) :
    ∃ n : Numeral, n.IsCanonical precision ∧ (finite negative m).display precision = n.text :=
  ⟨_, m.isCanonical_numeral negative precision, display_numeral negative m precision⟩

end Double

end DeskCalculator
