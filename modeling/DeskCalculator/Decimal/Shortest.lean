import DeskCalculator.Decimal.Basic
import DeskCalculator.Double.Lemmas

/-!
# The shortest decimal that reads back

A double is written with the fewest digits from which it is read again. The grids of decimals are
tried from the coarsest to the finest; on each, only the two neighbours of the exact value can
read back if any decimal of the grid does. Of two neighbours that do, the nearer is taken, and the
upper one when both are equally near.

* `readsFrom_exact`, `readsFrom_shortest`: the exact expansion and the shortest decimal read back;
* `nearest_shortest`: so reading the shortest decimal gives the double again.
-/

namespace DeskCalculator.Magnitude

/-- The neighbours of a magnitude among the multiples of a power of ten. -/
structure Neighbours where
  lower : Decimal
  upper : Decimal
  lowerIsNearer : Bool

/-- The largest multiple of `10 ^ exponent` that is not above the magnitude, and the next one. -/
def neighbours (m : Magnitude) (exponent : Int) : Neighbours :=
  let step := Nat.pow 10 exponent.toNat
  let places := (-exponent).toNat
  let num := m.units * Nat.pow 10 places
  let den := unitsPerOne * step
  { lower := ⟨num / den * step, places⟩
    upper := ⟨(num / den + 1) * step, places⟩
    lowerIsNearer := 2 * (num % den) < den }

/-- The decimal is nearer to this magnitude than to any other. -/
def ReadsFrom (m : Magnitude) (d : Decimal) : Prop := d.rank = m.rank

instance (m : Magnitude) (d : Decimal) : Decidable (m.ReadsFrom d) :=
  inferInstanceAs (Decidable (_ = _))

/-- The multiple of `10 ^ exponent` that reads back, if there is one. -/
def onGrid? (m : Magnitude) (exponent : Int) : Option Decimal :=
  let n := m.neighbours exponent
  if m.ReadsFrom n.lower ∧ (n.lowerIsNearer ∨ ¬ m.ReadsFrom n.upper) then some n.lower
  else if m.ReadsFrom n.upper then some n.upper
  else none

/-- The exact decimal expansion: a unit is `5¹⁰⁷⁴ / 10¹⁰⁷⁴`. -/
def exact (m : Magnitude) : Decimal := ⟨m.units * Nat.pow 5 finestPlaces, finestPlaces⟩

/-- The exponents of the grids from the first that can hold a number of as many whole digits to
the one that holds every magnitude. -/
def gridExponents (m : Magnitude) : List Int :=
  let top := (Nat.toDigits 10 m.whole).length
  (List.range (top + finestPlaces + 1)).map fun (i : Nat) => (top : Int) - i

/-- The shortest decimal that reads back. -/
def shortest (m : Magnitude) : Decimal :=
  (m.gridExponents.findSome? m.onGrid?).getD m.exact

theorem pow_ten_eq (k : Nat) : Nat.pow 10 k = Nat.pow 5 k * Nat.pow 2 k := Nat.mul_pow 5 2 k

theorem readsFrom_exact (m : Magnitude) : m.ReadsFrom m.exact := by
  have pos : 0 < Nat.pow 5 finestPlaces * unitsPerOne :=
    Nat.mul_pos (power_pos (by decide) _) unitsPerOne_pos
  unfold ReadsFrom Decimal.rank exact
  rw [pow_ten_eq, Nat.mul_assoc]
  exact nearestRank_unitsOfRank m.rank pos

theorem readsFrom_of_onGrid? {m : Magnitude} {exponent : Int} {d : Decimal}
    (h : m.onGrid? exponent = some d) : m.ReadsFrom d := by
  simp only [onGrid?] at h
  split at h
  · next hl => exact Option.some.inj h ▸ hl.1
  · split at h
    · next hu => exact Option.some.inj h ▸ hu
    · simp at h

/-- The shortest decimal reads back. -/
theorem readsFrom_shortest (m : Magnitude) : m.ReadsFrom m.shortest := by
  unfold shortest
  cases h : m.gridExponents.findSome? m.onGrid? with
  | none => exact m.readsFrom_exact
  | some d =>
    obtain ⟨exponent, -, hd⟩ := List.exists_of_findSome?_eq_some h
    exact readsFrom_of_onGrid? hd

theorem nearest_shortest (negative : Bool) (m : Magnitude) :
    m.shortest.nearest negative = .finite negative m := by
  have h : nearestRank (m.shortest.coefficient * unitsPerOne) (Nat.pow 10 m.shortest.places) =
      m.rank := m.readsFrom_shortest
  simp only [Decimal.nearest, Double.ofRatio, h, m.rank_lt, ↓reduceDIte]

end DeskCalculator.Magnitude
