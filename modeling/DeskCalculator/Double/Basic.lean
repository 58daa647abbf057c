/-!
# Double-precision numbers

The numbers of the calculator are the doubles of binary arithmetic: 53 significant bits, 11 bits
of exponent. They are kept in the shape that exact reasoning needs.

* A `Magnitude` is a finite double without its sign, given by its rank in increasing order. The
  rank of a magnitude is also its bit pattern, and its parity is that of the significand.
* Every magnitude is a whole number of units of `2⁻¹⁰⁷⁴` (`Magnitude.units`), so exact values are
  natural numbers and no fractions are needed.
* `roundHalfEven` is the one rounding rule: reading a decimal, all exact arithmetic and writing a
  fixed number of decimal places round by it, once. `roundHalfEven_mul`: a whole quotient is its own
  rounding.
* `Double.ofRatio` is the double nearest a quotient of units.
-/

namespace DeskCalculator

/-! ## Rounding a quotient -/

/-- The whole number nearest `num / den`; of two equally near ones the even one. -/
def roundHalfEven (num den : Nat) : Nat :=
  let quotient := num / den
  let twice := 2 * (num % den)
  if twice < den ∨ (twice = den ∧ quotient % 2 = 0) then quotient else quotient + 1

theorem roundHalfEven_mul (q : Nat) {den : Nat} (h : 0 < den) :
    roundHalfEven (q * den) den = q := by
  simp [roundHalfEven, h]

/-! ## Magnitudes -/

/-- The number of binary places of the finest magnitude. -/
def finestPlaces : Nat := 1074

/-- The number of units of `2⁻¹⁰⁷⁴` in one. -/
def unitsPerOne : Nat := Nat.pow 2 finestPlaces

theorem power_pos {base : Nat} (h : 0 < base) (exponent : Nat) : 0 < Nat.pow base exponent :=
  Nat.pow_pos h

theorem unitsPerOne_pos : 0 < unitsPerOne := by
  unfold unitsPerOne; exact power_pos (by decide) _

/-- The number of ranks from one power of two to the next, `2⁵²`. -/
def binadeSize : Nat := 0x10000000000000

/-- The rank that follows the last finite magnitude. -/
def infinityRank : Nat := 0x7ff0000000000000

/-- The pattern of the sign bit alone. -/
def signPattern : Nat := 0x8000000000000000

/-- The units of the magnitude of rank `rank`: below `2⁵²` each unit has a rank of its own, above
it the ranks between two powers of two are equal steps. -/
def unitsOfRank (rank : Nat) : Nat :=
  if rank < binadeSize then rank
  else (binadeSize + rank % binadeSize) * Nat.pow 2 (rank / binadeSize - 1)

/-- The rank nearest `num / den` units, a tie going to the even rank. It is `infinityRank` or more
when the quotient is nearer to `2¹⁰²⁴` than to any finite magnitude. -/
def nearestRank (num den : Nat) : Nat :=
  let shift := (num / den).log2 - 52
  shift * binadeSize + roundHalfEven num (den * Nat.pow 2 shift)

/-- A finite magnitude, by its rank among all of them. -/
structure Magnitude where
  rank : Nat
  rank_lt : rank < infinityRank
deriving DecidableEq

namespace Magnitude

/-- The exact value in units of `2⁻¹⁰⁷⁴`. -/
def units (m : Magnitude) : Nat := unitsOfRank m.rank

def zero : Magnitude := ⟨0, by decide⟩

/-- No digits after the point. -/
def IsWhole (m : Magnitude) : Prop := m.units % unitsPerOne = 0

instance (m : Magnitude) : Decidable m.IsWhole := inferInstanceAs (Decidable (_ = _))

/-- The whole part. -/
def whole (m : Magnitude) : Nat := m.units / unitsPerOne

end Magnitude

/-! ## Doubles -/

/-- A double. All values that are not numbers count as one. -/
inductive Double where
  | nan
  | infinite (negative : Bool)
  | finite (negative : Bool) (magnitude : Magnitude)
deriving DecidableEq

namespace Double

/-- The double nearest to the quotient `num / den` of units, with the given sign; an infinity when
that quotient is too large. -/
def ofRatio (negative : Bool) (num den : Nat) : Double :=
  if h : nearestRank num den < infinityRank then .finite negative ⟨nearestRank num den, h⟩
  else .infinite negative

def zero (negative : Bool) : Double := .finite negative .zero

def isFinite : Double → Bool
  | finite .. => true
  | _ => false

/-- Below or equal to zero; false of a value that is not a number. -/
def isNonPositive : Double → Bool
  | nan => false
  | infinite negative => negative
  | finite negative m => negative || m.rank == 0

/-- Below zero; false of the negative zero. -/
def isNegative : Double → Bool
  | nan => false
  | infinite negative => negative
  | finite negative m => negative && m.rank != 0

/-- Equality of numbers: both zeros are one, and a value that is not a number equals none. -/
def numEq : Double → Double → Bool
  | infinite a, infinite b => a == b
  | finite a m, finite b n => m.rank == n.rank && (a == b || m.rank == 0)
  | _, _ => false

/-! ## Bit patterns -/

/-- The value of the sign bit. -/
def signBit (negative : Bool) : Nat := if negative then signPattern else 0

/-- The bit pattern as a number: sign, exponent, fraction. One pattern stands for every value that
is not a number. -/
def pattern : Double → Nat
  | nan => 0x7ff8000000000000
  | infinite negative => signBit negative + infinityRank
  | finite negative m => signBit negative + m.rank

/-- The double of a pattern of 64 bits. -/
def ofPattern (n : Nat) : Double :=
  if h : n % signPattern < infinityRank then .finite (signPattern ≤ n) ⟨n % signPattern, h⟩
  else if n % signPattern = infinityRank then .infinite (signPattern ≤ n)
  else .nan

def toBits (x : Double) : UInt64 := .ofNat x.pattern

def ofBits (bits : UInt64) : Double := ofPattern bits.toNat

end Double

end DeskCalculator
