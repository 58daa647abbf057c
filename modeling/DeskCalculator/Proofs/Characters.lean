import DeskCalculator.Token.Scan
import Mathlib.Data.List.TakeWhile

/-!
# Classes of characters

Digits, letters and blanks by their code points, and that no two of these classes meet:

* `isDigit_iff`, `isAlpha_iff`: the ranges of ASCII;
* `isBlank_eq_false_of_isNumberPart`, `isBlank_eq_false_of_isAlpha`: a number or a name never begins
  with a skipped character;
* `not_isAlpha_of_isNumberPart`: a number and a name never run together;
* `takeWhile_boundary`, `takeWhile_append_boundary`: a run of a class ends where the class does.
-/

namespace DeskCalculator

theorem isDigit_iff {c : Char} : c.isDigit = true ↔ 48 ≤ c.toNat ∧ c.toNat ≤ 57 :=
  Char.isDigit_iff_toNat

theorem isAlpha_iff {c : Char} :
    c.isAlpha = true ↔ (65 ≤ c.toNat ∧ c.toNat ≤ 90) ∨ (97 ≤ c.toNat ∧ c.toNat ≤ 122) := by
  have hdef : c.isAlpha = (decide (65 ≤ c.val ∧ c.val ≤ 90) || (97 ≤ c.val && c.val ≤ 122)) := rfl
  rw [hdef, Bool.or_eq_true, Bool.and_eq_true, decide_eq_true_eq, decide_eq_true_eq,
    decide_eq_true_eq]
  rfl

theorem isNumberPart_iff {c : Char} :
    Token.isNumberPart c = true ↔ c = '.' ∨ (48 ≤ c.toNat ∧ c.toNat ≤ 57) := by
  rw [Token.isNumberPart_eq_true_iff, isDigit_iff]

theorem isBlank_eq_false_of_isNumberPart {c : Char} (h : Token.isNumberPart c = true) :
    isBlank c = false := by
  rcases isNumberPart_iff.1 h with rfl | h
  · decide
  · exact isBlank_eq_false (by omega) (by omega)

theorem isBlank_eq_false_of_isAlpha {c : Char} (h : c.isAlpha = true) : isBlank c = false := by
  rcases isAlpha_iff.1 h with h | h <;> exact isBlank_eq_false (by omega) (by omega)

theorem not_isAlpha_of_isNumberPart {c : Char} (h : Token.isNumberPart c = true) :
    c.isAlpha = false := by
  rcases isNumberPart_iff.1 h with rfl | h
  · decide
  · refine Bool.eq_false_iff.2 fun ha => ?_
    have := isAlpha_iff.1 ha
    omega

theorem ne_point_of_isDigit {c : Char} (h : c.isDigit = true) : c ≠ '.' := by
  rintro rfl
  exact absurd h (by decide)

theorem isNumberPart_of_isDigit {c : Char} (h : c.isDigit = true) :
    Token.isNumberPart c = true := by
  simp [Token.isNumberPart, h]

/-! ## Runs at the head of a list -/

theorem takeWhile_boundary {α : Type} {p : α → Bool} {l r : List α} (hl : ∀ a ∈ l, p a = true)
    (hr : ∀ a ∈ r.head?, p a = false) : (l ++ r).takeWhile p = l ∧ (l ++ r).dropWhile p = r := by
  rw [List.takeWhile_append_of_pos hl, List.dropWhile_append_of_pos hl]
  cases r with
  | nil => simp
  | cons a r => simp [hr a rfl]

/-- A run that ends before a boundary is found whatever lies behind it. -/
theorem takeWhile_append_boundary {α : Type} {p : α → Bool} {l r : List α}
    (h : (∀ a ∈ l, p a = true) → ∀ a ∈ r.head?, p a = false) :
    (l ++ r).takeWhile p = l.takeWhile p ∧ (l ++ r).dropWhile p = l.dropWhile p ++ r := by
  induction l with
  | nil => simpa using takeWhile_boundary (l := []) (by simp) (h (by simp))
  | cons a l ih =>
    by_cases ha : p a = true
    · simpa [ha] using ih fun hl => h (List.forall_mem_cons.2 ⟨ha, hl⟩)
    · simp [ha]

theorem head?_dropWhile {α : Type} {p : α → Bool} {l : List α} :
    ∀ a ∈ (l.dropWhile p).head?, p a = false := by
  intro a ha
  have := List.head?_dropWhile_not p l
  rw [Option.mem_def.1 ha] at this
  simpa using this

end DeskCalculator
