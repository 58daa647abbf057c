import DeskCalculator.Decimal.Shortest

/-!
# Numbers on the display

* `Double.text` is the plain text of a double, used in messages: the shortest digits that read
  back, never an exponent;
* `Magnitude.fixed` is the exact value rounded to a number of decimal places and then written
  without zeros at its end;
* `Double.display` is the text of a result: whole numbers in full, others with at most the chosen
  number of decimal places, and never a negative zero.
-/

namespace DeskCalculator

namespace Magnitude

/-- The nearest decimal with `places` digits after the point, a half going to the even digit. No
magnitude has more decimal places than the finest has binary ones, so digits beyond those are zeros
and left out. -/
def rounded (m : Magnitude) (places : Nat) : Decimal :=
  let places := min places finestPlaces
  ⟨roundHalfEven (m.units * Nat.pow 10 places) unitsPerOne, places⟩

/-- The nearest decimal with at most `places` digits after the point, none of them a zero at the
end. -/
def fixed (m : Magnitude) (places : Nat) : Decimal := (m.rounded places).trim

end Magnitude

/-- A minus sign before the text of a negative number. -/
def withSign (negative : Bool) (text : Text) : Text :=
  if negative then '-' :: text else text

namespace Double

/-- A value without digits. -/
def nonFiniteText : Double → Text
  | infinite negative => withSign negative "inf".toList
  | _ => "NaN".toList

/-- The shortest text that reads back. -/
def text : Double → Text
  | finite negative m => withSign negative m.shortest.text
  | x => x.nonFiniteText

/-- The text of a result with at most `precision` decimal places. -/
def display (precision : Nat) : Double → Text
  | finite negative m =>
    let digits := if m.IsWhole then m.shortest else m.fixed precision
    withSign (negative && digits.coefficient != 0) digits.text
  | x => x.nonFiniteText

end Double

end DeskCalculator
