import DeskCalculator.Expr
import DeskCalculator.Grammar

/-!
# Trees and their postfix tokens

The postfix tokens of a phrase are measured and built into a tree as one unit, whatever lies below
them:

* `foldl_pushDepth_listing`, `depth_listing`: the measured depth is the height of the phrase;
* `build_listing`: the tree that is built is the one of the phrase, and the other tokens are left; it
  takes as many levels as the phrase is high;
* `ofPostfix_listing`: so the tree is refused exactly when the phrase is higher than `maxDepth`.
-/

namespace DeskCalculator

namespace Phrase

theorem height_le_length (p : Phrase) : p.height ≤ p.listing.length := by
  induction p with
  | literal value => exact Nat.le_refl _
  | constant c => exact Nat.le_refl _
  | signed s p ih =>
    simp only [height, listing, List.length_append, List.length_singleton]
    omega
  | binary o l r ihl ihr =>
    simp only [height, listing, List.length_append, List.length_singleton]
    omega
  | call f p ih =>
    simp only [height, listing, List.length_append, List.length_singleton]
    omega

theorem foldl_pushDepth_listing (p : Phrase) (depths : List Nat) :
    p.listing.foldl Token.pushDepth depths = p.height :: depths := by
  induction p generalizing depths with
  | literal value => rfl
  | constant c => rfl
  | signed s p ih =>
    rw [listing, List.foldl_append, ih]
    rfl
  | binary o l r ihl ihr =>
    rw [listing, List.foldl_append, List.foldl_append, ihl, ihr]
    simp only [List.foldl_cons, List.foldl_nil, Token.pushDepth, List.headD_cons, List.tail_cons,
      height, Nat.max_comm]
  | call f p ih =>
    rw [listing, List.foldl_append, ih]
    rfl

theorem depth_listing (p : Phrase) : Token.depth p.listing = p.height := by
  rw [Token.depth, foldl_pushDepth_listing]
  simp

/-- The tree of a phrase is built from its tokens, and what lies below them is left, if there are as
many levels as the phrase is high. -/
theorem build_listing (p : Phrase) :
    ∀ (levels : Nat) (place : OperandPlace) (rest : List Token),
      Expr.build levels place (p.listing.reverse ++ rest) =
        if levels < p.height then .error .nestedTooDeep else .ok (p.toExpr, rest) := by
  induction p with
  | literal value | constant c =>
    intro levels place rest
    cases levels with
    | zero => rfl
    | succ n => rw [if_neg (by simp [height])]; rfl
  | signed s p ih =>
    intro levels place rest
    cases levels with
    | zero => rfl
    | succ n =>
      have hp := ih n (.afterSign s) rest
      rw [listing, List.reverse_append, List.reverse_singleton, List.append_assoc,
        List.singleton_append, Expr.build.eq_def, height]
      simp only [Nat.add_lt_add_iff_right]
      cases s with
      | plus => exact hp
      | minus =>
        simp only [hp]
        split <;> rfl
  | binary o l r ihl ihr =>
    intro levels place rest
    cases levels with
    | zero => rfl
    | succ n =>
      -- the right operand is built first, and the left one from what it leaves
      have hr := ihr n .afterOperator (l.listing.reverse ++ rest)
      have hl := ihl n .beforeOperator rest
      rw [listing, List.reverse_append, List.reverse_singleton, List.reverse_append,
        List.append_assoc, List.singleton_append, List.append_assoc, Expr.build.eq_def, height]
      simp only [hr, Nat.add_lt_add_iff_right]
      by_cases hright : n < r.height
      · rw [if_pos hright, if_pos (by omega)]
        rfl
      · rw [if_neg hright]
        simp only [hl, bind, Except.bind]
        by_cases hleft : n < l.height
        · rw [if_pos hleft, if_pos (by omega)]
        · rw [if_neg hleft, if_neg (by omega)]
          rfl
  | call f p ih =>
    intro levels place rest
    cases levels with
    | zero => rfl
    | succ n =>
      have hp := ih n .argument rest
      rw [listing, List.reverse_append, List.reverse_singleton, List.append_assoc,
        List.singleton_append, Expr.build.eq_def, height]
      simp only [hp, Nat.add_lt_add_iff_right]
      split <;> rfl

/-- The tree of a phrase is refused exactly when the phrase is higher than `maxDepth`. -/
theorem ofPostfix_listing (p : Phrase) :
    Expr.ofPostfix p.listing =
      if maxDepth < p.height then .error .nestedTooDeep else .ok p.toExpr := by
  have hb := p.build_listing (p.listing.length + 1) .whole []
  rw [List.append_nil, if_neg (Nat.not_lt.2 (Nat.le_succ_of_le p.height_le_length))] at hb
  rw [Expr.ofPostfix, depth_listing, hb]
  rfl

end Phrase

end DeskCalculator
