import DeskCalculator.Grammar

/-!
# How strongly operators bind

The levels of the grammar in the order of their strength, and the precedences of the arranger in
terms of them. A waiting token forms a phrase of a level once its operands are complete (`Forms`),
and demands its last operand at a level (`demand`):

* `Derives.weaken`: what is derived at a level is derived at every weaker one;
* `isAppliedBefore_iff`, `isApplied_iff`: a waiting token goes out before an operator, or at the end
  of a group, exactly if it forms a left operand of the operator, or a sum;
* `demand_le_level_iff`: the waiting token on top stays exactly if it demands what the operator
  forms.
-/

namespace DeskCalculator

namespace Level

/-- The place of a level in the order of the levels, the weakest first. -/
def strength : Level → Nat
  | sum => 0
  | product => 1
  | power => 2
  | unary => 3
  | atom => 4

end Level

/-- What is derived at a level is derived at every weaker one. -/
theorem Derives.weaken {ts : List Token} {p : Phrase} :
    ∀ {strong weak : Level}, Derives strong ts p → weak.strength ≤ strong.strength →
      Derives weak ts p
  | .sum, .sum, h, _ | .product, .product, h, _ | .power, .power, h, _ | .unary, .unary, h, _
  | .atom, .atom, h, _ => h
  | .product, .sum, h, _ => .sumOfProduct h
  | .power, .product, h, _ => .productOfPower h
  | .unary, .power, h, _ => .powerOfUnary h
  | .atom, .unary, h, _ => .unaryOfAtom h
  | .power, .sum, h, _ => .sumOfProduct (.productOfPower h)
  | .unary, .product, h, _ => .productOfPower (.powerOfUnary h)
  | .atom, .power, h, _ => .powerOfUnary (.unaryOfAtom h)
  | .unary, .sum, h, _ => .sumOfProduct (.productOfPower (.powerOfUnary h))
  | .atom, .product, h, _ => .productOfPower (.powerOfUnary (.unaryOfAtom h))
  | .atom, .sum, h, _ => .sumOfProduct (.productOfPower (.powerOfUnary (.unaryOfAtom h)))

namespace Operator

/-- The level of a phrase with this operator at its root. -/
def level : Operator → Level
  | add | subtract => .sum
  | multiply | divide | remainder => .product
  | power => .power

/-- The level of the left operand. -/
def leftLevel : Operator → Level
  | add | subtract => .sum
  | multiply | divide | remainder => .product
  | power => .unary

/-- The level of the right operand. -/
def rightLevel : Operator → Level
  | add | subtract => .product
  | multiply | divide | remainder | power => .power

theorem leftLevel_le_unary (o : Operator) : o.leftLevel.strength ≤ Level.unary.strength := by
  cases o <;> decide

theorem rightLevel_le_unary (o : Operator) : o.rightLevel.strength ≤ Level.unary.strength := by
  cases o <;> decide

end Operator

theorem Derives.binary {o : Operator} {ls rs : List Token} {l r : Phrase}
    (hl : Derives o.leftLevel ls l) (hr : Derives o.rightLevel rs r) :
    Derives o.level (ls ++ .operator o :: rs) (.binary o l r) := by
  cases o with
  | add => exact .sum (.inl rfl) hl hr
  | subtract => exact .sum (.inr rfl) hl hr
  | multiply => exact .product (.inl rfl) hl hr
  | divide => exact .product (.inr (.inl rfl)) hl hr
  | remainder => exact .product (.inr (.inr rfl)) hl hr
  | power => exact .power hl hr

namespace Token

/-- A waiting token that forms a phrase of a level, once its operands are complete. -/
def Forms (level : Level) : Token → Prop
  | operator o => level.strength ≤ o.level.strength
  | sign _ => level.strength ≤ Level.unary.strength
  | _ => False

instance (level : Level) : DecidablePred (Forms level)
  | operator _ | sign _ => inferInstanceAs (Decidable (_ ≤ _))
  | number _ | constant _ | function _ | opening | closing => inferInstanceAs (Decidable False)

theorem Forms.weaken {strong weak : Level} {t : Token} (h : Forms strong t)
    (hs : weak.strength ≤ strong.strength) : Forms weak t := by
  cases t with
  | operator o => exact Nat.le_trans hs h
  | sign s => exact Nat.le_trans hs h
  | _ => exact h

theorem isApplied_iff {t : Token} : isApplied t = true ↔ Forms .sum t := by
  cases t <;> simp [isApplied, Forms, Level.strength]

/-- A waiting token goes out before an operator exactly if it forms its left operand. -/
theorem isAppliedBefore_iff {o : Operator} {t : Token} :
    isAppliedBefore o t = true ↔ Forms o.leftLevel t := by
  cases t with
  | operator e => cases o <;> cases e <;> decide
  | sign s => cases o <;> simp [isAppliedBefore, Forms, Operator.leftLevel, Level.strength]
  | _ => simp [isAppliedBefore, Forms]

/-- The weakest level of the operand that is due when these tokens wait. -/
def demand : List Token → Level
  | operator o :: _ => o.rightLevel
  | sign _ :: _ => .unary
  | _ => .sum

@[simp] theorem demand_nil : demand [] = .sum := rfl

@[simp] theorem demand_operator (o : Operator) (waiting : List Token) :
    demand (operator o :: waiting) = o.rightLevel := rfl

@[simp] theorem demand_sign (s : Sign) (waiting : List Token) :
    demand (sign s :: waiting) = .unary := rfl

@[simp] theorem demand_opening (waiting : List Token) : demand (opening :: waiting) = .sum := rfl

theorem demand_le_unary (waiting : List Token) :
    (demand waiting).strength ≤ Level.unary.strength := by
  unfold demand
  split
  · exact Operator.rightLevel_le_unary _
  · exact Nat.le_refl _
  · decide

theorem demand_le_atom (waiting : List Token) :
    (demand waiting).strength ≤ Level.atom.strength :=
  Nat.le_succ_of_le (demand_le_unary waiting)

/-- The waiting token on top stays exactly if the phrase of the operator is an operand of it. -/
theorem demand_le_level_iff {o : Operator} {waiting : List Token} :
    (demand waiting).strength ≤ o.level.strength ↔
      ∀ t ∈ waiting.head?, isAppliedBefore o t = false := by
  cases waiting with
  | nil => simp [demand, Level.strength]
  | cons t waiting =>
    simp only [List.head?_cons, Option.mem_def, Option.some.injEq, forall_eq']
    cases t with
    | operator e =>
      rw [demand_operator]
      cases o <;> cases e <;> decide
    | sign s =>
      rw [demand_sign]
      cases o <;> cases s <;> decide
    | _ => simp [demand, Level.strength, isAppliedBefore]

end Token

end DeskCalculator
