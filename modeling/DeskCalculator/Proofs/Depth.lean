import DeskCalculator.Proofs.Parsing

/-!
# The depth limit

Building and evaluating a tree recurse once for each of its levels. The depth that is measured on the
postfix tokens beforehand, without recursion, is the height of the phrase: every sign counts, a plus
sign too, and no parenthesis does. So the limit is exact, and it bounds both recursions. A recursion is
measured by the levels that it needs, since every call has one level less than the call that makes it:

* `Expr.evalWithin`, `evalWithin_eq_eval`: the calls that evaluate a tree are not nested deeper than
  it is high;
* `derives_parenthesized`: parentheses around a text leave its phrase;
* `depth_limit_exact`: every text whose tokens can be put in postfix order.
-/

namespace DeskCalculator

/-! ## Levels of the evaluation -/

namespace Expr

/-- The value of the tree, as `Expr.eval` finds it, if at most `levels` calls are open inside one
another. -/
def evalWithin (arithmetic : Arithmetic) : (levels : Nat) → Expr → Option (Except DomainError Double)
  | 0, _ => none
  | _ + 1, literal value => some (.ok value)
  | _ + 1, constant c => some (.ok c.value)
  | levels + 1, negation e => do
    let x ← evalWithin arithmetic levels e
    return x.map arithmetic.neg
  | levels + 1, binary o l r => do
    match ← evalWithin arithmetic levels l with
    | .error cause => return .error cause
    | .ok x =>
      let y ← evalWithin arithmetic levels r
      return y.map (o.apply arithmetic x)
  | levels + 1, call f e => do
    let x ← evalWithin arithmetic levels e
    return x >>= f.apply arithmetic

theorem height_pos (e : Expr) : 0 < e.height := by
  cases e <;> exact Nat.succ_pos _

/-- As many levels as the tree is high are enough. -/
theorem evalWithin_eq_eval (arithmetic : Arithmetic) (levels : Nat) :
    ∀ e : Expr, e.height ≤ levels → e.evalWithin arithmetic levels = some (e.eval arithmetic) := by
  -- not on the tree: each call has one level less, whichever operand it is made for
  induction levels with
  | zero => exact fun e h => absurd h (Nat.not_le_of_gt e.height_pos)
  | succ levels ih =>
    intro e h
    cases e with
    | literal | constant => rfl
    | negation e =>
      have he : e.height ≤ levels := Nat.le_of_succ_le_succ h
      rw [evalWithin, ih e he, eval]
      cases e.eval arithmetic <;> rfl
    | binary o l r =>
      have hmax : max l.height r.height ≤ levels := Nat.le_of_succ_le_succ h
      rw [evalWithin, ih l (by omega), ih r (by omega), eval]
      cases l.eval arithmetic with
      | error cause => rfl
      | ok x => cases r.eval arithmetic <;> rfl
    | call f e =>
      have he : e.height ≤ levels := Nat.le_of_succ_le_succ h
      rw [evalWithin, ih e he, eval]
      rfl

end Expr

/-! ## Redundant parentheses -/

/-- The text inside `n` pairs of parentheses. -/
def parenthesized (n : Nat) (text : Text) : Text :=
  List.replicate n '(' ++ text ++ List.replicate n ')'

theorem parenthesized_succ (n : Nat) (text : Text) :
    parenthesized (n + 1) text = '(' :: parenthesized n text ++ [')'] := by
  rw [parenthesized, parenthesized, List.replicate_succ, List.replicate_succ']
  simp only [List.cons_append, List.append_assoc]

/-- Parentheses around a text leave its phrase. -/
theorem derives_parenthesized {text : Text} {written : List Token} {p : Phrase}
    (hreads : Token.Reads text written) (hp : Derives .sum written p) (n : Nat) :
    ∃ tokens, Token.Reads (parenthesized n text) tokens ∧ Derives .sum tokens p := by
  induction n with
  | zero => exact ⟨written, by simpa [parenthesized] using hreads, hp⟩
  | succ n ih =>
    obtain ⟨tokens, hinner, hderives⟩ := ih
    have hgroup : Derives .atom (.opening :: tokens ++ [.closing]) p := .group hderives
    rw [parenthesized_succ]
    exact ⟨_, hinner.opening.closing, hgroup.weaken (by decide)⟩

/-! ## The limit -/

/-- For every text whose tokens can be put in postfix order, their depth is the height of the phrase
that the text is, in which a literal or a constant counts one and every sign, operator and function
one more than its deepest operand. The text is refused for its depth exactly if that is more than
`maxDepth`, whatever parentheses are put around it. The calls that build the tree are nested exactly
that deep, so that they run out of levels if they have fewer; a tree that is built is no higher than
`maxDepth`, and that many levels are enough to evaluate it. -/
theorem depth_limit_exact {text : Text} {tokens : List Token}
    (h : Token.arrange text = .ok tokens) :
    ∃ written p, Token.Reads text written ∧ Derives .sum written p ∧ tokens = p.listing ∧
      Token.depth tokens = p.height ∧
      (Expr.parse text = .error .nestedTooDeep ↔ maxDepth < p.height) ∧
      (∀ n, Expr.parse (parenthesized n text) = Expr.parse text) ∧
      (∀ levels, Expr.build levels .whole tokens.reverse =
        if levels < p.height then .error .nestedTooDeep else .ok (p.toExpr, [])) ∧
      ∀ e, Expr.parse text = .ok e → e.height ≤ maxDepth ∧
        ∀ arithmetic, e.evalWithin arithmetic maxDepth = some (e.eval arithmetic) := by
  obtain ⟨written, p, hreads, hp, rfl⟩ := Token.arrange_eq_ok_iff.1 h
  have hparse := parse_of_derives hreads hp
  refine ⟨written, p, hreads, hp, rfl, p.depth_listing, ?_, fun n => ?_, fun levels => ?_,
    fun e he => ?_⟩
  · rw [hparse]
    split
    · next hdeep => exact iff_of_true rfl hdeep
    · next hdeep => exact iff_of_false nofun hdeep
  · obtain ⟨tokens, houter, hderives⟩ := derives_parenthesized hreads hp n
    rw [parse_of_derives houter hderives, hparse]
  · rw [← List.append_nil p.listing.reverse]
    exact p.build_listing levels .whole []
  · rw [hparse] at he
    split at he
    · cases he
    · next hdeep =>
      obtain rfl := Except.ok.inj he
      have hheight : p.toExpr.height ≤ maxDepth := p.height_toExpr_le.trans (by omega)
      exact ⟨hheight, fun arithmetic => Expr.evalWithin_eq_eval arithmetic _ _ hheight⟩

/-- A plus sign under a minus sign is a level of its own, which leaves no trace in the tree; three
hundred pairs of parentheses are none. -/
theorem depth_limit_exact_signs :
    let tokens : List Token := [.number (.finite false ⟨0x3ff0000000000000, by decide⟩), .sign .plus,
      .sign .minus, .constant .e, .function .sin, .operator .multiply]
    let text : Text := ['-', '(', '+', '1', ')', '*', 's', 'i', 'n', '(', 'e', ')']
    Token.arrange text = .ok tokens ∧ Token.depth tokens = 4 ∧
      (∃ e, Expr.parse (parenthesized 300 text) = .ok e ∧ e.height = 3) ∧
      Expr.build 3 .whole tokens.reverse = .error .nestedTooDeep := by
  intro tokens text
  have harrange : Token.arrange text = .ok tokens := by decide +kernel
  have hdepth : Token.depth tokens = 4 := by decide
  have hparse : ∃ e, Expr.parse text = .ok e ∧ e.height = 3 :=
    ⟨.binary .multiply (.negation (.literal (.finite false ⟨0x3ff0000000000000, by decide⟩)))
      (.call .sin (.constant .e)), by decide +kernel, rfl⟩
  obtain ⟨written, p, -, -, -, hheight, -, hgroups, hbuild, -⟩ := depth_limit_exact harrange
  refine ⟨harrange, hdepth, ?_, ?_⟩
  · rwa [hgroups 300]
  · rw [hbuild 3, ← hheight, hdepth]
    rfl

end DeskCalculator
