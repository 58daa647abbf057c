import DeskCalculator.Proofs.Building
import DeskCalculator.Proofs.Parsing

/-!
# Operands and waiting tokens are in balance

The arranger takes from the waiting tokens what it finds there and never looks at what it has put
out, and the construction of a tree takes operands from the end of the output as its tokens ask for
them. Both have branches for tokens that do not fit. They are never reached, since in every state the
output holds the operands that the waiting tokens will need:

* `Waits`: what can wait, and what a function waits under;
* `Operands`: the output is a number of operands in postfix order;
* `Arranger.Balanced`: every operator that waits has its left operand in the output, and so has an
  operator that is due;
* `Explains.balanced`: the tokens read put a state in balance;
* `Balanced.apply`, `Balanced.release`: a waiting token that goes out finds its operands, and so do
  several in turn;
* `arrange_balanced`: all texts.
-/

namespace DeskCalculator

/-- What is wrong with a lexeme or with the place of a token is not wrong with postfix tokens. -/
theorem SyntaxError.isNotPostfix_eq_false {cause : SyntaxError}
    (h : cause.isLexical = true ∨ cause.isMisplacement = true) : cause.isNotPostfix = false := by
  cases cause <;> simp_all [isLexical, isMisplacement, isNotPostfix]

namespace Token

/-- A token that joins two operands. -/
def isBinary : Token → Bool
  | operator _ => true
  | _ => false

theorem countP_operator (o : Operator) (waiting : List Token) :
    (operator o :: waiting).countP isBinary = waiting.countP isBinary + 1 :=
  List.countP_cons_of_pos rfl

/-- Operators, signs, opening parentheses and functions wait, and a function right under its
parenthesis. -/
inductive Waits : List Token → Prop where
  | nil : Waits []
  | operator {waiting} (o : Operator) : Waits waiting → Waits (.operator o :: waiting)
  | sign {waiting} (s : Sign) : Waits waiting → Waits (.sign s :: waiting)
  | opening {waiting} : Waits waiting → Waits (.opening :: waiting)
  | call {waiting} (f : Function) : Waits waiting → Waits (.opening :: .function f :: waiting)

/-- The tokens, the last one first, are this many operands in postfix order. -/
def Operands (output : List Token) (n : Nat) : Prop :=
  ∃ ps : List Phrase, ps.length = n ∧ output = ps.flatMap fun p => p.listing.reverse

variable {output waiting : List Token} {n : Nat} {t : Token}

/-- Under the operators and signs of a group is its parenthesis. -/
theorem Waits.head?_dropWhile (h : Waits waiting) :
    ∀ t ∈ (waiting.dropWhile isApplied).head?, t = .opening := by
  induction h with
  | nil => rintro _ ⟨⟩
  | operator o h ih | sign s h ih => exact ih
  | opening h _ | call f h _ =>
    rintro _ ⟨⟩
    rfl

/-- One more operand. -/
theorem Operands.listing (h : Operands output n) (p : Phrase) :
    Operands (p.listing.reverse ++ output) (n + 1) := by
  obtain ⟨ps, rfl, rfl⟩ := h
  exact ⟨p :: ps, rfl, rfl⟩

theorem Operands.sign (h : Operands output (n + 1)) (s : Sign) :
    Operands (.sign s :: output) (n + 1) := by
  obtain ⟨ps, hn, rfl⟩ := h
  obtain ⟨p, ps, rfl⟩ := List.exists_cons_of_length_eq_add_one hn
  exact ⟨.signed s p :: ps, hn, by simp [Phrase.listing]⟩

/-- An operator makes one operand of two. -/
theorem Operands.operator (h : Operands output (n + 2)) (o : Operator) :
    Operands (.operator o :: output) (n + 1) := by
  obtain ⟨ps, hn, rfl⟩ := h
  obtain ⟨right, ps, rfl⟩ := List.exists_cons_of_length_eq_add_one hn
  obtain ⟨left, ps, rfl⟩ := List.exists_cons_of_length_eq_add_one (Nat.succ.inj hn)
  exact ⟨.binary o left right :: ps, Nat.succ.inj hn, by simp [Phrase.listing]⟩

/-- There are no parentheses in a listing. -/
theorem parenthesis_notMem_listing (p : Phrase) : .opening ∉ p.listing ∧ .closing ∉ p.listing := by
  induction p with
  | literal | constant => simp [Phrase.listing]
  | signed s p ih => simp [Phrase.listing, ih]
  | binary o l r ihl ihr => simp [Phrase.listing, ihl, ihr]
  | call f p ih => simp [Phrase.listing, ih]

end Token

namespace Arranger

/-- The waiting tokens are such as can wait, and the output is the left operands of the operators
among them, with one more operand if an operator is due. -/
structure Balanced (a : Arranger) : Prop where
  waits : Token.Waits a.waiting
  operands : Token.Operands a.output
    (a.waiting.countP Token.isBinary + if a.expected = .operator then 1 else 0)

variable {a : Arranger} {read output waiting : List Token} {t : Token}

/-! ## Tokens that have been read -/

theorem Pending.waits (h : Pending read waiting output) : Token.Waits waiting := by
  induction h with
  | start => exact .nil
  | opening _ ih => exact .opening ih
  | call f _ ih => exact .call f ih
  | sign _ _ ih => exact .sign _ ih
  | operator _ _ _ ih => exact .operator _ ih

/-- The output is the left operands of the operators that wait. -/
theorem Pending.operands (h : Pending read waiting output) :
    Token.Operands output (waiting.countP Token.isBinary) := by
  induction h with
  | start => exact ⟨[], rfl, rfl⟩
  | opening _ ih | call _ _ ih | sign _ _ ih => exact ih
  | @operator _ _ _ o _ l _ _ _ ih =>
    rw [Token.countP_operator]
    exact ih.listing l

/-- The tokens read put a state in balance. -/
theorem Explains.balanced (h : Explains read a) : Balanced a := by
  cases h with
  | operand h | argument _ h => exact ⟨h.waits, h.operands⟩
  | @operator _ _ _ _ p h _ => exact ⟨h.waits, h.operands.listing p⟩

/-! ## Tokens that go out -/

/-- A waiting token that goes out finds its operands. -/
theorem Balanced.apply (h : Balanced ⟨output, t :: waiting, .operator⟩)
    (ht : t.isApplied = true) : Balanced ⟨t :: output, waiting, .operator⟩ := by
  obtain ⟨hwaits, hoperands⟩ := h
  cases hwaits with
  | operator o hwaits =>
    simp only [Token.countP_operator, ↓reduceIte] at hoperands
    exact ⟨hwaits, hoperands.operator o⟩
  | sign s hwaits => exact ⟨hwaits, hoperands.sign s⟩
  | opening | call => cases ht

/-- Several waiting tokens that go out in turn find their operands. -/
theorem Balanced.release {released : List Token}
    (h : Balanced ⟨output, released ++ waiting, .operator⟩)
    (hreleased : ∀ t ∈ released, t.isApplied = true) :
    Balanced ⟨Arranger.release released output, waiting, .operator⟩ := by
  induction released generalizing output with
  | nil => exact h
  | cons t released ih =>
    obtain ⟨ht, hreleased⟩ := List.forall_mem_cons.1 hreleased
    rw [release_cons]
    exact ih (h.apply ht) hreleased

/-- No other token is found under the operators and signs of a group than its parenthesis. -/
theorem Balanced.step_ne_stray (h : Balanced a) (t found : Token) :
    a.step t ≠ .error (.strayInGroup found) := by
  intro hstep
  unfold step operand call operator openGroup closeGroup at hstep
  repeat' split at hstep
  all_goals try cases hstep
  next hopening hwaiting =>
    exact hopening (h.waits.head?_dropWhile found (by rw [hwaiting]; rfl))

end Arranger

namespace Token

variable {text : Text} {tokens : List Token} {cause : SyntaxError}

/-- The first tokens of a text, whatever is wrong with it later, put the arranger in balance. -/
theorem balanced_of_foldlM {read : List Token} {a : Arranger} (hread : read <+: (scan text).tokens)
    (hrun : read.foldlM Arranger.step .start = .ok a) : a.Balanced := by
  obtain ⟨first, -, hreads⟩ := exists_reads_of_prefix read hread
  have hexplains := Arranger.explains_foldlM (sign_not_mem_of_reads hreads) (.operand .start) hrun
  exact hexplains.balanced

/-- Arranging a text fails neither for a stray token nor for the order of its result. -/
theorem cause_of_arrange (h : arrange text = .error cause) :
    (∀ t, cause ≠ .strayInGroup t) ∧ cause.isNotPostfix = false := by
  rcases arrange_eq_error_iff.1 h with hrun | ⟨a, -, hfault | ⟨-, hfinish⟩⟩
  · obtain ⟨before, t, after, b, htokens, hbefore, hstep⟩ := Arranger.exists_of_foldlM_error hrun
    have hbalanced : b.Balanced :=
      balanced_of_foldlM ⟨t :: after, htokens.symm⟩ hbefore
    refine ⟨?_, ?_⟩
    · rintro found rfl
      exact hbalanced.step_ne_stray t found hstep
    · exact SyntaxError.isNotPostfix_eq_false (.inr (Arranger.isMisplacement_of_step hstep))
  · have hlexical := isLexical_of_scan hfault
    refine ⟨?_, SyntaxError.isNotPostfix_eq_false (.inl hlexical)⟩
    rintro found rfl
    cases hlexical
  · rcases Arranger.expected_of_finish hfinish with ⟨f, rfl⟩ | ⟨rfl, -⟩ | ⟨rfl, -⟩ <;>
      exact ⟨by rintro _ ⟨⟩, rfl⟩

/-- While a text is arranged, operators, signs, parentheses and functions wait, each function right
under its parenthesis, and the output is the left operands of the operators that wait, with one more
operand if an operator is due; so it is also while waiting tokens go out. Hence no group holds a token
that does not belong there. The tokens of a text that is accepted have no parentheses and are the
listing of one phrase. The tree that is built from them leaves none of them, and they are refused only
if it is too deep. So no text is refused for a token that is found where it does not belong, nor
because its tokens are not those of a tree. -/
theorem arrange_balanced (text : Text) :
    (∀ read a, read <+: (scan text).tokens → read.foldlM Arranger.step .start = .ok a →
        a.Balanced ∧
          ∀ released waiting, a.expected = .operator → a.waiting = released ++ waiting →
            (∀ t ∈ released, t.isApplied = true) →
            Arranger.Balanced ⟨Arranger.release released a.output, waiting, .operator⟩) ∧
      (∀ tokens, arrange text = .ok tokens →
        .opening ∉ tokens ∧ .closing ∉ tokens ∧ (∃ p : Phrase, tokens = p.listing) ∧
          ∃ e, Expr.build (tokens.length + 1) .whole tokens.reverse = .ok (e, []) ∧
            Expr.ofPostfix tokens =
              if maxDepth < depth tokens then .error .nestedTooDeep else .ok e) ∧
      ∀ cause, Expr.parse text = .error cause →
        (∀ t, cause ≠ .strayInGroup t) ∧ cause.isNotPostfix = false := by
  refine ⟨fun read a hread hrun => ?_, fun tokens h => ?_, fun cause h => ?_⟩
  · have hbalanced := balanced_of_foldlM hread hrun
    refine ⟨hbalanced, fun released waiting ha hwaiting hreleased => ?_⟩
    obtain ⟨output, all, expected⟩ := a
    cases ha
    cases hwaiting
    exact hbalanced.release hreleased
  · obtain ⟨-, p, -, -, rfl⟩ := arrange_eq_ok_iff.1 h
    have hparentheses := parenthesis_notMem_listing p
    have hbuild := p.build_listing (p.listing.length + 1) .whole []
    rw [List.append_nil, if_neg (Nat.not_lt.2 (Nat.le_succ_of_le p.height_le_length))] at hbuild
    refine ⟨hparentheses.1, hparentheses.2, ⟨p, rfl⟩, p.toExpr, hbuild, ?_⟩
    rw [p.depth_listing, p.ofPostfix_listing]
  · cases harrange : arrange text with
    | error fault =>
      rw [Expr.parse, harrange] at h
      obtain rfl := Except.error.inj h
      exact cause_of_arrange harrange
    | ok tokens =>
      obtain ⟨-, p, -, -, rfl⟩ := arrange_eq_ok_iff.1 harrange
      have hbuilt : Expr.ofPostfix p.listing = .error cause := by
        rw [Expr.parse, harrange] at h
        exact h
      rw [p.ofPostfix_listing] at hbuilt
      split at hbuilt
      · obtain rfl := Except.error.inj hbuilt
        exact ⟨by rintro _ ⟨⟩, rfl⟩
      · cases hbuilt

/-- A sum, a power, a function and a product wait for the argument that has been read. Its operators go
out one after the other, and with the parenthesis that is missing the text is accepted; one more closes
too much. -/
theorem arrange_balanced_argument :
    let two : Double := .finite false ⟨0x4000000000000000, by decide⟩
    let outer : List Token := [.opening, .function .ln, .operator .power, .operator .add]
    let a : Arranger := ⟨[.number two, .number two, .constant .e, .constant .pi],
      .sign .minus :: .operator .multiply :: outer, .operator⟩
    let tokens : List Token := [.constant .pi, .constant .e, .number two, .number two, .sign .minus,
      .operator .multiply, .function .ln, .operator .power, .operator .add]
    (scan "π+e^ln(2*-2".toList).tokens.foldlM Arranger.step .start = .ok a ∧ a.Balanced ∧
      Arranger.Balanced ⟨.sign .minus :: a.output, .operator .multiply :: outer, .operator⟩ ∧
      arrange "π+e^ln(2*-2)".toList = .ok tokens ∧
      (∃ e, Expr.build (tokens.length + 1) .whole tokens.reverse = .ok (e, [])) ∧
      Expr.parse "π+e^ln(2*-2))".toList = .error .mismatchedParenthesis ∧
      SyntaxError.mismatchedParenthesis.isNotPostfix = false := by
  intro two outer a tokens
  have hrun : (scan "π+e^ln(2*-2".toList).tokens.foldlM Arranger.step .start = .ok a := by
    decide +kernel
  have harrange : arrange "π+e^ln(2*-2)".toList = .ok tokens := by decide +kernel
  have hrefused : Expr.parse "π+e^ln(2*-2))".toList = .error .mismatchedParenthesis := by
    decide +kernel
  obtain ⟨hbalanced, hreleased⟩ := (arrange_balanced _).1 _ a List.prefix_rfl hrun
  obtain ⟨-, -, -, e, hbuild, -⟩ := (arrange_balanced _).2.1 tokens harrange
  exact ⟨hrun, hbalanced, hreleased [.sign .minus] _ rfl rfl (by decide), harrange, ⟨e, hbuild⟩,
    hrefused, ((arrange_balanced _).2.2 _ hrefused).2⟩

end Token

end DeskCalculator
