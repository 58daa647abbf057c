import DeskCalculator.Proofs.Parsing

/-!
# The first fault

A text is refused at its first token that no text behind it can continue; what is still missing at
its end can be completed. The waiting tokens of a state tell how: each opening parenthesis that waits
is a group or an argument still to be closed.

* `unclosed`: how many more parentheses a text opens than it closes;
* `Pending.count`: as many opening parentheses wait;
* `Pending.close`: once the operand that is due has been read, that many closing ones complete a sum,
  by induction on what waits;
* `arrange_closed`: so a text that ends in an operand is accepted once its groups are closed;
* `waiting_of_step_mismatched`: a closing parenthesis is refused only if none waits for it;
* `arrange_first_fault`: which texts are refused for good, and what completes the others.
-/

namespace DeskCalculator

/-- How many more parentheses a text opens than it closes. -/
def unclosed (text : Text) : Nat := text.count '(' - text.count ')'

/-! ## Counting parentheses -/

/-- A phrase closes the parentheses that it opens. -/
theorem Derives.count {level : Level} {ts : List Token} {p : Phrase} (h : Derives level ts p) :
    ts.count .opening = ts.count .closing := by
  induction h with
  | number | constant => rfl
  | sum _ _ _ ihl ihr | product _ _ _ ihl ihr | power _ _ ihl ihr => simp [ihl, ihr]
  | signed _ _ ih => simp [ih]
  | call _ ih | group _ ih => simp [ih]
  | sumOfProduct _ ih | productOfPower _ ih | powerOfUnary _ ih | unaryOfAtom _ ih => exact ih

namespace Token

/-- Only the lexeme of a parenthesis has one. -/
theorem Spells.count {found : Text} {t : Token} (h : Spells found t) :
    found.count '(' = [t].count .opening ∧ found.count ')' = [t].count .closing := by
  cases h with
  | number hl =>
    have hne : ∀ c, isNumberPart c = false → found.count c = 0 := fun c hc =>
      List.count_eq_zero.2 fun hmem => by
        rw [hl.isNumberPart c hmem] at hc
        cases hc
    exact ⟨hne '(' (by decide), hne ')' (by decide)⟩
  | function hf =>
    have hall : ∀ pair ∈ functionNames, pair.1.count '(' = 0 ∧ pair.1.count ')' = 0 := by decide
    exact hall _ hf
  | constant hk =>
    have hall : ∀ pair ∈ constantNames, pair.1.count '(' = 0 ∧ pair.1.count ')' = 0 := by decide
    exact hall _ hk
  | operator ho =>
    have hall : ∀ pair ∈ operatorCharacters, [pair.1].count '(' = 0 ∧ [pair.1].count ')' = 0 := by
      decide
    exact hall _ ho
  | opening | closing => decide

/-- The parentheses of a text are those of its tokens. -/
theorem Reads.count {text : Text} {tokens : List Token} (h : Reads text tokens) :
    text.count '(' = tokens.count .opening ∧ text.count ')' = tokens.count .closing := by
  induction h with
  | nil => exact ⟨rfl, rfl⟩
  | @blank c text tokens hb _ ih =>
    have hne : ∀ d, d ∉ whiteSpace → c ≠ d := by
      rintro d hd rfl
      exact hd hb
    rw [List.count_cons_of_ne (hne '(' (by decide)), List.count_cons_of_ne (hne ')' (by decide))]
    exact ih
  | @lexeme found rest token tokens hs _ _ ih =>
    rw [List.count_append, List.count_append, ← List.singleton_append, List.count_append,
      List.count_append, hs.count.1, hs.count.2, ih.1, ih.2]
    exact ⟨rfl, rfl⟩

theorem Reads.unclosed {text : Text} {tokens : List Token} (h : Reads text tokens) :
    unclosed text = tokens.count .opening - tokens.count .closing := by
  rw [DeskCalculator.unclosed, h.count.1, h.count.2]

theorem Reads.closings {text : Text} {tokens : List Token} (h : Reads text tokens) (n : Nat) :
    Reads (text ++ List.replicate n ')') (tokens ++ List.replicate n .closing) := by
  induction n with
  | zero => simpa using h
  | succ n ih =>
    rw [List.replicate_succ', List.replicate_succ', ← List.append_assoc, ← List.append_assoc]
    exact ih.closing

end Token

/-! ## Closing what is open -/

namespace Arranger

open Token (demand demand_le_unary demand_le_atom)

variable {read waiting output xs : List Token} {p : Phrase}

/-- As many opening parentheses wait as have been read and not closed. -/
theorem Pending.count (h : Pending read waiting output) :
    read.count .opening = waiting.count .opening + read.count .closing := by
  induction h with
  | start => rfl
  | opening _ ih | call _ _ ih =>
    simp [ih]
    omega
  | sign _ _ ih => simp [ih]
  | operator _ hl _ ih =>
    have := hl.count
    simp [ih]
    omega

/-- An operand that is due, and the end of each group that waits, complete a sum. -/
theorem Pending.close (h : Pending read waiting output) (hx : Derives (demand waiting) xs p) :
    ∃ q, Derives .sum (read ++ xs ++ List.replicate (waiting.count .opening) .closing) q := by
  induction h generalizing xs p with
  | start => exact ⟨p, by simpa using hx⟩
  | opening h ih =>
    have hgroup : Derives .atom (.opening :: xs ++ [.closing]) p := .group hx
    simpa [List.replicate_succ] using ih (hgroup.weaken (demand_le_atom _))
  | call f h ih =>
    have hcall : Derives .atom (.function f :: .opening :: xs ++ [.closing]) (.call f p) := .call hx
    simpa [List.replicate_succ] using ih (hcall.weaken (demand_le_atom _))
  | @sign read waiting output o s h ho ih =>
    have hsigned : Derives .unary (.operator o :: xs) (.signed s p) :=
      .signed (Operator.sign?_eq_some_iff.1 ho) hx
    simpa using ih (hsigned.weaken (demand_le_unary _))
  | @operator read waiting output o ls l h hl hdemand ih =>
    have hbinary : Derives o.level (ls ++ .operator o :: xs) (.binary o l p) := .binary hl hx
    simpa using ih (hbinary.weaken hdemand)

/-- A state in which an operand is due. -/
theorem Explains.pending_of_operand {a : Arranger} (h : Explains read a)
    (ha : a.expected = .operand) : Pending read a.waiting a.output := by
  cases h with
  | operand h => exact h
  | operator | argument => cases ha

/-- A state after an operand. -/
theorem Explains.pending_of_operator {tokens : List Token} {a : Arranger} (h : Explains tokens a)
    (ha : a.expected = .operator) :
    ∃ read output xs p, tokens = read ++ xs ∧ Pending read a.waiting output ∧
      Derives .atom xs p := by
  cases h with
  | operator h hx => exact ⟨_, _, _, _, rfl, h, hx⟩
  | operand | argument => cases ha

/-- What the tokens of a text explain. -/
theorem explains_of_reads {text : Text} {tokens : List Token} {a : Arranger}
    (hreads : Token.Reads text tokens) (hrun : tokens.foldlM step .start = .ok a) :
    Explains tokens a :=
  explains_foldlM (Token.sign_not_mem_of_reads hreads) (.operand .start) hrun

/-! ## A parenthesis without its partner -/

/-- A closing parenthesis is refused only if no opening one waits. -/
theorem waiting_of_step_mismatched {a : Arranger} {t : Token}
    (h : a.step t = .error .mismatchedParenthesis) :
    t = .closing ∧ a.expected = .operator ∧ a.waiting.count .opening = 0 := by
  unfold step operand call operator openGroup closeGroup at h
  repeat' split at h
  all_goals try cases h
  next _ hargument _ hoperand _ hempty =>
    have happlied : ∀ t ∈ a.waiting, t.isApplied = true := List.dropWhile_eq_nil_iff.1 hempty
    refine ⟨rfl, ?_, List.count_eq_zero.2 fun hmem => ?_⟩
    · cases he : a.expected with
      | operand => exact absurd he hoperand
      | argument f => exact (hargument f he).elim
      | operator => rfl
    · cases happlied _ hmem

end Arranger

namespace Token

open Arranger (Pending)

/-- A text that ends in an operand is accepted once its groups are closed. -/
theorem arrange_closed {text : Text} {read waiting output xs : List Token} {p : Phrase}
    (hreads : Reads text (read ++ xs)) (h : Pending read waiting output)
    (hx : Derives (demand waiting) xs p) :
    ∃ ts, arrange (text ++ List.replicate (unclosed text) ')') = .ok ts := by
  have hcount := h.count
  have hbalanced := hx.count
  have hunclosed : unclosed text = waiting.count .opening := by
    rw [hreads.unclosed, List.count_append, List.count_append]
    omega
  obtain ⟨q, hq⟩ := h.close hx
  rw [hunclosed]
  exact ⟨_, arrange_eq_ok_iff.2 ⟨_, q, hreads.closings _, hq, rfl⟩⟩

/-- A misplaced token and a fault of a lexeme are final. -/
theorem arrange_append_of_fault {text : Text} {fault : SyntaxError}
    (h : arrange text = .error fault) (hend : fault ≠ .unexpectedEnd)
    (hgroup : fault ≠ .mismatchedParenthesis) (hcall : ∀ f, fault ≠ .missingParenthesis f)
    (later : Text) : arrange (text ++ ' ' :: later) = .error fault := by
  have hends : Ends text (' ' :: later) := ends_before_symbol (by decide) (by decide) text later
  have happend := scan_append hends
  rw [arrange_eq_error_iff, happend, Scanned.append]
  rcases arrange_eq_error_iff.1 h with hrun | ⟨a, hrun, hfault | ⟨-, hfinish⟩⟩
  · refine .inl ?_
    have hmore : ∀ more, ((scan text).tokens ++ more).foldlM Arranger.step .start =
        .error fault := fun more => by
      rw [List.foldlM_append, hrun]
      rfl
    cases (scan text).fault with
    | some cause => exact hrun
    | none => exact hmore _
  · rw [hfault]
    exact .inr ⟨a, hrun, .inl rfl⟩
  · rcases Arranger.expected_of_finish hfinish with ⟨f, rfl⟩ | ⟨rfl, -⟩ | ⟨rfl, -⟩
    · exact absurd rfl (hcall f)
    · exact absurd rfl hend
    · exact absurd rfl hgroup

/-- A text that ends too early is completed by an operand and the ends of its groups. -/
theorem arrange_of_unexpectedEnd {text : Text} (h : arrange text = .error .unexpectedEnd) :
    ∃ ts, arrange (text ++ ' ' :: '1' :: List.replicate (unclosed text) ')') = .ok ts := by
  rcases arrange_eq_error_iff.1 h with hrun | ⟨a, hrun, hfault | ⟨hfault, hfinish⟩⟩
  · obtain ⟨before, t, after, b, -, -, hstep⟩ := Arranger.exists_of_foldlM_error hrun
    cases Arranger.isMisplacement_of_step hstep
  · cases isLexical_of_scan hfault
  · rcases Arranger.expected_of_finish hfinish with ⟨f, hf⟩ | ⟨-, ha⟩ | ⟨hf, -⟩
    · cases hf
    · have hreads := reads_of_scan hfault
      have hpending := (Arranger.explains_of_reads hreads hrun).pending_of_operand ha
      have hliteral : IsLiteral ['1'] :=
        (isLiteral_digits (forall_mem_of_all (by decide))).2 (List.cons_ne_nil _ _)
      have hone : Reads [' ', '1'] [.number ((literalDecimal ['1']).nearest false)] :=
        .blank (by decide) (Spells.number hliteral).reads
      have hboth := hreads.append hone (ends_before_symbol (by decide) (by decide) text ['1'])
      have hcount : unclosed (text ++ [' ', '1']) = unclosed text := by
        simp [unclosed, List.count_append]
      obtain ⟨ts, hts⟩ := arrange_closed hboth hpending
        ((Derives.number _).weaken (demand_le_atom _))
      rw [hcount, List.append_assoc] at hts
      exact ⟨ts, hts⟩
    · cases hf

/-- A parenthesis without its partner either closes what is not open, or is closed at the end. -/
theorem arrange_of_mismatchedParenthesis {text : Text}
    (h : arrange text = .error .mismatchedParenthesis) :
    (∃ first, first <+: text ∧ first.count '(' < first.count ')') ∨
      ∃ ts, arrange (text ++ List.replicate (unclosed text) ')') = .ok ts := by
  rcases arrange_eq_error_iff.1 h with hrun | ⟨a, hrun, hfault | ⟨hfault, hfinish⟩⟩
  · obtain ⟨before, t, after, b, hsplit, hbefore, hstep⟩ := Arranger.exists_of_foldlM_error hrun
    obtain ⟨rfl, hb, hwaiting⟩ := Arranger.waiting_of_step_mismatched hstep
    have hbegin : before ++ [.closing] <+: (scan text).tokens := by
      rw [hsplit]
      exact (List.prefix_append_right_inj before).2 (List.prefix_append [.closing] after)
    obtain ⟨first, hfirst, hreads⟩ := exists_reads_of_prefix _ hbegin
    obtain ⟨start, hstart, hread⟩ := exists_reads_of_prefix _ ((List.prefix_append ..).trans hbegin)
    obtain ⟨read, output, xs, p, rfl, hpending, hx⟩ :=
      (Arranger.explains_of_reads hread hbefore).pending_of_operator hb
    -- nothing waits to be closed, so the tokens before are balanced and this one is too many
    have hcount := hpending.count
    have hbalanced := hx.count
    have hopening : [Token.closing].count .opening = 0 := rfl
    have hclosing : [Token.closing].count .closing = 1 := rfl
    refine .inl ⟨first, hfirst, ?_⟩
    rw [hreads.count.1, hreads.count.2]
    simp only [List.count_append, hopening, hclosing]
    omega
  · cases isLexical_of_scan hfault
  · rcases Arranger.expected_of_finish hfinish with ⟨f, hf⟩ | ⟨hf, -⟩ | ⟨-, ha⟩
    · cases hf
    · cases hf
    · have hreads := reads_of_scan hfault
      obtain ⟨read, output, xs, p, htokens, hpending, hx⟩ :=
        (Arranger.explains_of_reads hreads hrun).pending_of_operator ha
      rw [htokens] at hreads
      exact .inr (arrange_closed hreads hpending
        (hx.weaken (demand_le_atom _)))

/-- A text is refused at its first token that nothing can continue. A fault other than an early end, a
parenthesis without its partner or a function without its parenthesis is the fault of every longer
text. A text that ends too early is accepted once an operand and the ends of its groups are put behind
it. A parenthesis without its partner closes what is not open, or else the text is accepted once the
ends of its groups are put behind it. -/
theorem arrange_first_fault (text : Text) :
    (∀ fault, arrange text = .error fault → fault ≠ .unexpectedEnd →
        fault ≠ .mismatchedParenthesis → (∀ f, fault ≠ .missingParenthesis f) →
        ∀ later, arrange (text ++ ' ' :: later) = .error fault) ∧
      (arrange text = .error .unexpectedEnd →
        ∃ ts, arrange (text ++ ' ' :: '1' :: List.replicate (unclosed text) ')') = .ok ts) ∧
      (arrange text = .error .mismatchedParenthesis →
        (∃ first, first <+: text ∧ first.count '(' < first.count ')') ∨
          ∃ ts, arrange (text ++ List.replicate (unclosed text) ')') = .ok ts) :=
  ⟨fun _ h hend hgroup hcall => arrange_append_of_fault h hend hgroup hcall,
    arrange_of_unexpectedEnd, arrange_of_mismatchedParenthesis⟩

/-- Two groups without an operator between them, an argument that is missing, and groups that are left
open. -/
theorem arrange_first_fault_groups :
    arrange ['(', '2', ')', '(', '3'] = .error (.missingOperatorBefore .opening) ∧
      arrange ['(', '2', ')', '(', '3', ' ', ')', '.'] =
        .error (.missingOperatorBefore .opening) ∧
      arrange ['l', 'n', '(', '2', '*', '('] = .error .unexpectedEnd ∧
      (∃ ts, arrange ['l', 'n', '(', '2', '*', '(', ' ', '1', ')', ')'] = .ok ts) ∧
      arrange ['l', 'n', '(', '(', '2'] = .error .mismatchedParenthesis ∧
      ∃ ts, arrange ['l', 'n', '(', '(', '2', ')', ')'] = .ok ts := by
  have hmissing : arrange ['(', '2', ')', '(', '3'] = .error (.missingOperatorBefore .opening) := by
    decide +kernel
  have hend : arrange ['l', 'n', '(', '2', '*', '('] = .error .unexpectedEnd := by decide +kernel
  have hopen : arrange ['l', 'n', '(', '(', '2'] = .error .mismatchedParenthesis := by
    decide +kernel
  refine ⟨hmissing, ?_, hend, (arrange_first_fault _).2.1 hend, hopen, ?_⟩
  · exact (arrange_first_fault _).1 _ hmissing nofun nofun nofun [')', '.']
  · rcases (arrange_first_fault _).2.2 hopen with ⟨first, hfirst, hcount⟩ | hclosed
    · have hle := hfirst.sublist.count_le ')'
      have hnone : ['l', 'n', '(', '(', '2'].count ')' = 0 := by decide
      omega
    · exact hclosed

end Token

end DeskCalculator
