import DeskCalculator.Proofs.EntryShape

/-!
# The last operator

An operator takes the place of the one at the end of the entry. Whether that one was the sign of a
number, continued a result or joined two values makes no difference, so that of several operators
entered in turn only the last one counts.

* `Entry.stem`: the text without an operator at its end;
* `operator_eq`: an operator is put behind the stem, unless the entry is empty, and leaves the same
  stem (`stem_operator`);
* `operator_operator`: so it leaves no trace once another is entered;
* `last_operator_wins`: any number of operators.
-/

namespace DeskCalculator

namespace Entry

/-- The text without an operator at its end. -/
def stem (e : Entry) : Text := if e.lastIs isOperatorChar then e.text.dropLast else e.text

variable {e : Entry}

/-- Other than in an empty entry, a minus sign is entered like every operator: an opening parenthesis
is no operator that it could take the place of. -/
theorem operator_eq (h : e.text ≠ emptyText) (o : Operator) :
    e.operator o = ⟨e.stem ++ [o.symbol], false⟩ := by
  unfold operator stem
  rw [if_neg fun hempty => h hempty.2]
  split
  · next hopen =>
    have hnone : ¬ e.lastIs isOperatorChar = true := by
      intro hlast
      obtain ⟨a, ha, hop⟩ := lastIs_iff.1 hlast
      have hgroup : a = '(' := of_decide_eq_true (last_of_lastIs hopen.2 a ha)
      rw [hgroup] at hop
      exact absurd hop (by decide)
    rw [if_neg hnone]
  · split <;> rfl

theorem stem_concat (text : Text) (o : Operator) (isResult : Bool) :
    (Entry.mk (text ++ [o.symbol]) isResult).stem = text := by
  have hlast : (Entry.mk (text ++ [o.symbol]) isResult).lastIs isOperatorChar = true :=
    lastIs_iff.2 ⟨o.symbol, List.getLast?_concat, isOperatorChar_symbol o⟩
  rw [stem, if_pos hlast, List.dropLast_concat]

theorem stem_operator (h : e.text ≠ emptyText) (o : Operator) : (e.operator o).stem = e.stem := by
  rw [operator_eq h, stem_concat]

/-- An operator is never the zero of an empty entry. -/
theorem operator_ne_emptyText (h : e.text ≠ emptyText) (o : Operator) :
    (e.operator o).text ≠ emptyText := by
  rw [operator_eq h]
  intro hempty
  have hlast := congrArg List.getLast? hempty
  rw [List.getLast?_concat] at hlast
  have hzero : o.symbol = '0' := Option.some.inj hlast
  have hop := isOperatorChar_symbol o
  rw [hzero] at hop
  exact absurd hop (by decide)

/-- An operator leaves no trace once another is entered. -/
theorem operator_operator (h : e.text ≠ emptyText) (first second : Operator) :
    (e.operator first).operator second = e.operator second := by
  rw [operator_eq (operator_ne_emptyText h first), stem_operator h, operator_eq h]

/-- Operators entered one after the other leave any entry that is not empty as the last of them alone
does: one that is being entered or a result, with or without an operator or a parenthesis at its
end. -/
theorem last_operator_wins {e : Entry} (h : e.text ≠ emptyText) {os : List Operator} (hne : os ≠ []) :
    os.foldl operator e = e.operator (os.getLast hne) := by
  induction os generalizing e with
  | nil => exact absurd rfl hne
  | cons first os ih =>
    rw [List.foldl_cons]
    by_cases hos : os = []
    · subst hos
      rfl
    · rw [ih (operator_ne_emptyText h first) hos, operator_operator h, List.getLast_cons hos]

/-- A sign after a parenthesis gives way to an operator, and the other way round; a result is
continued. -/
theorem last_operator_wins_sign :
    [Operator.subtract, .add, .subtract, .power].foldl operator ⟨['2', '*', '('], false⟩ =
        ⟨['2', '*', '(', '^'], false⟩ ∧
      [Operator.multiply, .power, .subtract].foldl operator ⟨['2', '*', '('], false⟩ =
        ⟨['2', '*', '(', '-'], false⟩ ∧
      [Operator.divide, .subtract].foldl operator ⟨Outcome.errorMarker, true⟩ =
        ⟨Outcome.errorMarker ++ ['-'], false⟩ := by
  have hgroup : Entry.text ⟨['2', '*', '('], false⟩ ≠ emptyText := by decide
  have hresult : Entry.text ⟨Outcome.errorMarker, true⟩ ≠ emptyText := by decide
  exact ⟨last_operator_wins hgroup (by decide), last_operator_wins hgroup (by decide),
    last_operator_wins hresult (by decide)⟩

end Entry

end DeskCalculator
