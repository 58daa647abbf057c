import DeskCalculator.Proofs.EntryShape

/-!
# A new entry

After an evaluation the entry is a result, and a value that is entered, or what clears it, begins a
new entry of which the result is no part:

* `isResult_handle`, `isResult_after`: the entry is a result from an evaluation up to the next event
  that is not ignored;
* `edit_of_startsEntry`: an event that begins an entry treats every result as an empty entry;
* `new_entry_forgets`: so two calculators of one precision that show results, whatever they are, go
  on alike from such an event.
-/

namespace DeskCalculator

namespace Event

/-- A digit key with a character that is neither a digit nor the point: nothing happens. -/
def isIgnored : Event → Bool
  | digit c => !isDigitKey c
  | _ => false

/-- An event that begins a new entry after a result. An operator and the end of a group continue the
result, and an evaluation evaluates it. -/
def startsEntry : Event → Bool
  | digit c => isDigitKey c
  | function _ | constant _ | paren .opening | clear | backspace => true
  | operator _ | paren .closing | evaluate => false

end Event

namespace Entry

variable {e : Entry} {event : Event}

theorem isResult_value (e : Entry) (k : Text) : (e.value k).isResult = false := by
  unfold value
  split
  · rfl
  · next hfresh =>
    have hresult : e.isResult = false := isResult_eq_false hfresh
    split <;> exact hresult

theorem isResult_operator (e : Entry) (o : Operator) : (e.operator o).isResult = false := by
  unfold operator
  repeat' split
  all_goals rfl

theorem isResult_digit {c : Char} (h : Event.isDigitKey c = true) : (e.digit c).isResult = false := by
  rw [digit, if_pos h]
  split
  · rfl
  · next hfresh =>
    show e.isResult = false
    exact isResult_eq_false hfresh

theorem isResult_deleteLast (e : Entry) : e.deleteLast.isResult = false := by
  unfold deleteLast
  split <;> rfl

/-- An edit that is not ignored leaves no result. -/
theorem isResult_edit (hne : event ≠ .evaluate) (h : event.isIgnored = false) :
    (Calculator.edit e event).isResult = false := by
  cases event with
  | digit c => exact isResult_digit (by simpa [Event.isIgnored] using h)
  | operator o => exact isResult_operator e o
  | function f => exact isResult_value e _
  | constant k => exact isResult_value e _
  | paren p =>
    cases p with
    | opening => exact isResult_value e _
    | closing => rfl
  | clear => rfl
  | backspace => exact isResult_deleteLast e
  | evaluate => exact absurd rfl hne

theorem edit_of_isIgnored (h : event.isIgnored = true) : Calculator.edit e event = e := by
  cases event with
  | digit c =>
    have hkey : ¬ Event.isDigitKey c = true := by simpa [Event.isIgnored] using h
    exact if_neg hkey
  | _ => simp [Event.isIgnored] at h

/-- A result is an empty entry to an event that begins a new one. -/
theorem edit_of_startsEntry (h : e.isResult = true) (hevent : event.startsEntry = true) :
    Calculator.edit e event = Calculator.edit .empty event := by
  have hfresh : e.startsFresh = true := by rw [startsFresh, h, Bool.true_or]
  have hempty : Entry.empty.startsFresh = true := rfl
  have hvalue : ∀ k, e.value k = Entry.empty.value k := fun k => by
    rw [value, value, if_pos hfresh, if_pos hempty]
  cases event with
  | digit c =>
    have hkey : Event.isDigitKey c = true := hevent
    show e.digit c = Entry.empty.digit c
    rw [digit, digit, if_pos hkey, if_pos hkey, if_pos hfresh, if_pos hempty]
  | function f => exact hvalue _
  | constant k => exact hvalue _
  | paren p =>
    cases p with
    | opening => exact hvalue _
    | closing => simp [Event.startsEntry] at hevent
  | clear => rfl
  | backspace =>
    show e.deleteLast = Entry.empty.deleteLast
    rw [deleteLast, if_pos (.inl h)]
    rfl
  | operator o | evaluate => simp [Event.startsEntry] at hevent

end Entry

namespace Calculator

section

variable [MathLibrary]

/-- An evaluation leaves a result, an ignored event leaves what there was, any other event none. -/
theorem isResult_handle (c : Calculator) (event : Event) :
    (c.handle event).calculator.entry.isResult =
      if event.isIgnored then c.entry.isResult else decide (event = .evaluate) := by
  unfold handle
  by_cases hevaluate : event = .evaluate
  · rw [if_pos hevaluate, hevaluate]
    rfl
  · rw [if_neg hevaluate, decide_eq_false hevaluate]
    show (edit c.entry event).isResult = _
    split
    · next hignored => rw [Entry.edit_of_isIgnored hignored]
    · next hignored => exact Entry.isResult_edit hevaluate (Bool.eq_false_iff.2 hignored)

/-- The entry is a result if the last event, ignored ones apart, was an evaluation. -/
theorem isResult_after {c : Calculator} (h : c.entry.isResult = false) (events : List Event) :
    (c.after events).entry.isResult = true ↔
      (events.filter fun event => !event.isIgnored).getLast? = some .evaluate := by
  induction events using List.reverseRecOn with
  | nil => simp [h]
  | append_singleton events event ih =>
    rw [after_concat, isResult_handle, List.filter_append]
    by_cases hignored : event.isIgnored = true
    · simpa [hignored] using ih
    · simp [hignored]

/-- An event that begins a new entry makes of every result what it makes of an empty entry. -/
theorem entry_handle_of_startsEntry {c : Calculator} (h : c.entry.isResult = true) {event : Event}
    (hevent : event.startsEntry = true) :
    (c.handle event).calculator.entry =
      ((new c.mode c.precision).handle event).calculator.entry := by
  have hne : event ≠ .evaluate := by
    rintro rfl
    simp [Event.startsEntry] at hevent
  rw [handle, handle, if_neg hne, if_neg hne]
  exact Entry.edit_of_startsEntry h hevent

theorem entry_after_startsEntry {c : Calculator} (h : c.entry.isResult = true) {event : Event}
    (hevent : event.startsEntry = true) (events : List Event) :
    (c.after (event :: events)).entry =
      ((new c.mode c.precision).after (event :: events)).entry := by
  refine entry_after_congr (entry_handle_of_startsEntry h hevent) ?_ events
  rw [precision_handle, precision_handle]
  rfl

/-- A new entry forgets the expression before it. The entry is a result if and only if the last event
that was not ignored is an evaluation. Two calculators of one precision that show results of any kind
have the same entry, and the same outcome of it, after every event of a sequence that begins a new
entry; and it is the entry of a calculator that is new. -/
theorem new_entry_forgets :
    (∀ (mode : Mode) (precision : Nat) (events : List Event),
      ((new mode precision).after events).entry.isResult = true ↔
        (events.filter fun event => !event.isIgnored).getLast? = some .evaluate) ∧
      ∀ c d : Calculator, c.entry.isResult = true → d.entry.isResult = true →
        c.precision = d.precision → ∀ event : Event, event.startsEntry = true →
          ∀ events : List Event,
            (c.after (event :: events)).entry = (d.after (event :: events)).entry ∧
              (c.after (event :: events)).outcome = (d.after (event :: events)).outcome ∧
              (c.after (event :: events)).entry =
                ((new c.mode c.precision).after (event :: events)).entry := by
  refine ⟨fun mode precision => isResult_after rfl, fun c d hc hd hp event hevent events => ?_⟩
  have hcnew := entry_after_startsEntry hc hevent events
  have hdnew := entry_after_startsEntry hd hevent events
  have hsame : (c.after (event :: events)).entry = (d.after (event :: events)).entry := by
    rw [hcnew, hdnew]
    exact entry_after_congr (c := new c.mode c.precision) (d := new d.mode d.precision) rfl hp _
  exact ⟨hsame, congrArg (fun e : Entry => DeskCalculator.evaluate e.text) hsame, hcnew⟩

end

/-- After a failure and after a number, the same constant is entered, an ignored key between. -/
theorem new_entry_forgets_failure :
    let failed := (new .standard 8).after [.paren .closing, .evaluate, .digit 'x']
    let shown := (new .scientific 8).after [.digit '7', .evaluate]
    failed.entry = ⟨Outcome.errorMarker, true⟩ ∧ shown.entry = ⟨['7'], true⟩ ∧
      (failed.after [.constant .pi, .operator .power, .digit '2']).entry =
        (shown.after [.constant .pi, .operator .power, .digit '2']).entry := by
  intro failed shown
  have hfailed : failed.entry = ⟨Outcome.errorMarker, true⟩ := by decide +kernel
  have hshown : shown.entry = ⟨['7'], true⟩ := by decide +kernel
  exact ⟨hfailed, hshown, (new_entry_forgets.2 failed shown (congrArg Entry.isResult hfailed)
    (congrArg Entry.isResult hshown) rfl (.constant .pi) rfl _).1⟩

end Calculator

end DeskCalculator
