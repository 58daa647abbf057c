import DeskCalculator.Proofs.ErrorMarker
import DeskCalculator.Proofs.ImplicitProduct
import DeskCalculator.Proofs.LastOperator
import DeskCalculator.Proofs.NewEntry
import Mathlib.Logic.Function.Iterate

/-!
# Backspace takes back what was typed

What is typed into an entry follows what is there. Only an operator at the end can give way, and only
the zero of an empty entry or a result as a whole. So a text in which nothing can give way stays in
front, and taking the characters behind it away one by one leads back to it. None of them is taken
together with others: the error marker goes as a whole, but no typing completes it.

* `IsLasting`: a text in which nothing gives way to what is typed;
* `Begins.edit`, `begins_after`: it stays in front, whatever is typed;
* `deleteLast_iterate`: the characters behind a text are taken away one by one;
* `display_eq_errorMarker`: no text that a calculator shows is completed to the error marker;
* `deleteLast_iterate_eq_empty`: taking away often enough leads to an empty entry from anywhere;
* `backspaces_take_back`: both for calculators.
-/

namespace DeskCalculator

namespace Event

/-- An event that adds to the entry, if anything. -/
def isTyping : Event → Bool
  | digit _ | operator _ | function _ | constant _ | paren _ => true
  | clear | backspace | evaluate => false

end Event

namespace Entry

variable {e : Entry} {base text : Text} {event : Event}

/-! ## Typing -/

theorem startsFresh_eq_false :
    e.startsFresh = false ↔ e.isResult = false ∧ e.text ≠ emptyText := by
  rw [startsFresh, Bool.or_eq_false_iff, decide_eq_false_iff_not]

/-- What is typed follows the entry or takes the place of an operator at its end. -/
theorem stem_isPrefix_edit (h : e.startsFresh = false) (hevent : event.isTyping = true) :
    e.stem <+: (Calculator.edit e event).text := by
  have hstem : e.stem <+: e.text := by
    unfold stem
    split
    · exact List.dropLast_prefix _
    · exact List.prefix_rfl
  have hadded : ∀ added, e.stem <+: e.text ++ added := fun added =>
    hstem.trans (List.prefix_append _ _)
  have hvalue : ∀ k, e.stem <+: (e.value k).text := fun k => by
    rw [value_eq h]
    exact hadded _
  cases event with
  | digit c =>
    show e.stem <+: (e.digit c).text
    unfold digit
    split
    · rw [h, if_neg (by decide)]
      exact hadded [c]
    · exact hstem
  | operator o =>
    show e.stem <+: (e.operator o).text
    rw [operator_eq (startsFresh_eq_false.1 h).2]
    exact List.prefix_append _ _
  | function f => exact hvalue _
  | constant k => exact hvalue _
  | paren p =>
    cases p with
    | opening => exact hvalue _
    | closing => exact hadded _
  | clear | backspace | evaluate => cases hevent

/-- Typing leaves no result. -/
theorem isResult_typing (h : e.isResult = false) (hevent : event.isTyping = true) :
    (Calculator.edit e event).isResult = false := by
  cases hignored : event.isIgnored with
  | false =>
    refine isResult_edit ?_ hignored
    rintro rfl
    cases hevent
  | true => rwa [edit_of_isIgnored hignored]

/-- Nothing in the text gives way to what is typed behind it. -/
structure IsLasting (text : Text) : Prop where
  ne_nil : text ≠ []
  ne_emptyText : text ≠ emptyText
  last : ∀ a ∈ text.getLast?, isOperatorChar a = false

/-- The entry is no result and begins with a text. -/
structure Begins (base : Text) (e : Entry) : Prop where
  front : base <+: e.text
  isResult : e.isResult = false

/-- An operator that gives way lies behind a text that lasts. -/
theorem IsLasting.isPrefix_stem (hbase : IsLasting base) (h : base <+: e.text) : base <+: e.stem := by
  unfold stem
  split
  · next hlast =>
    obtain ⟨added, hadded⟩ := h
    have hne : added ≠ [] := by
      rintro rfl
      obtain ⟨a, ha, hop⟩ := lastIs_iff.1 hlast
      rw [← hadded, List.append_nil] at ha
      rw [hbase.last a ha] at hop
      cases hop
    rw [← hadded, List.dropLast_append_of_ne_nil hne]
    exact List.prefix_append _ _
  · exact h

/-- An entry that begins with a text that lasts is not empty. -/
theorem IsLasting.startsFresh (hbase : IsLasting base) (h : Begins base e) :
    e.startsFresh = false := by
  obtain ⟨added, hadded⟩ := h.front
  rw [startsFresh_eq_false, ← hadded]
  exact ⟨h.isResult, append_ne_emptyText hbase.ne_nil hbase.ne_emptyText added⟩

/-- Typing keeps a text that lasts in front. -/
theorem Begins.edit (h : Begins base e) (hbase : IsLasting base) (hevent : event.isTyping = true) :
    Begins base (Calculator.edit e event) where
  front := (hbase.isPrefix_stem h.front).trans (stem_isPrefix_edit (hbase.startsFresh h) hevent)
  isResult := isResult_typing h.isResult hevent

/-! ## Taking away -/

/-- A single character is taken away if there are others before it. -/
theorem deleteLast_concat (hne : text ≠ []) {a : Char} (hmarker : text ++ [a] ≠ Outcome.errorMarker) :
    (Entry.mk (text ++ [a]) false).deleteLast = ⟨text, false⟩ := by
  have hlength := List.length_pos_of_ne_nil hne
  have hkeep : ¬ ((Entry.mk (text ++ [a]) false).isResult = true ∨
      text ++ [a] = Outcome.errorMarker ∨ (text ++ [a]).length < 2) := by
    rw [List.length_append, List.length_singleton]
    rintro (hresult | hcomplete | hshort)
    · cases hresult
    · exact hmarker hcomplete
    · omega
  rw [deleteLast, if_neg hkeep, List.dropLast_concat]

/-- The characters behind a text are taken away one by one. -/
theorem deleteLast_iterate (hne : base ≠ [])
    (hmarker : base <+: Outcome.errorMarker → base = Outcome.errorMarker) (added : Text) :
    deleteLast^[added.length] ⟨base ++ added, false⟩ = ⟨base, false⟩ := by
  -- from the end, where the characters are taken
  induction added using List.reverseRecOn with
  | nil => rw [List.append_nil]; rfl
  | append_singleton added a ih =>
    have hcomplete : base ++ added ++ [a] ≠ Outcome.errorMarker := by
      intro h
      have hbase : base = Outcome.errorMarker :=
        hmarker ⟨added ++ [a], by rw [← List.append_assoc, h]⟩
      have hlength := congrArg List.length h
      rw [hbase] at hlength
      simp at hlength
    rw [List.length_append, List.length_singleton, Function.iterate_succ_apply, ← List.append_assoc,
      deleteLast_concat (List.append_ne_nil_of_left_ne_nil hne _) hcomplete, ih]

/-- Taking away leads to an empty entry if it is done as often as there are characters. -/
theorem deleteLast_iterate_eq_empty {n : Nat} (hn : 0 < n) (h : e.text.length ≤ n) :
    deleteLast^[n] e = empty := by
  induction n generalizing e with
  | zero => exact absurd hn (Nat.lt_irrefl 0)
  | succ n ih =>
    have hempty : deleteLast empty = empty := by decide
    rw [Function.iterate_succ_apply, deleteLast]
    split
    · exact Function.iterate_fixed hempty n
    · next hkeep =>
      rw [not_or, not_or] at hkeep
      refine ih (by omega) ?_
      rw [List.length_dropLast]
      omega

end Entry

namespace Calculator

variable {c : Calculator} {base : Text}

section

variable [MathLibrary]

theorem Reachable.display_ne_nil (hc : c.Reachable) : c.display ≠ [] := by
  obtain ⟨events, hevents⟩ := hc
  rw [hevents]
  exact (isShaped_events (c := new c.mode c.precision) Entry.isShaped_empty events).ne_nil

/-- The marker begins with a letter that comes from nowhere else, so what a calculator shows does not
begin the marker unless it is the whole of it. -/
theorem display_eq_errorMarker (hc : c.Reachable) (h : c.display <+: Outcome.errorMarker) :
    c.display = Outcome.errorMarker := by
  have hne := hc.display_ne_nil
  obtain ⟨events, hevents⟩ := hc
  have hp : ∀ a, Token.isNumberPart a = true ∨ a = '-' → decide (a ≠ 'E') = true := by
    rintro a ha
    refine decide_eq_true ?_
    rintro rfl
    exact absurd ha (by decide)
  have hmarked : Entry.IsMarked (fun a => decide (a ≠ 'E')) c.display := by
    rw [hevents]
    exact isMarked_new_after hp _ _ fun event _ a ha =>
      decide_eq_true (Entry.ne_of_mem_characters event a ha)
  obtain ⟨rest, htext | htext, hrest⟩ := hmarked
  · obtain ⟨a, rest, rfl⟩ := List.exists_cons_of_ne_nil (htext ▸ hne)
    rw [htext] at h
    obtain ⟨rfl, -⟩ := List.cons_prefix_cons.1 h
    exact absurd rfl (of_decide_eq_true (hrest 'E' List.mem_cons_self))
  · have hlength := h.length_le
    rw [htext, List.length_append] at hlength
    have hnil : rest = [] := List.eq_nil_of_length_eq_zero (by omega)
    rw [htext, hnil, List.append_nil]

/-- Typing keeps a text that lasts in front. -/
theorem begins_after (hbase : Entry.IsLasting base) (h : Entry.Begins base c.entry)
    {typed : List Event} (htyped : ∀ event ∈ typed, event.isTyping = true) :
    Entry.Begins base (c.after typed).entry := by
  induction typed generalizing c with
  | nil => exact h
  | cons event typed ih =>
    obtain ⟨hevent, htyped⟩ := List.forall_mem_cons.1 htyped
    have hne : event ≠ .evaluate := by
      rintro rfl
      cases hevent
    have hhandle : (c.handle event).calculator.entry = edit c.entry event := by
      rw [handle, if_neg hne]
      rfl
    rw [after_cons]
    exact ih (hhandle ▸ h.edit hbase hevent) htyped

theorem after_backspaces (c : Calculator) (n : Nat) :
    c.after (List.replicate n .backspace) = { c with entry := Entry.deleteLast^[n] c.entry } := by
  induction n generalizing c with
  | zero => rfl
  | succ n ih =>
    rw [List.replicate_succ, after_cons, ih]
    rfl

/-- Events change the entry only. -/
theorem after_eq (c : Calculator) (events : List Event) :
    c.after events = { c with entry := (c.after events).entry } := by
  induction events generalizing c with
  | nil => rfl
  | cons event events ih =>
    rw [after_cons, ih, mode_handle, precision_handle]

/-- Backspace undoes typing. In a session an entry that is no result, not empty and does not end in an
operator stays in front of all that is typed behind it, and as many backspaces as there are characters
behind it then restore the calculator. From any state at all, as many backspaces as the entry has
characters, which is at least one, lead to an empty entry, and so do more. -/
theorem backspaces_take_back :
    (∀ c : Calculator, c.Reachable → c.entry.isResult = false → c.display ≠ Entry.emptyText →
      c.entry.lastIs Entry.isOperatorChar = false →
      ∀ typed : List Event, (∀ event ∈ typed, event.isTyping = true) →
        (∀ begun, begun <+: typed → c.display <+: (c.after begun).display) ∧
          (c.after typed).after (List.replicate
            ((c.after typed).display.length - c.display.length) .backspace) = c) ∧
      ∀ (c : Calculator) (n : Nat), 0 < n → c.display.length ≤ n →
        c.after (List.replicate n .backspace) = new c.mode c.precision := by
  constructor
  · intro c hc hresult hempty hlast typed htyped
    have hne := hc.display_ne_nil
    have hlasting : Entry.IsLasting c.display :=
      ⟨hne, hempty, Entry.last_of_not_lastIs (Bool.eq_false_iff.1 hlast)⟩
    have hbegins : Entry.Begins c.display c.entry := ⟨List.prefix_rfl, hresult⟩
    refine ⟨fun begun hbegun => ?_, ?_⟩
    · have hall : ∀ event ∈ begun, event.isTyping = true := fun event hmem =>
        htyped event (hbegun.subset hmem)
      exact (begins_after hlasting hbegins hall).front
    · obtain ⟨⟨added, hadded⟩, hafter⟩ := begins_after hlasting hbegins htyped
      have hentry : (c.after typed).entry = ⟨c.display ++ added, false⟩ := by
        rw [hadded, ← hafter]
      have hcount : (c.after typed).display.length - c.display.length = added.length := by
        rw [display, hentry, List.length_append]
        omega
      have hback := Entry.deleteLast_iterate hne (display_eq_errorMarker hc) added
      rw [hcount, after_backspaces, hentry, hback, after_eq]
      show { c with entry := Entry.mk c.entry.text false } = c
      rw [← hresult]
  · intro c n hn h
    rw [after_backspaces, Entry.deleteLast_iterate_eq_empty hn h]
    rfl

end

/-- A sign, a constant and a function typed behind the error marker, which itself has been continued
and is no result any more. -/
theorem backspaces_take_back_marker :
    let c := (new .scientific 8).after [.paren .closing, .evaluate, .operator .add, .backspace]
    let typed : List Event :=
      [.operator .divide, .operator .subtract, .constant .pi, .function .sqrt, .digit '2']
    c.entry = ⟨Outcome.errorMarker, false⟩ ∧
      (c.after typed).display = Outcome.errorMarker ++ "-π*sqrt(2".toList ∧
      (c.after typed).after (List.replicate 9 .backspace) = c ∧
      (c.after typed).after (List.replicate 20 .backspace) = new .scientific 8 := by
  intro c typed
  have hentry : c.entry = ⟨Outcome.errorMarker, false⟩ := by decide +kernel
  have htyped : (c.after typed).display = Outcome.errorMarker ++ "-π*sqrt(2".toList := by
    decide +kernel
  have hdisplay : c.display = Outcome.errorMarker := congrArg Entry.text hentry
  have hback := (backspaces_take_back.1 c ⟨_, rfl⟩ (congrArg Entry.isResult hentry)
    (by rw [hdisplay]; decide) (by rw [hentry]; decide) typed (by decide)).2
  rw [htyped, hdisplay] at hback
  have hshort : (c.after typed).display.length ≤ 20 := by
    rw [htyped]
    decide
  exact ⟨hentry, htyped, hback, backspaces_take_back.2 (c.after typed) 20 (by decide) hshort⟩

end Calculator

end DeskCalculator
