import DeskCalculator.Proofs.EntryCharacters

/-!
# The error marker

A failed evaluation leaves the error marker in the entry. An operator or the end of a group continues
it as it would a number, and from then on anything can be entered after it and taken back again. All
the same a failure never turns into a number unnoticed: the marker stays in front as a whole until it
goes as a whole, and no text that begins with it is an expression.

* `Entry.IsMarked`: characters of a class, after the marker or alone;
* `IsMarked.edited`: an edit that adds characters of the class keeps this;
* `isMarked_handle`, `isMarked_after`: so do events that bring in no other characters, evaluations
  among them;
* `error_marker_whole`: the marker in the entry of a calculator after any events.
-/

namespace DeskCalculator

namespace Entry

variable {p : Char → Bool} {text added : Text}

/-- All characters are of a class, but for the error marker that may stand before them. -/
def IsMarked (p : Char → Bool) (text : Text) : Prop :=
  ∃ rest, (text = rest ∨ text = Outcome.errorMarker ++ rest) ∧ ∀ a ∈ rest, p a = true

theorem isMarked_of_forall (h : ∀ a ∈ text, p a = true) : IsMarked p text := ⟨text, .inl rfl, h⟩

theorem isMarked_errorMarker : IsMarked p Outcome.errorMarker :=
  ⟨[], .inr (List.append_nil _).symm, by simp⟩

theorem IsMarked.append (h : IsMarked p text) (hadded : ∀ a ∈ added, p a = true) :
    IsMarked p (text ++ added) := by
  obtain ⟨rest, htext, hrest⟩ := h
  have hall : ∀ a ∈ rest ++ added, p a = true := fun a ha =>
    (List.mem_append.1 ha).elim (hrest a) (hadded a)
  rcases htext with rfl | rfl
  · exact isMarked_of_forall hall
  · exact ⟨rest ++ added, .inr (List.append_assoc ..), hall⟩

/-- The last character is not one of the marker, if the text is not the marker alone. -/
theorem IsMarked.dropLast (h : IsMarked p text) (hne : text ≠ Outcome.errorMarker) :
    IsMarked p text.dropLast := by
  obtain ⟨rest, htext, hrest⟩ := h
  have hall : ∀ a ∈ rest.dropLast, p a = true := fun a ha => hrest a (List.dropLast_subset _ ha)
  rcases htext with rfl | rfl
  · exact isMarked_of_forall hall
  · have hrest : rest ≠ [] := fun h => hne (by rw [h, List.append_nil])
    exact ⟨rest.dropLast, .inr (List.dropLast_append_of_ne_nil hrest), hall⟩

/-- An edit that adds characters of the class. -/
theorem IsMarked.edited (h : IsMarked p text) (hadded : ∀ a ∈ added, p a = true) {after : Text}
    (hedited : Edited text added after) : IsMarked p after := by
  cases hedited with
  | replaced => exact isMarked_of_forall hadded
  | appended => exact h.append hadded
  | shortened hne => exact (h.dropLast hne).append hadded

/-- A result is the marker, or a number. -/
theorem isMarked_display [MathLibrary] (hp : ∀ a, Token.isNumberPart a = true ∨ a = '-' → p a = true)
    (text : Text) (precision : Nat) : IsMarked p ((evaluate text).display precision) := by
  rcases display_evaluate text precision with h | ⟨n, hn, h⟩
  · rw [h]
    exact isMarked_errorMarker
  · rw [h]
    exact isMarked_of_forall fun a ha => hp a (mem_numeral hn a ha)

/-- No event brings in the letter that the marker begins with. -/
theorem ne_of_mem_characters (event : Event) : ∀ a ∈ event.characters, a ≠ 'E' := by
  cases event with
  | digit c =>
    rintro a ha rfl
    exact absurd (Event.isNumberPart_of_mem_characters ha) (by decide)
  | operator o => exact forall_mem_of_all (by cases o <;> decide)
  | function f => exact forall_mem_of_all (by cases f <;> decide)
  | constant k => exact forall_mem_of_all (by cases k <;> decide)
  | paren p => exact forall_mem_of_all (by cases p <;> decide)
  | clear | backspace | evaluate => exact forall_mem_of_all (by decide)

end Entry

namespace Calculator

variable {c : Calculator} {p : Char → Bool}

section

variable [MathLibrary]

/-- An event that brings in characters of a class only, which the characters of numbers belong to. -/
theorem isMarked_handle (hp : ∀ a, Token.isNumberPart a = true ∨ a = '-' → p a = true)
    (h : Entry.IsMarked p c.entry.text) {event : Event}
    (hevent : ∀ a ∈ event.characters, p a = true) :
    Entry.IsMarked p (c.handle event).calculator.entry.text := by
  unfold handle
  split
  · rw [evaluate_eq]
    exact Entry.isMarked_display hp c.entry.text c.precision
  · obtain ⟨added, hadded, hedited⟩ := Entry.edited_edit c.entry event
    exact h.edited (fun a ha => hevent a (hadded ha)) hedited

theorem isMarked_after (hp : ∀ a, Token.isNumberPart a = true ∨ a = '-' → p a = true)
    (h : Entry.IsMarked p c.entry.text) {events : List Event}
    (hevents : ∀ event ∈ events, ∀ a ∈ event.characters, p a = true) :
    Entry.IsMarked p (c.after events).entry.text := by
  induction events generalizing c with
  | nil => exact h
  | cons event events ih =>
    obtain ⟨hevent, hevents⟩ := List.forall_mem_cons.1 hevents
    exact ih (isMarked_handle hp h hevent) hevents

/-- A calculator that begins with an empty entry. -/
theorem isMarked_new_after (hp : ∀ a, Token.isNumberPart a = true ∨ a = '-' → p a = true)
    (mode : Mode) (precision : Nat) {events : List Event}
    (hevents : ∀ event ∈ events, ∀ a ∈ event.characters, p a = true) :
    Entry.IsMarked p ((new mode precision).after events).entry.text := by
  have hempty : ∀ a ∈ (new mode precision).entry.text, p a = true := by
    intro a ha
    rw [List.mem_singleton.1 ha]
    exact hp '0' (.inl (by decide))
  exact isMarked_after hp (Entry.isMarked_of_forall hempty) hevents

/-- Whatever the events of a new calculator, the letter `E` is in its entry only as the first of the
whole error marker at the very start. An entry that begins with the marker has a syntax error, the
name that the letters after the marker make of it, and its evaluation shows the marker again; so it
is of every text that begins with the marker. -/
theorem error_marker_whole (mode : Mode) (precision : Nat) (events : List Event) :
    let c := (new mode precision).after events
    ('E' ∉ c.display ∨ ∃ rest, c.display = Outcome.errorMarker ++ rest ∧ 'E' ∉ rest) ∧
      (∀ rest, c.display = Outcome.errorMarker ++ rest →
        (∃ cause, c.outcome = .error (.parse cause)) ∧
          (c.handle .evaluate).calculator.display = Outcome.errorMarker ∧
          (c.handle .evaluate).shown = [Outcome.errorMarker]) ∧
      ∀ rest, DeskCalculator.evaluate (Outcome.errorMarker ++ rest) =
        .error (.parse (.unknownName (Outcome.errorMarker ++ rest.takeWhile Char.isAlpha))) := by
  intro c
  refine ⟨?_, fun rest hdisplay => ?_, evaluate_errorMarker_append⟩
  · have hp : ∀ a, Token.isNumberPart a = true ∨ a = '-' → decide (a ≠ 'E') = true := by
      intro a ha
      refine decide_eq_true fun he => ?_
      rw [he] at ha
      exact absurd ha (by decide)
    have hmarked : Entry.IsMarked (fun a => decide (a ≠ 'E')) c.entry.text :=
      isMarked_new_after hp mode precision fun event _ a ha =>
        decide_eq_true (Entry.ne_of_mem_characters event a ha)
    obtain ⟨rest, htext, hrest⟩ := hmarked
    have hnot : 'E' ∉ rest := fun hmem => of_decide_eq_true (hrest 'E' hmem) rfl
    rcases htext with htext | htext
    · refine .inl ?_
      show 'E' ∉ ((new mode precision).after events).entry.text
      rwa [htext]
    · exact .inr ⟨rest, htext, hnot⟩
  · have houtcome : c.outcome = _ :=
      (congrArg DeskCalculator.evaluate hdisplay).trans (evaluate_errorMarker_append rest)
    have hstep : c.handle .evaluate =
        render { c with entry := ⟨Outcome.errorMarker, true⟩ } := by
      rw [handle, if_pos rfl, evaluate_eq, houtcome]
      rfl
    rw [hstep]
    exact ⟨⟨_, houtcome⟩, rfl, rfl⟩

end

/-- After a failure an operator is entered and taken back, and the name of a function joins the
marker. -/
theorem error_marker_whole_sine :
    let c := (new .scientific 8).after
      [.paren .closing, .evaluate, .operator .add, .backspace, .function .sin]
    c.entry = ⟨"Errorsin(".toList, false⟩ ∧
      (c.handle .evaluate).calculator.display = Outcome.errorMarker := by
  intro c
  have hentry : c.entry = ⟨"Errorsin(".toList, false⟩ := by decide +kernel
  have hdisplay : c.display = Outcome.errorMarker ++ "sin(".toList := congrArg Entry.text hentry
  exact ⟨hentry, ((error_marker_whole .scientific 8 _).2.1 _ hdisplay).2.1⟩

end Calculator

end DeskCalculator
