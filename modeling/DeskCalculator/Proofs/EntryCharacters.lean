import DeskCalculator.Proofs.EntryShape

/-!
# The characters of the entry

Where the characters of an entry come from, and which they can be:

* `Event.characters`: the characters that an event can bring in;
* `Entry.Edited`, `edited_edit`: how an edit changes the text;
* `mem_edit`, `mem_handle`, `mem_after`: every character of an entry was there before, was brought
  in by an event or belongs to a result;
* `isEntryCharacter_after`: so an entry has digits, points, operators, parentheses and the letters
  of its names only, none of them a blank (`isBlank_of_isEntryCharacter`).
-/

namespace DeskCalculator

/-- The characters that an event can bring into the entry, the times sign before a value and the
zero of an empty entry among them. -/
def Event.characters : Event → Text
  | digit c => if isDigitKey c then [c] else []
  | operator o => [o.symbol]
  | function f => '*' :: f.name ++ ['(']
  | constant k => ['*', k.symbol]
  | paren .opening => ['*', '(']
  | paren .closing => [')']
  | clear | backspace => Entry.emptyText
  | evaluate => []

/-- A digit key brings in a character of a number, if any. -/
theorem Event.isNumberPart_of_mem_characters {c a : Char} (h : a ∈ (digit c).characters) :
    Token.isNumberPart a = true := by
  rw [characters] at h
  split at h
  · next hkey => rwa [List.mem_singleton.1 h, Token.isNumberPart, Bool.or_comm]
  · cases h

namespace Entry

/-- A character of a result: of a number, or of the error marker. -/
def isResultCharacter (a : Char) : Bool :=
  Token.isNumberPart a || a = '-' || Outcome.errorMarker.contains a

/-- The characters of an entry other than digits and points. -/
def otherCharacters : Text :=
  ['+', '-', '*', '/', '%', '^', '(', ')', 'π', 'e', 's', 'i', 'n', 'c', 'o', 't', 'a', 'l', 'g',
    'q', 'r', 'E']

/-- A character that an entry can have. -/
def isEntryCharacter (a : Char) : Bool := Token.isNumberPart a || otherCharacters.contains a

variable {e : Entry} {a : Char}

/-! ## One edit -/

/-- What an edit can make of a text: the added characters take its place, follow it, or follow it
without its last character. The error marker alone never loses its last character. -/
inductive Edited (text added : Text) : Text → Prop where
  | replaced : Edited text added added
  | appended : Edited text added (text ++ added)
  | shortened : text ≠ Outcome.errorMarker → Edited text added (text.dropLast ++ added)

theorem Edited.unchanged (text : Text) : Edited text [] text := by
  have h : Edited text [] (text ++ []) := .appended
  rwa [List.append_nil] at h

theorem edited_value (e : Entry) (k : Text) :
    ∃ added, added ⊆ '*' :: k ∧ Edited e.text added (e.value k).text := by
  have hk : k ⊆ '*' :: k := List.subset_cons_self _ _
  unfold value
  split
  · exact ⟨k, hk, .replaced⟩
  · split
    · exact ⟨'*' :: k, List.Subset.refl _, .appended⟩
    · exact ⟨k, hk, .appended⟩

theorem edited_operator (e : Entry) (o : Operator) :
    Edited e.text [o.symbol] (e.operator o).text := by
  unfold operator
  split
  · exact .replaced
  · split
    · exact .appended
    · split
      · next hlast =>
        refine .shortened fun he => ?_
        -- the marker does not end in an operator
        rw [lastIs, he] at hlast
        exact absurd hlast (by decide)
      · exact .appended

theorem edited_digit (e : Entry) (c : Char) :
    ∃ added, added ⊆ (Event.digit c).characters ∧ Edited e.text added (e.digit c).text := by
  rw [Event.characters]
  unfold digit
  split
  · split
    · exact ⟨[c], List.Subset.refl _, .replaced⟩
    · exact ⟨[c], List.Subset.refl _, .appended⟩
  · exact ⟨[], List.Subset.refl _, .unchanged _⟩

theorem edited_deleteLast (e : Entry) :
    ∃ added, added ⊆ emptyText ∧ Edited e.text added e.deleteLast.text := by
  unfold deleteLast
  split
  · exact ⟨emptyText, List.Subset.refl _, .replaced⟩
  · next hkeep =>
    rw [not_or, not_or] at hkeep
    have h : Edited e.text [] (e.text.dropLast ++ []) := .shortened hkeep.2.1
    rw [List.append_nil] at h
    exact ⟨[], List.nil_subset _, h⟩

/-- An edit adds characters of its event only. -/
theorem edited_edit (e : Entry) (event : Event) :
    ∃ added, added ⊆ event.characters ∧ Edited e.text added (Calculator.edit e event).text := by
  cases event with
  | digit c => exact edited_digit e c
  | operator o => exact ⟨_, List.Subset.refl _, edited_operator e o⟩
  | function f => exact edited_value e _
  | constant k => exact edited_value e _
  | paren p =>
    cases p with
    | opening => exact edited_value e _
    | closing => exact ⟨_, List.Subset.refl _, .appended⟩
  | clear => exact ⟨_, List.Subset.refl _, .replaced⟩
  | backspace => exact edited_deleteLast e
  | evaluate => exact ⟨[], List.Subset.refl _, .unchanged _⟩

/-- An edit brings in the characters of its event only. -/
theorem mem_edit {event : Event} (h : a ∈ (Calculator.edit e event).text) :
    a ∈ e.text ∨ a ∈ event.characters := by
  obtain ⟨added, hadded, hedited⟩ := edited_edit e event
  generalize (Calculator.edit e event).text = text at h hedited
  cases hedited with
  | replaced => exact .inr (hadded h)
  | appended => exact (List.mem_append.1 h).imp_right fun h => hadded h
  | shortened _ =>
    exact (List.mem_append.1 h).imp (fun h => List.dropLast_subset _ h) fun h => hadded h

/-! ## Results -/

/-- A numeral has digits, points and minus signs only. -/
theorem mem_numeral {n : Numeral} {precision : Nat} (h : n.IsCanonical precision) :
    ∀ a ∈ n.text, Token.isNumberPart a = true ∨ a = '-' := by
  have hdigit : ∀ a : Char, a.isDigit = true → Token.isNumberPart a = true ∨ a = '-' :=
    fun a ha => .inl (isNumberPart_of_isDigit ha)
  intro a ha
  rw [Numeral.text, List.append_assoc, List.mem_append, List.mem_append] at ha
  rcases ha with ha | ha | ha
  · split at ha
    · exact .inr (List.mem_singleton.1 ha)
    · cases ha
  · exact hdigit a (h.whole_digits a ha)
  · split at ha
    · cases ha
    · rcases List.mem_cons.1 ha with rfl | ha
      · exact .inl (by decide)
      · exact hdigit a (h.fraction_digits a ha)

theorem isResultCharacter_numeral {n : Numeral} {precision : Nat} (h : n.IsCanonical precision) :
    ∀ a ∈ n.text, isResultCharacter a = true := by
  intro a ha
  rcases mem_numeral h a ha with hpart | rfl
  · simp [isResultCharacter, hpart]
  · decide

theorem isResultCharacter_display [MathLibrary] (text : Text) (precision : Nat) :
    ∀ a ∈ (evaluate text).display precision, isResultCharacter a = true := by
  rcases display_evaluate text precision with h | ⟨n, hn, h⟩
  · rw [h]
    exact forall_mem_of_all (by decide)
  · rw [h]
    exact isResultCharacter_numeral hn

/-! ## All characters -/

theorem isEntryCharacter_of_isResultCharacter (h : isResultCharacter a = true) :
    isEntryCharacter a = true := by
  have hother : ∀ a ∈ '-' :: Outcome.errorMarker, isEntryCharacter a = true :=
    forall_mem_of_all (by decide)
  rw [isResultCharacter, Bool.or_eq_true, Bool.or_eq_true, decide_eq_true_eq,
    List.contains_iff_mem, or_assoc] at h
  rcases h with h | h
  · rw [isEntryCharacter, h, Bool.true_or]
  · exact hother a (List.mem_cons.2 h)

theorem isEntryCharacter_of_mem_characters (event : Event) :
    ∀ a ∈ event.characters, isEntryCharacter a = true := by
  cases event with
  | digit c =>
    intro a ha
    rw [isEntryCharacter, Event.isNumberPart_of_mem_characters ha, Bool.true_or]
  | operator o => exact forall_mem_of_all (by cases o <;> decide)
  | function f => exact forall_mem_of_all (by cases f <;> decide)
  | constant k => exact forall_mem_of_all (by cases k <;> decide)
  | paren p => exact forall_mem_of_all (by cases p <;> decide)
  | clear | backspace | evaluate => exact forall_mem_of_all (by decide)

/-- No character of an entry is a blank, and none is the first letter of `pi`. -/
theorem isBlank_of_isEntryCharacter (h : isEntryCharacter a = true) :
    isBlank a = false ∧ a ≠ 'p' := by
  have hother : ∀ a ∈ otherCharacters, isBlank a = false ∧ a ≠ 'p' :=
    forall_mem_of_all (by decide)
  rw [isEntryCharacter, Bool.or_eq_true, List.contains_iff_mem] at h
  rcases h with h | h
  · refine ⟨isBlank_eq_false_of_isNumberPart h, ?_⟩
    rintro rfl
    exact absurd h (by decide)
  · exact hother a h

end Entry

/-! ## Runs -/

namespace Calculator

variable {c : Calculator} {a : Char}

variable [MathLibrary]

/-- A character of the entry was there before, was brought in by the event or is of a result. -/
theorem mem_handle {event : Event} (h : a ∈ (c.handle event).calculator.entry.text) :
    a ∈ c.entry.text ∨ a ∈ event.characters ∨ Entry.isResultCharacter a = true := by
  unfold handle at h
  split at h
  · rw [evaluate_eq] at h
    exact .inr (.inr (Entry.isResultCharacter_display _ _ a h))
  · exact (Entry.mem_edit h).imp_right .inl

/-- A character of the entry was there at first, was brought in by an event or is of a result. -/
theorem mem_after {events : List Event} (h : a ∈ (c.after events).entry.text) :
    a ∈ c.entry.text ∨ (∃ event ∈ events, a ∈ event.characters) ∨
      Entry.isResultCharacter a = true := by
  induction events generalizing c with
  | nil => exact .inl h
  | cons event events ih =>
    rcases ih h with h | ⟨event', hmem, h⟩ | h
    · rcases mem_handle h with h | h | h
      · exact .inl h
      · exact .inr (.inl ⟨event, List.mem_cons_self, h⟩)
      · exact .inr (.inr h)
    · exact .inr (.inl ⟨event', List.mem_cons_of_mem _ hmem, h⟩)
    · exact .inr (.inr h)

/-- Whatever the events of a new calculator, its entry has no other characters than these. -/
theorem isEntryCharacter_after (mode : Mode) (precision : Nat) (events : List Event) :
    ∀ a ∈ ((new mode precision).after events).entry.text, Entry.isEntryCharacter a = true := by
  intro a ha
  rcases mem_after ha with h | ⟨event, -, h⟩ | h
  · rw [List.mem_singleton.1 h]
    decide
  · exact Entry.isEntryCharacter_of_mem_characters event a h
  · exact Entry.isEntryCharacter_of_isResultCharacter h

end Calculator

end DeskCalculator
