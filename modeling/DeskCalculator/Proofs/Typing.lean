import DeskCalculator.Proofs.EntryShape
import DeskCalculator.Proofs.Neighbours

/-!
# Typing an expression

The entry corrects what is typed: an operator replaces the one before it, a value after a value is
multiplied by it, and the zero of an empty entry gives way. None of this happens while an expression
is typed that is plain, that is, written with the characters of the keys:

* `keys`: the keys of a text, a function and its opening parenthesis being one;
* `press?`, `type?`: the calculator after a key, and after keys in turn;
* `digit_typed`, `operator_typed`, `value_typed`, `closing_typed`: what one key appends;
* `type?_token`, `type?_reads`: the keys of a lexeme, and of a text that is read to its end;
* `type_expression`: the keys of a plain expression leave its text in the entry.
-/

namespace DeskCalculator

/-- The function whose name and opening parenthesis begin a text. -/
def startOfCall? (text : Text) : Option Function :=
  Function.all.find? fun f => (f.name ++ ['(']).isPrefixOf text

/-- The keys of a text: a function name with its parenthesis is one key, and any other character is
a key of its own. -/
def keys : Text → List Text
  | [] => []
  | c :: rest =>
    match startOfCall? (c :: rest) with
    | some f => f.name :: keys (rest.drop f.name.length)
    | none => [c] :: keys rest
termination_by text => text.length
decreasing_by
  · simp only [List.length_drop, List.length_cons]
    omega
  · exact Nat.lt_succ_self _

/-- A text written with the characters of the keys. It does not begin with the digit of an empty
entry, a sign at its very start is a minus, and no sign follows an operator or another sign. -/
structure IsPlain (text : Text) : Prop where
  no_blank : ∀ c ∈ text, isBlank c = false
  no_glyph : ∀ c ∈ text, c ≠ '−' ∧ c ≠ '×' ∧ c ≠ '÷'
  no_pi : ¬ ['p', 'i'] <:+: text
  sign_first : ∀ c ∈ text.head?, Entry.isOperatorChar c = true → c = '-'
  sign_next : text.IsChain fun c d =>
    Entry.isOperatorChar d = true → Entry.isOperatorChar c = false
  no_leading_zero : text.head? ≠ some '0'

/-! ## Keys -/

@[simp] theorem keys_nil : keys [] = [] := by rw [keys]

theorem startOfCall?_name (f : Function) (rest : Text) :
    startOfCall? (f.name ++ '(' :: rest) = some f := by
  cases f <;> simp [startOfCall?, Function.all, Function.name]

theorem startOfCall?_eq_none {c : Char} (h : c.isAlpha = false ∨ c = 'e') (rest : Text) :
    startOfCall? (c :: rest) = none := by
  refine List.find?_eq_none.2 fun f _ hprefix => ?_
  obtain ⟨d, l, hname, halpha, hne⟩ :
      ∃ d l, f.name = d :: l ∧ d.isAlpha = true ∧ d ≠ 'e' := by
    cases f <;> exact ⟨_, _, rfl, by decide, by decide⟩
  rw [hname, List.cons_append, List.isPrefixOf_cons_cons, Bool.and_eq_true, beq_iff_eq] at hprefix
  obtain rfl := hprefix.1
  rcases h with h | h
  · rw [halpha] at h
    cases h
  · exact hne h

theorem keys_call (f : Function) (rest : Text) :
    keys (f.name ++ '(' :: rest) = f.name :: keys rest := by
  have hstart := startOfCall?_name f rest
  cases f <;> rw [Function.name, List.cons_append] at hstart ⊢ <;> rw [keys, hstart] <;> rfl

theorem keys_cons {c : Char} (h : c.isAlpha = false ∨ c = 'e') (rest : Text) :
    keys (c :: rest) = [c] :: keys rest := by
  rw [keys, startOfCall?_eq_none h]

/-! ## One key -/

namespace Entry

/-- The entry in which a text has been typed. -/
def typed (text : Text) : Entry := if text = [] then .empty else ⟨text, false⟩

@[simp] theorem typed_nil : typed [] = .empty := rfl

theorem typed_append {u k : Text} (hk : k ≠ []) : typed (u ++ k) = ⟨u ++ k, false⟩ :=
  if_neg (List.append_ne_nil_of_right_ne_nil u hk)

variable {u : Text}

/-- A text that is not the zero of an empty entry is not replaced. -/
theorem startsFresh_typed (hu : u ≠ emptyText) (hne : u ≠ []) : (typed u).startsFresh = false := by
  rw [typed, if_neg hne]
  simp [startsFresh, hu]

theorem digit_typed (hu : u ≠ emptyText) {c : Char} (hc : Event.isDigitKey c = true) :
    (typed u).digit c = typed (u ++ [c]) := by
  rw [typed_append (List.cons_ne_nil _ _), digit, if_pos hc]
  by_cases hne : u = []
  · rw [hne, typed_nil, if_pos (show empty.startsFresh = true from rfl), List.nil_append]
  · rw [startsFresh_typed hu hne, if_neg (by decide), typed, if_neg hne]

/-- An operator after anything but an operator is appended; at the very start this is so of the
minus sign. -/
theorem operator_typed (hu : u ≠ emptyText) {o : Operator} (hfirst : u = [] → o = .subtract)
    (hlast : ∀ c ∈ u.getLast?, isOperatorChar c = false) :
    (typed u).operator o = typed (u ++ [o.symbol]) := by
  rw [typed_append (List.cons_ne_nil _ _), operator]
  by_cases hne : u = []
  · rw [hne, hfirst hne, typed_nil, if_pos ⟨rfl, rfl⟩, List.nil_append]
  · have hop : (typed u).lastIs isOperatorChar = false := by
      rw [typed, if_neg hne, lastIs, Option.any_eq_false]
      exact hlast
    rw [typed, if_neg hne] at hop ⊢
    rw [if_neg fun h => hu h.2, hop]
    simp

/-- A value after anything but the end of a value is appended. -/
theorem value_typed (hu : u ≠ emptyText) {k : Text} (hk : k ≠ [])
    (hlast : ∀ c ∈ u.getLast?, endsValue c = false) : (typed u).value k = typed (u ++ k) := by
  rw [typed_append hk, value]
  by_cases hne : u = []
  · rw [hne, typed_nil, if_pos (show empty.startsFresh = true from rfl), List.nil_append]
  · have hend : (typed u).lastIs endsValue = false := by
      rw [typed, if_neg hne, lastIs, Option.any_eq_false]
      exact hlast
    rw [startsFresh_typed hu hne, if_neg (by decide), hend, if_neg (by decide), typed, if_neg hne]

theorem closing_typed (hne : u ≠ []) : (typed u).paren .closing = typed (u ++ [')']) := by
  rw [typed_append (List.cons_ne_nil _ _), paren, typed, if_neg hne]

end Entry

namespace Event

/-- A character that is neither a value nor a command is the key of its digit or operator. -/
theorem ofKey?_char {mode : Mode} {c : Char} (h : c ∉ ['=', '(', ')', 'π', 'e']) :
    ofKey? mode [c] = (ofChar? c).filter mode.allows := by
  have hfunction : Function.ofName? [c] = none := by
    refine List.find?_eq_none.2 fun f _ => ?_
    cases f <;> simp [Function.name]
  have hconstant : Constant.ofName? [c] = none := by
    unfold Constant.ofName?
    split <;> simp_all
  have hlong : ∀ key : Text, 1 < key.length → [c] ≠ key := by
    rintro key hkey rfl
    exact absurd hkey (Nat.lt_irrefl 1)
  have hshort : ∀ d ∈ ['=', '(', ')', 'π', 'e'], [c] ≠ [d] := by
    rintro d hd hcd
    obtain rfl := List.singleton_inj.1 hcd
    exact h hd
  rw [ofKey?, ofName?, if_neg (not_or.2 ⟨hlong _ (by decide), hshort '=' (by decide)⟩),
    if_neg (hlong _ (by decide)), if_neg (hlong _ (by decide)),
    if_neg (hshort Paren.opening.symbol (by decide)),
    if_neg (hshort Paren.closing.symbol (by decide)), hfunction, hconstant]

theorem ofKey?_digit (mode : Mode) {c : Char} (h : Token.isNumberPart c = true) :
    isDigitKey c = true ∧ ofKey? mode [c] = some (.digit c) := by
  have hkey : isDigitKey c = true := by
    rw [isDigitKey, Bool.or_comm]
    exact h
  have hc : c ∉ ['=', '(', ')', 'π', 'e'] := by
    intro hmem
    have hother : ∀ d ∈ ['=', '(', ')', 'π', 'e'], Token.isNumberPart d = false :=
      forall_mem_of_all (by decide)
    rw [hother c hmem] at h
    cases h
  refine ⟨hkey, ?_⟩
  rw [ofKey?_char hc, ofChar?, if_pos hkey]
  rfl

theorem ofKey?_operator (mode : Mode) (o : Operator) :
    ofKey? mode [o.symbol] = some (.operator o) := by
  cases mode <;> cases o <;> decide

theorem ofKey?_function (f : Function) : ofKey? .scientific f.name = some (.function f) := by
  cases f <;> decide

theorem ofKey?_constant (k : Constant) : ofKey? .scientific [k.symbol] = some (.constant k) := by
  cases k <;> decide

theorem ofKey?_paren (p : Paren) : ofKey? .scientific [p.symbol] = some (.paren p) := by
  cases p <;> decide

end Event

/-! ## Texts of a plain expression -/

theorem ne_emptyText {u v : Text} (h : (u ++ v).head? ≠ some '0') : u ≠ Entry.emptyText := by
  rintro rfl
  exact h rfl

theorem keys_numberPart {c : Char} (h : Token.isNumberPart c = true) (rest : Text) :
    keys (c :: rest) = [c] :: keys rest :=
  keys_cons (.inl (not_isAlpha_of_isNumberPart h)) rest

/-- The operator of a character that is on a key. -/
theorem symbol_of_plain {c : Char} {o : Operator} (h : (c, o) ∈ Token.operatorCharacters)
    (hc : c ≠ '−' ∧ c ≠ '×' ∧ c ≠ '÷') : c = o.symbol := by
  have hall : ∀ pair ∈ Token.operatorCharacters,
      pair.1 ≠ '−' ∧ pair.1 ≠ '×' ∧ pair.1 ≠ '÷' → pair.1 = pair.2.symbol := by decide
  exact hall _ h hc

theorem opening_of_reads {text : Text} {tokens : List Token}
    (h : Token.Reads text (.opening :: tokens)) (hblank : ∀ c ∈ text, isBlank c = false) :
    ∃ inner, text = '(' :: inner := by
  cases h with
  | blank hb _ => exact absurd hb (Token.not_mem_whiteSpace hblank)
  | lexeme hs _ _ =>
    cases hs
    exact ⟨_, rfl⟩

/-- What the last character of a text says of its last token: only the end of an operand ends a
value. A text that is still empty is like the inside of a group. -/
def EndsIn (text : Text) (last : Token) : Prop :=
  (∀ c ∈ text.getLast?, Entry.endsValue c = true → last.endsOperand = true) ∧
    (last.endsOperand = true → text ≠ [])

theorem EndsIn.not_endsValue {text : Text} {last : Token} (h : EndsIn text last)
    (hlast : last.endsOperand = false) : ∀ c ∈ text.getLast?, Entry.endsValue c = false := by
  intro c hc
  refine Bool.eq_false_iff.2 fun hend => ?_
  rw [h.1 c hc hend] at hlast
  cases hlast

/-- A lexeme of a token ends as the token does. -/
theorem endsIn_spelled {found : Text} {t : Token} (h : Token.Spells found t) (u : Text) :
    EndsIn (u ++ found) t := by
  have hne := h.ne_nil
  refine ⟨fun c hc hend => ?_, fun _ => List.append_ne_nil_of_right_ne_nil u hne⟩
  rw [List.getLast?_append_of_ne_nil u hne] at hc
  cases h with
  | number | constant | closing => rfl
  | @function _ f hf =>
    obtain rfl := Token.mem_functionNames.1 hf
    have hname : Entry.endsValue c = false := by
      cases f <;> (obtain rfl := Option.mem_some_iff.1 hc; decide)
    rw [hname] at hend
    cases hend
  | operator ho =>
    obtain rfl := Option.mem_some_iff.1 hc
    have hall : ∀ pair ∈ Token.operatorCharacters, Entry.endsValue pair.1 ≠ true := by decide
    exact absurd hend (hall _ ho)
  | opening =>
    obtain rfl := Option.mem_some_iff.1 hc
    exact absurd hend (by decide)

namespace Calculator

/-- A calculator with all keys in which a text has been typed. -/
def holding (precision : Nat) (text : Text) : Calculator := ⟨.typed text, .scientific, precision⟩

/-- The calculator with a text typed in place of its entry. -/
def retyped (c : Calculator) (text : Text) : Calculator := { c with entry := .typed text }

section

variable [MathLibrary]

/-- The calculator after a key, if the keypad has it. -/
def press? (c : Calculator) (key : Text) : Option Calculator :=
  (Event.ofKey? c.mode key).map fun event => (c.handle event).calculator

/-- The calculator after keys in turn, if the keypad has all of them. -/
def type? (c : Calculator) (keys : List Text) : Option Calculator := keys.foldlM press? c

variable {c : Calculator} {precision : Nat} {u : Text}

/-- Typing a key that appends its characters. -/
theorem type?_key {key k : Text} {event : Event} (hkey : Event.ofKey? c.mode key = some event)
    (hne : event ≠ .evaluate) (hedit : edit (.typed u) event = .typed (u ++ k))
    (later : List Text) :
    (c.retyped u).type? (key :: later) = (c.retyped (u ++ k)).type? later := by
  have hpress : (c.retyped u).press? key = some (c.retyped (u ++ k)) := by
    rw [press?, show (c.retyped u).mode = c.mode from rfl, hkey, Option.map_some, handle,
      if_neg hne]
    exact congrArg (fun e => some { c with entry := e }) hedit
  rw [type?, List.foldlM_cons, hpress]
  rfl

theorem type?_cons {key k : Text} {event : Event} (hkey : Event.ofKey? .scientific key = some event)
    (hne : event ≠ .evaluate) (hedit : edit (.typed u) event = .typed (u ++ k))
    (later : List Text) :
    (holding precision u).type? (key :: later) = (holding precision (u ++ k)).type? later :=
  type?_key (c := new .scientific precision) hkey hne hedit later

theorem type?_opening (hu : u ≠ Entry.emptyText)
    (hlast : ∀ c ∈ u.getLast?, Entry.endsValue c = false) (later : List Text) :
    (holding precision u).type? (['('] :: later) =
      (holding precision (u ++ ['('])).type? later :=
  type?_cons (Event.ofKey?_paren .opening) nofun
    (Entry.value_typed hu (List.cons_ne_nil _ _) hlast) later

theorem type?_closing (hne : u ≠ []) (later : List Text) :
    (holding precision u).type? ([')'] :: later) =
      (holding precision (u ++ [')'])).type? later :=
  type?_cons (Event.ofKey?_paren .closing) nofun (Entry.closing_typed hne) later

/-- Digits and points are appended while what is typed is not the zero of an empty entry. -/
theorem type?_numberParts {literal rest : Text} (hl : ∀ c ∈ literal, Token.isNumberPart c = true)
    (hempty : ∀ before after, before ++ after = literal → after ≠ [] →
      u ++ before ≠ Entry.emptyText) :
    (c.retyped u).type? (keys (literal ++ rest)) =
      (c.retyped (u ++ literal)).type? (keys rest) := by
  induction literal generalizing u with
  | nil => rw [List.append_nil, List.nil_append]
  | cons a l ih =>
    obtain ⟨ha, hl⟩ := List.forall_mem_cons.1 hl
    obtain ⟨hdigit, hkey⟩ := Event.ofKey?_digit c.mode ha
    have hu : u ≠ Entry.emptyText := by
      have := hempty [] (a :: l) rfl (List.cons_ne_nil _ _)
      rwa [List.append_nil] at this
    rw [List.cons_append, keys_numberPart ha,
      type?_key hkey nofun (Entry.digit_typed hu hdigit), ih hl, List.append_assoc]
    · rfl
    · intro before after he hne
      rw [List.append_assoc]
      exact hempty (a :: before) after (by rw [← he]; rfl) hne

theorem type?_number {literal rest : Text} (hl : ∀ c ∈ literal, Token.isNumberPart c = true)
    (hzero : (u ++ literal).head? ≠ some '0') :
    (holding precision u).type? (keys (literal ++ rest)) =
      (holding precision (u ++ literal)).type? (keys rest) := by
  refine type?_numberParts (c := new .scientific precision) hl fun before after he _ => ?_
  rw [← he, ← List.append_assoc] at hzero
  exact ne_emptyText hzero

theorem type?_symbol (hu : u ≠ Entry.emptyText) {o : Operator} (hfirst : u = [] → o = .subtract)
    (hlast : ∀ a ∈ u.getLast?, Entry.isOperatorChar a = false) (rest : Text) :
    (c.retyped u).type? (keys (o.symbol :: rest)) =
      (c.retyped (u ++ [o.symbol])).type? (keys rest) := by
  have halpha : o.symbol.isAlpha = false := by cases o <;> decide
  rw [keys_cons (.inl halpha),
    type?_key (Event.ofKey?_operator _ o) nofun (Entry.operator_typed hu hfirst hlast)]

theorem type?_operator (hu : u ≠ Entry.emptyText) {o : Operator}
    (hfirst : u = [] → o = .subtract) (hlast : ∀ c ∈ u.getLast?, Entry.isOperatorChar c = false)
    (rest : Text) :
    (holding precision u).type? (keys ([o.symbol] ++ rest)) =
      (holding precision (u ++ [o.symbol])).type? (keys rest) :=
  type?_symbol (c := new .scientific precision) hu hfirst hlast rest

/-- The key of a function does what its parenthesis would do after its name. -/
theorem type?_call (f : Function) (hu : u ≠ Entry.emptyText)
    (hlast : ∀ c ∈ u.getLast?, Entry.endsValue c = false) (inner : Text) :
    (holding precision u).type? (keys (f.name ++ '(' :: inner)) =
      (holding precision (u ++ f.name)).type? (keys ('(' :: inner)) := by
  have hname : u ++ f.name ≠ Entry.emptyText := by
    intro h
    have hlength := congrArg List.length h
    have : 2 ≤ f.name.length := by cases f <;> decide
    rw [List.length_append, show Entry.emptyText.length = 1 from rfl] at hlength
    omega
  rw [keys_call, keys_cons (.inl (by decide)),
    type?_cons (Event.ofKey?_function f) nofun
      (Entry.value_typed hu (List.concat_ne_nil _ _) hlast),
    type?_opening hname ((endsIn_spelled (.name f) u).not_endsValue rfl), List.append_assoc]

/-- The keys of one lexeme of a plain expression append its characters. -/
theorem type?_token {w found rest : Text} {s t : Token} (hw : IsPlain w)
    (he : u ++ (found ++ rest) = w) (hspells : Token.Spells found t) (hu : EndsIn u s)
    (hfollow : s.follows t = true) (hcall : ∀ f, t = .function f → ∃ inner, rest = '(' :: inner) :
    (holding precision u).type? (keys (found ++ rest)) =
      (holding precision (u ++ found)).type? (keys rest) := by
  have hempty : u ≠ Entry.emptyText := ne_emptyText (he ▸ hw.no_leading_zero)
  have hvalue : t.beginsOperand = true → ∀ c ∈ u.getLast?, Entry.endsValue c = false :=
    fun ht => hu.not_endsValue (Token.not_endsOperand_of_follows hfollow ht)
  cases hspells with
  | number hl =>
    refine type?_number hl.isNumberPart fun hhead => hw.no_leading_zero ?_
    rw [← he, ← List.append_assoc, List.head?_append, hhead]
    rfl
  | @function _ f hf =>
    obtain rfl := Token.mem_functionNames.1 hf
    obtain ⟨inner, rfl⟩ := hcall f rfl
    exact type?_call f hempty (hvalue rfl) inner
  | @constant _ k hk =>
    rcases Token.mem_constantNames.1 hk with rfl | ⟨rfl, rfl⟩
    · rw [List.singleton_append, keys_cons (by cases k <;> decide),
        type?_cons (Event.ofKey?_constant k) nofun
          (Entry.value_typed hempty (List.cons_ne_nil _ _) (hvalue rfl))]
    · exact absurd ⟨u, rest, by rw [List.append_assoc]; exact he⟩ hw.no_pi
  | @operator c o ho =>
    have hmem : c ∈ w := by simp [← he]
    obtain rfl := symbol_of_plain ho (hw.no_glyph c hmem)
    have hfirst : u = [] → o = .subtract := by
      rintro rfl
      have := hw.sign_first o.symbol (by rw [← he]; rfl) (Entry.isOperatorChar_symbol o)
      cases o <;> first | rfl | exact absurd this (by decide)
    have hlast : ∀ a ∈ u.getLast?, Entry.isOperatorChar a = false := by
      intro a ha
      have hchain := List.isChain_append.1 (he ▸ hw.sign_next)
      exact hchain.2.2 a ha o.symbol rfl (Entry.isOperatorChar_symbol o)
    exact type?_operator hempty hfirst hlast rest
  | opening =>
    rw [List.singleton_append, keys_cons (.inl (by decide)), type?_opening hempty (hvalue rfl)]
  | closing =>
    have hne := hu.2 (Token.endsOperand_of_follows_closing hfollow)
    rw [List.singleton_append, keys_cons (.inl (by decide)), type?_closing hne]

/-- The keys of the rest of a plain expression append its characters. -/
theorem type?_reads {w text : Text} {s : Token} {tokens : List Token} (hw : IsPlain w)
    (hreads : Token.Reads text tokens) (he : u ++ text = w) (hu : EndsIn u s)
    (hchain : (s :: tokens).IsChain fun s t => s.follows t = true)
    (hlast : ∀ t ∈ (s :: tokens).getLast?, t.endsOperand = true) :
    (holding precision u).type? (keys text) = some (holding precision w) := by
  have hblank : ∀ c ∈ text, isBlank c = false := fun c hc => hw.no_blank c (by simp [← he, hc])
  induction hreads generalizing u s with
  | nil =>
    rw [List.append_nil] at he
    rw [keys_nil, he]
    rfl
  | blank hb _ _ => exact absurd hb (Token.not_mem_whiteSpace hblank)
  | @lexeme found rest t tokens hs _ hr ih =>
    obtain ⟨hfollow, hchain⟩ := List.isChain_cons_cons.1 hchain
    rw [List.getLast?_cons_cons] at hlast
    have hrest : ∀ c ∈ rest, isBlank c = false := fun c hc => hblank c (by simp [hc])
    have hcall : ∀ f, t = .function f → ∃ inner, rest = '(' :: inner := by
      rintro f rfl
      cases tokens with
      | nil => cases hlast _ rfl
      | cons t' tokens =>
        obtain rfl : t' = .opening := of_decide_eq_true (List.isChain_cons_cons.1 hchain).1
        exact opening_of_reads hr hrest
    rw [type?_token hw he hs hu hfollow hcall]
    exact ih (by rw [List.append_assoc, he]) (endsIn_spelled hs u) hchain hlast hrest

/-- On a keypad with all keys and an empty entry, as it is at first and after it is cleared, the
keys of a plain expression leave exactly its text in the entry, and its evaluation is the one of
that text. -/
theorem type_expression {c : Calculator} {w : Text} {tokens : List Token} {p : Phrase}
    (hmode : c.mode = .scientific) (hentry : c.entry = .empty) (hreads : Token.Reads w tokens)
    (hp : Derives .sum tokens p) (hw : IsPlain w) :
    ∃ d, c.type? (keys w) = some d ∧ d.entry = ⟨w, false⟩ ∧
      d.outcome = DeskCalculator.evaluate w ∧
      (d.handle .evaluate).calculator.display =
        (DeskCalculator.evaluate w).display c.precision ∧
      (d.handle .evaluate).shown = [(DeskCalculator.evaluate w).display c.precision] := by
  obtain ⟨hchain, hfirst, hlast⟩ := Token.joined_of_derives hp
  have hstart : c = holding c.precision [] := by
    rw [holding, Entry.typed_nil, ← hmode, ← hentry]
  have hne : w ≠ [] := by
    rintro rfl
    have hscan := Token.scan_of_reads hreads
    rw [Token.scan_nil] at hscan
    obtain rfl := congrArg Token.Scanned.tokens hscan
    obtain ⟨_, ht, -⟩ := hfirst
    cases ht
  have hopen : (Token.opening :: tokens).IsChain fun s t => s.follows t = true :=
    (Token.joined_of_derives hp).cons_chain fun t ht => by simpa [Token.follows] using ht
  have hend : ∀ t ∈ (Token.opening :: tokens).getLast?, t.endsOperand = true := by
    obtain ⟨t, ht, htend⟩ := hlast
    intro t' ht'
    rw [List.getLast?_cons, Option.mem_def.1 ht] at ht'
    obtain rfl := Option.mem_some_iff.1 ht'
    exact htend
  have htyped : (holding c.precision w).entry = ⟨w, false⟩ := if_neg hne
  have houtcome : (holding c.precision w).outcome = DeskCalculator.evaluate w := by
    rw [outcome, htyped]
  refine ⟨holding c.precision w, ?_, htyped, houtcome, ?_, ?_⟩
  · rw [hstart]
    exact type?_reads (u := []) hw hreads rfl ⟨by simp, by simp [Token.endsOperand]⟩ hopen hend
  · rw [handle, if_pos rfl, evaluate_eq, houtcome]
    rfl
  · rw [handle, if_pos rfl, evaluate_eq, houtcome]
    rfl

end

/-- The sine of a negative constant. -/
theorem type_sine :
    ∃ d, (new .scientific 8).type? (keys ['s', 'i', 'n', '(', '-', 'π', ')']) = some d ∧
    d.entry = ⟨['s', 'i', 'n', '(', '-', 'π', ')'], false⟩ ∧
    d.outcome = DeskCalculator.evaluate ['s', 'i', 'n', '(', '-', 'π', ')'] ∧
    (d.handle .evaluate).calculator.display =
      (DeskCalculator.evaluate ['s', 'i', 'n', '(', '-', 'π', ')']).display 8 ∧
    (d.handle .evaluate).shown =
      [(DeskCalculator.evaluate ['s', 'i', 'n', '(', '-', 'π', ')']).display 8] := by
  have hgroup : Token.Reads ['(', '-', 'π', ')']
      [.opening, .operator .subtract, .constant .pi, .closing] :=
    (Token.Reads.operator (by decide) (Token.Spells.symbol .pi).reads).opening.closing
  have hreads : Token.Reads ['s', 'i', 'n', '(', '-', 'π', ')']
      [.function .sin, .opening, .operator .subtract, .constant .pi, .closing] :=
    .lexeme (.name .sin) (Token.ends_before_symbol (by decide) (by decide) _ _) hgroup
  have hp : Derives .unary [.operator .subtract, .constant .pi] (.signed .minus (.constant .pi)) :=
    .signed (.inr ⟨rfl, rfl⟩) (.unaryOfAtom (.constant .pi))
  have hcall : Derives .atom
      [.function .sin, .opening, .operator .subtract, .constant .pi, .closing] _ :=
    .call hp.sumOfUnary
  refine type_expression rfl rfl hreads (Derives.unaryOfAtom hcall).sumOfUnary ?_
  refine ⟨forall_mem_of_all (by decide), forall_mem_of_all (by decide), by decide, ?_, by decide,
    by decide⟩
  rintro _ ⟨⟩ h
  exact absurd h (by decide)

end Calculator

end DeskCalculator
