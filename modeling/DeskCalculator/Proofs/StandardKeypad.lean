import DeskCalculator.Proofs.Answers
import DeskCalculator.Proofs.ErrorMarker

/-!
# The standard keypad

A session that begins on the standard keypad and never meets the word that switches to the scientific
one shows nothing of the latter, whatever words are typed, one key or a key for each character, and
whatever results and failures are entered again:

* `ofKey?_standard`: the standard keypad has the keys of the scientific one but functions and
  constants;
* `evaluate_ne_domain`: arithmetic, after the error marker or alone, has no argument to be rejected;
* `isStandard_ofWords`: the strokes of the words are on the standard keypad;
* `standard_session`: every state of such a session.
-/

namespace DeskCalculator

/-! ## Keys -/

namespace Event

/-- The scientific keypad has every key. -/
theorem ofKey?_scientific (key : Text) : ofKey? .scientific key = ofName? key := by
  unfold ofKey?
  cases ofName? key with
  | none => rfl
  | some e => cases e <;> rfl

/-- The standard keypad lacks functions and constants, and nothing else. -/
theorem ofKey?_standard (key : Text) :
    (ofKey? .standard key = ofKey? .scientific key ∧
        (∀ f, ofKey? .scientific key ≠ some (.function f)) ∧
        ∀ k, ofKey? .scientific key ≠ some (.constant k)) ∨
      (ofKey? .standard key = none ∧
        ((∃ f, ofKey? .scientific key = some (.function f)) ∨
          ∃ k, ofKey? .scientific key = some (.constant k))) := by
  rw [ofKey?_scientific]
  unfold ofKey?
  cases ofName? key with
  | none => simp
  | some e => cases e <;> simp [Mode.allows]

end Event

/-! ## Arithmetic -/

/-- A character of arithmetic: a digit, a point, an operator or a parenthesis. -/
def isArithmeticCharacter (a : Char) : Bool :=
  Token.isNumberPart a || ['+', '-', '*', '/', '%', '^', '(', ')'].contains a

theorem isArithmeticCharacter_of_isNumberPart {a : Char} (h : Token.isNumberPart a = true) :
    isArithmeticCharacter a = true := by
  rw [isArithmeticCharacter, h, Bool.true_or]

theorem not_isAlpha_of_isArithmeticCharacter {a : Char} (h : isArithmeticCharacter a = true) :
    a.isAlpha = false := by
  have hother : ∀ a ∈ ['+', '-', '*', '/', '%', '^', '(', ')'], a.isAlpha = false :=
    forall_mem_of_all (by decide)
  rw [isArithmeticCharacter, Bool.or_eq_true, List.contains_iff_mem] at h
  exact h.elim not_isAlpha_of_isNumberPart (hother a)

/-- The standard keypad brings in characters of arithmetic only. -/
theorem isArithmeticCharacter_of_allows {event : Event} (h : Mode.standard.allows event = true) :
    ∀ a ∈ event.characters, isArithmeticCharacter a = true := by
  cases event with
  | digit c =>
    exact fun a ha => isArithmeticCharacter_of_isNumberPart (Event.isNumberPart_of_mem_characters ha)
  | operator o => exact forall_mem_of_all (by cases o <;> decide)
  | function f | constant k => simp [Mode.allows] at h
  | paren p => exact forall_mem_of_all (by cases p <;> decide)
  | clear | backspace | evaluate => exact forall_mem_of_all (by decide)

/-- A text without letters has no function. -/
theorem function_notMem_of_reads {text : Text} {tokens : List Token} (h : Token.Reads text tokens)
    (htext : ∀ a ∈ text, a.isAlpha = false) (f : Function) : .function f ∉ tokens := by
  induction h with
  | nil => simp
  | blank _ _ ih => exact ih fun a ha => htext a (List.mem_cons_of_mem _ ha)
  | @lexeme found rest token tokens hspells _ _ ih =>
    have hfound : ∀ a ∈ found, a.isAlpha = false := fun a ha => htext a (by simp [ha])
    rw [List.mem_cons, not_or]
    refine ⟨?_, ih fun a ha => htext a (by simp [ha])⟩
    rintro rfl
    cases hspells with
    | function hf =>
      have hall : ∀ pair ∈ Token.functionNames, pair.1.any Char.isAlpha = true := by decide
      obtain ⟨a, ha, halpha⟩ := List.any_eq_true.1 (hall _ hf)
      rw [hfound a ha] at halpha
      cases halpha

/-- A phrase without functions has a value, whatever the primitive operations mean. -/
theorem exists_eval_of_derives {level : Level} {tokens : List Token} {p : Phrase}
    (h : Derives level tokens p) (htokens : ∀ f, .function f ∉ tokens) (arithmetic : Arithmetic) :
    ∃ value, p.toExpr.eval arithmetic = .ok value := by
  have hbinary : ∀ {o : Operator} {l r : Phrase}, (∃ x, l.toExpr.eval arithmetic = .ok x) →
      (∃ y, r.toExpr.eval arithmetic = .ok y) →
      ∃ z, (Phrase.binary o l r).toExpr.eval arithmetic = .ok z := by
    rintro o l r ⟨x, hx⟩ ⟨y, hy⟩
    refine ⟨o.apply arithmetic x y, ?_⟩
    rw [Phrase.toExpr, Expr.eval, hx, hy]
    rfl
  induction h with
  | sum _ _ _ ihl ihr | product _ _ _ ihl ihr | power _ _ ihl ihr =>
    exact hbinary (ihl fun f hf => htokens f (by simp [hf])) (ihr fun f hf => htokens f (by simp [hf]))
  | @signed o s ts p _ _ ih =>
    obtain ⟨x, hx⟩ := ih fun f hf => htokens f (by simp [hf])
    cases s with
    | plus => exact ⟨x, hx⟩
    | minus => exact ⟨arithmetic.neg x, by rw [Phrase.toExpr, Expr.eval, hx]; rfl⟩
  | number value => exact ⟨value, rfl⟩
  | constant c => exact ⟨c.value, rfl⟩
  | @call f _ _ _ _ => exact absurd (by simp) (htokens f)
  | group _ ih => exact ih fun f hf => htokens f (by simp [hf])
  | sumOfProduct _ ih | productOfPower _ ih | powerOfUnary _ ih | unaryOfAtom _ ih =>
    exact ih htokens

/-- No function rejects its argument in arithmetic, after the error marker or alone. -/
theorem evaluate_ne_domain [MathLibrary] {text : Text} (h : Entry.IsMarked isArithmeticCharacter text)
    (cause : DomainError) : evaluate text ≠ .error (.domain cause) := by
  obtain ⟨rest, htext, hrest⟩ := h
  rcases htext with rfl | rfl
  · cases hparse : Expr.parse text with
    | error fault => simp [evaluate, evaluateWith, hparse]
    | ok e =>
      obtain ⟨tokens, p, hreads, hp, -, rfl⟩ := derives_of_parse hparse
      have htokens := function_notMem_of_reads hreads fun a ha =>
        not_isAlpha_of_isArithmeticCharacter (hrest a ha)
      obtain ⟨value, hvalue⟩ := exists_eval_of_derives hp htokens .ofLibrary
      simp only [evaluate, evaluateWith, hparse, hvalue, Outcome.ofValue]
      split <;> simp
  · rw [evaluate_errorMarker_append]
    simp

/-! ## Strokes -/

namespace Stroke

/-- A stroke that leaves nothing but the standard keypad. -/
def IsStandard : Stroke → Prop
  | key event => Mode.standard.allows event = true
  | switch mode => mode = .standard

/-- There is one word for the scientific keypad. -/
theorem eq_of_modeWord?_scientific {word : Text}
    (h : Session.modeWord? word = some .scientific) : word = ":scientific".toList := by
  unfold Session.modeWord? at h
  split at h
  · next name =>
    have hname : String.ofList name = Mode.scientific.name := by
      unfold Mode.ofName? at h
      split at h
      · cases h
      · split at h
        · next hname => exact hname
        · cases h
    rw [← String.toList_ofList (l := name), hname]
    rfl
  · cases h

theorem modeWord?_of_ne {word : Text} (h : word ≠ ":scientific".toList) :
    Session.modeWord? word = none ∨ Session.modeWord? word = some .standard := by
  cases hword : Session.modeWord? word with
  | none => exact .inl rfl
  | some mode =>
    cases mode with
    | standard => exact .inr rfl
    | scientific => exact absurd (eq_of_modeWord?_scientific hword) h

theorem isStandard_ofWord {word : Text} (h : word ≠ ":scientific".toList) :
    ∀ k ∈ ofWord .standard word, IsStandard k := by
  intro k hk
  unfold ofWord at hk
  rcases modeWord?_of_ne h with hword | hword <;> rw [hword] at hk <;> dsimp only at hk
  · split at hk
    · next e he =>
      rw [List.mem_singleton.1 hk]
      exact Event.allows_of_ofKey? he
    · obtain ⟨e, he, rfl⟩ := List.mem_map.1 hk
      obtain ⟨c, -, hc⟩ := List.mem_filterMap.1 he
      exact Event.allows_of_ofKey? hc
  · rw [List.mem_singleton.1 hk]
    rfl

/-- Without the word for the scientific keypad, words stay on the standard one. -/
theorem isStandard_ofWords {words : List Text} (h : ":scientific".toList ∉ words) :
    ∀ k ∈ ofWords .standard words, IsStandard k := by
  induction words with
  | nil => simp [ofWords]
  | cons word words ih =>
    rw [List.mem_cons, not_or] at h
    have hmode : (Session.modeWord? word).getD .standard = .standard := by
      rcases modeWord?_of_ne (Ne.symm h.1) with hword | hword <;> rw [hword] <;> rfl
    intro k hk
    rw [ofWords, hmode, List.mem_append] at hk
    exact hk.elim (isStandard_ofWord (Ne.symm h.1) k) (ih h.2 k)

theorem allows_of_isStandard {ks : List Stroke} (h : ∀ k ∈ ks, IsStandard k) :
    ∀ event ∈ ks.filterMap event?, Mode.standard.allows event = true := by
  intro event hevent
  obtain ⟨k, hk, hkey⟩ := List.mem_filterMap.1 hevent
  have hstandard := h k hk
  cases k with
  | key event' => exact Option.some.inj hkey ▸ hstandard
  | switch mode => cases hkey

end Stroke

/-! ## Sessions -/

namespace Session

section

variable [MathLibrary]

/-- Strokes on the standard keypad leave arithmetic in the entry, after the error marker or alone. -/
theorem isMarked_strokes (settings : Settings) {ks : List Stroke}
    (h : ∀ k ∈ ks, k.IsStandard) :
    Entry.IsMarked isArithmeticCharacter ((start settings).strokes ks).calculator.display := by
  have hp : ∀ a, Token.isNumberPart a = true ∨ a = '-' → isArithmeticCharacter a = true := by
    intro a ha
    rcases ha with ha | rfl
    · exact isArithmeticCharacter_of_isNumberPart ha
    · decide
  rw [display_strokes]
  exact Calculator.isMarked_new_after hp settings.mode settings.precision fun event hevent =>
    isArithmeticCharacter_of_allows (Stroke.allows_of_isStandard h event hevent)

/-- A session that begins on the standard keypad and never meets the word for the scientific one: its
lines are typed as strokes, and after every one of these the entry is arithmetic, after the error
marker or alone, and its outcome, which is the one of an evaluation that comes next, is never an
argument that a function rejects. The standard keypad has the keys of the scientific one but its
functions and constants. -/
theorem standard_session {settings : Settings} (hmode : settings.mode = .standard)
    {lines : List Text} (hlines : ∀ line ∈ lines, ":scientific".toList ∉ line.words) :
    lines.foldl type (start settings) =
        (start settings).strokes (Stroke.ofWords .standard (lines.flatMap Text.words)) ∧
      (∀ ks, ks <+: Stroke.ofWords .standard (lines.flatMap Text.words) →
        let s := (start settings).strokes ks
        (∃ rest, (s.calculator.display = rest ∨
            s.calculator.display = Outcome.errorMarker ++ rest) ∧
          ∀ a ∈ rest, isArithmeticCharacter a = true) ∧
        ∀ cause, s.calculator.outcome ≠ .error (.domain cause)) ∧
      ∀ key : Text,
        (Event.ofKey? .standard key = Event.ofKey? .scientific key ∧
            (∀ f, Event.ofKey? .scientific key ≠ some (.function f)) ∧
            ∀ k, Event.ofKey? .scientific key ≠ some (.constant k)) ∨
          (Event.ofKey? .standard key = none ∧
            ((∃ f, Event.ofKey? .scientific key = some (.function f)) ∨
              ∃ k, Event.ofKey? .scientific key = some (.constant k))) := by
  have hwords : ":scientific".toList ∉ lines.flatMap Text.words := by
    simpa only [List.mem_flatMap, not_exists, not_and] using hlines
  refine ⟨foldl_type hmode lines, fun ks hks => ?_, Event.ofKey?_standard⟩
  have hmarked := isMarked_strokes settings fun k hk =>
    Stroke.isStandard_ofWords hwords k (hks.subset hk)
  exact ⟨hmarked, evaluate_ne_domain hmarked⟩

end

/-- The name of a function is typed between a failure and a group after it. -/
theorem standard_session_failure :
    (∀ line ∈ ["1/0= sin +(7".toList], ":scientific".toList ∉ Text.words line) ∧
      let s := ["1/0= sin +(7".toList].foldl type (start ⟨.standard, 8, 16⟩)
      s.calculator.display = "Error+(7".toList ∧
        ∀ cause, s.calculator.outcome ≠ .error (.domain cause) := by
  have hlines : ∀ line ∈ ["1/0= sin +(7".toList], ":scientific".toList ∉ Text.words line := by
    intro line hline
    rw [List.mem_singleton.1 hline]
    decide +kernel
  have hmode : (⟨.standard, 8, 16⟩ : Settings).mode = .standard := rfl
  obtain ⟨htyped, hstates, -⟩ := standard_session hmode hlines
  refine ⟨hlines, by decide +kernel, ?_⟩
  rw [htyped]
  exact (hstates _ (List.prefix_refl _)).2

end Session

end DeskCalculator
